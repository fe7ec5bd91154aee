import Slidewalk.Proofs.Following
import Slidewalk.Proofs.Renaming.Storage
import Slidewalk.Proofs.Run
import Slidewalk.Salsa.Recommend

/-!
# Graphs under renamed ids

Two graphs with paired segments list the same versions. Every operation with paired edges keeps them
so and is answered alike, and the views of paired graphs have paired neighbors and equal degrees.
-/

namespace Slidewalk

variable {names : Renaming}

structure Holding.Pairs (names : Renaming) (holding holding' : Holding) : Prop where
  written : holding.written.Pairs names holding'.written
  repacked : Option.Rel (Segment.Pairs names) holding.repacked holding'.repacked

namespace Graph

structure Pairs (names : Renaming) (graph graph' : Graph) : Prop where
  options : graph'.options = graph.options
  window : graph'.window = graph.window
  size : graph'.holdings.size = graph.holdings.size
  holdings : ∀ id : Nat,
    Option.Rel (Holding.Pairs names) graph.holdings[id]? graph'.holdings[id]?

variable {graph graph' : Graph} {version : Version} {edge edge' : Edge}

namespace Pairs

/-! ## Looking at segments -/

theorem segment? (h : graph.Pairs names graph') (version : Version) :
    Option.Rel (Segment.Pairs names) (graph.segment? version) (graph'.segment? version) := by
  have hholding := h.holdings version.segment
  unfold Graph.segment?
  generalize graph.holdings[version.segment]? = holding at hholding
  generalize graph'.holdings[version.segment]? = holding' at hholding
  cases hholding with
  | none => exact .none
  | some hpair =>
    dsimp only
    split
    · exact hpair.repacked
    · exact .some hpair.written

theorem isSealedVersion (h : graph.Pairs names graph') (version : Version) :
    graph'.isSealedVersion version = graph.isSealedVersion version := by
  have hsegment := h.segment? version
  unfold Graph.isSealedVersion
  generalize graph.segment? version = segment at hsegment
  generalize graph'.segment? version = segment' at hsegment
  cases hsegment with
  | none => rfl
  | some hpair => exact hpair.isSealed

theorem isRepackable (h : graph.Pairs names graph') (version : Version) :
    graph'.isRepackable version = graph.isRepackable version := by
  have hsegment := h.segment? version
  unfold Graph.isRepackable
  generalize graph.segment? version = segment at hsegment
  generalize graph'.segment? version = segment' at hsegment
  cases hsegment with
  | none => rfl
  | some hpair =>
    dsimp only
    rw [hpair.isSealed, hpair.isRepacked]

theorem openVersion? (h : graph.Pairs names graph') :
    graph'.openVersion? = graph.openVersion? := by
  unfold Graph.openVersion?
  rw [h.window]
  cases graph.window.getLast? with
  | none => rfl
  | some version =>
    have hsegment := h.segment? version
    dsimp only
    generalize graph.segment? version = segment at hsegment
    generalize graph'.segment? version = segment' at hsegment
    cases hsegment with
    | none => rfl
    | some hpair =>
      dsimp only
      rw [hpair.isSealed]

/-! ## Changing segments -/

theorem recount (h : graph.Pairs names graph') (counters counters' : Counters) :
    Pairs names { graph with counters } { graph' with counters := counters' } :=
  ⟨h.options, h.window, h.size, h.holdings⟩

theorem relist (h : graph.Pairs names graph') (window : List Version) :
    Pairs names { graph with window } { graph' with window } :=
  ⟨h.options, rfl, h.size, h.holdings⟩

theorem modify (h : graph.Pairs names graph') (id : Nat) {change change' : Holding → Holding}
    (hchange : ∀ holding holding', Holding.Pairs names holding holding' →
      Holding.Pairs names (change holding) (change' holding')) :
    Pairs names { graph with holdings := graph.holdings.modify id change }
      { graph' with holdings := graph'.holdings.modify id change' } := by
  refine ⟨h.options, h.window, ?_, fun other => ?_⟩
  · show (graph'.holdings.modify id change').size = (graph.holdings.modify id change).size
    rw [Array.size_modify, Array.size_modify, h.size]
  · show Option.Rel _ (graph.holdings.modify id change)[other]?
      (graph'.holdings.modify id change')[other]?
    rw [Array.getElem?_modify, Array.getElem?_modify]
    have hholding := h.holdings other
    split
    · generalize graph.holdings[other]? = holding at hholding
      generalize graph'.holdings[other]? = holding' at hholding
      cases hholding with
      | none => exact .none
      | some hpair => exact .some (hchange _ _ hpair)
    · exact hholding

theorem modifyWritten (h : graph.Pairs names graph') (id : Nat) {change change' : Segment → Segment}
    (hchange : ∀ segment segment', segment.Pairs names segment' →
      (change segment).Pairs names (change' segment')) :
    (graph.modifyWritten id change).Pairs names (graph'.modifyWritten id change') :=
  h.modify id fun _ _ hpair => ⟨hchange _ _ hpair.written, hpair.repacked⟩

theorem keepRepacked (h : graph.Pairs names graph') (id : Nat) {segment segment' : Segment}
    (hsegment : segment.Pairs names segment') :
    (graph.keepRepacked id segment).Pairs names (graph'.keepRepacked id segment') :=
  h.modify id fun _ _ hpair => ⟨hpair.written, .some hsegment⟩

theorem repackVersion (h : graph.Pairs names graph') (version : Version) :
    Lockstep (Pairs names) (graph.repackVersion version) (graph'.repackVersion version) := by
  have hsegment := h.segment? version
  unfold Graph.repackVersion
  generalize graph.segment? version = segment at hsegment
  generalize graph'.segment? version = segment' at hsegment
  cases hsegment with
  | none => exact ⟨h, rfl⟩
  | some hpair =>
    dsimp only
    rcases hpair.repack with ⟨fault, hfault, hfault'⟩ | ⟨repacked, repacked', hok, hok', hrepacked⟩
    · rw [hfault, hfault']
      exact ⟨h, rfl⟩
    · rw [hok, hok']
      exact ⟨(h.keepRepacked version.segment hrepacked).recount _ _, rfl⟩

theorem onSealed (h : graph.Pairs names graph') (version : Version) :
    (graph.onSealed version).Pairs names (graph'.onSealed version) := by
  have hcounted := h.recount graph.counters.countSealed graph'.counters.countSealed
  have hstep := hcounted.repackVersion version
  unfold Graph.onSealed
  dsimp only
  rw [h.options]
  rw [h.options] at hcounted hstep
  split
  · generalize Graph.repackVersion _ version = step at hstep
    generalize Graph.repackVersion _ version = step' at hstep
    obtain ⟨next, _⟩ := step
    obtain ⟨next', result⟩ := step'
    obtain ⟨hnext, rfl⟩ := hstep
    cases result with
    | error fault => exact hnext
    | ok repacked =>
      -- the window that lists the repacked version is the same one
      have hwindow : next'.window = next.window := hnext.window
      dsimp only
      rw [hwindow]
      exact hnext.relist _
  · exact hcounted

theorem sealCurrent (h : graph.Pairs names graph') :
    Lockstep (Pairs names) graph.sealCurrent graph'.sealCurrent := by
  unfold Graph.sealCurrent
  rw [h.openVersion?]
  cases graph.openVersion? with
  | none => exact ⟨h, rfl⟩
  | some version =>
    have hsegment := h.segment? version
    dsimp only
    generalize graph.segment? version = segment at hsegment
    generalize graph'.segment? version = segment' at hsegment
    cases hsegment with
    | none => exact ⟨h, rfl⟩
    | some hpair =>
      dsimp only
      rw [hpair.edgeCount]
      split
      · exact ⟨h, rfl⟩
      · have hsealed := h.modifyWritten version.segment fun _ _ hsegment => hsegment.sealed
        exact ⟨hsealed.onSealed version, rfl⟩

theorem repackAll (h : graph.Pairs names graph') (versions : List Version) :
    Lockstep (Pairs names) (graph.repackAll versions) (graph'.repackAll versions) := by
  induction versions generalizing graph graph' with
  | nil => exact ⟨h, rfl⟩
  | cons version rest ih =>
    unfold Graph.repackAll
    rw [h.isRepackable]
    split
    · have hstep := h.repackVersion version
      generalize graph.repackVersion version = step at hstep
      generalize graph'.repackVersion version = step' at hstep
      obtain ⟨next, _⟩ := step
      obtain ⟨next', result⟩ := step'
      obtain ⟨hnext, rfl⟩ := hstep
      cases result with
      | error fault => exact ⟨hnext, rfl⟩
      | ok repacked =>
        have hrest := ih hnext
        dsimp only at hrest ⊢
        generalize next.repackAll rest = step at hrest
        generalize next'.repackAll rest = step' at hrest
        obtain ⟨last, _⟩ := step
        obtain ⟨last', result⟩ := step'
        obtain ⟨hlast, rfl⟩ := hrest
        cases result with
        | error fault => exact ⟨hlast, rfl⟩
        | ok answer => exact ⟨hlast, rfl⟩
    · have hrest := ih h
      generalize graph.repackAll rest = step at hrest
      generalize graph'.repackAll rest = step' at hrest
      obtain ⟨last, _⟩ := step
      obtain ⟨last', result⟩ := step'
      obtain ⟨hlast, rfl⟩ := hrest
      cases result with
      | error fault => exact ⟨hlast, rfl⟩
      | ok answer => exact ⟨hlast, rfl⟩

theorem optimizeSealed (h : graph.Pairs names graph') :
    Lockstep (Pairs names) graph.optimizeSealed graph'.optimizeSealed := by
  have hstep := h.repackAll graph.window
  unfold Graph.optimizeSealed
  rw [h.window]
  generalize graph.repackAll graph.window = step at hstep
  generalize graph'.repackAll graph.window = step' at hstep
  obtain ⟨next, _⟩ := step
  obtain ⟨next', result⟩ := step'
  obtain ⟨hnext, rfl⟩ := hstep
  cases result with
  | error fault => exact ⟨hnext, rfl⟩
  | ok answer => exact ⟨hnext.relist _, rfl⟩

/-! ## Adding edges -/

theorem hold (h : graph.Pairs names graph') {segment segment' : Segment}
    (hsegment : segment.Pairs names segment') :
    Pairs names { graph with holdings := graph.holdings.push ⟨segment, none⟩ }
      { graph' with holdings := graph'.holdings.push ⟨segment', none⟩ } := by
  refine ⟨h.options, h.window, ?_, fun id => ?_⟩
  · show (graph'.holdings.push _).size = (graph.holdings.push _).size
    rw [Array.size_push, Array.size_push, h.size]
  · show Option.Rel _ (graph.holdings.push ⟨segment, none⟩)[id]?
      (graph'.holdings.push ⟨segment', none⟩)[id]?
    rw [Array.getElem?_push, Array.getElem?_push, h.size]
    split
    · exact .some ⟨hsegment, .none⟩
    · exact h.holdings id

theorem openSegment (h : graph.Pairs names graph') :
    Lockstep (Pairs names) graph.openSegment graph'.openSegment := by
  unfold Graph.openSegment
  rw [h.options, h.size]
  cases hcreate : Segment.create graph.holdings.size graph.options with
  | error fault => exact ⟨h, rfl⟩
  | ok segment =>
    have hsegment : segment.Pairs names segment := Segment.create_pairs hcreate
    have hheld := h.hold hsegment
    rw [h.options] at hheld
    -- both graphs evict the same versions, as they find the same ones sealed
    have hsealed := funext hheld.isSealedVersion
    dsimp only
    rw [hsealed, h.window]
    rw [h.window] at hheld
    generalize evict _ _ _ = answer
    obtain ⟨count, kept⟩ := answer
    cases kept with
    | none => exact ⟨hheld.recount _ _, rfl⟩
    | some window => exact ⟨(hheld.recount _ _).relist window, rfl⟩

theorem target (h : graph.Pairs names graph') :
    Lockstep (Pairs names) graph.target graph'.target := by
  unfold Graph.target
  rw [h.openVersion?]
  cases graph.openVersion? with
  | none => exact h.openSegment
  | some version => exact ⟨h, rfl⟩

theorem offer (h : graph.Pairs names graph') (id : Nat) (hedge : Edge.Pairs names edge edge') :
    Lockstep (Pairs names) (graph.offer id edge) (graph'.offer id edge') := by
  have hholding := h.holdings id
  rw [offer_eq, offer_eq]
  refine ⟨h.modifyWritten id fun _ _ hsegment => (hsegment.add hedge).1, ?_⟩
  dsimp only
  generalize graph.holdings[id]? = holding at hholding
  generalize graph'.holdings[id]? = holding' at hholding
  cases hholding with
  | none => rfl
  | some hpair => exact (hpair.written.add hedge).2

theorem add (h : graph.Pairs names graph') (hedge : Edge.Pairs names edge edge') :
    Lockstep (Pairs names) (graph.add edge) (graph'.add edge') := by
  have htarget := h.target
  unfold Graph.add
  generalize graph.target = step at htarget
  generalize graph'.target = step' at htarget
  obtain ⟨opened, _⟩ := step
  obtain ⟨opened', target⟩ := step'
  obtain ⟨hopened, rfl⟩ := htarget
  cases target with
  | error fault => exact ⟨hopened, rfl⟩
  | ok version =>
    have hoffered : Lockstep (Pairs names) (opened.offer version.segment edge)
        (opened'.offer version.segment edge') := hopened.offer version.segment hedge
    dsimp only
    generalize opened.offer version.segment edge = step at hoffered
    generalize opened'.offer version.segment edge' = step' at hoffered
    obtain ⟨next, _⟩ := step
    obtain ⟨next', answer⟩ := step'
    obtain ⟨hnext, rfl⟩ := hoffered
    cases answer with
    | error fault => exact ⟨hnext.recount _ _, rfl⟩
    | ok _ =>
      have hcounted := hnext.recount next.counters.countAdded next'.counters.countAdded
      refine ⟨?_, rfl⟩
      dsimp only
      rw [hcounted.isSealedVersion]
      split
      · exact hcounted.onSealed version
      · exact hcounted

end Pairs

/-! ## Runs -/

theorem create_pairs {options : Options} (h : create options = .ok graph) :
    graph.Pairs names graph := by
  obtain ⟨-, rfl⟩ := create_eq h
  exact ⟨rfl, rfl, rfl, fun _ => .none⟩

end Graph

inductive Operation.Pairs (names : Renaming) : Operation → Operation → Prop where
  | add {edge edge' : Edge} (hedge : edge.Pairs names edge') : Pairs names (.add edge) (.add edge')
  | sealCurrent : Pairs names .sealCurrent .sealCurrent
  | optimizeSealed : Pairs names .optimizeSealed .optimizeSealed

namespace Graph.Pairs

variable {graph graph' : Graph} {operation operation' : Operation}
  {operations operations' : List Operation}

theorem perform (h : graph.Pairs names graph') (hoperation : operation.Pairs names operation') :
    Lockstep (Pairs names) (graph.perform operation) (graph'.perform operation') := by
  cases hoperation with
  | add hedge =>
    obtain ⟨hnext, hanswer⟩ := h.add hedge
    exact ⟨hnext, congrArg Answer.added hanswer⟩
  | sealCurrent =>
    obtain ⟨hnext, hanswer⟩ := h.sealCurrent
    exact ⟨hnext, congrArg Answer.sealed hanswer⟩
  | optimizeSealed =>
    obtain ⟨hnext, hanswer⟩ := h.optimizeSealed
    exact ⟨hnext, congrArg Answer.optimized hanswer⟩

theorem run (h : graph.Pairs names graph')
    (hoperations : List.Forall₂ (Operation.Pairs names) operations operations') :
    Lockstep (Pairs names) (graph.run operations) (graph'.run operations') := by
  induction hoperations generalizing graph graph' with
  | nil => exact ⟨h, rfl⟩
  | cons hoperation _ ih =>
    obtain ⟨hnext, hanswer⟩ := h.perform hoperation
    obtain ⟨hlast, hanswers⟩ := ih hnext
    exact ⟨hlast, congrArg₂ List.cons hanswer hanswers⟩

/-! ## Views -/

theorem segments (h : graph.Pairs names graph') :
    List.Forall₂ (Segment.Pairs names) graph.view.segments graph'.view.segments := by
  show List.Forall₂ _ (graph.window.filterMap graph.segment?)
    (graph'.window.filterMap graph'.segment?)
  rw [h.window]
  have hsame := List.forall₂_same.mpr fun version (_ : version ∈ graph.window) => Eq.refl version
  exact List.rel_filterMap (fun version _ heq => heq ▸ h.segment? version) hsame

theorem neighbors (h : graph.Pairs names graph') {side : Side} {node node' : NodeId}
    (hnode : names.Pairs side node node') :
    List.Forall₂ (Neighbor.Pairs names side.opposite) (graph.view.neighbors node side)
      (graph'.view.neighbors node' side) :=
  List.rel_flatMap h.segments fun _ _ hsegment => hsegment.neighbors hnode

theorem degree (h : graph.Pairs names graph') {side : Side} {node node' : NodeId}
    (hnode : names.Pairs side node node') :
    graph'.view.degree node' side = graph.view.degree node side :=
  (total_eq_total_of_forall₂ (h.segments.imp fun _ _ hsegment => (hsegment.degree hnode).symm)).symm

end Graph.Pairs

end Slidewalk
