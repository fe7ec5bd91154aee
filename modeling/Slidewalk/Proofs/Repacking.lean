import Slidewalk.Proofs.Window

/-!
# Repacking leaves the ledger as it is

Whether a sealed segment is repacked at once, later, or never, and whether repacking all of them
succeeds or stops half way, the graph follows the ledger it followed before.
-/

namespace Slidewalk.Graph

variable {options : Options} {codec : EdgeCodec} {ledger : Ledger} {graph next last : Graph}
  {version : Version}

/-- The second graph is the first with some segments repacked. -/
structure Rearranges (options : Options) (codec : EdgeCodec) (ledger : Ledger)
    (graph next : Graph) : Prop where
  follows : next.Follows options codec ledger
  window : next.window = graph.window
  keeps : ∀ version, graph.Keeps version → next.Keeps version

theorem Rearranges.refl (h : graph.Follows options codec ledger) :
    Rearranges options codec ledger graph graph :=
  ⟨h, rfl, fun _ hkeeps => hkeeps⟩

theorem Rearranges.trans (h : Rearranges options codec ledger graph next)
    (h' : Rearranges options codec ledger next last) :
    Rearranges options codec ledger graph last :=
  ⟨h'.follows, h'.window.trans h.window, fun version hkeeps =>
    h'.keeps version (h.keeps version hkeeps)⟩

theorem repackVersion_spec (h : graph.Follows options codec ledger) (hkeeps : graph.Keeps version)
    (hlt : version.segment < ledger.buckets.length) :
    Rearranges options codec ledger graph (graph.repackVersion version).1 ∧
      ∀ repacked, (graph.repackVersion version).2 = .ok repacked →
        repacked.segment = version.segment ∧ (graph.repackVersion version).1.Keeps repacked := by
  have hbucket := List.getElem?_eq_getElem hlt
  obtain ⟨segment, hsegment, hshows⟩ := h.segment?_eq hkeeps hbucket
  cases hrepack : segment.repack with
  | error fault =>
    have hanswer : graph.repackVersion version = (graph, .error fault) := by
      simp only [repackVersion, hsegment, hrepack]
    rw [hanswer]
    exact ⟨.refl h, fun repacked hok => by simp at hok⟩
  | ok repacked =>
    have hanswer : graph.repackVersion version =
        ({ graph.keepRepacked version.segment repacked with
          counters := graph.counters.countOptimized segment.stats.wasted },
        .ok { version with repacked := true }) := by
      simp only [repackVersion, hsegment, hrepack]
      rfl
    rw [hanswer]
    obtain ⟨hrecords, hsealed, hrepacked, hid⟩ := hshows.records.repack hrepack
    have hkept : repacked.Shows options.limits codec ledger
        (ledger.buckets[version.segment], version.segment) :=
      ⟨hrecords, hid.trans hshows.id_eq, hrepacked.trans (hsealed.symm.trans hshows.isSealed_eq)⟩
    have hfollows := h.keepRepacked hbucket hkept hrepacked
    refine ⟨⟨hfollows.recount _, rfl, fun other hother => keeps_keepRepacked hother _ _⟩, ?_⟩
    intro listed hlisted
    obtain rfl := Except.ok.inj hlisted
    refine ⟨rfl, fun _ => ?_⟩
    obtain ⟨holding, hholding⟩ := h.exists_holding hlt
    refine ⟨{ holding with repacked := some repacked }, repacked, ?_, rfl⟩
    show (graph.holdings.modify version.segment _)[version.segment]? = _
    rw [Array.getElem?_modify, if_pos rfl, hholding]
    rfl

/-- Listed versions of the same segments, all of which can be read. -/
structure Relists (graph : Graph) (versions listed : List Version) : Prop where
  segments : listed.map (·.segment) = versions.map (·.segment)
  keeps : ∀ version ∈ listed, graph.Keeps version

theorem Relists.cons {rest listed : List Version} {repacked : Version}
    (h : graph.Relists rest listed) (hsegment : repacked.segment = version.segment)
    (hkeeps : graph.Keeps repacked) : graph.Relists (version :: rest) (repacked :: listed) := by
  constructor
  case segments => rw [List.map_cons, List.map_cons, h.segments, hsegment]
  case keeps =>
    intro other hother
    rcases List.mem_cons.mp hother with rfl | hother
    · exact hkeeps
    · exact h.keeps other hother

theorem Relists.replace {versions : List Version} {repacked : Version}
    (h : ∀ old ∈ versions, graph.Keeps old) (hsegment : repacked.segment = version.segment)
    (hkeeps : graph.Keeps repacked) :
    graph.Relists versions (versions.map fun old => if old = version then repacked else old) := by
  constructor
  case segments =>
    rw [List.map_map]
    apply List.map_congr_left
    intro old _
    show (if old = version then repacked else old).segment = old.segment
    split
    · rename_i hsame
      rw [hsame, hsegment]
    · rfl
  case keeps =>
    intro listed hlisted
    obtain ⟨old, hold, rfl⟩ := List.mem_map.mp hlisted
    split
    · exact hkeeps
    · exact h old hold

/-- What repacking one segment does to a graph, as a relation that can be followed by another of its
kind. A graph that is related to itself can be repacked at the versions that can be read. -/
structure RepacksStepwise (related : Graph → Graph → Prop) (readable : Graph → Version → Prop) :
    Prop where
  after : ∀ {graph next}, related graph next → related next next
  trans : ∀ {graph next last}, related graph next → related next last → related graph last
  keeps : ∀ {graph version}, readable graph version → graph.Keeps version
  remains : ∀ {graph next version}, related graph next → readable graph version →
    readable next version
  repackVersion : ∀ {graph version}, related graph graph → readable graph version →
    graph.isRepackable version = true → related graph (graph.repackVersion version).1 ∧
      ∀ repacked, (graph.repackVersion version).2 = .ok repacked →
        repacked.segment = version.segment ∧ readable (graph.repackVersion version).1 repacked

theorem RepacksStepwise.repackAll {related : Graph → Graph → Prop}
    {readable : Graph → Version → Prop} (h : RepacksStepwise related readable)
    (hgraph : related graph graph) (versions : List Version)
    (hversions : ∀ version ∈ versions, readable graph version) :
    related graph (graph.repackAll versions).1 ∧
      ∀ listed count, (graph.repackAll versions).2 = .ok (listed, count) →
        (graph.repackAll versions).1.Relists versions listed := by
  induction versions generalizing graph with
  | nil =>
    refine ⟨hgraph, fun listed count hlisted => ?_⟩
    obtain ⟨rfl, -⟩ := Prod.mk.inj (Except.ok.inj hlisted)
    exact ⟨rfl, fun version hversion => by contradiction⟩
  | cons version rest ih =>
    have hfirst := hversions version List.mem_cons_self
    have hrest : ∀ other ∈ rest, readable graph other :=
      fun other hother => hversions other (List.mem_cons_of_mem _ hother)
    unfold Graph.repackAll
    by_cases hrepackable : graph.isRepackable version = true
    · rw [if_pos hrepackable]
      have hspec := h.repackVersion hgraph hfirst hrepackable
      generalize graph.repackVersion version = answer at hspec
      obtain ⟨next, result⟩ := answer
      obtain ⟨hnext, hlisted⟩ := hspec
      cases result with
      | error fault => exact ⟨hnext, fun listed count hok => by contradiction⟩
      | ok repacked =>
        obtain ⟨hsegment, hrepacked⟩ := hlisted repacked rfl
        have hspec := ih (h.after hnext) fun other hother => h.remains hnext (hrest other hother)
        dsimp only
        generalize next.repackAll rest = answer at hspec
        obtain ⟨last, result⟩ := answer
        obtain ⟨hlast, hall⟩ := hspec
        have hboth := h.trans hnext hlast
        cases result with
        -- what was repacked before a fault stays repacked
        | error fault => exact ⟨hboth, fun listed count hok => by contradiction⟩
        | ok answer =>
          refine ⟨hboth, fun listed count hok => ?_⟩
          obtain ⟨rfl, -⟩ := Prod.mk.inj (Except.ok.inj hok)
          exact (hall answer.1 answer.2 rfl).cons hsegment (h.keeps (h.remains hlast hrepacked))
    · rw [if_neg hrepackable]
      have hspec := ih hgraph hrest
      generalize graph.repackAll rest = answer at hspec
      obtain ⟨last, result⟩ := answer
      obtain ⟨hlast, hall⟩ := hspec
      cases result with
      | error fault => exact ⟨hlast, fun listed count hok => by contradiction⟩
      | ok answer =>
        refine ⟨hlast, fun listed count hok => ?_⟩
        obtain ⟨rfl, -⟩ := Prod.mk.inj (Except.ok.inj hok)
        exact (hall answer.1 answer.2 rfl).cons rfl (h.keeps (h.remains hlast hfirst))

/-- Repacking keeps what the ledger says, for as long as the ledger has the segments. -/
theorem rearranges_stepwise (options : Options) (codec : EdgeCodec) (ledger : Ledger) :
    RepacksStepwise (Rearranges options codec ledger) fun graph version =>
      graph.Keeps version ∧ version.segment < ledger.buckets.length where
  after h := .refl h.follows
  trans := .trans
  keeps h := h.1
  remains h hreadable := ⟨h.keeps _ hreadable.1, hreadable.2⟩
  repackVersion h hreadable _ := by
    obtain ⟨hnext, hlisted⟩ := repackVersion_spec h.follows hreadable.1 hreadable.2
    refine ⟨hnext, fun repacked hok => ?_⟩
    obtain ⟨hsegment, hkeeps⟩ := hlisted repacked hok
    exact ⟨hsegment, hkeeps, hsegment.symm ▸ hreadable.2⟩

namespace Follows

theorem optimizeSealed (h : graph.Follows options codec ledger) :
    graph.optimizeSealed.1.Follows options codec ledger := by
  have hspec := (rearranges_stepwise options codec ledger).repackAll (.refl h) graph.window
    fun version hversion => ⟨h.listed version hversion, h.segment_lt hversion⟩
  unfold Graph.optimizeSealed
  generalize graph.repackAll graph.window = answer at hspec
  obtain ⟨next, result⟩ := answer
  obtain ⟨hnext, hlisted⟩ := hspec
  cases result with
  | error fault => exact hnext.follows
  | ok answer =>
    have hall := hlisted answer.1 answer.2 rfl
    apply hnext.follows.relist _ hall.keeps
    rw [hall.segments, hnext.window]

theorem onSealed (h : graph.Follows options codec ledger) (hversion : version ∈ graph.window) :
    (graph.onSealed version).Follows options codec ledger := by
  have hcounted := h.recount graph.counters.countSealed
  have hspec := repackVersion_spec hcounted (hcounted.listed version hversion)
    (hcounted.segment_lt hversion)
  unfold Graph.onSealed
  dsimp only
  split
  · generalize repackVersion _ version = answer at hspec
    obtain ⟨next, result⟩ := answer
    obtain ⟨hnext, hlisted⟩ := hspec
    cases result with
    | error fault => exact hnext.follows
    | ok repacked =>
      obtain ⟨hsegment, hkeeps⟩ := hlisted repacked rfl
      have hall := Relists.replace hnext.follows.listed hsegment hkeeps
      exact hnext.follows.relist hall.segments hall.keeps
  · exact hcounted

end Follows

end Slidewalk.Graph
