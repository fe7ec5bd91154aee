import Slidewalk.Proofs.Tidiness

/-!
# What sealing and repacking leave alone

Maintenance seals segments, keeps repacked copies, counts both and lists the copies. A reading of a
graph that ignores each of these is not changed by any maintenance, and maintenance of a graph that
was just maintained does nothing.
-/

namespace Slidewalk.Graph

/-- A reading of a graph that shows neither the copies that are kept nor which of them are listed,
and none of the events that repacking and sealing count. -/
structure Ignores {α : Type} (read : Graph → α) : Prop where
  kept : ∀ graph id copy wasted, read { graph.keepRepacked id copy with
    counters := graph.counters.countOptimized wasted } = read graph
  counted : ∀ graph, read { graph with counters := graph.counters.countSealed } = read graph
  relisted : ∀ graph window, read { graph with window } = read graph

/-- The segments as they were written. -/
def written (graph : Graph) : List Segment := graph.holdings.toList.map (·.written)

variable {options : Options} {codec : EdgeCodec} {byHand : List Nat} {graph : Graph}

namespace Ignores

variable {α : Type} {read : Graph → α} (h : Ignores read)

include h

theorem map {β : Type} (f : α → β) : Ignores fun graph => f (read graph) :=
  ⟨fun graph id copy wasted => congrArg f (h.kept graph id copy wasted),
    fun graph => congrArg f (h.counted graph),
    fun graph window => congrArg f (h.relisted graph window)⟩

theorem repackVersion (graph : Graph) (version : Version) :
    read (graph.repackVersion version).1 = read graph := by
  unfold Graph.repackVersion
  cases graph.segment? version with
  | none => rfl
  | some segment =>
    dsimp only
    cases segment.repack with
    | error fault => rfl
    | ok copy => exact h.kept graph version.segment copy segment.stats.wasted

theorem onSealed (graph : Graph) (version : Version) :
    read (graph.onSealed version) = read graph := by
  have hcounted := h.counted graph
  have hrepack := h.repackVersion { graph with counters := graph.counters.countSealed } version
  unfold Graph.onSealed
  dsimp only
  split
  · generalize Graph.repackVersion _ version = answer at hrepack
    obtain ⟨next, result⟩ := answer
    cases result with
    | error fault => exact hrepack.trans hcounted
    | ok listed => exact (h.relisted next _).trans (hrepack.trans hcounted)
  · exact hcounted

theorem sealCurrent
    (hsealed : ∀ (graph : Graph) id, read (graph.modifyWritten id (·.sealed)) = read graph)
    (graph : Graph) : read graph.sealCurrent.1 = read graph := by
  unfold Graph.sealCurrent
  cases graph.openVersion? with
  | none => rfl
  | some version =>
    dsimp only
    cases graph.segment? version with
    | none => rfl
    | some segment =>
      dsimp only
      split
      · rfl
      · exact (h.onSealed _ version).trans (hsealed graph version.segment)

theorem repackAll (versions : List Version) (graph : Graph) :
    read (graph.repackAll versions).1 = read graph := by
  induction versions generalizing graph with
  | nil => rfl
  | cons version rest ih =>
    have hrepack := h.repackVersion graph version
    have hsame := ih graph
    unfold Graph.repackAll
    split
    · generalize graph.repackVersion version = answer at hrepack
      obtain ⟨next, result⟩ := answer
      cases result with
      | error fault => exact hrepack
      | ok copied =>
        have hrest := (ih next).trans hrepack
        dsimp only
        generalize next.repackAll rest = answer at hrest
        obtain ⟨last, result⟩ := answer
        cases result <;> exact hrest
    · generalize graph.repackAll rest = answer at hsame
      obtain ⟨last, result⟩ := answer
      cases result <;> exact hsame

theorem optimizeSealed (graph : Graph) : read graph.optimizeSealed.1 = read graph := by
  have hrepack := h.repackAll graph.window graph
  unfold Graph.optimizeSealed
  generalize graph.repackAll graph.window = answer at hrepack
  obtain ⟨next, result⟩ := answer
  cases result with
  | error fault => exact hrepack
  | ok listed => exact (h.relisted next listed.1).trans hrepack

end Ignores

/-! ## Segments as they were written -/

/-- What a change does not show in is read as before. -/
theorem map_modify_of_same {α β : Type} {read : α → β} {change : α → α}
    (hsame : ∀ item, read (change item) = read item) (items : Array α) (place : Nat) :
    (items.modify place change).toList.map read = items.toList.map read := by
  apply List.ext_getElem?
  intro other
  rw [List.getElem?_map, List.getElem?_map, Array.toList_modify, List.getElem?_modify]
  split
  · cases items.toList[other]? with
    | none => rfl
    | some item => exact congrArg some (hsame item)
  · cases items.toList[other]? <;> rfl

theorem ignores_written : Ignores written := by
  refine ⟨fun graph id copy wasted => ?_, fun graph => rfl, fun graph window => rfl⟩
  apply map_modify_of_same
  intro holding
  rfl

theorem map_written_modifyWritten {α : Type} {read : Segment → α} {change : Segment → Segment}
    (hsame : ∀ segment, read (change segment) = read segment) (graph : Graph) (id : Nat) :
    (graph.modifyWritten id change).written.map read = graph.written.map read := by
  unfold written
  rw [List.map_map, List.map_map]
  exact map_modify_of_same (fun holding => hsame holding.written) graph.holdings id

/-! ## Nothing left to do -/

theorem repackAll_of_none_repackable {versions : List Version}
    (hnone : ∀ version ∈ versions, graph.isRepackable version = false) :
    graph.repackAll versions = (graph, .ok (versions, 0)) := by
  induction versions with
  | nil => rfl
  | cons version rest ih =>
    unfold repackAll
    rw [if_neg (by simp [hnone version List.mem_cons_self]),
      ih fun other hother => hnone other (List.mem_cons_of_mem _ hother)]

theorem optimizeSealed_of_none_repackable
    (hnone : ∀ version ∈ graph.window, graph.isRepackable version = false) :
    graph.optimizeSealed = (graph, .ok 0) := by
  unfold optimizeSealed
  rw [repackAll_of_none_repackable hnone]

/-- Where there is nothing left to repack, nothing happens. -/
theorem Tidy.optimizeSealed_of_settled (h : graph.Tidy options codec byHand)
    (hsettled : ∀ version ∈ graph.window, graph.Settled version) :
    graph.optimizeSealed = (graph, .ok 0) := by
  refine optimizeSealed_of_none_repackable fun version hversion => ?_
  have hfound := Array.getElem?_eq_getElem (h.stocked.orderly.segment_lt hversion)
  rw [h.stocked.isRepackable_eq (h.latest version hversion) hfound,
    hsettled version hversion _ hfound, Bool.and_not_self]

/-! ## Nothing left to seal -/

/-- Every segment that takes edges is still without one. -/
def Drained (graph : Graph) : Prop :=
  ∀ segment ∈ graph.written, segment.isSealed = false → segment.edgeCount = 0

theorem Drained.of_found (h : ∀ (id : Nat) (holding : Holding), graph.holdings[id]? = some holding →
    holding.written.isSealed = false → holding.written.edgeCount = 0) : graph.Drained := by
  intro segment hmem hopen
  obtain ⟨holding, hholding, rfl⟩ := List.mem_map.mp hmem
  obtain ⟨id, hid⟩ := List.mem_iff_getElem?.mp hholding
  rw [Array.getElem?_toList] at hid
  exact h id holding hid hopen

theorem Orderly.drained_sealCurrent (h : graph.Orderly options byHand) :
    graph.sealCurrent.1.Drained := by
  unfold Graph.sealCurrent
  cases hversion : graph.openVersion? with
  | none =>
    refine .of_found fun id holding hfound hopen => ?_
    rw [h.sealed_of_openVersion? hversion hfound] at hopen
    contradiction
  | some version =>
    obtain ⟨holding, hreceives⟩ := h.receives hversion
    have hnewest := hreceives.newest
    have hothers {id : Nat} {found : Holding} (hfound : graph.holdings[id]? = some found)
        (hne : version.segment ≠ id) : found.written.isSealed = true := by
      have hlt := (Array.getElem?_eq_some_iff.mp hfound).1
      exact h.settled id found hfound (by omega)
    dsimp only
    rw [hreceives.segment?_eq]
    dsimp only
    split
    · rename_i hempty
      refine .of_found fun id found hfound hopen => ?_
      by_cases hsame : version.segment = id
      · subst hsame
        obtain rfl := Option.some.inj (hreceives.found.symm.trans hfound)
        exact hempty
      · rw [hothers hfound hsame] at hopen
        contradiction
    · unfold Drained
      rw [ignores_written.onSealed]
      refine Drained.of_found fun id found hfound hopen => ?_
      by_cases hsame : version.segment = id
      · subst hsame
        obtain rfl := Option.some.inj ((hreceives.getElem?_modifyWritten _).symm.trans hfound)
        contradiction
      · change (graph.holdings.modify version.segment _)[id]? = some found at hfound
        rw [Array.getElem?_modify, if_neg hsame] at hfound
        rw [hothers hfound hsame] at hopen
        contradiction

theorem Drained.optimizeSealed (h : graph.Drained) : graph.optimizeSealed.1.Drained := by
  unfold Drained
  rw [ignores_written.optimizeSealed]
  exact h

end Slidewalk.Graph
