import Slidewalk.Proofs.Maintenance

/-!
# Counters agree with the state

The counters of a graph are bumped where things happen. After every run they say what the run did
and what the window shows: edges taken and refused, segments opened, sealed, evicted and repacked,
and the entries that repacking gave back.
-/

namespace Slidewalk

/-- The edges that were offered: those taken and those refused. -/
def Counters.offered (counters : Counters) : Nat × Nat :=
  (counters.edgesAdded, counters.edgesRejected)

namespace Graph

/-! ## What happens during a run -/

/-- The segments that left the window, as they were listed. -/
def evictedBy (graph next : Graph) : List Segment :=
  graph.view.segments.filter fun segment => decide (segment.id ∉ next.ids)

/-- The segments that were repacked, as they were written. -/
def rebuiltBy (graph next : Graph) : List Segment :=
  (next.holdings.toList.filter fun holding => holding.repacked.isSome &&
    (graph.segment? ⟨holding.written.id, true⟩).isNone).map (·.written)

/-- What can be told of the single steps of a run. -/
def gather (tell : Graph → Graph → List Segment) (graph : Graph) : List Operation → List Segment
  | [] => []
  | operation :: rest =>
      let next := (graph.perform operation).1
      tell graph next ++ next.gather tell rest

/-- Every segment that leaves the window during a run. -/
def evicted (graph : Graph) (operations : List Operation) : List Segment :=
  graph.gather evictedBy operations

/-- Every segment that is repacked during a run, once for each time. -/
def rebuilt (graph : Graph) (operations : List Operation) : List Segment :=
  graph.gather rebuiltBy operations

/-- The segments that have been repacked, as they were written. -/
def copied (graph : Graph) : List Segment :=
  (graph.holdings.toList.filter (·.repacked.isSome)).map (·.written)

/-- The segments in front of the window, as they were listed last. -/
def gone (graph : Graph) : List Segment :=
  (graph.holdings.toList.take (graph.holdings.size - graph.window.length)).map Holding.current

/-- The counters say what a run did to a new graph. -/
structure Reports (graph : Graph) (operations : List Operation) (final : Graph)
    (answers : List Answer) : Prop where
  edgesAdded : final.metrics.edgesAdded = answers.countP (·.takes)
  edgesKept : final.metrics.edgesAdded =
    final.view.stats.edges + total (·.edgeCount) (graph.evicted operations)
  edgesRejected : final.metrics.edgesRejected = answers.countP (·.refuses)
  segmentsOpened : final.metrics.segmentsEvicted + final.view.stats.segments = final.holdings.size
  segmentsEvicted : final.metrics.segmentsEvicted = (graph.evicted operations).length
  segmentsSealed : final.metrics.segmentsSealed = match final.view.segments.getLast? with
    | none => 0
    | some newest => if newest.isSealed then final.holdings.size else final.holdings.size - 1
  segmentsOptimized : final.metrics.segmentsOptimized = (graph.rebuilt operations).length
  optimizedOnce : ((graph.rebuilt operations).map (·.id)).Nodup
  optimized_le_sealed : final.metrics.segmentsOptimized ≤ final.metrics.segmentsSealed
  optimizedKept : final.metrics.segmentsOptimized = final.view.stats.optimizedSegments +
    (graph.evicted operations).countP (·.isRepacked)
  reclaimedEntries : final.metrics.reclaimedEntries =
    total (·.stats.wasted) (graph.rebuilt operations)

variable {options : Options} {codec : EdgeCodec} {byHand : List Nat} {opened evicted : Nat}
  {graph next : Graph} {version : Version}

/-! ## Edges taken and refused -/

/-- Maintenance neither takes nor refuses edges. -/
theorem ignores_offered : Ignores fun graph => graph.counters.offered :=
  ⟨fun _ _ _ _ => rfl, fun _ => rfl, fun _ _ => rfl⟩

theorem offered_target (graph : Graph) :
    graph.target.1.counters.offered = graph.counters.offered := by
  unfold target
  cases graph.openVersion? with
  | some version => rfl
  | none =>
    dsimp only
    unfold openSegment
    cases Segment.create graph.holdings.size graph.options with
    | error fault => rfl
    | ok segment =>
      dsimp only
      split <;> rfl

namespace Orderly

/-- As long as there is a segment for it, an edge is counted as it was answered. -/
theorem offered_add (h : graph.Orderly options byHand) (hopens : options.Opens) (edge : Edge) :
    (graph.add edge).1.counters.offered =
      (graph.counters.edgesAdded + (Answer.added (graph.add edge).2).takes.toNat,
        graph.counters.edgesRejected + (Answer.added (graph.add edge).2).refuses.toNat) := by
  obtain ⟨-, -, next, version, holding, -, -, htarget, -, -⟩ := h.target hopens
  have hcounters := offered_target graph
  rw [htarget] at hcounters
  obtain ⟨hadded, hrejected⟩ := Prod.mk.inj hcounters
  rw [← hadded, ← hrejected]
  have hoffer : (next.offer version.segment edge).1.counters = next.counters := by
    rw [offer_eq]
    rfl
  unfold Graph.add
  rw [htarget]
  dsimp only
  generalize next.offer version.segment edge = answer at hoffer
  obtain ⟨offered, result⟩ := answer
  rw [← hoffer]
  cases result with
  | error fault => rfl
  | ok _ =>
    dsimp only
    split
    · exact ignores_offered.onSealed _ version
    · rfl

theorem offered_perform (h : graph.Orderly options byHand) (hopens : options.Opens)
    (operation : Operation) :
    (graph.perform operation).1.counters.offered =
      (graph.counters.edgesAdded + (graph.perform operation).2.takes.toNat,
        graph.counters.edgesRejected + (graph.perform operation).2.refuses.toNat) := by
  cases operation with
  | add edge => exact h.offered_add hopens edge
  | sealCurrent => exact ignores_offered.sealCurrent (fun _ _ => rfl) graph
  | optimizeSealed => exact ignores_offered.optimizeSealed graph

theorem offered_run (h : graph.Orderly options byHand) (hopens : options.Opens)
    (operations : List Operation) :
    (graph.run operations).1.counters.offered =
      (graph.counters.edgesAdded + (graph.run operations).2.countP (·.takes),
        graph.counters.edgesRejected + (graph.run operations).2.countP (·.refuses)) := by
  induction operations generalizing graph byHand with
  | nil => rfl
  | cons operation rest ih =>
    obtain ⟨_, _, -, -, hmoves⟩ := h.perform hopens operation
    obtain ⟨hadded, hrejected⟩ := Prod.mk.inj (h.offered_perform hopens operation)
    have hrest := ih hmoves.orderly
    rw [hadded, hrejected, Nat.add_assoc, Nat.add_assoc, ← countP_cons_eq,
      ← countP_cons_eq] at hrest
    exact hrest

/-- Segments are evicted from among those that were opened. -/
theorem opened_run (h : graph.Orderly options byHand) (hopens : options.Opens)
    (operations : List Operation)
    (hopened : graph.counters.segmentsEvicted + graph.ids.length = graph.holdings.size) :
    (graph.run operations).1.counters.segmentsEvicted + (graph.run operations).1.ids.length =
      (graph.run operations).1.holdings.size := by
  induction operations generalizing graph byHand with
  | nil => exact hopened
  | cons operation rest ih =>
    obtain ⟨opened, evicted, hevicted, -, hmoves⟩ := h.perform hopens operation
    apply ih hmoves.orderly
    have hlength := congrArg List.length hmoves.ids
    rw [List.length_drop, List.length_append, List.length_range'] at hlength
    rw [hmoves.counted, hmoves.size]
    omega

/-! ## Segments that were repacked -/

theorem map_id_holdings (h : graph.Orderly options byHand) :
    graph.holdings.toList.map (·.written.id) = List.range graph.holdings.size := by
  apply List.ext_getElem
  · rw [List.length_map, List.length_range, Array.length_toList]
  · intro id hid hlt
    rw [List.length_range] at hlt
    rw [List.getElem_map, List.getElem_range, Array.getElem_toList]
    exact (h.holdings id _ (Array.getElem?_eq_getElem hlt)).id_eq

theorem nodup_written (h : graph.Orderly options byHand) (p : Holding → Bool) :
    (((graph.holdings.toList.filter p).map (·.written)).map (·.id)).Nodup := by
  have hsublist := (List.filter_sublist (p := p) (l := graph.holdings.toList)).map
    fun holding => holding.written.id
  rw [h.map_id_holdings] at hsublist
  rw [List.map_map]
  exact hsublist.nodup List.nodup_range

theorem mem_written (h : graph.Orderly options byHand) (p : Holding → Bool) {segment : Segment} :
    segment ∈ (graph.holdings.toList.filter p).map (·.written) ↔
      ∃ holding, graph.holdings[segment.id]? = some holding ∧ p holding = true ∧
        holding.written = segment := by
  constructor
  · intro hmem
    obtain ⟨holding, hholding, rfl⟩ := List.mem_map.mp hmem
    obtain ⟨hin, hp⟩ := List.mem_filter.mp hholding
    obtain ⟨id, hid⟩ := List.mem_iff_getElem?.mp hin
    rw [Array.getElem?_toList] at hid
    exact ⟨holding, (h.holdings id holding hid).id_eq ▸ hid, hp, rfl⟩
  · rintro ⟨holding, hholding, hp, rfl⟩
    rw [← Array.getElem?_toList] at hholding
    exact List.mem_map_of_mem (List.mem_filter.mpr ⟨List.mem_of_getElem? hholding, hp⟩)

/-- A copy is found under its id. -/
theorem segment?_repacked (graph : Graph) (id : Nat) :
    graph.segment? ⟨id, true⟩ = (graph.holdings[id]?).bind (·.repacked) := by
  unfold segment?
  cases graph.holdings[id]? with
  | none => rfl
  | some holding => rfl

/-- A copy is kept, and so is the sealed segment it was made of. -/
theorem kept_of_mem_copied (h : graph.Orderly options byHand) (hevolves : graph.Evolves next)
    {segment : Segment} (hmem : segment ∈ graph.copied) : ∃ copy,
      graph.segment? ⟨segment.id, true⟩ = some copy ∧
      ∃ holding, next.holdings[segment.id]? = some holding ∧ holding.repacked = some copy ∧
        holding.written = segment := by
  obtain ⟨holding, hholding, hrepacked, rfl⟩ := (h.mem_written _).mp hmem
  obtain ⟨copy, hcopy⟩ := Option.isSome_iff_exists.mp hrepacked
  obtain ⟨later, hlater, hwritten, hsame⟩ := hevolves.holdings _ _ hholding
  obtain ⟨hsealed, -⟩ := Segment.repack_outline ((h.holdings _ _ hholding).repacked copy hcopy)
  refine ⟨copy, ?_, later, hlater, hsame copy hcopy, hwritten hsealed⟩
  rw [segment?_repacked, hholding]
  exact hcopy

/-- What is repacked in a step comes on top of what was repacked before. -/
theorem copied_perm (h : graph.Orderly options byHand) {more : List Nat}
    (hnext : next.Orderly options more) (hevolves : graph.Evolves next) :
    next.copied.Perm (graph.copied ++ graph.rebuiltBy next) := by
  -- each id stands for one segment, so it suffices that both sides have the same members
  have hnodup : (graph.copied ++ graph.rebuiltBy next).Nodup := by
    refine List.nodup_append.mpr ⟨(h.nodup_written _).of_map, (hnext.nodup_written _).of_map, ?_⟩
    rintro segment hold other hnew rfl
    obtain ⟨copy, hcopy, -⟩ := h.kept_of_mem_copied hevolves hold
    obtain ⟨holding, hholding, hnone, rfl⟩ := (hnext.mem_written _).mp hnew
    rw [hcopy, Option.isNone_some, Bool.and_false] at hnone
    contradiction
  apply (List.perm_ext_iff_of_nodup (hnext.nodup_written _).of_map hnodup).mpr
  intro segment
  rw [List.mem_append]
  constructor
  · intro hmem
    obtain ⟨holding, hholding, hrepacked, rfl⟩ := (hnext.mem_written _).mp hmem
    cases hbefore : graph.segment? ⟨holding.written.id, true⟩ with
    | none =>
      refine .inr ((hnext.mem_written _).mpr ⟨holding, hholding, ?_, rfl⟩)
      rw [hbefore, hrepacked]
      rfl
    | some copy =>
      rw [segment?_repacked] at hbefore
      obtain ⟨earlier, hearlier, hcopy⟩ := Option.bind_eq_some_iff.mp hbefore
      obtain ⟨hsealed, -⟩ :=
        Segment.repack_outline ((h.holdings _ _ hearlier).repacked copy hcopy)
      obtain ⟨later, hlater, hwritten, -⟩ := hevolves.holdings _ _ hearlier
      obtain rfl := Option.some.inj (hholding.symm.trans hlater)
      refine .inl ((h.mem_written _).mpr ⟨earlier, hearlier, ?_, (hwritten hsealed).symm⟩)
      rw [hcopy]
      rfl
  · rintro (hold | hnew)
    · obtain ⟨copy, -, holding, hholding, hcopy, hwritten⟩ := h.kept_of_mem_copied hevolves hold
      exact (hnext.mem_written _).mpr ⟨holding, hholding, by rw [hcopy]; rfl, hwritten⟩
    · obtain ⟨holding, hholding, hrepacked, rfl⟩ := (hnext.mem_written _).mp hnew
      exact (hnext.mem_written _).mpr
        ⟨holding, hholding, (Bool.and_eq_true_iff.mp hrepacked).1, rfl⟩

theorem copied_run (h : graph.Orderly options byHand) (hopens : options.Opens)
    (operations : List Operation) :
    (graph.run operations).1.copied.Perm (graph.copied ++ graph.rebuilt operations) := by
  induction operations generalizing graph byHand with
  | nil => exact List.Perm.of_eq (List.append_nil _).symm
  | cons operation rest ih =>
    obtain ⟨_, _, -, -, hmoves⟩ := h.perform hopens operation
    refine (ih hmoves.orderly).trans ?_
    have hstep := (h.copied_perm hmoves.orderly hmoves.evolves).append_right
      (Graph.rebuilt (graph.perform operation).1 rest)
    rw [List.append_assoc] at hstep
    exact hstep

end Orderly

/-! ## Segments that left the window -/

namespace Orderly

/-- The ids that are listed before and after a step. -/
theorem exists_ranges (h : graph.Orderly options byHand) {more : List Nat} (hopened : opened ≤ 1)
    (hevicted : evicted ≤ opened) (hmoves : Moves options more opened evicted graph next) :
    ∃ first, first + graph.ids.length = graph.holdings.size ∧
      graph.ids = List.range' first graph.ids.length ∧ evicted ≤ graph.ids.length ∧
      next.ids = List.range' (first + evicted) (graph.ids.length + opened - evicted) := by
  obtain ⟨first, hsize, hids⟩ := h.exists_range'
  have hnextIds : next.ids =
      List.range' (first + evicted) (graph.ids.length + opened - evicted) := by
    rw [hmoves.ids, ← hsize]
    nth_rewrite 1 [hids]
    rw [List.range'_append_1, List.drop_range', Nat.mul_one]
  refine ⟨first, hsize, hids, ?_, hnextIds⟩
  -- what was opened last stays listed, so only old segments leave
  by_contra hmore
  have hne := hmoves.orderly.ids_ne_nil (by rw [hmoves.size]; omega)
  rw [hnextIds, show graph.ids.length + opened - evicted = 0 by omega] at hne
  exact hne rfl

theorem evictedBy_eq (h : graph.Orderly options byHand) {more : List Nat} (hopened : opened ≤ 1)
    (hevicted : evicted ≤ opened) (hmoves : Moves options more opened evicted graph next) :
    graph.evictedBy next = graph.view.segments.take evicted := by
  obtain ⟨first, -, hids, hle, hnextIds⟩ := h.exists_ranges hopened hevicted hmoves
  rw [evictedBy]
  nth_rewrite 1 [← List.take_append_drop evicted graph.view.segments]
  rw [List.filter_append, List.filter_eq_self.mpr, List.filter_eq_nil_iff.mpr, List.append_nil]
  · intro segment hsegment
    have hid := List.mem_map_of_mem (f := (·.id)) hsegment
    rw [List.map_drop, h.map_id, hids, List.drop_range', Nat.mul_one, List.mem_range'_1] at hid
    rw [hnextIds, decide_eq_true_eq, List.mem_range'_1]
    omega
  · intro segment hsegment
    have hid := List.mem_map_of_mem (f := (·.id)) hsegment
    rw [List.map_take, h.map_id, hids, List.take_range'_of_length_ge hle, List.mem_range'_1] at hid
    rw [hnextIds, decide_eq_true_eq, List.mem_range'_1]
    omega

end Orderly

namespace Tidy

/-- The segments in front of the window and those in it are all there are. -/
theorem map_current (h : graph.Tidy options codec byHand) :
    graph.holdings.toList.map Holding.current = graph.gone ++ graph.view.segments := by
  rw [h.segments_eq, gone, ← List.map_append, List.take_append_drop]

/-- A step takes segments away from the front of what is listed, if it takes any. -/
theorem gone_of_moves (h : graph.Tidy options codec byHand) {more : List Nat}
    (hopened : opened ≤ 1) (hevicted : evicted ≤ opened)
    (hmoves : Moves options more opened evicted graph next)
    (huntouched : Untouched next.ids graph next) :
    next.gone = graph.gone ++ graph.evictedBy next := by
  have hlength : graph.ids.length = graph.window.length := List.length_map _
  have hnextLength : next.ids.length = next.window.length := List.length_map _
  obtain ⟨first, hsize, hids, hle, hnextIds⟩ :=
    h.stocked.orderly.exists_ranges hopened hevicted hmoves
  -- the segments in front of the new window are not among those that the step touched
  have hfront : next.holdings.toList.take (first + evicted) =
      graph.holdings.toList.take (first + evicted) := by
    apply List.ext_getElem?
    intro id
    rw [List.getElem?_take, List.getElem?_take]
    split
    · rename_i hlt
      have hid : id ∉ next.ids := by
        rw [hnextIds, List.mem_range'_1]
        omega
      have hfound : graph.holdings[id]? = some graph.holdings[id] :=
        Array.getElem?_eq_getElem (by omega)
      rw [Array.getElem?_toList, Array.getElem?_toList, hfound]
      exact huntouched id _ hid hfound
    · rfl
  have hnextFirst : next.holdings.size - next.window.length = first + evicted := by
    rw [← hnextLength, hnextIds, List.length_range', hmoves.size]
    omega
  have hfirst : graph.holdings.size - graph.window.length = first := by omega
  rw [h.stocked.orderly.evictedBy_eq hopened hevicted hmoves, gone, hnextFirst, hfront,
    List.take_add, List.map_append, gone, h.segments_eq, hfirst, ← List.map_take]

theorem gone_run (h : graph.Tidy options codec byHand) (hopens : options.Opens)
    (hcodec : options.resolveCodec = .ok codec)
    (hcapacity : options.limits.segmentEdgeCapacity < UInt32.size) (operations : List Operation) :
    (graph.run operations).1.gone = graph.gone ++ graph.evicted operations := by
  induction operations generalizing graph byHand with
  | nil => exact (List.append_nil _).symm
  | cons operation rest ih =>
    obtain ⟨opened, evicted, hevicted, hopened, hmoves⟩ :=
      h.stocked.orderly.perform hopens operation
    obtain ⟨hnext, huntouched⟩ := h.perform hopens hcodec hcapacity operation
    have hstep := h.gone_of_moves hopened hevicted hmoves huntouched
    have hrest := ih hnext
    rw [hstep, List.append_assoc] at hrest
    exact hrest

/-! ## Counters -/

/-- A segment is counted alike in both of its versions. -/
theorem outline_current (h : graph.Tidy options codec byHand) {holding : Holding}
    (hmem : holding ∈ graph.holdings.toList) :
    holding.current.edgeCount = holding.written.edgeCount ∧
      holding.current.isSealed = holding.written.isSealed ∧
      holding.current.isRepacked = holding.repacked.isSome ∧
      (holding.repacked.isSome = true → holding.written.isSealed = true) := by
  obtain ⟨id, hid⟩ := List.mem_iff_getElem?.mp hmem
  rw [Array.getElem?_toList] at hid
  have hold := h.stocked.orderly.holdings id holding hid
  unfold Holding.current
  cases hrepacked : holding.repacked with
  | none => exact ⟨rfl, rfl, hold.unpacked, fun hsome => by contradiction⟩
  | some copy =>
    obtain ⟨hsealed, houtline⟩ := Segment.repack_outline (hold.repacked copy hrepacked)
    exact ⟨congrArg Outline.edgeCount houtline, congrArg Outline.isSealed houtline,
      congrArg Outline.isRepacked houtline, fun _ => hsealed⟩

/-- All segments but the newest are sealed. -/
theorem segmentsSealed_eq (h : graph.Tidy options codec byHand) :
    graph.counters.segmentsSealed = match graph.view.segments.getLast? with
      | none => 0
      | some newest =>
          if newest.isSealed then graph.holdings.size else graph.holdings.size - 1 := by
  rw [h.stocked.accounts.sealed, total_toNat]
  by_cases hsize : graph.holdings.size = 0
  · have hnone : graph.holdings.toList = [] := List.length_eq_zero_iff.mp hsize
    rw [h.segments_eq, hnone, List.drop_nil]
    rfl
  have hne : graph.holdings.toList ≠ [] := fun hnone => hsize (List.length_eq_zero_iff.mpr hnone)
  have hwindow : graph.window.length ≠ 0 := by
    intro hnone
    have hlength : graph.ids.length = 0 := (List.length_map _).trans hnone
    exact h.stocked.orderly.ids_ne_nil hsize (List.length_eq_zero_iff.mp hlength)
  have hnewest : graph.view.segments.getLast? =
      some (graph.holdings.toList.getLast hne).current := by
    rw [h.segments_eq, List.getLast?_map, List.getLast?_drop, Array.length_toList,
      if_neg (by omega), List.getLast?_eq_some_getLast hne]
    rfl
  have holder : graph.holdings.toList.dropLast.countP (·.written.isSealed) =
      graph.holdings.toList.dropLast.length := by
    rw [List.countP_eq_length]
    intro holding hmem
    obtain ⟨id, hid⟩ := List.mem_iff_getElem?.mp hmem
    rw [List.getElem?_dropLast, Array.length_toList] at hid
    split at hid
    · rw [Array.getElem?_toList] at hid
      exact h.stocked.orderly.settled id holding hid (by omega)
    · contradiction
  obtain ⟨-, hsealed, -⟩ := h.outline_current (List.getLast_mem hne)
  rw [hnewest]
  dsimp only
  rw [hsealed]
  nth_rewrite 1 [← List.dropLast_append_getLast hne]
  rw [List.countP_append, holder, List.countP_singleton, List.length_dropLast, Array.length_toList]
  split
  · omega
  · rfl

theorem edgesAdded_eq (h : graph.Tidy options codec byHand) :
    graph.counters.edgesAdded =
      graph.view.stats.edges + total (·.edgeCount) graph.gone := by
  have hsplit := congrArg (total (·.edgeCount)) h.map_current
  rw [total_append, total_map, total_congr fun holding hmem => (h.outline_current hmem).1] at hsplit
  rw [h.stocked.accounts.added, hsplit, Nat.add_comm]
  rfl

theorem segmentsOptimized_eq (h : graph.Tidy options codec byHand) :
    graph.counters.segmentsOptimized =
      graph.view.stats.optimizedSegments + graph.gone.countP (·.isRepacked) := by
  have hsplit := congrArg (total (·.isRepacked.toNat)) h.map_current
  rw [total_append, total_map, total_congr fun holding hmem =>
    congrArg Bool.toNat (h.outline_current hmem).2.2.1] at hsplit
  rw [h.stocked.accounts.optimized, hsplit, Nat.add_comm, total_toNat, total_toNat]
  rfl

theorem segmentsOptimized_le (h : graph.Tidy options codec byHand) :
    graph.counters.segmentsOptimized ≤ graph.counters.segmentsSealed := by
  rw [h.stocked.accounts.optimized, h.stocked.accounts.sealed, total_toNat, total_toNat]
  exact List.countP_mono_left fun holding hmem => (h.outline_current hmem).2.2.2

end Tidy

namespace Stocked

theorem segmentsOptimized_eq (h : graph.Stocked options codec byHand) :
    graph.counters.segmentsOptimized = graph.copied.length := by
  rw [h.accounts.optimized, total_toNat, copied, List.length_map, List.countP_eq_length_filter]

theorem reclaimedEntries_eq (h : graph.Stocked options codec byHand) :
    graph.counters.reclaimedEntries = total (·.stats.wasted) graph.copied := by
  rw [h.accounts.reclaimed, copied, total_map, total_filter]
  rfl

end Stocked

/-! ## Every run -/

/-- The counters say what happened to the segments that are there now and that are gone. -/
theorem Tidy.reports {final : Graph} {operations : List Operation} {answers : List Answer}
    (h : final.Tidy options codec byHand) (hcounting : options.counting = true)
    (hadded : final.counters.edgesAdded = answers.countP (·.takes))
    (hrejected : final.counters.edgesRejected = answers.countP (·.refuses))
    (hopened : final.counters.segmentsEvicted + final.ids.length = final.holdings.size)
    (hgone : final.gone = graph.evicted operations)
    (hcopied : final.copied.Perm (graph.rebuilt operations)) :
    graph.Reports operations final answers := by
  have hmetrics : final.metrics = { final.counters with
      indexGrowths := total (·.written.growths) final.holdings.toList
      poolPromotions := total (·.written.promotions) final.holdings.toList } :=
    if_pos (by rw [h.stocked.orderly.options_eq, hcounting])
  have hlisted : final.view.stats.segments = final.ids.length := by
    rw [← h.stocked.orderly.map_id, List.length_map]
    rfl
  have hleft : final.counters.segmentsEvicted = final.gone.length := by
    rw [gone, List.length_map, List.length_take, Array.length_toList]
    have hwindow : final.ids.length = final.window.length := List.length_map _
    omega
  constructor
  case edgesAdded => rw [hmetrics]; exact hadded
  case edgesKept => rw [hmetrics, ← hgone]; exact h.edgesAdded_eq
  case edgesRejected => rw [hmetrics]; exact hrejected
  case segmentsOpened => rw [hmetrics, hlisted]; exact hopened
  case segmentsEvicted => rw [hmetrics, ← hgone]; exact hleft
  case segmentsSealed => rw [hmetrics]; exact h.segmentsSealed_eq
  case segmentsOptimized =>
    rw [hmetrics, ← hcopied.length_eq]
    exact h.stocked.segmentsOptimized_eq
  case optimizedOnce => exact (hcopied.map _).nodup_iff.mp (h.stocked.orderly.nodup_written _)
  case optimized_le_sealed => rw [hmetrics]; exact h.segmentsOptimized_le
  case optimizedKept => rw [hmetrics, ← hgone]; exact h.segmentsOptimized_eq
  case reclaimedEntries =>
    rw [hmetrics, ← total_perm _ hcopied]
    exact h.stocked.reclaimedEntries_eq

/-- After every run the counters of a new graph say what the run did and what the window shows. -/
theorem counters_agree (hcreate : Graph.create options = .ok graph)
    (hcounting : options.counting = true)
    (hsegment : ∃ segment, Segment.create 0 options = .ok segment)
    (hcapacity : options.limits.segmentEdgeCapacity < UInt32.size) (operations : List Operation) :
    graph.Reports operations (graph.run operations).1 (graph.run operations).2 := by
  obtain ⟨hopens, codec, hcodec, hnew⟩ := create_tidy hcreate hsegment
  obtain ⟨-, rfl⟩ := create_eq hcreate
  have horderly := hnew.stocked.orderly
  -- nothing was counted, left the window or was repacked before
  obtain ⟨hadded, hrejected⟩ := Prod.mk.inj (horderly.offered_run hopens operations)
  have hgone := hnew.gone_run hopens hcodec hcapacity operations
  have hcopied := horderly.copied_run hopens operations
  exact (hnew.run hopens hcodec hcapacity operations).reports hcounting
    (hadded.trans (Nat.zero_add _)) (hrejected.trans (Nat.zero_add _))
    (horderly.opened_run hopens operations rfl) hgone hcopied

/-- Two segments are written and repacked, one of them leaves the window, and one edge of a type out
of range is refused. -/
theorem sample_counters_agree :
    (sample .powerLaw true).Reports
      [.add ⟨1, 2, 0, 5⟩, .sealCurrent, .add ⟨1, 3, 1, 4⟩, .add ⟨1, 2, 2, 7⟩, .add ⟨9, 2, 0, 8⟩,
        .add ⟨9, 3, 0, 9⟩, .optimizeSealed]
      ((sample .powerLaw true).run
        [.add ⟨1, 2, 0, 5⟩, .sealCurrent, .add ⟨1, 3, 1, 4⟩, .add ⟨1, 2, 2, 7⟩, .add ⟨9, 2, 0, 8⟩,
          .add ⟨9, 3, 0, 9⟩, .optimizeSealed]).1
      ((sample .powerLaw true).run
        [.add ⟨1, 2, 0, 5⟩, .sealCurrent, .add ⟨1, 3, 1, 4⟩, .add ⟨1, 2, 2, 7⟩, .add ⟨9, 2, 0, 8⟩,
          .add ⟨9, 3, 0, 9⟩, .optimizeSealed]).2 :=
  counters_agree (create_sample .powerLaw true) rfl (Segment.create_sample .powerLaw true)
    (by decide) _

end Graph

end Slidewalk
