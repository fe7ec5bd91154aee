import Slidewalk.Proofs.Following
import Slidewalk.Proofs.Moving
import Slidewalk.Proofs.Related
import Slidewalk.Proofs.Sample

/-!
# The window invariant

After every run the window lists at most as many segments as it may, with consecutive ids, and all
but the newest are sealed and filled. So there is always a segment for the next edge, and the window
slides by at most one segment at a time.
-/

namespace Slidewalk

theorem BitMask.isLocal_of_encode {mask : BitMask} {number : Nat} {kind : EdgeType}
    {fault : Fault} (h : mask.encode number kind = .error fault) : fault.isLocal = true := by
  unfold encode at h
  grind [Fault.isLocal]

/-- The usual packing is a bit mask. -/
theorem Options.exists_mask_of_usual {options : Options} (husual : options.codec = none)
    {codec : EdgeCodec} (hcodec : options.resolveCodec = .ok codec) :
    ∃ mask : BitMask, mask.typeBits = options.limits.edgeTypeBits ∧ codec = mask.toCodec := by
  unfold resolveCodec at hcodec
  rw [husual] at hcodec
  dsimp only at hcodec
  unfold BitMask.ofWidth at hcodec
  split at hcodec
  · exact ⟨_, rfl, (Except.ok.inj hcodec).symm⟩
  · contradiction

/-- Whatever holds of bit masks holds of the packing in use, unless the options bring one of their
own. -/
theorem Options.of_resolveCodec {options : Options} {codec : EdgeCodec} {P : EdgeCodec → Prop}
    (hmask : ∀ mask : BitMask, P mask.toCodec) (hown : ∀ own, options.codec = some own → P own)
    (hcodec : options.resolveCodec = .ok codec) : P codec := by
  cases hchoice : options.codec with
  | none =>
    obtain ⟨mask, -, rfl⟩ := exists_mask_of_usual hchoice hcodec
    exact hmask mask
  | some own =>
    unfold resolveCodec at hcodec
    rw [hchoice] at hcodec
    obtain rfl := Except.ok.inj hcodec
    exact hown own hchoice

namespace Graph

/-- A window in order, but for the segments that were closed by hand. -/
structure InOrder (options : Options) (byHand : List Nat) (graph : Graph) : Prop where
  length_le : graph.view.segments.length ≤ options.limits.maxSegments
  listed : graph.view.segments.map (·.id) = graph.window.map (·.segment)
  ids : ∃ first, first + graph.view.segments.length = graph.holdings.size ∧
    graph.view.segments.map (·.id) = List.range' first graph.view.segments.length
  older : ∀ segment ∈ graph.view.segments.dropLast,
    segment.isSealed = true ∧ 0 < segment.edgeCount
  repacked : ∀ segment ∈ graph.view.segments,
    segment.isRepacked = true → segment.isSealed = true
  edgeCount_le : ∀ segment ∈ graph.view.segments,
    segment.edgeCount ≤ options.limits.segmentEdgeCapacity
  room : ∀ segment ∈ graph.view.segments, segment.isSealed = false →
    segment.edgeCount < options.limits.segmentEdgeCapacity
  full : ∀ segment ∈ graph.view.segments, segment.isSealed = true → segment.id ∉ byHand →
    segment.edgeCount = options.limits.segmentEdgeCapacity

/-- The window slid by at most one segment: opened at its end, evicted in front. -/
structure Slides (graph next : Graph) (opened evicted : Nat) : Prop where
  opened_le : opened ≤ 1
  evicted_le : evicted ≤ opened
  ids : next.view.segments.map (·.id) =
    (graph.view.segments.map (·.id) ++ List.range' graph.holdings.size opened).drop evicted
  counted : next.counters.segmentsEvicted = graph.counters.segmentsEvicted + evicted

/-- There is a segment for the next edge, and none is refused for want of order. -/
structure Admits (options : Options) (graph : Graph) (edge : Edge) : Prop where
  target : ∃ next version segment, graph.target = (next, .ok version) ∧
    next.segment? version = some segment ∧ segment.isSealed = false ∧
    segment.edgeCount < segment.edgeCapacity
  fault : ∀ fault, (graph.add edge).2 = .error fault → fault.breaksOrder = true →
    ∃ codec number, options.resolveCodec = .ok codec ∧
      codec.encode number edge.kind = .error fault
  usual : options.codec = none →
    ∀ fault, (graph.add edge).2 = .error fault → fault.breaksOrder = false

variable {options : Options} {byHand : List Nat} {opened evicted : Nat} {graph next : Graph}
  {fault : Fault} {edge : Edge}

namespace Orderly

/-- With the usual packing an edge is refused for a reason that a part of a segment has. -/
theorem isLocal_of_add (h : graph.Orderly options byHand) (hopens : options.Opens)
    (husual : options.codec = none) (hrefused : (graph.add edge).2 = .error fault) :
    fault.isLocal = true := by
  obtain ⟨-, -, -, -, -, hfault⟩ := h.add hopens edge
  by_contra hlocal
  obtain ⟨codec, number, hcodec, hencode⟩ :=
    hfault fault hrefused (Bool.not_eq_true _ ▸ hlocal)
  obtain ⟨mask, -, rfl⟩ := Options.exists_mask_of_usual husual hcodec
  exact hlocal (BitMask.isLocal_of_encode hencode)

theorem map_id (h : graph.Orderly options byHand) :
    graph.view.segments.map (·.id) = graph.ids := by
  have hshown : List.Forall₂ (fun version listed => ∃ segment,
      graph.segment? version = some segment ∧ segment.id = listed.segment)
      graph.window graph.window := by
    rw [List.forall₂_same]
    intro version hversion
    obtain ⟨segment, -, hsegment, -, hid, -⟩ :=
      h.segment?_spec (h.listed version hversion) (h.segment_lt hversion)
    exact ⟨segment, hsegment, hid⟩
  exact map_eq_map_of_forall₂ (forall₂_filterMap hshown)

theorem lawful_of_mem (h : graph.Orderly options byHand) {segment : Segment}
    (hsegment : segment ∈ graph.view.segments) :
    segment.outline.Lawful options byHand ∧
      (segment.isRepacked = true → segment.isSealed = true) ∧
      (segment.id + 1 < graph.holdings.size → segment.isSealed = true) := by
  obtain ⟨version, hversion, hfound⟩ := List.mem_filterMap.mp hsegment
  obtain ⟨found, holding, hsame, hholding, hid, hlawful, hseal, -, hcopy⟩ :=
    h.segment?_spec (h.listed version hversion) (h.segment_lt hversion)
  obtain rfl := Option.some.inj (hfound.symm.trans hsame)
  refine ⟨hlawful, hcopy, fun holder => ?_⟩
  rw [hid] at holder
  exact hseal.trans (h.settled _ _ hholding holder)

theorem exists_range' (h : graph.Orderly options byHand) :
    ∃ first, first + graph.ids.length = graph.holdings.size ∧
      graph.ids = List.range' first graph.ids.length := by
  obtain ⟨front, hfront⟩ := h.ids
  have hlength := congrArg List.length hfront
  rw [List.length_append, List.length_range] at hlength
  refine ⟨front.length, hlength, ?_⟩
  have hids : (List.range graph.holdings.size).drop front.length = graph.ids := by
    rw [← hfront, List.drop_left]
  rw [← hids, List.range_eq_range', List.drop_range', List.length_range']
  congr 1
  omega

theorem lt_of_mem_dropLast (h : graph.Orderly options byHand) {id : Nat}
    (hid : id ∈ graph.ids.dropLast) : id + 1 < graph.holdings.size := by
  obtain ⟨front, hfront⟩ := h.ids
  have hne : graph.ids ≠ [] := fun hnil => by simp [hnil] at hid
  have holder : id ∈ (List.range graph.holdings.size).dropLast := by
    rw [← hfront, List.dropLast_append_of_ne_nil hne]
    exact List.mem_append_right _ hid
  rw [List.dropLast_eq_take, List.length_range, List.take_range, List.mem_range] at holder
  omega

theorem inOrder (h : graph.Orderly options byHand) : graph.InOrder options byHand := by
  have hmap := h.map_id
  have hlength : graph.view.segments.length = graph.ids.length := by
    rw [← hmap, List.length_map]
  obtain ⟨first, hsize, hrange⟩ := h.exists_range'
  constructor
  case length_le =>
    rw [hlength, Graph.ids, List.length_map]
    exact h.length_le
  case listed => exact hmap
  case ids => exact ⟨first, hlength ▸ hsize, hlength ▸ hmap.trans hrange⟩
  case older =>
    intro segment hsegment
    -- an id in front of the last one is not the newest
    have hid : segment.id ∈ graph.ids.dropLast := by
      rw [← hmap, ← List.map_dropLast]
      exact List.mem_map_of_mem hsegment
    obtain ⟨hlawful, -, holder⟩ := h.lawful_of_mem (List.dropLast_subset _ hsegment)
    have hsealed := holder (h.lt_of_mem_dropLast hid)
    exact ⟨hsealed, hlawful.filled hsealed⟩
  case repacked => exact fun segment hsegment => (h.lawful_of_mem hsegment).2.1
  case edgeCount_le => exact fun segment hsegment => (h.lawful_of_mem hsegment).1.edgeCount_le
  case room => exact fun segment hsegment => (h.lawful_of_mem hsegment).1.room
  case full => exact fun segment hsegment => (h.lawful_of_mem hsegment).1.full

theorem admits (h : graph.Orderly options byHand) (hopens : options.Opens) (edge : Edge) :
    graph.Admits options edge := by
  obtain ⟨-, -, -, -, -, hfault⟩ := h.add hopens edge
  constructor
  case target =>
    obtain ⟨_, _, next, version, holding, -, -, htarget, hmoves, hreceives⟩ := h.target hopens
    have hlawful := (hmoves.orderly.holdings _ _ hreceives.found).lawful
    exact ⟨next, version, holding.written, htarget, hreceives.segment?_eq, hreceives.isOpen,
      hlawful.lt_capacity hreceives.isOpen⟩
  case fault =>
    exact fun fault hrefused horder =>
      hfault fault hrefused (Fault.not_isLocal_of_breaksOrder horder)
  case usual =>
    intro husual fault hrefused
    by_contra horder
    have hlocal := h.isLocal_of_add hopens husual hrefused
    rw [Fault.not_isLocal_of_breaksOrder (Bool.not_eq_false _ ▸ horder)] at hlocal
    contradiction

end Orderly

theorem create_orderly (hcreate : Graph.create options = .ok graph)
    (hsegment : ∃ segment, Segment.create 0 options = .ok segment) :
    options.Opens ∧ graph.Orderly options [] := by
  obtain ⟨hvalid, rfl⟩ := create_eq hcreate
  obtain ⟨segment, hsegment⟩ := hsegment
  obtain ⟨codec, -, -, hcodec, -⟩ := Segment.exists_of_create hsegment
  obtain ⟨hcapacity, hsegments, -⟩ := Options.validate_ok hvalid hcodec
  refine ⟨⟨hcapacity, hsegments, fun id => ⟨_, Segment.create_of_create hsegment⟩⟩, rfl,
    fun id holding hholding => ?_, fun id holding hholding => ?_, Nat.zero_le _,
    List.suffix_refl _, fun hsize => absurd rfl hsize, fun version hversion => ?_⟩
  · simp at hholding
  · simp at hholding
  · contradiction

/-- Whatever was added, sealed and repacked, the window is in order, the next edge finds a segment
that takes it, and the next operation slides the window by at most one segment. -/
theorem window_stays_in_order (hcreate : Graph.create options = .ok graph)
    (hsegment : ∃ segment, Segment.create 0 options = .ok segment) (operations : List Operation) :
    (graph.run operations).1.InOrder options (graph.closedByHand operations) ∧
      (∀ edge, (graph.run operations).1.Admits options edge) ∧
      ∀ operation, ∃ opened evicted,
        (graph.run operations).1.Slides ((graph.run operations).1.perform operation).1
          opened evicted := by
  obtain ⟨hopens, horderly⟩ := create_orderly hcreate hsegment
  obtain ⟨hfinal, -⟩ := horderly.run hopens operations
  refine ⟨hfinal.inOrder, fun edge => hfinal.admits hopens edge, fun operation => ?_⟩
  obtain ⟨opened, evicted, hevicted, hopened, hmoves⟩ := hfinal.perform hopens operation
  refine ⟨opened, evicted, hopened, hevicted, ?_, hmoves.counted⟩
  rw [hmoves.orderly.map_id, hfinal.map_id]
  exact hmoves.ids

/-- Two segments fill the sample's window; the first was closed by hand. -/
theorem sample_stays_in_order :
    ((sample .powerLaw true).run
        [.add ⟨1, 2, 0, 5⟩, .sealCurrent, .add ⟨1, 3, 1, 4⟩, .add ⟨1, 2, 2, 7⟩, .add ⟨9, 2, 0, 8⟩,
          .optimizeSealed]).1.InOrder (.sample .powerLaw true)
      ((sample .powerLaw true).closedByHand
        [.add ⟨1, 2, 0, 5⟩, .sealCurrent, .add ⟨1, 3, 1, 4⟩, .add ⟨1, 2, 2, 7⟩, .add ⟨9, 2, 0, 8⟩,
          .optimizeSealed]) :=
  (window_stays_in_order (create_sample .powerLaw true) (Segment.create_sample .powerLaw true) _).1

end Graph

end Slidewalk
