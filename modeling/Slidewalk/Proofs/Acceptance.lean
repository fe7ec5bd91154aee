import Slidewalk.Proofs.Reading
import Slidewalk.Proofs.WindowInvariant

/-!
# An edge is taken within the bounds

The segment that an edge is offered to is the newest one if it takes edges, and a new one otherwise.
What becomes of the edge there can be told from what is read of that segment: its type has to fit
the bits for types, its nodes have to be known or to fit, and their degrees have to be below the
bound. No pool, index or seal refuses an edge for a reason of its own.
-/

namespace Slidewalk

/-- The largest type that the bits for it hold. -/
def Limits.maxEdgeType (limits : Limits) : Nat := Nat.pow 2 limits.edgeTypeBits - 1

theorem BitMask.toNat_maxKind_of_typeBits {mask : BitMask} {limits : Limits}
    (h : mask.typeBits = limits.edgeTypeBits) : mask.maxKind.toNat = limits.maxEdgeType := by
  rw [mask.toNat_maxKind, typeSize, h, Limits.maxEdgeType]

namespace Segment

/-- Whether the node of an edge is unknown where no other node fits. -/
def LacksNode (limits : Limits) (segment : Segment) (side : Side) (edge : Edge) : Prop :=
  (segment.shore side).index.lookup (edge.endpoint side) = none ∧
    limits.maxNodesPerSegment ≤ segment.nodeCount side

/-- Whether the node of an edge has as many edges as it may. -/
def LacksDegree (limits : Limits) (segment : Segment) (side : Side) (edge : Edge) : Prop :=
  limits.maxDegree ≤ segment.degree (edge.endpoint side) side

instance (limits : Limits) (segment : Segment) (side : Side) (edge : Edge) :
    Decidable (segment.LacksNode limits side edge) :=
  inferInstanceAs (Decidable (_ ∧ _))

instance (limits : Limits) (segment : Segment) (side : Side) (edge : Edge) :
    Decidable (segment.LacksDegree limits side edge) :=
  inferInstanceAs (Decidable (_ ≤ _))

/-- What the bounds say of an edge: the type first, then the nodes, then their degrees. -/
def boundsVerdict (limits : Limits) (segment : Segment) (edge : Edge) : Except Fault Unit :=
  if limits.maxEdgeType < edge.kind.toNat then
    .error (.encoding .edgeType edge.kind.toNat limits.maxEdgeType)
  else if segment.LacksNode limits .left edge ∨ segment.LacksNode limits .right edge then
    .error (.capacity .nodes limits.maxNodesPerSegment)
  else if segment.LacksDegree limits .left edge ∨ segment.LacksDegree limits .right edge then
    .error (.capacity .degree limits.maxDegree)
  else .ok ()

variable {limits : Limits} {codec : EdgeCodec} {bucket : Bucket} {segment : Segment}

theorem Records.lacksNode_iff (h : segment.Records limits codec bucket) (side : Side)
    (edge : Edge) : segment.LacksNode limits side edge ↔ bucket.lacksNode limits side edge := by
  unfold LacksNode Bucket.lacksNode
  rw [NodeIndex.lookup_eq_none_iff (h.shore side).index, (h.shore side).mem_ids, h.nodeCount]

theorem Records.lacksDegree_iff (h : segment.Records limits codec bucket) (side : Side)
    (edge : Edge) :
    segment.LacksDegree limits side edge ↔ bucket.lacksDegree limits side edge := by
  unfold LacksDegree Bucket.lacksDegree
  rw [h.degree]

theorem Records.boundsVerdict_eq (h : segment.Records limits codec bucket)
    (hkind : codec.maxKind.toNat = limits.maxEdgeType) (edge : Edge) :
    segment.boundsVerdict limits edge = bucket.verdict limits codec.maxKind edge := by
  unfold boundsVerdict Bucket.verdict
  rw [← hkind]
  simp only [h.lacksNode_iff, h.lacksDegree_iff, UInt8.lt_iff_toNat_lt]

end Segment

namespace Graph

/-- The segment that the next edge is offered to: the newest of the window, or a new one if that
takes no more edges. -/
def receiving (graph : Graph) : Except Fault Segment :=
  match graph.view.segments.getLast? with
  | none => Segment.create graph.holdings.size graph.options
  | some segment =>
      if segment.isSealed then Segment.create graph.holdings.size graph.options else .ok segment

variable {options : Options} {codec : EdgeCodec} {ledger : Ledger} {graph : Graph}

namespace Follows

/-- The newest segment shows the newest bucket. -/
theorem exists_newest (h : graph.Follows options codec ledger) (hwindow : ledger.window ≠ []) :
    ∃ segment, graph.view.segments.getLast? = some segment ∧
      segment.Records options.limits codec ledger.newest ∧
      segment.isSealed = !ledger.isOpen := by
  obtain ⟨version, hlast, hmem, hid⟩ := h.exists_last hwindow
  have hbucket := Ledger.getElem?_buckets_last hwindow
  rw [← hid] at hbucket
  obtain ⟨segment, hfound, hshows⟩ := h.segment?_eq (h.listed version hmem) hbucket
  refine ⟨segment, ?_, hshows.records, ?_⟩
  · obtain ⟨older, hwindow⟩ := List.getLast?_eq_some_iff.mp hlast
    show (graph.window.filterMap graph.segment?).getLast? = some segment
    rw [hwindow, List.filterMap_append, List.filterMap_cons, hfound, List.filterMap_nil,
      List.getLast?_concat]
  · have hsealed := hshows.isSealed_eq
    dsimp only at hsealed
    rw [hid, Ledger.isSealed_last hwindow] at hsealed
    exact hsealed

/-- The segment that the next edge is offered to stands for the bucket that it is put into. -/
theorem receiving (h : graph.Follows options codec ledger) (hworks : options.Works codec) :
    ∃ segment, graph.receiving = .ok segment ∧
      segment.Records options.limits codec (ledger.opened options.limits).newest := by
  obtain ⟨opened, hcreate⟩ := hworks.creates graph.holdings.size
  have hrecords := (Segment.create_records hcreate hworks.resolves).1
  unfold Graph.receiving
  rw [h.options_eq]
  cases hopen : ledger.isOpen with
  | true =>
    obtain ⟨segment, hlast, hnewest, hsealed⟩ := h.exists_newest (h.valid.open_ne_nil hopen)
    rw [hopen, Bool.not_true] at hsealed
    rw [hlast, Ledger.opened_of_open hopen]
    dsimp only
    rw [hsealed]
    exact ⟨segment, rfl, hnewest⟩
  | false =>
    -- the bucket that is opened is empty, as a new segment is
    have hfresh : (ledger.opened options.limits).newest = [] := by
      rw [Ledger.newest, Ledger.window_opened_eq hopen hworks.segments_pos, List.getLastD_concat]
    rw [hfresh]
    by_cases hwindow : ledger.window = []
    · have hnone : graph.view.segments = [] := by
        have hlength := h.records.length_eq
        rw [hwindow, List.length_nil] at hlength
        exact List.eq_nil_of_length_eq_zero hlength
      rw [hnone]
      exact ⟨opened, hcreate, hrecords⟩
    · obtain ⟨segment, hlast, -, hsealed⟩ := h.exists_newest hwindow
      rw [hopen, Bool.not_false] at hsealed
      rw [hlast]
      dsimp only
      rw [hsealed]
      exact ⟨opened, hcreate, hrecords⟩

end Follows

/-- With the usual packing and an edge capacity of 32 bits, after every run the next edge is taken
exactly if it is within the bounds, and otherwise refused for the first one that it exceeds. -/
theorem taken_exactly_within_bounds (hcreate : Graph.create options = .ok graph)
    (husual : options.codec = none)
    (hsegment : ∃ segment, Segment.create 0 options = .ok segment)
    (hcapacity : options.limits.segmentEdgeCapacity < UInt32.size)
    (operations : List Operation) (edge : Edge) :
    ∃ segment, (graph.run operations).1.receiving = .ok segment ∧
      ((graph.run operations).1.add edge).2 = segment.boundsVerdict options.limits edge := by
  obtain ⟨codec, hcodec, -⟩ := Options.validate_iff.mp (create_eq hcreate).1
  obtain ⟨mask, hbits, rfl⟩ := Options.exists_mask_of_usual husual hcodec
  obtain ⟨hworks, hfollows⟩ := create_follows hcreate hcodec mask.toCodec_roundTrips hsegment
  obtain ⟨final, hfinal, -⟩ := hfollows.run hworks operations
  obtain ⟨segment, hreceiving, hrecords⟩ := hfinal.receiving hworks
  have hkind := BitMask.toNat_maxKind_of_typeBits hbits
  refine ⟨segment, hreceiving, ?_⟩
  rw [hrecords.boundsVerdict_eq hkind]
  exact (hfinal.add_eq hworks hcapacity edge).2

end Graph

/-! ## A graph with narrow bounds -/

def Options.narrow : Options :=
  .ofLimits { (Options.sample .powerLaw false).limits with
    segmentEdgeCapacity := 8
    maxNodesPerSegment := 2 }

def Graph.narrow : Graph where
  options := .narrow
  holdings := #[]
  window := []
  counters := .zero

namespace Graph

theorem create_narrow : create .narrow = .ok narrow := rfl

/-- As many left nodes as there may be, and as many edges of one of them. -/
def fillNarrow : List Operation := [.add ⟨1, 10, 0, 1⟩, .add ⟨1, 11, 1, 2⟩, .add ⟨2, 10, 0, 3⟩]

/-- A third node does not fit, whatever the degrees. -/
theorem narrow_taken_exactly_within_bounds :
    ((narrow.run fillNarrow).1.add ⟨1, 12, 0, 4⟩).2 = .error (.capacity .nodes 2) ∧
      ∃ segment, (narrow.run fillNarrow).1.receiving = .ok segment ∧
        segment.boundsVerdict Options.narrow.limits ⟨1, 12, 0, 4⟩ =
          .error (.capacity .nodes 2) := by
  obtain ⟨hworks, hfollows⟩ := create_follows create_narrow
    (show Options.narrow.resolveCodec = .ok BitMask.sample.toCodec from rfl)
    BitMask.sample.toCodec_roundTrips ⟨_, rfl⟩
  obtain ⟨hrun, -⟩ := hfollows.run_eq hworks (by decide) fillNarrow
  have hrefused : ((narrow.run fillNarrow).1.add ⟨1, 12, 0, 4⟩).2 = .error (.capacity .nodes 2) :=
    (hrun.add_eq hworks (by decide) ⟨1, 12, 0, 4⟩).2.trans rfl
  obtain ⟨segment, hreceiving, hverdict⟩ :=
    taken_exactly_within_bounds create_narrow rfl ⟨_, rfl⟩ (by decide) fillNarrow ⟨1, 12, 0, 4⟩
  exact ⟨hrefused, segment, hreceiving, hverdict.symm.trans hrefused⟩

end Graph

end Slidewalk
