import Mathlib.Data.List.Permutation
import Slidewalk.Proofs.Balance
import Slidewalk.Proofs.Sample

/-!
# An edge is taken whole or not at all

Taking an edge numbers two nodes and writes into two pools, and each of these steps can fail. The
checks made before the first of them make sure of all of them, so that a refused edge leaves no
trace, and what is read of the segment tells whether they let an edge pass. The limits need not be
validated: the packing may hold fewer indices than the limits allow nodes.
-/

namespace Slidewalk

/-- What is asked of a segment. -/
inductive SegmentCall where
  | add (edge : Edge)
  | close
  | repack

namespace Segment

/-- The segment after a call. A repacked copy takes the place of the segment. -/
def perform (segment : Segment) : SegmentCall → Segment
  | .add edge => (segment.add edge).1
  | .close => segment.sealed
  | .repack =>
      match segment.repack with
      | .ok repacked => repacked
      | .error _ => segment

def run (segment : Segment) : List SegmentCall → Segment
  | [] => segment
  | call :: rest => (segment.perform call).run rest

/-- The edge went to the end of the lists of its two nodes, and nowhere else. -/
structure Gains (segment : Segment) (edge : Edge) (grown : Segment) : Prop where
  links : ∀ node side, (grown.neighbors node side).map (·.link) =
    (segment.neighbors node side).map (·.link) ++
      if edge.endpoint side = node then [(edge.endpoint side.opposite, edge.kind)] else []
  degree : ∀ node side, grown.degree node side =
    segment.degree node side + if edge.endpoint side = node then 1 else 0
  edgeCount : grown.edgeCount = segment.edgeCount + 1

/-- Type, numbering and degree bound leave room for the edge on both sides. A node without edges
needs a number that the limits allow and the packing holds. -/
structure HasRoom (limits : Limits) (segment : Segment) (edge : Edge) : Prop where
  kind : edge.kind ≤ segment.codec.maxKind
  node : ∀ side, 0 < segment.degree (edge.endpoint side) side ∨
    segment.nodeCount side < limits.maxNodesPerSegment ∧
      segment.nodeCount side ≤ segment.codec.maxIndex
  degree : ∀ side, segment.degree (edge.endpoint side) side < limits.maxDegree

/-- The segment stands for the bucket, its parts are in balance, and while it is open it has room
for one more edge. -/
structure Whole (limits : Limits) (codec : EdgeCodec) (bucket : Bucket) (segment : Segment) :
    Prop where
  records : segment.Records limits codec bucket
  balanced : segment.Balanced limits codec
  room : segment.isSealed = false → bucket.length < limits.segmentEdgeCapacity

variable {limits : Limits} {codec : EdgeCodec} {bucket : Bucket} {segment grown : Segment}
  {edge : Edge}

theorem Records.gains (h : segment.Records limits codec bucket)
    (hgrown : grown.Records limits codec (bucket ++ [edge])) : segment.Gains edge grown where
  links := by
    intro node side
    rw [hgrown.neighbors, h.neighbors, Bucket.map_link_neighbors, Bucket.map_link_neighbors,
      Bucket.touching_append]
    split
    · rw [List.map_append, List.map_singleton]
    · rw [List.append_nil]
  degree := by
    intro node side
    rw [hgrown.degree, h.degree, Bucket.degree, Bucket.degree, Bucket.touching_append]
    split
    · rw [List.length_append, List.length_singleton]
    · rfl
  edgeCount := by rw [hgrown.edgeCount, h.edgeCount, List.length_append, List.length_singleton]

/-- A side lets an edge pass if its node has a number or gets one, and is below its degree bound. -/
theorem Records.passes_iff (h : segment.Records limits codec bucket) (edge : Edge)
    (hopen : segment.isSealed = false) (hroom : bucket.length < limits.segmentEdgeCapacity)
    (hcapacity : limits.segmentEdgeCapacity < UInt32.size) (side : Side) :
    (∃ number, (segment.shore side).prospect segment.codec (edge.endpoint side) = .ok number ∧
        (segment.shore side).pool.check number = .ok ()) ↔
      (0 < segment.degree (edge.endpoint side) side ∨
        segment.nodeCount side < limits.maxNodesPerSegment ∧
          segment.nodeCount side ≤ segment.codec.maxIndex) ∧
        segment.degree (edge.endpoint side) side < limits.maxDegree := by
  rw [h.degree, h.nodeCount, h.codec, bucket.degree_pos_iff,
    ← (h.shore side).exists_prospect_iff]
  have hcheck {number : Nat}
      (hprospect : (segment.shore side).prospect codec (edge.endpoint side) = .ok number) :
      (segment.shore side).pool.check number = .ok () ↔
        bucket.degree (edge.endpoint side) side < limits.maxDegree := by
    obtain ⟨index, -, hnumbers⟩ := (h.shore side).prospect_eq_ok hprospect
    exact (h.shore side).check_eq_ok_iff hnumbers ((h.shoreSealed side).trans hopen) hroom hcapacity
  constructor
  · rintro ⟨number, hprospect, hok⟩
    exact ⟨⟨number, hprospect⟩, (hcheck hprospect).mp hok⟩
  · rintro ⟨⟨number, hprospect⟩, hdegree⟩
    exact ⟨number, hprospect, (hcheck hprospect).mpr hdegree⟩

/-- Whether the checks let an edge pass can be told from what is read of the segment. -/
theorem Records.verdict_eq_ok_iff (h : segment.Records limits codec bucket)
    (hopen : segment.isSealed = false) (hroom : bucket.length < limits.segmentEdgeCapacity)
    (hcapacity : limits.segmentEdgeCapacity < UInt32.size) :
    segment.verdict edge = .ok () ↔ segment.HasRoom limits edge := by
  have hside := h.passes_iff edge hopen hroom hcapacity
  rw [Segment.verdict_eq_ok_iff, UInt8.not_lt]
  constructor
  · rintro ⟨hkind, hsides⟩
    exact ⟨hkind, fun side => ((hside side).mp (hsides side)).1,
      fun side => ((hside side).mp (hsides side)).2⟩
  · intro hfits
    exact ⟨hfits.kind, fun side => (hside side).mpr ⟨hfits.node side, hfits.degree side⟩⟩

theorem add_of_sealed (hsealed : segment.isSealed = true) (edge : Edge) :
    segment.add edge = (segment, .error (.sealed (.segment segment.id))) := by
  unfold Segment.add
  rw [if_pos hsealed]

/-! ## Every call -/

theorem create_whole {id : Nat} {options : Options} (hcreate : create id options = .ok segment)
    (hpos : 0 < options.limits.segmentEdgeCapacity) :
    segment.Whole options.limits segment.codec [] := by
  obtain ⟨codec, -, -, hcodec, -⟩ := exists_of_create hcreate
  obtain ⟨hrecords, -⟩ := create_records hcreate hcodec
  obtain rfl := hrecords.codec
  exact ⟨hrecords, create_balanced hcreate hcodec, fun _ => hpos⟩

namespace Whole

theorem add (h : segment.Whole limits codec bucket) (hround : codec.RoundTrips) (edge : Edge) :
    (∃ fault, segment.add edge = (segment, .error fault)) ∨
    ∃ grown, segment.add edge = (grown, .ok ()) ∧ grown.Whole limits codec (bucket ++ [edge]) := by
  cases hopen : segment.isSealed with
  | true => exact .inl ⟨_, add_of_sealed hopen edge⟩
  | false =>
    have haddresses := h.balanced.addresses edge
    obtain hrefused | ⟨grown, hadd, hrecords, hsealed, -⟩ :=
      h.records.add hround haddresses hopen (h.room hopen)
    · exact .inl hrefused
    · have hbalanced := h.balanced.add edge
      rw [hadd] at hbalanced
      refine .inr ⟨grown, hadd, hrecords, hbalanced, fun hopen => ?_⟩
      rw [hsealed, decide_eq_false_iff_not, Nat.not_le] at hopen
      rw [List.length_append, List.length_singleton]
      exact hopen

/-- No step after the checks fails. -/
theorem add_eq_ok_iff (h : segment.Whole limits codec bucket) (hround : codec.RoundTrips)
    (hcapacity : limits.segmentEdgeCapacity < UInt32.size) (edge : Edge) :
    (segment.add edge).2 = .ok () ↔ segment.isSealed = false ∧ segment.HasRoom limits edge := by
  cases hopen : segment.isSealed with
  | true =>
    rw [add_of_sealed hopen]
    exact ⟨fun hok => by contradiction, fun hboth => by simp at hboth⟩
  | false =>
    have hroom := h.room hopen
    rw [← h.records.verdict_eq_ok_iff hopen hroom hcapacity]
    unfold Segment.add
    rw [hopen, h.records.edgeCapacity, h.records.edgeCount, if_neg (by decide),
      if_neg (by omega)]
    cases hverdict : segment.verdict edge with
    | error fault => simp
    | ok _ =>
      obtain ⟨grown, hwrite, -⟩ :=
        h.records.write hround (h.balanced.addresses edge) hopen hverdict
      dsimp only
      rw [hwrite]
      exact ⟨fun _ => ⟨rfl, rfl⟩, fun _ => rfl⟩

theorem sealed (h : segment.Whole limits codec bucket) :
    segment.sealed.Whole limits codec bucket :=
  ⟨h.records.sealed, h.balanced.sealed, fun hopen => by contradiction⟩

theorem repack (h : segment.Whole limits codec bucket) {repacked : Segment}
    (hrepack : segment.repack = .ok repacked) : repacked.Whole limits codec bucket := by
  obtain ⟨hrecords, -, hsealed, -⟩ := h.records.repack hrepack
  refine ⟨hrecords, h.balanced.repack hrepack, fun hopen => ?_⟩
  rw [hsealed] at hopen
  contradiction

theorem perform (h : segment.Whole limits codec bucket) (hround : codec.RoundTrips)
    (call : SegmentCall) : ∃ more, (segment.perform call).Whole limits codec (bucket ++ more) := by
  have hsame : segment.Whole limits codec (bucket ++ []) := by
    rw [List.append_nil]
    exact h
  cases call with
  | add edge =>
    show ∃ more, (segment.add edge).1.Whole limits codec (bucket ++ more)
    obtain ⟨fault, hadd⟩ | ⟨grown, hadd, hgrown⟩ := h.add hround edge
    · rw [hadd]
      exact ⟨[], hsame⟩
    · rw [hadd]
      exact ⟨[edge], hgrown⟩
  | close => exact ⟨[], hsame.sealed⟩
  | repack =>
    unfold Segment.perform
    cases hrepack : segment.repack with
    | error fault => exact ⟨[], hsame⟩
    | ok repacked => exact ⟨[], hsame.repack hrepack⟩

/-- Whatever is asked of a segment, its bucket only grows. -/
theorem run (h : segment.Whole limits codec bucket) (hround : codec.RoundTrips)
    (calls : List SegmentCall) :
    ∃ more, (segment.run calls).Whole limits codec (bucket ++ more) := by
  induction calls generalizing segment bucket with
  | nil =>
    refine ⟨[], ?_⟩
    rw [List.append_nil]
    exact h
  | cons call rest ih =>
    obtain ⟨first, hfirst⟩ := h.perform hround call
    obtain ⟨more, hmore⟩ := ih hfirst
    rw [List.append_assoc] at hmore
    exact ⟨first ++ more, hmore⟩

end Whole

/-! ## After every run -/

/-- After any calls, a refused edge leaves the segment as it was, and an accepted one is seen from
both of its nodes. An edge is accepted by an open segment with room for it, and by no other. -/
theorem edge_whole_or_not_at_all {id : Nat} {options : Options}
    (hcreate : create id options = .ok segment) (hround : segment.codec.RoundTrips)
    (hpos : 0 < options.limits.segmentEdgeCapacity)
    (hcapacity : options.limits.segmentEdgeCapacity < UInt32.size) (calls : List SegmentCall)
    (edge : Edge) :
    (∀ fault, ((segment.run calls).add edge).2 = .error fault →
        ((segment.run calls).add edge).1 = segment.run calls) ∧
      (((segment.run calls).add edge).2 = .ok () →
        (segment.run calls).Gains edge ((segment.run calls).add edge).1) ∧
      (((segment.run calls).add edge).2 = .ok () ↔
        (segment.run calls).isSealed = false ∧
          (segment.run calls).HasRoom options.limits edge) := by
  obtain ⟨bucket, hwhole⟩ := (create_whole hcreate hpos).run hround calls
  have haccepted := hwhole.add_eq_ok_iff hround hcapacity edge
  obtain ⟨fault, hadd⟩ | ⟨grown, hadd, hgrown⟩ := hwhole.add hround edge
  · refine ⟨fun _ _ => ?_, fun hok => ?_, haccepted⟩
    · rw [hadd]
    · rw [hadd] at hok
      contradiction
  · refine ⟨fun _ herror => ?_, fun _ => ?_, haccepted⟩
    · rw [hadd] at herror
      contradiction
    · rw [hadd]
      exact hwhole.records.gains hgrown.records

end Segment

/-! ## More nodes than indices -/

/-- A packing with two indices: the type stands above the lowest bit. -/
def EdgeCodec.tiny : EdgeCodec where
  encode index kind := .ok (UInt32.ofNat (2 * kind.toNat + index))
  index packed := packed.toNat % 2
  kind packed := UInt8.ofNat (packed.toNat / 2)
  maxIndex := 1
  maxKind := 3

theorem EdgeCodec.tiny_roundTrips : tiny.RoundTrips := by
  intro index kind hindex hkind
  have hindex : index ≤ 1 := hindex
  have hkind : kind.toNat < UInt8.size := kind.toNat_lt
  have hpacked : (UInt32.ofNat (2 * kind.toNat + index)).toNat = 2 * kind.toNat + index :=
    UInt32.toNat_ofNat_of_lt (Nat.lt_trans (by omega) (by decide : 2 * UInt8.size < UInt32.size))
  refine ⟨_, rfl, ?_, ?_⟩
  · show (UInt32.ofNat _).toNat % 2 = index
    omega
  · show UInt8.ofNat ((UInt32.ofNat _).toNat / 2) = kind
    rw [hpacked, Nat.mul_add_div (by decide), Nat.div_eq_of_lt (by omega), Nat.add_zero,
      UInt8.ofNat_toNat]

/-- The limits allow three nodes on a side, the packing two. -/
def Options.tiny : Options where
  limits := { (Options.sample .powerLaw false).limits with segmentEdgeCapacity := 4 }
  codec := some .tiny
  counting := true

namespace Segment

def tiny : Segment :=
  blank 0 Options.tiny.limits .tiny ⟨3, .multiplicative, Table.empty 16, #[], 0⟩
    (.powerLaw ⟨⟨3, 4, 2, 0⟩, Array.replicate 2 .empty, ∅, 0, 0, 0, false⟩)

theorem create_tiny : create 0 .tiny = .ok tiny := rfl

def fillTiny : List SegmentCall := [.add ⟨1, 11, 0, 7⟩, .add ⟨2, 12, 1, 8⟩]

/-- A third left node has no index in the packing; another edge of the first one fits. -/
theorem tiny_edge_whole_or_not_at_all :
    ((tiny.run fillTiny).add ⟨3, 11, 0, 9⟩).2 = .error (.encoding .nodeIndex 2 1) ∧
      ((tiny.run fillTiny).add ⟨3, 11, 0, 9⟩).1 = tiny.run fillTiny ∧
      ((tiny.run fillTiny).add ⟨1, 12, 3, 9⟩).2 = .ok () ∧
      (tiny.run fillTiny).Gains ⟨1, 12, 3, 9⟩ ((tiny.run fillTiny).add ⟨1, 12, 3, 9⟩).1 := by
  have hkeeps := edge_whole_or_not_at_all create_tiny EdgeCodec.tiny_roundTrips (by decide)
    (by decide) fillTiny
  have hrefused : ((tiny.run fillTiny).add ⟨3, 11, 0, 9⟩).2 =
      .error (.encoding .nodeIndex 2 1) := by
    cbv
  have haccepted : ((tiny.run fillTiny).add ⟨1, 12, 3, 9⟩).2 = .ok () := by cbv
  exact ⟨hrefused, (hkeeps _).1 _ hrefused, haccepted, (hkeeps _).2.1 haccepted⟩

end Segment

end Slidewalk
