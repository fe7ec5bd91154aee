import Slidewalk.Proofs.Related
import Slidewalk.Proofs.Shore

/-!
# A segment keeps its bucket

`Records` relates a segment to the bucket it stands for. Every operation of a segment keeps it:
an accepted edge goes to the end of the bucket, and a refused edge, sealing and repacking leave the
bucket as it is. Reads of a segment are reads of the bucket.
-/

namespace Slidewalk

/-- The packing is faithful and has an index for every node the limits allow. -/
structure Suits (limits : Limits) (codec : EdgeCodec) : Prop where
  roundTrips : codec.RoundTrips
  addressable : limits.maxNodesPerSegment ≤ codec.maxIndex + 1

namespace Segment

variable {limits : Limits} {codec : EdgeCodec} {bucket : Bucket} {segment : Segment} {edge : Edge}

structure Records (limits : Limits) (codec : EdgeCodec) (bucket : Bucket) (segment : Segment) :
    Prop where
  left : segment.left.Keeps limits codec .left bucket
  right : segment.right.Keeps limits codec .right bucket
  codec : segment.codec = codec
  edgeCapacity : segment.edgeCapacity = limits.segmentEdgeCapacity
  edgeCount : segment.edgeCount = bucket.length
  oldest : segment.oldest = bucket.oldest.getD .maxValue
  newest : segment.newest = bucket.newest.getD .minValue
  leftSealed : segment.left.pool.isSealed = segment.isSealed
  rightSealed : segment.right.pool.isSealed = segment.isSealed

/-! ## Reading -/

namespace Records

theorem shore (h : segment.Records limits codec bucket) (side : Side) :
    (segment.shore side).Keeps limits codec side bucket := by
  cases side with
  | left => exact h.left
  | right => exact h.right

theorem shoreSealed (h : segment.Records limits codec bucket) (side : Side) :
    (segment.shore side).pool.isSealed = segment.isSealed := by
  cases side with
  | left => exact h.leftSealed
  | right => exact h.rightSealed

theorem degree (h : segment.Records limits codec bucket) (node : NodeId) (side : Side) :
    segment.degree node side = bucket.degree node side :=
  (h.shore side).degree node

theorem nodeCount (h : segment.Records limits codec bucket) (side : Side) :
    segment.nodeCount side = (bucket.nodes side).length :=
  (h.shore side).size_index

theorem timeRange (h : segment.Records limits codec bucket) :
    segment.timeRange = bucket.timeRange := by
  rw [Segment.timeRange, Bucket.timeRange_eq, h.edgeCount, h.oldest, h.newest]

theorem neighbor? (h : segment.Records limits codec bucket) {side : Side} {packed : UInt32}
    (hcarries : Carries codec bucket side packed edge) :
    segment.neighbor? side packed = some {
      node := edge.endpoint side.opposite
      kind := edge.kind
      engagedAt := bucket.newest.getD .minValue } := by
  unfold Segment.neighbor? NodeIndex.external
  rw [(h.shore side.opposite).getElem?_ids, h.codec, hcarries.index, hcarries.kind, h.newest]
  rfl

theorem neighbors (h : segment.Records limits codec bucket) (node : NodeId) (side : Side) :
    segment.neighbors node side = bucket.neighbors node side := by
  exact filterMap_eq_map_of_forall₂ (((h.shore side).entries node).imp fun _ _ => h.neighbor?)

end Records

/-! ## Opening -/

def blank (id : Nat) (limits : Limits) (codec : EdgeCodec) (index : NodeIndex) (pool : Pool) :
    Segment where
  id
  codec
  edgeCapacity := limits.segmentEdgeCapacity
  left := ⟨index, pool⟩
  right := ⟨index, pool⟩
  edgeCount := 0
  isSealed := false
  isRepacked := false
  oldest := .maxValue
  newest := .minValue

/-- Both sides of a new segment start from the same index and the same pool. -/
theorem exists_of_create {id : Nat} {options : Options} (h : create id options = .ok segment) :
    ∃ codec index pool, options.resolveCodec = .ok codec ∧
      NodeIndex.create options.limits.initialNodeCapacity options.limits.maxNodesPerSegment =
        .ok index ∧
      createPool options.limits = .ok pool ∧ segment = blank id options.limits codec index pool ∧
      ∀ other, create other options = .ok (blank other options.limits codec index pool) := by
  unfold create at h ⊢
  cases hcodec : options.resolveCodec with
  | error fault => simp [hcodec, bind, Except.bind] at h
  | ok codec =>
    cases hindex : NodeIndex.create options.limits.initialNodeCapacity
        options.limits.maxNodesPerSegment with
    | error fault => simp [hcodec, hindex, bind, Except.bind] at h
    | ok index =>
      cases hpool : createPool options.limits with
      | error fault => simp [hcodec, hindex, hpool, bind, Except.bind] at h
      | ok pool =>
        simp only [hcodec, hindex, hpool, bind, Except.bind, pure, Except.pure,
          Except.ok.injEq] at h
        refine ⟨codec, index, pool, rfl, rfl, rfl, h.symm, fun other => ?_⟩
        simp only [hindex, hpool, bind, Except.bind, pure, Except.pure]
        rfl

theorem create_records {id : Nat} {options : Options} (hcreate : create id options = .ok segment)
    (hcodec : options.resolveCodec = .ok codec) :
    segment.Records options.limits codec [] ∧ segment.isSealed = false ∧ segment.id = id := by
  obtain ⟨found, index, pool, hfound, hindex, hpool, rfl, -⟩ := exists_of_create hcreate
  obtain rfl : codec = found := Except.ok.inj (hcodec.symm.trans hfound)
  obtain ⟨hindexSound, hids, hmax⟩ := NodeIndex.withPlacement_sound hindex
  obtain ⟨hpoolSound, hserves, hnodes, hedges, hopen, hrow⟩ := Pool.createPool_sound hpool
  -- nothing is numbered and no list is written on either side
  have hkeeps (side : Side) : Shore.Keeps options.limits codec side [] ⟨index, pool⟩ := by
    refine ⟨hindexSound, hmax, ?_, hpoolSound, hserves, ?_, fun _ => hedges, ?_⟩
    · show index.ids.toList = []
      rw [hids]
    · show pool.nodeCount ≤ 0
      omega
    · intro number node hnumber
      simp [Bucket.nodes] at hnumber
  exact ⟨⟨hkeeps .left, hkeeps .right, rfl, rfl, rfl, rfl, rfl, hopen, hopen⟩, rfl, rfl⟩

/-! ## Sealing and repacking -/

theorem Records.sealed (h : segment.Records limits codec bucket) :
    segment.sealed.Records limits codec bucket :=
  ⟨h.left.sealed, h.right.sealed, h.codec, h.edgeCapacity, h.edgeCount, h.oldest, h.newest,
    Pool.isSealed_sealed _, Pool.isSealed_sealed _⟩

theorem Records.repack (h : segment.Records limits codec bucket) {repacked : Segment}
    (hrepack : segment.repack = .ok repacked) :
    repacked.Records limits codec bucket ∧ segment.isSealed = true ∧ repacked.isSealed = true ∧
      repacked.id = segment.id := by
  obtain ⟨hsealed, leftPool, rightPool, hleft, hright, rfl⟩ := repack_cases hrepack
  exact ⟨⟨h.left.repack hleft, h.right.repack hright, h.codec, h.edgeCapacity, h.edgeCount,
    h.oldest, h.newest, rfl, rfl⟩, hsealed, rfl, rfl⟩

/-! ## Adding an edge -/

theorem verdict_cases (h : segment.verdict edge = .ok ()) :
    ∃ leftNumber rightNumber, ¬segment.codec.maxKind < edge.kind ∧
      segment.left.prospect segment.codec edge.left = .ok leftNumber ∧
      segment.right.prospect segment.codec edge.right = .ok rightNumber ∧
      segment.left.pool.check leftNumber = .ok () ∧
      segment.right.pool.check rightNumber = .ok () := by
  unfold verdict at h
  split at h
  · simp [throw, bind, Except.bind] at h
  rename_i hkind
  cases hleft : segment.left.prospect segment.codec edge.left with
  | error fault => simp [hleft, bind, Except.bind] at h
  | ok leftNumber =>
    cases hright : segment.right.prospect segment.codec edge.right with
    | error fault => simp [hleft, hright, bind, Except.bind] at h
    | ok rightNumber =>
      cases hcheck : segment.left.pool.check leftNumber with
      | error fault => simp [hleft, hright, hcheck, bind, Except.bind] at h
      | ok _ =>
        simp only [hleft, hright, hcheck, bind, Except.bind] at h
        exact ⟨leftNumber, rightNumber, hkind, rfl, rfl, hcheck, h⟩

theorem verdict_eq_ok_iff : segment.verdict edge = .ok () ↔
    ¬segment.codec.maxKind < edge.kind ∧ ∀ side, ∃ number,
      (segment.shore side).prospect segment.codec (edge.endpoint side) = .ok number ∧
        (segment.shore side).pool.check number = .ok () := by
  constructor
  · intro hverdict
    obtain ⟨leftNumber, rightNumber, hkind, hleft, hright, hleftCheck, hrightCheck⟩ :=
      verdict_cases hverdict
    refine ⟨hkind, fun side => ?_⟩
    cases side with
    | left => exact ⟨leftNumber, hleft, hleftCheck⟩
    | right => exact ⟨rightNumber, hright, hrightCheck⟩
  · rintro ⟨hkind, hsides⟩
    obtain ⟨leftNumber, hleft, hleftCheck⟩ := hsides .left
    obtain ⟨rightNumber, hright, hrightCheck⟩ := hsides .right
    have hleft : segment.left.prospect segment.codec edge.left = .ok leftNumber := hleft
    have hright : segment.right.prospect segment.codec edge.right = .ok rightNumber := hright
    have hleftCheck : segment.left.pool.check leftNumber = .ok () := hleftCheck
    unfold verdict
    rw [if_neg hkind, hleft, hright]
    dsimp only [bind, Except.bind, pure, Except.pure]
    rw [hleftCheck]
    exact hrightCheck

theorem write_eq {leftIndex rightIndex : NodeIndex} {leftNumber rightNumber : Nat}
    {toRight toLeft : UInt32} {leftPool rightPool : Pool}
    (hleft : segment.left.index.intern edge.left = (leftIndex, .ok leftNumber))
    (hright : segment.right.index.intern edge.right = (rightIndex, .ok rightNumber))
    (htoRight : segment.codec.encode rightNumber edge.kind = .ok toRight)
    (htoLeft : segment.codec.encode leftNumber edge.kind = .ok toLeft)
    (hleftAdd : segment.left.pool.add leftNumber toRight = (leftPool, .ok ()))
    (hrightAdd : segment.right.pool.add rightNumber toLeft = (rightPool, .ok ())) :
    segment.write edge = (count { segment.touch edge.time with
      left := ⟨leftIndex, leftPool⟩
      right := ⟨rightIndex, rightPool⟩ }, .ok ()) := by
  unfold write
  simp only [hleft, hright, htoRight, htoLeft]
  unfold link touch
  simp only [hleftAdd, hrightAdd]

theorem Records.count {written : Segment} (hopen : written.isSealed = false)
    (h : Records limits codec bucket { written with edgeCount := written.edgeCount + 1 }) :
    written.count.Records limits codec bucket ∧
      written.count.isSealed = decide (limits.segmentEdgeCapacity ≤ bucket.length) ∧
      written.count.id = written.id := by
  have hcapacity : written.edgeCapacity = limits.segmentEdgeCapacity := h.edgeCapacity
  have hcount : written.edgeCount + 1 = bucket.length := h.edgeCount
  unfold Segment.count
  dsimp only
  split
  · rename_i hfull
    rw [hcapacity, hcount] at hfull
    exact ⟨h.sealed, (decide_eq_true hfull).symm, rfl⟩
  · rename_i hfull
    rw [hcapacity, hcount] at hfull
    exact ⟨h, hopen.trans (decide_eq_false hfull).symm, rfl⟩

/-- The entry for a numbered node at the other end can be packed. -/
theorem exists_packed (hround : codec.RoundTrips) (side : Side) {index : NodeIndex} {number : Nat}
    (hnumbers : Shore.Numbers limits side.opposite bucket edge index number)
    (hnumber : number ≤ codec.maxIndex) (hkind : ¬codec.maxKind < edge.kind) :
    ∃ packed, codec.encode number edge.kind = .ok packed ∧
      Carries codec (bucket ++ [edge]) side packed edge := by
  obtain ⟨packed, hpacked, hindex, hkind⟩ :=
    hround number edge.kind hnumber (UInt8.not_lt.mp hkind)
  exact ⟨packed, hpacked, hindex ▸ hnumbers.number, hkind⟩

/-- The numbers that the nodes of an edge have or would be given can be packed. -/
def Addresses (codec : EdgeCodec) (segment : Segment) (edge : Edge) : Prop :=
  ∀ side number, (segment.shore side).prospect codec (edge.endpoint side) = .ok number →
    number ≤ codec.maxIndex

theorem Records.addresses (h : segment.Records limits codec bucket)
    (haddress : limits.maxNodesPerSegment ≤ codec.maxIndex + 1) (edge : Edge) :
    segment.Addresses codec edge := by
  intro side number hprospect
  obtain ⟨index, -, hnumbers⟩ := (h.shore side).prospect_eq_ok hprospect
  have hlt := hnumbers.lt
  omega

/-- An edge that is not refused is written behind the others. -/
theorem Records.write (h : segment.Records limits codec bucket) (hround : codec.RoundTrips)
    (haddresses : segment.Addresses codec edge) (hopen : segment.isSealed = false)
    (hverdict : segment.verdict edge = .ok ()) :
    ∃ grown, segment.write edge = (grown, .ok ()) ∧
      grown.Records limits codec (bucket ++ [edge]) ∧
      grown.isSealed = decide (limits.segmentEdgeCapacity ≤ bucket.length + 1) ∧
      grown.id = segment.id := by
  obtain ⟨leftNumber, rightNumber, hkind, hleft, hright, hleftCheck, hrightCheck⟩ :=
    verdict_cases hverdict
  rw [h.codec] at hkind hleft hright
  obtain ⟨leftIndex, hleftIntern, hleftNumbers⟩ := h.left.prospect_eq_ok hleft
  obtain ⟨rightIndex, hrightIntern, hrightNumbers⟩ := h.right.prospect_eq_ok hright
  -- the left list gets the number of the right node, and the other way round
  obtain ⟨toRight, htoRight, hleftCarries⟩ :=
    exists_packed hround .left hrightNumbers (haddresses .right rightNumber hright) hkind
  obtain ⟨toLeft, htoLeft, hrightCarries⟩ :=
    exists_packed hround .right hleftNumbers (haddresses .left leftNumber hleft) hkind
  obtain ⟨leftPool, hleftAdd, hleftAppends⟩ :=
    Pool.add_of_check h.left.pool h.left.serves hleftNumbers.lt hleftCheck toRight
  obtain ⟨rightPool, hrightAdd, hrightAppends⟩ :=
    Pool.add_of_check h.right.pool h.right.serves hrightNumbers.lt hrightCheck toLeft
  rw [← h.codec] at htoRight htoLeft
  have hwrite := write_eq hleftIntern hrightIntern htoRight htoLeft hleftAdd hrightAdd
  -- the segment with both entries written, before the edge is counted
  generalize hwritten : { segment.touch edge.time with
    left := ⟨leftIndex, leftPool⟩
    right := ⟨rightIndex, rightPool⟩ } = written at hwrite
  have hcounted : Records limits codec (bucket ++ [edge])
      { written with edgeCount := written.edgeCount + 1 } := by
    subst hwritten
    refine ⟨h.left.append hleftNumbers hleftAppends hleftCarries,
      h.right.append hrightNumbers hrightAppends hrightCarries, h.codec, h.edgeCapacity, ?_, ?_, ?_,
      hleftAppends.isSealed.trans h.leftSealed, hrightAppends.isSealed.trans h.rightSealed⟩
    · show segment.edgeCount + 1 = _
      rw [h.edgeCount, List.length_append, List.length_singleton]
    · show min segment.oldest edge.time = _
      rw [Bucket.oldest_append, h.oldest, Option.getD_some]
    · show max segment.newest edge.time = _
      rw [Bucket.newest_append, h.newest, Option.getD_some]
  have hwrittenOpen : written.isSealed = false := by
    subst hwritten
    exact hopen
  obtain ⟨hrecords, hsealed, hid⟩ := hcounted.count hwrittenOpen
  refine ⟨written.count, hwrite, hrecords, ?_, ?_⟩
  · rw [hsealed, List.length_append, List.length_singleton]
  · rw [hid]
    subst hwritten
    rfl

/-- A segment that is not full refuses an edge and stays as it is, or takes it behind the others. -/
theorem Records.add (h : segment.Records limits codec bucket) (hround : codec.RoundTrips)
    (haddresses : segment.Addresses codec edge) (hopen : segment.isSealed = false)
    (hroom : bucket.length < limits.segmentEdgeCapacity) :
    (∃ fault, segment.add edge = (segment, .error fault)) ∨
    ∃ grown, segment.add edge = (grown, .ok ()) ∧ grown.Records limits codec (bucket ++ [edge]) ∧
      grown.isSealed = decide (limits.segmentEdgeCapacity ≤ bucket.length + 1) ∧
      grown.id = segment.id := by
  unfold Segment.add
  rw [hopen, h.edgeCapacity, h.edgeCount, if_neg (by decide), if_neg (by omega)]
  cases hverdict : segment.verdict edge with
  | error fault => exact .inl ⟨fault, rfl⟩
  | ok _ => exact .inr (h.write hround haddresses hopen hverdict)

/-- Below the edge count that 32 bits hold, whether an edge is refused, and why, is determined by
the bucket. -/
theorem Records.verdict (h : segment.Records limits codec bucket)
    (haddress : limits.maxNodesPerSegment ≤ codec.maxIndex + 1) (hopen : segment.isSealed = false)
    (hroom : bucket.length < limits.segmentEdgeCapacity)
    (hcapacity : limits.segmentEdgeCapacity < UInt32.size) (edge : Edge) :
    segment.verdict edge = bucket.verdict limits codec.maxKind edge := by
  unfold Segment.verdict Bucket.verdict
  rw [h.codec]
  -- the checks come in the same order on both sides: type, left node, right node, degrees
  by_cases hkind : codec.maxKind < edge.kind
  · rw [if_pos hkind, if_pos hkind]
    rfl
  rw [if_neg hkind, if_neg hkind]
  by_cases hleft : bucket.lacksNode limits .left edge
  · have hprospect : segment.left.prospect codec edge.left = _ := h.left.prospect_of_lacksNode hleft
    rw [hprospect, if_pos (.inl hleft)]
    rfl
  obtain ⟨leftNumber, hleftProspect⟩ := h.left.prospect_of_room haddress hleft
  obtain ⟨leftIndex, -, hleftNumbers⟩ := h.left.prospect_eq_ok hleftProspect
  have hleftProspect : segment.left.prospect codec edge.left = .ok leftNumber := hleftProspect
  by_cases hright : bucket.lacksNode limits .right edge
  · have hprospect : segment.right.prospect codec edge.right = _ :=
      h.right.prospect_of_lacksNode hright
    rw [hleftProspect, hprospect, if_pos (.inr hright)]
    rfl
  obtain ⟨rightNumber, hrightProspect⟩ := h.right.prospect_of_room haddress hright
  obtain ⟨rightIndex, -, hrightNumbers⟩ := h.right.prospect_eq_ok hrightProspect
  have hrightProspect : segment.right.prospect codec edge.right = .ok rightNumber := hrightProspect
  -- with 32 bits for the entries a pool refuses an entry for its degree only
  have hleftCheck := h.left.check hleftNumbers (h.leftSealed.trans hopen) hroom hcapacity
  have hrightCheck := h.right.check hrightNumbers (h.rightSealed.trans hopen) hroom hcapacity
  rw [hleftProspect, hrightProspect, if_neg (not_or.mpr ⟨hleft, hright⟩)]
  dsimp only [bind, Except.bind, pure, Except.pure]
  rw [hleftCheck, hrightCheck]
  by_cases hleftFull : bucket.lacksDegree limits .left edge
  · rw [if_pos hleftFull, if_pos (Or.intro_left _ hleftFull)]
  by_cases hrightFull : bucket.lacksDegree limits .right edge
  · rw [if_neg hleftFull, if_pos hrightFull, if_pos (Or.intro_right _ hrightFull)]
  · rw [if_neg hleftFull, if_neg hrightFull, if_neg (not_or.mpr ⟨hleftFull, hrightFull⟩)]

end Segment

end Slidewalk
