import Slidewalk.Proofs.Pool.Occupancy
import Slidewalk.Proofs.Segment

/-!
# Segments in balance

The index, the two pools and the counter of a segment are kept apart. Whatever the packing of
entries does, every operation keeps them in balance: each pool counts the edges that the segment
counts, its lists belong to numbered nodes, and what a repacked copy sets aside is what it holds.
-/

namespace Slidewalk

/-- Every index and every type within the declared bounds can be packed. -/
def EdgeCodec.Packs (codec : EdgeCodec) : Prop :=
  ∀ index kind, index ≤ codec.maxIndex → kind ≤ codec.maxKind →
    ∃ packed, codec.encode index kind = .ok packed

theorem EdgeCodec.RoundTrips.packs {codec : EdgeCodec} (h : codec.RoundTrips) : codec.Packs := by
  intro index kind hindex hkind
  obtain ⟨packed, hpacked, -⟩ := h index kind hindex hkind
  exact ⟨packed, hpacked⟩

theorem EdgeCodec.not_packs_of_error {codec : EdgeCodec} {index : Nat} {kind : EdgeType}
    {fault : Fault} (hindex : index ≤ codec.maxIndex) (hkind : kind ≤ codec.maxKind)
    (hencode : codec.encode index kind = .error fault) : ¬codec.Packs := by
  intro hpacks
  obtain ⟨packed, hpacked⟩ := hpacks index kind hindex hkind
  rw [hencode] at hpacked
  contradiction

/-! ## One side -/

namespace Shore

variable {limits : Limits} {codec : EdgeCodec} {edges number : Nat} {shore : Shore}
  {node : NodeId} {index : NodeIndex} {pool grown : Pool} {entry : UInt32}

structure Balanced (limits : Limits) (codec : EdgeCodec) (edges : Nat) (shore : Shore) : Prop where
  index : shore.index.Sound
  maxNodes : shore.index.maxNodes = limits.maxNodesPerSegment
  addressed : shore.index.size ≤ codec.maxIndex + 1
  pool : shore.pool.Tallied limits
  edgeCount : shore.pool.edgeCount = edges
  numbered : shore.pool.nodeCount ≤ shore.index.size
  -- a node is numbered in vain only if its entry cannot be packed
  filled : codec.Packs → shore.pool.nodeCount = shore.index.size

/-- What the index is once a node has its number. -/
structure Admits (limits : Limits) (codec : EdgeCodec) (shore : Shore) (index : NodeIndex)
    (number : Nat) : Prop where
  sound : index.Sound
  maxNodes : index.maxNodes = limits.maxNodesPerSegment
  size : index.size = max shore.index.size (number + 1)
  number_le : number ≤ codec.maxIndex

theorem Admits.lt (h : Admits limits codec shore index number) :
    number < limits.maxNodesPerSegment := by
  have hfits : index.size ≤ index.maxNodes := h.sound.size_le
  have hsize := h.size
  have hmax := h.maxNodes
  omega

namespace Balanced

theorem admits (h : shore.Balanced limits codec edges)
    (hprospect : shore.prospect codec node = .ok number) :
    ∃ index, shore.index.intern node = (index, .ok number) ∧
      Admits limits codec shore index number := by
  have haddressed := h.addressed
  obtain hknown | ⟨hunknown, rfl, hroom, haddress⟩ := prospect_cases h.index hprospect
  · have hlt : number < shore.index.size := (Array.getElem?_eq_some_iff.mp hknown).1
    exact ⟨shore.index, NodeIndex.intern_of_known h.index hknown, h.index, h.maxNodes, by omega,
      by omega⟩
  · obtain ⟨index, hintern, hsound, hids, hmax⟩ := NodeIndex.intern_of_new h.index hunknown hroom
    have hsize : index.size = shore.index.size + 1 := by
      unfold NodeIndex.size
      rw [hids, Array.size_push]
    exact ⟨index, hintern, hsound, hmax.trans h.maxNodes, by omega, haddress⟩

/-- A node that was numbered in vain. -/
theorem withIndex (h : shore.Balanced limits codec edges)
    (hadmits : Admits limits codec shore index number) (hpacks : ¬codec.Packs) :
    Shore.Balanced limits codec edges ⟨index, shore.pool⟩ := by
  have hsize := hadmits.size
  have hle := hadmits.number_le
  have haddressed := h.addressed
  have hnumbered := h.numbered
  refine ⟨hadmits.sound, hadmits.maxNodes, ?_, h.pool, h.edgeCount, ?_, fun hpacked =>
    absurd hpacked hpacks⟩
  · show index.size ≤ _
    omega
  · show shore.pool.nodeCount ≤ index.size
    omega

theorem append (h : shore.Balanced limits codec edges)
    (hadmits : Admits limits codec shore index number) (htallied : grown.Tallied limits)
    (happends : Pool.Appends limits shore.pool grown number entry) :
    Shore.Balanced limits codec (edges + 1) ⟨index, grown⟩ := by
  have hsize := hadmits.size
  have hle := hadmits.number_le
  have haddressed := h.addressed
  have hnumbered := h.numbered
  have hnodes := happends.nodeCount
  refine ⟨hadmits.sound, hadmits.maxNodes, ?_, htallied, ?_, ?_, fun hpacks => ?_⟩
  · show index.size ≤ _
    omega
  · rw [happends.edgeCount, h.edgeCount]
  · show grown.nodeCount ≤ index.size
    omega
  · show grown.nodeCount = index.size
    rw [hnodes, hsize, h.filled hpacks]

/-- Another pool with the same counts. -/
theorem withPool (h : shore.Balanced limits codec edges) (htallied : pool.Tallied limits)
    (hedges : pool.edgeCount = shore.pool.edgeCount)
    (hnodes : pool.nodeCount = shore.pool.nodeCount) :
    Shore.Balanced limits codec edges ⟨shore.index, pool⟩ := by
  refine ⟨h.index, h.maxNodes, h.addressed, htallied, hedges.trans h.edgeCount, ?_, fun hpacks =>
    hnodes.trans (h.filled hpacks)⟩
  show pool.nodeCount ≤ _
  rw [hnodes]
  exact h.numbered

theorem sealed (h : shore.Balanced limits codec edges) :
    Shore.Balanced limits codec edges ⟨shore.index, shore.pool.sealed⟩ :=
  h.withPool h.pool.sealed (Pool.edgeCount_sealed _) (Pool.nodeCount_sealed _)

theorem repack (h : shore.Balanced limits codec edges) {repacked : ExactFitPool}
    (hrepack : shore.pool.repack = .ok repacked) :
    Shore.Balanced limits codec edges ⟨shore.index, .exactFit repacked⟩ := by
  have hnodes : shore.pool.nodeCount < UInt32.size :=
    Nat.lt_of_le_of_lt h.numbered h.index.size_lt
  exact h.withPool (h.pool.repack hnodes hrepack) (h.pool.edgeCount_repack hnodes hrepack)
    (Pool.repack_sound h.pool.sound hnodes hrepack).2.1

/-! ### Reading -/

/-- The degrees of the known nodes add up to the edges. -/
theorem total_degree (h : shore.Balanced limits codec edges) :
    total shore.degree shore.index.ids.toList = edges := by
  have hdegree : ∀ number ∈ List.range shore.index.size,
      shore.degree (shore.index.ids.getD number 0) = shore.pool.degree number := by
    intro number hnumber
    have hlt : number < shore.index.ids.size := List.mem_range.mp hnumber
    have hid : shore.index.ids[number]? = some (shore.index.ids.getD number 0) := by
      rw [Array.getD_eq_getD_getElem?, Array.getElem?_eq_getElem hlt, Option.getD_some]
    unfold Shore.degree
    rw [(NodeIndex.lookup_eq_some_iff h.index).mpr hid]
  have hids : shore.index.ids.toList =
      (List.range shore.index.size).map fun number => shore.index.ids.getD number 0 := by
    apply List.ext_getElem
    · rw [Array.length_toList, List.length_map, List.length_range]
      rfl
    · intro number hleft hright
      have hlt : number < shore.index.ids.size := hleft
      simp [Array.getD_eq_getD_getElem?, hlt]
  rw [hids, total_map, total_congr hdegree, total_range, ← h.pool.edges _ h.numbered, h.edgeCount]

theorem degree_of_unknown (h : shore.Balanced limits codec edges)
    (hunknown : node ∉ shore.index.ids.toList) : shore.degree node = 0 := by
  unfold Shore.degree
  rw [(NodeIndex.lookup_eq_none_iff h.index).mpr (mt Array.mem_toList_iff.mpr hunknown)]

end Balanced

end Shore

/-! ## Segments -/

namespace Segment

variable {limits : Limits} {codec : EdgeCodec} {segment repacked : Segment} {edge : Edge}

structure Balanced (limits : Limits) (codec : EdgeCodec) (segment : Segment) : Prop where
  left : segment.left.Balanced limits codec segment.edgeCount
  right : segment.right.Balanced limits codec segment.edgeCount
  codec : segment.codec = codec
  leftSealed : segment.left.pool.isSealed = segment.isSealed
  rightSealed : segment.right.pool.isSealed = segment.isSealed

theorem create_balanced {id : Nat} {options : Options} (hcreate : create id options = .ok segment)
    (hcodec : options.resolveCodec = .ok codec) : segment.Balanced options.limits codec := by
  obtain ⟨found, index, pool, hfound, hindex, hpool, rfl, -⟩ := exists_of_create hcreate
  obtain rfl : codec = found := Except.ok.inj (hcodec.symm.trans hfound)
  obtain ⟨hsound, hids, hmax⟩ := NodeIndex.withPlacement_sound hindex
  obtain ⟨-, -, hnodes, hedges, hopen, -⟩ := Pool.createPool_sound hpool
  have hsize : index.size = 0 := by
    unfold NodeIndex.size
    rw [hids, List.size_toArray, List.length_nil]
  have hshore : Shore.Balanced options.limits codec 0 ⟨index, pool⟩ := by
    refine ⟨hsound, hmax, ?_, Pool.createPool_tallied hpool, hedges, ?_, fun _ => ?_⟩
    · show index.size ≤ _
      omega
    · show pool.nodeCount ≤ index.size
      omega
    · exact hnodes.trans hsize.symm
  exact ⟨hshore, hshore, rfl, hopen, hopen⟩

namespace Balanced

theorem shore (h : segment.Balanced limits codec) (side : Side) :
    (segment.shore side).Balanced limits codec segment.edgeCount := by
  cases side with
  | left => exact h.left
  | right => exact h.right

theorem sealed (h : segment.Balanced limits codec) : segment.sealed.Balanced limits codec :=
  ⟨h.left.sealed, h.right.sealed, h.codec, Pool.isSealed_sealed _, Pool.isSealed_sealed _⟩

/-! ### Adding an edge -/

theorem addresses (h : segment.Balanced limits codec) (edge : Edge) :
    segment.Addresses codec edge := by
  intro side number hprospect
  obtain ⟨index, -, hadmits⟩ := (h.shore side).admits hprospect
  exact hadmits.number_le

theorem count {written : Segment}
    (h : Balanced limits codec { written with edgeCount := written.edgeCount + 1 }) :
    written.count.Balanced limits codec := by
  unfold Segment.count
  dsimp only
  split
  · exact h.sealed
  · exact h

theorem write (h : segment.Balanced limits codec) (hverdict : segment.verdict edge = .ok ()) :
    (segment.write edge).1.Balanced limits codec := by
  obtain ⟨leftNumber, rightNumber, hkind, hleft, hright, hleftCheck, hrightCheck⟩ :=
    verdict_cases hverdict
  rw [h.codec] at hkind hleft hright
  have hkind := UInt8.not_lt.mp hkind
  obtain ⟨leftIndex, hleftIntern, hleftAdmits⟩ := h.left.admits hleft
  obtain ⟨rightIndex, hrightIntern, hrightAdmits⟩ := h.right.admits hright
  have hnumbered (hpacks : ¬codec.Packs) : Balanced limits codec { segment with
      left := ⟨leftIndex, segment.left.pool⟩
      right := ⟨rightIndex, segment.right.pool⟩ } :=
    ⟨h.left.withIndex hleftAdmits hpacks, h.right.withIndex hrightAdmits hpacks, h.codec,
      h.leftSealed, h.rightSealed⟩
  -- both numbers are within bounds, so only a packing that breaks its bounds fails here
  cases htoRight : codec.encode rightNumber edge.kind with
  | error fault =>
    unfold Segment.write
    simp only [hleftIntern, hrightIntern, h.codec, htoRight]
    exact h.codec ▸ hnumbered (EdgeCodec.not_packs_of_error hrightAdmits.number_le hkind htoRight)
  | ok toRight =>
    cases htoLeft : codec.encode leftNumber edge.kind with
    | error fault =>
      unfold Segment.write
      simp only [hleftIntern, hrightIntern, h.codec, htoRight, htoLeft]
      exact h.codec ▸ hnumbered (EdgeCodec.not_packs_of_error hleftAdmits.number_le hkind htoLeft)
    | ok toLeft =>
      obtain ⟨leftPool, hleftAdd, hleftTallied, hleftAppends⟩ :=
        h.left.pool.add hleftAdmits.lt hleftCheck toRight
      obtain ⟨rightPool, hrightAdd, hrightTallied, hrightAppends⟩ :=
        h.right.pool.add hrightAdmits.lt hrightCheck toLeft
      rw [← h.codec] at htoRight htoLeft
      rw [write_eq hleftIntern hrightIntern htoRight htoLeft hleftAdd hrightAdd]
      apply count
      exact ⟨h.left.append hleftAdmits hleftTallied hleftAppends,
        h.right.append hrightAdmits hrightTallied hrightAppends, h.codec,
        hleftAppends.isSealed.trans h.leftSealed, hrightAppends.isSealed.trans h.rightSealed⟩

theorem add (h : segment.Balanced limits codec) (edge : Edge) :
    (segment.add edge).1.Balanced limits codec := by
  unfold Segment.add
  split
  · exact h
  split
  · exact h.sealed
  cases hverdict : segment.verdict edge with
  | error fault => exact h
  | ok _ => exact h.write hverdict

/-! ### Repacking -/

theorem repack (h : segment.Balanced limits codec) (hrepack : segment.repack = .ok repacked) :
    repacked.Balanced limits codec := by
  obtain ⟨-, leftPool, rightPool, hleft, hright, rfl⟩ := repack_cases hrepack
  exact ⟨h.left.repack hleft, h.right.repack hright, h.codec, rfl, rfl⟩

/-- A sealed segment whose edges 32 bits count can be repacked. -/
theorem exists_repack (h : segment.Balanced limits codec) (hsealed : segment.isSealed = true)
    (hedges : segment.edgeCount < UInt32.size) : ∃ repacked, segment.repack = .ok repacked := by
  obtain ⟨leftPool, hleft⟩ := Pool.Tallied.exists_repack (h.leftSealed.trans hsealed)
    (h.left.edgeCount ▸ hedges)
  obtain ⟨rightPool, hright⟩ := Pool.Tallied.exists_repack (h.rightSealed.trans hsealed)
    (h.right.edgeCount ▸ hedges)
  unfold Segment.repack
  rw [hsealed, hleft, hright]
  exact ⟨_, rfl⟩

/-! ### Statistics -/

theorem stats_edges (h : segment.Balanced limits codec) :
    segment.stats.edges = 2 * segment.edgeCount := by
  show segment.left.pool.stats.edges + segment.right.pool.stats.edges = _
  rw [Pool.edges_stats, Pool.edges_stats, h.left.edgeCount, h.right.edgeCount, Nat.two_mul]

theorem stats_nodes (h : segment.Balanced limits codec) (hpacks : codec.Packs) :
    segment.stats.nodes = segment.nodeCount .left + segment.nodeCount .right := by
  show segment.left.pool.stats.nodes + segment.right.pool.stats.nodes = _
  rw [Pool.nodes_stats, Pool.nodes_stats, h.left.filled hpacks, h.right.filled hpacks]
  rfl

theorem edges_le_reserved (h : segment.Balanced limits codec) :
    segment.stats.edges ≤ segment.stats.reserved := by
  show segment.left.pool.stats.edges + segment.right.pool.stats.edges ≤ _
  rw [Pool.edges_stats, Pool.edges_stats]
  exact Nat.add_le_add h.left.pool.edgeCount_le_reserved h.right.pool.edgeCount_le_reserved

/-- Nothing is wasted where nothing was written. -/
theorem reserved_of_unused (h : segment.Balanced limits codec) (hnone : segment.edgeCount = 0) :
    segment.stats.reserved = segment.stats.edges := by
  rw [h.stats_edges, hnone]
  show segment.left.pool.stats.reserved + segment.right.pool.stats.reserved = 0
  rw [h.left.pool.reserved_of_unused (h.left.edgeCount.trans hnone),
    h.right.pool.reserved_of_unused (h.right.edgeCount.trans hnone)]

end Balanced

/-- A repacked copy wastes nothing. -/
theorem reserved_of_repack (hrepack : segment.repack = .ok repacked) :
    repacked.stats.reserved = repacked.stats.edges := by
  obtain ⟨-, leftPool, rightPool, -, -, rfl⟩ := repack_cases hrepack
  rfl

end Segment

end Slidewalk
