import Mathlib.Data.List.Forall2
import Slidewalk.Proofs.Bucket
import Slidewalk.Proofs.NodeIndex.Numbering
import Slidewalk.Proofs.Pool.Rows

/-!
# One side of a segment keeps its bucket

The index numbers the nodes of the bucket in first-touched order, and the list of each number holds
one entry for each edge that touches the node.
-/

namespace Slidewalk

/-- The entry names the node at the other end of the edge, and its type. -/
structure Carries (codec : EdgeCodec) (bucket : Bucket) (side : Side) (packed : UInt32)
    (edge : Edge) : Prop where
  index : (bucket.nodes side.opposite)[codec.index packed]? = some (edge.endpoint side.opposite)
  kind : codec.kind packed = edge.kind

theorem Carries.append {codec : EdgeCodec} {bucket : Bucket} {side : Side} {packed : UInt32}
    {edge : Edge} (h : Carries codec bucket side packed edge) (added : Edge) :
    Carries codec (bucket ++ [added]) side packed edge :=
  ⟨bucket.getElem?_nodes_append added side.opposite h.index, h.kind⟩

namespace Shore

variable {limits : Limits} {codec : EdgeCodec} {side : Side} {bucket : Bucket} {shore : Shore}
  {edge : Edge} {node : NodeId} {index : NodeIndex} {number : Nat}

structure Keeps (limits : Limits) (codec : EdgeCodec) (side : Side) (bucket : Bucket)
    (shore : Shore) : Prop where
  index : shore.index.Sound
  maxNodes : shore.index.maxNodes = limits.maxNodesPerSegment
  ids : shore.index.ids.toList = bucket.nodes side
  pool : shore.pool.Sound
  serves : shore.pool.Serves limits
  -- a list is written only after its node is numbered
  numbered : shore.pool.nodeCount ≤ (bucket.nodes side).length
  edgeCount : shore.pool.isSealed = false → shore.pool.edgeCount = bucket.length
  rows : ∀ number node, (bucket.nodes side)[number]? = some node →
    List.Forall₂ (Carries codec bucket side) (shore.pool.row number).toList
      (bucket.touching side node)

namespace Keeps

theorem size_index (h : shore.Keeps limits codec side bucket) :
    shore.index.size = (bucket.nodes side).length := by
  rw [← h.ids, Array.length_toList]
  rfl

theorem getElem?_ids (h : shore.Keeps limits codec side bucket) (number : Nat) :
    shore.index.ids[number]? = (bucket.nodes side)[number]? := by
  rw [← h.ids, Array.getElem?_toList]

theorem mem_ids (h : shore.Keeps limits codec side bucket) :
    node ∈ shore.index.ids ↔ node ∈ bucket.nodes side := by
  rw [← h.ids, Array.mem_toList_iff]

/-! ## Reading -/

theorem entries (h : shore.Keeps limits codec side bucket) (node : NodeId) :
    List.Forall₂ (Carries codec bucket side) (shore.entries node).toList
      (bucket.touching side node) := by
  unfold Shore.entries
  cases hlookup : shore.index.lookup node with
  | none =>
    have hunknown := (NodeIndex.lookup_eq_none_iff h.index).mp hlookup
    rw [bucket.touching_eq_nil side (mt h.mem_ids.mpr hunknown)]
    exact .nil
  | some number =>
    have hnumber := (NodeIndex.lookup_eq_some_iff h.index).mp hlookup
    rw [h.getElem?_ids] at hnumber
    exact h.rows number node hnumber

theorem degree (h : shore.Keeps limits codec side bucket) (node : NodeId) :
    shore.degree node = bucket.degree node side := by
  have hlength := (h.entries node).length_eq
  rw [Array.length_toList] at hlength
  rw [Bucket.degree, ← hlength]
  unfold Shore.degree Shore.entries
  cases shore.index.lookup node with
  | none => rfl
  | some number => exact (Pool.size_row h.pool number).symm

/-! ## Sealing and repacking -/

/-- A sealed pool with the same lists serves as well. -/
theorem withPool (h : shore.Keeps limits codec side bucket) {pool : Pool} (hsound : pool.Sound)
    (hserves : pool.Serves limits) (hsealed : pool.isSealed = true)
    (hcount : pool.nodeCount = shore.pool.nodeCount)
    (hrow : ∀ number, pool.row number = shore.pool.row number) :
    Shore.Keeps limits codec side bucket ⟨shore.index, pool⟩ := by
  refine ⟨h.index, h.maxNodes, h.ids, hsound, hserves, ?_, ?_, ?_⟩
  · show pool.nodeCount ≤ _
    rw [hcount]
    exact h.numbered
  · intro hopen
    rw [hsealed] at hopen
    contradiction
  · intro number node hnumber
    show List.Forall₂ _ (pool.row number).toList _
    rw [hrow]
    exact h.rows number node hnumber

theorem sealed (h : shore.Keeps limits codec side bucket) :
    Shore.Keeps limits codec side bucket ⟨shore.index, shore.pool.sealed⟩ :=
  h.withPool (Pool.sealed_sound h.pool) (Pool.sealed_serves h.serves) (Pool.isSealed_sealed _)
    (Pool.nodeCount_sealed _) (Pool.row_sealed _)

theorem repack (h : shore.Keeps limits codec side bucket) {pool : ExactFitPool}
    (hrepack : shore.pool.repack = .ok pool) :
    Shore.Keeps limits codec side bucket ⟨shore.index, .exactFit pool⟩ := by
  have hnodes : shore.pool.nodeCount < UInt32.size :=
    Nat.lt_of_le_of_lt (h.size_index ▸ h.numbered) h.index.size_lt
  obtain ⟨hsound, hcount, hrow⟩ := Pool.repack_sound h.pool hnodes hrepack
  exact h.withPool hsound trivial rfl hcount hrow

end Keeps

/-! ## Numbering the node of another edge -/

/-- What the index is, and which number the node of an edge has, once the node is interned. -/
structure Numbers (limits : Limits) (side : Side) (bucket : Bucket) (edge : Edge)
    (index : NodeIndex) (number : Nat) : Prop where
  sound : index.Sound
  maxNodes : index.maxNodes = limits.maxNodesPerSegment
  ids : index.ids.toList = Bucket.nodes (bucket ++ [edge]) side
  number : (Bucket.nodes (bucket ++ [edge]) side)[number]? = some (edge.endpoint side)

theorem Numbers.nodup (h : Numbers limits side bucket edge index number) :
    (Bucket.nodes (bucket ++ [edge]) side).Nodup :=
  h.ids ▸ h.sound.nodup

theorem Numbers.lt (h : Numbers limits side bucket edge index number) :
    number < limits.maxNodesPerSegment := by
  have hlt := (List.getElem?_eq_some_iff.mp h.number).1
  have hsize := h.sound.size_le
  rw [h.maxNodes, ← Array.length_toList, h.ids] at hsize
  omega

/-- A number that is given out is that of a known node, or the next one. -/
theorem prospect_cases (hsound : shore.index.Sound)
    (hprospect : shore.prospect codec node = .ok number) :
    shore.index.ids[number]? = some node ∨
      node ∉ shore.index.ids ∧ number = shore.index.size ∧
        shore.index.size < shore.index.maxNodes ∧ shore.index.size ≤ codec.maxIndex := by
  unfold prospect at hprospect
  cases hlookup : shore.index.lookup node with
  | some found =>
    rw [hlookup] at hprospect
    obtain rfl := Except.ok.inj hprospect
    exact .inl ((NodeIndex.lookup_eq_some_iff hsound).mp hlookup)
  | none =>
    rw [hlookup] at hprospect
    dsimp only at hprospect
    split at hprospect
    · contradiction
    rename_i hroom
    split at hprospect
    · contradiction
    rename_i haddress
    exact .inr ⟨(NodeIndex.lookup_eq_none_iff hsound).mp hlookup,
      (Except.ok.inj hprospect).symm, Nat.lt_of_not_le hroom, Nat.le_of_not_lt haddress⟩

namespace Keeps

/-- A node that has a number keeps it. -/
theorem numbers_of_known (h : shore.Keeps limits codec side bucket)
    (hknown : shore.index.ids[number]? = some (edge.endpoint side)) :
    ∃ index, shore.index.intern (edge.endpoint side) = (index, .ok number) ∧
      Numbers limits side bucket edge index number := by
  have hnumber := hknown
  rw [h.getElem?_ids] at hnumber
  have hnodes : Bucket.nodes (bucket ++ [edge]) side = bucket.nodes side := by
    rw [Bucket.nodes_append, if_pos (List.mem_of_getElem? hnumber)]
  exact ⟨shore.index, NodeIndex.intern_of_known h.index hknown, h.index, h.maxNodes,
    by rw [hnodes, h.ids], by rw [hnodes, hnumber]⟩

/-- Where there is room, a new node gets the next number. -/
theorem numbers_of_new (h : shore.Keeps limits codec side bucket)
    (hunknown : edge.endpoint side ∉ shore.index.ids)
    (hroom : shore.index.size < shore.index.maxNodes) :
    ∃ index, shore.index.intern (edge.endpoint side) = (index, .ok shore.index.size) ∧
      Numbers limits side bucket edge index shore.index.size := by
  have hnodes : Bucket.nodes (bucket ++ [edge]) side =
      bucket.nodes side ++ [edge.endpoint side] := by
    rw [Bucket.nodes_append, if_neg (mt h.mem_ids.mpr hunknown)]
  obtain ⟨index, hintern, hsound, hids, hmax⟩ := NodeIndex.intern_of_new h.index hunknown hroom
  refine ⟨index, hintern, hsound, by rw [hmax, h.maxNodes], ?_, ?_⟩
  · rw [hids, hnodes, Array.toList_push, h.ids]
  · rw [hnodes, h.size_index]
    simp

/-- A node is given the number it was promised. -/
theorem prospect_eq_ok (h : shore.Keeps limits codec side bucket)
    (hprospect : shore.prospect codec (edge.endpoint side) = .ok number) :
    ∃ index, shore.index.intern (edge.endpoint side) = (index, .ok number) ∧
      Numbers limits side bucket edge index number := by
  obtain hknown | ⟨hunknown, rfl, hroom, -⟩ := prospect_cases h.index hprospect
  · exact h.numbers_of_known hknown
  · exact h.numbers_of_new hunknown hroom

/-- There is a number for a node exactly if it has one, or if neither the index nor the packing has
reached its bound. -/
theorem exists_prospect_iff (h : shore.Keeps limits codec side bucket) :
    (∃ number, shore.prospect codec node = .ok number) ↔
      node ∈ bucket.nodes side ∨
        (bucket.nodes side).length < limits.maxNodesPerSegment ∧
          (bucket.nodes side).length ≤ codec.maxIndex := by
  constructor
  · rintro ⟨number, hprospect⟩
    obtain hknown | ⟨-, -, hroom, haddress⟩ := prospect_cases h.index hprospect
    · exact .inl (h.mem_ids.mp (Array.mem_of_getElem? hknown))
    · rw [h.maxNodes] at hroom
      rw [h.size_index] at hroom haddress
      exact .inr ⟨hroom, haddress⟩
  · intro hroom
    unfold Shore.prospect
    cases hlookup : shore.index.lookup node with
    | some number => exact ⟨number, rfl⟩
    | none =>
      have hunknown := (NodeIndex.lookup_eq_none_iff h.index).mp hlookup
      obtain ⟨hnodes, haddress⟩ := hroom.resolve_left (mt h.mem_ids.mpr hunknown)
      refine ⟨shore.index.size, ?_⟩
      dsimp only
      rw [h.maxNodes, h.size_index, if_neg (by omega), if_neg (by omega)]

theorem prospect_of_room (h : shore.Keeps limits codec side bucket)
    (haddress : limits.maxNodesPerSegment ≤ codec.maxIndex + 1)
    (hroom : ¬bucket.lacksNode limits side edge) :
    ∃ number, shore.prospect codec (edge.endpoint side) = .ok number := by
  rw [h.exists_prospect_iff]
  by_cases hknown : edge.endpoint side ∈ bucket.nodes side
  · exact .inl hknown
  · have hsize : (bucket.nodes side).length < limits.maxNodesPerSegment := by
      by_contra hfull
      exact hroom ⟨hknown, by omega⟩
    exact .inr ⟨hsize, by omega⟩

theorem prospect_of_lacksNode (h : shore.Keeps limits codec side bucket)
    (hlacks : bucket.lacksNode limits side edge) :
    shore.prospect codec (edge.endpoint side) =
      .error (.capacity .nodes limits.maxNodesPerSegment) := by
  obtain ⟨hnew, hfull⟩ := hlacks
  have hlookup : shore.index.lookup (edge.endpoint side) = none :=
    (NodeIndex.lookup_eq_none_iff h.index).mpr (mt h.mem_ids.mp hnew)
  unfold Shore.prospect
  rw [hlookup]
  dsimp only
  rw [h.maxNodes, if_pos (by rw [h.size_index]; exact hfull)]

/-! ## Writing its entry -/

/-- Before the entry is written, the list under the number holds the edges of the node so far. -/
theorem row_of_numbers (h : shore.Keeps limits codec side bucket)
    (hnumbers : Numbers limits side bucket edge index number) :
    List.Forall₂ (Carries codec bucket side) (shore.pool.row number).toList
      (bucket.touching side (edge.endpoint side)) := by
  have hnumber := hnumbers.number
  rw [Bucket.nodes_append] at hnumber
  by_cases hknown : edge.endpoint side ∈ bucket.nodes side
  · rw [if_pos hknown] at hnumber
    exact h.rows number _ hnumber
  · rw [if_neg hknown] at hnumber
    have hnumbered := h.numbered
    have hlast : (bucket.nodes side).length ≤ number := by
      by_contra hlt
      rw [List.getElem?_append_left (by omega)] at hnumber
      exact hknown (List.mem_of_getElem? hnumber)
    rw [bucket.touching_eq_nil side hknown, Pool.row_of_nodeCount_le h.pool (by omega)]
    exact .nil

theorem size_row_of_numbers (h : shore.Keeps limits codec side bucket)
    (hnumbers : Numbers limits side bucket edge index number) :
    (shore.pool.row number).size = bucket.degree (edge.endpoint side) side := by
  have hlength := (h.row_of_numbers hnumbers).length_eq
  rw [Array.length_toList] at hlength
  exact hlength

/-- The pool refuses the entry only at the degree bound. -/
theorem check (h : shore.Keeps limits codec side bucket)
    (hnumbers : Numbers limits side bucket edge index number)
    (hopen : shore.pool.isSealed = false) (hroom : bucket.length < limits.segmentEdgeCapacity)
    (hcapacity : limits.segmentEdgeCapacity < UInt32.size) :
    shore.pool.check number = if bucket.lacksDegree limits side edge then
      .error (.capacity .degree limits.maxDegree) else .ok () := by
  have hnodes : shore.pool.nodeCount ≤ limits.maxNodesPerSegment := by
    have hnumbered := h.numbered
    have hsize : shore.index.size ≤ shore.index.maxNodes := h.index.size_le
    rw [h.size_index, h.maxNodes] at hsize
    omega
  have hcheck := Pool.check_eq h.pool h.serves hopen hnodes hnumbers.lt
    (by rw [h.edgeCount hopen]; exact hroom) hcapacity
  rw [h.size_row_of_numbers hnumbers] at hcheck
  exact hcheck

theorem check_eq_ok_iff (h : shore.Keeps limits codec side bucket)
    (hnumbers : Numbers limits side bucket edge index number)
    (hopen : shore.pool.isSealed = false) (hroom : bucket.length < limits.segmentEdgeCapacity)
    (hcapacity : limits.segmentEdgeCapacity < UInt32.size) :
    shore.pool.check number = .ok () ↔
      bucket.degree (edge.endpoint side) side < limits.maxDegree := by
  rw [h.check hnumbers hopen hroom hcapacity]
  by_cases hfull : bucket.lacksDegree limits side edge
  · rw [if_pos hfull]
    exact ⟨fun hok => by contradiction, fun hlt => absurd hfull (Nat.not_le.mpr hlt)⟩
  · rw [if_neg hfull]
    exact ⟨fun _ => Nat.lt_of_not_le hfull, fun _ => rfl⟩

theorem append (h : shore.Keeps limits codec side bucket)
    (hnumbers : Numbers limits side bucket edge index number) {grown : Pool} {packed : UInt32}
    (happends : Pool.Appends limits shore.pool grown number packed)
    (hcarries : Carries codec (bucket ++ [edge]) side packed edge) :
    Shore.Keeps limits codec side (bucket ++ [edge]) ⟨index, grown⟩ := by
  have hlt := (List.getElem?_eq_some_iff.mp hnumbers.number).1
  have hnumbered := h.numbered
  have hlength := bucket.length_nodes_le edge side
  refine ⟨hnumbers.sound, hnumbers.maxNodes, hnumbers.ids, happends.sound, happends.serves, ?_, ?_,
    ?_⟩
  · show grown.nodeCount ≤ _
    rw [happends.nodeCount]
    omega
  · intro hopen
    show grown.edgeCount = _
    rw [happends.edgeCount, h.edgeCount (happends.isSealed ▸ hopen), List.length_append,
      List.length_singleton]
  · intro other node hother
    show List.Forall₂ _ (grown.row other).toList _
    rw [happends.row, Bucket.touching_append]
    by_cases hsame : number = other
    · subst hsame
      obtain rfl : edge.endpoint side = node :=
        Option.some.inj (hnumbers.number.symm.trans hother)
      rw [if_pos rfl, if_pos rfl, Array.toList_push]
      have hold := (h.row_of_numbers hnumbers).imp fun _ _ hold => Carries.append hold edge
      exact List.rel_append hold (.cons hcarries .nil)
    · have hnode : edge.endpoint side ≠ node := by
        rintro rfl
        exact hsame ((List.getElem?_inj hlt hnumbers.nodup).mp (hnumbers.number.trans hother.symm))
      have hold := bucket.getElem?_nodes_of_ne side hnode hother
      rw [if_neg hsame, if_neg hnode]
      exact (h.rows other node hold).imp fun _ _ hold => Carries.append hold edge

end Keeps

end Shore

end Slidewalk
