import Slidewalk.Proofs.Pool.Reached

/-!
# A repacked copy reads like its pool

Repacking lays the lists of a sealed pool end to end, gaps included. The nodes to copy are counted
in 32 bits, which hold every count but one: if the last of the numbers has a list, the count comes
out as zero and the copy is empty.
-/

namespace Slidewalk.Pool

/-- The last number of 32 bits. -/
def lastNumber : Nat := UInt32.size - 1

/-- Every number of 32 bits reads the same, and as many nodes and edges are counted. -/
structure Mirrors (pool : Pool) (copy : ExactFitPool) : Prop where
  readInto : ∀ (node : UInt32) (buffer : Array UInt32),
    (exactFit copy).readInto node.toNat buffer = pool.readInto node.toNat buffer
  degree : ∀ node : UInt32, copy.degree node.toNat = pool.degree node.toNat
  nodeCount : copy.nodeCount = pool.nodeCount
  edgeCount : copy.edgeCount = pool.edgeCount

/-- A copy sets nothing aside and takes nothing more. -/
structure Frozen (copy : ExactFitPool) : Prop where
  reserved : copy.stats.reserved = copy.stats.edges
  check : ∀ node, (exactFit copy).check node = .error (.sealed .exactFitPool)
  add : ∀ node entry,
    (exactFit copy).add node entry = (exactFit copy, .error (.sealed .exactFitPool))

variable {limits : Limits} {pool : Pool} {copy : ExactFitPool}

theorem frozen (copy : ExactFitPool) : Frozen copy := ⟨rfl, fun _ => rfl, fun _ _ => rfl⟩

/-- The count of the nodes fits in 32 bits unless the last number has a list. -/
theorem Kept.nodeCount_lt_iff (h : pool.Kept limits) :
    pool.nodeCount < UInt32.size ↔ pool.degree lastNumber = 0 := by
  constructor
  · intro hlt
    have hbeyond : pool.nodeCount ≤ lastNumber := Nat.le_sub_one_of_lt hlt
    rw [← size_row h.tallied.sound, row_of_nodeCount_le h.tallied.sound hbeyond,
      List.size_toArray, List.length_nil]
  · intro hnone
    by_contra hall
    have hhighest := h.highest lastNumber (Nat.le_antisymm h.nodes_le (Nat.le_of_not_lt hall))
    omega

theorem Kept.mirrors (h : pool.Kept limits) (hnodes : pool.nodeCount < UInt32.size)
    (hrepack : pool.repack = .ok copy) : pool.Mirrors copy := by
  obtain ⟨hsound, hcount, hrow⟩ := repack_sound h.tallied.sound hnodes hrepack
  refine ⟨fun node buffer => ?_, fun node => ?_, hcount, h.tallied.edgeCount_repack hnodes hrepack⟩
  · unfold readInto
    rw [hrow]
  · show (exactFit copy).degree node.toNat = _
    rw [← size_row hsound, hrow, size_row h.tallied.sound]

/-- A copy is faithful exactly if the last number of 32 bits has no list, and otherwise empty. -/
theorem repacked_mirrors_iff (h : pool.Reached) (hrepack : pool.repack = .ok copy) :
    (pool.Mirrors copy ↔ pool.degree lastNumber = 0) ∧
      (pool.degree lastNumber ≠ 0 → copy = .empty) ∧ Frozen copy := by
  obtain ⟨limits, hkept⟩ := h.kept
  have hempty : pool.degree lastNumber ≠ 0 → copy = .empty := by
    intro hlast
    have hall : ¬pool.nodeCount < UInt32.size := mt hkept.nodeCount_lt_iff.mp hlast
    exact repack_of_all_counted (Nat.le_antisymm hkept.nodes_le (Nat.le_of_not_lt hall)) hrepack
  refine ⟨⟨fun hmirrors => ?_, fun hnone => ?_⟩, hempty, frozen copy⟩
  · by_contra hlast
    -- an empty copy has no list for the last number either
    have hdegree : copy.degree lastNumber = pool.degree lastNumber := hmirrors.degree 4294967295
    rw [hempty hlast] at hdegree
    exact hlast hdegree.symm
  · exact hkept.mirrors (hkept.nodeCount_lt_iff.mpr hnone) hrepack

/-! ## A faithful copy, and one that is not -/

/-- The first node has no list, the second has one. -/
theorem single_mirrors :
    (single 4 2 1 10).sealed.Mirrors { offsets := #[0, 0, 1], entries := #[10] } := by
  have hreached : (single 4 2 1 10).sealed.Reached := (single_reached rfl (by decide) 10).sealed
  have hrepack : (single 4 2 1 10).sealed.repack =
      .ok { offsets := #[0, 0, 1], entries := #[10] } := by
    refine repack_eq_ok_iff.mpr ⟨rfl, by decide, ?_⟩
    rw [show (single 4 2 1 10).sealed.copiedNodes = 2 from rfl]
    simp only [List.range, List.range.loop, List.map_cons, List.map_nil, row_sealed, row_single]
    rfl
  have hlast : (single 4 2 1 10).sealed.degree lastNumber = 0 := degree_single 4 2 1 10 lastNumber
  exact (repacked_mirrors_iff hreached hrepack).1.mpr hlast

/-- The only entry of the pool is written for the last number, and not in the copy. -/
theorem single_last_lost : (single 4294967296 1 4294967295 7).sealed.Reached ∧
    (single 4294967296 1 4294967295 7).sealed.repack = .ok .empty ∧
    (single 4294967296 1 4294967295 7).sealed.readInto lastNumber #[] = #[7] ∧
    (exactFit .empty).readInto lastNumber #[] = #[] ∧
    (single 4294967296 1 4294967295 7).sealed.nodeCount = 4294967296 ∧
    ExactFitPool.empty.nodeCount = 0 ∧
    (single 4294967296 1 4294967295 7).sealed.edgeCount = 1 ∧
    ExactFitPool.empty.edgeCount = 0 := by
  have hreached : (single 4294967296 1 4294967295 7).sealed.Reached :=
    (single_reached rfl (by decide) 7).sealed
  have hrepack : (single 4294967296 1 4294967295 7).sealed.repack = .ok .empty := by
    refine repack_eq_ok_iff.mpr ⟨rfl, by decide, ?_⟩
    rw [show (single 4294967296 1 4294967295 7).sealed.copiedNodes = 0 from rfl]
    rfl
  have hread : (single 4294967296 1 4294967295 7).sealed.readInto lastNumber #[] = #[7] := by
    unfold readInto
    rw [row_sealed, row_single]
    rfl
  exact ⟨hreached, hrepack, hread, rfl, rfl, rfl, rfl, rfl⟩

end Slidewalk.Pool
