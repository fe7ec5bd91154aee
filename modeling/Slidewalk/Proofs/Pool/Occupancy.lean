import Slidewalk.Proofs.Pool.Rows
import Slidewalk.Proofs.Totals

/-!
# Occupancy of pools

The counters of a pool are kept apart from its lists. They agree with them: the edges counted are
the entries of all lists together, no list is longer than its bound, and the entries set aside hold
them all. An exact-fit copy sets aside no more than that.
-/

namespace Slidewalk

/-! ## Slots in use -/

namespace PowerLawPool

variable {pool : PowerLawPool}

/-- The entries set aside for a node's list: those of its slot. -/
def slotLenOf (pool : PowerLawPool) (node : Nat) : Nat :=
  (pool.classOf node).elim 0 pool.bounds.slotLen

theorem Sound.degree_le_slotLenOf (h : pool.Sound) (node : Nat) :
    pool.degree node ≤ pool.slotLenOf node := by
  unfold slotLenOf classOf
  cases hhandle : pool.handle node with
  | none =>
    rw [degree, row_of_no_handle hhandle, List.size_toArray, List.length_nil]
    exact Nat.zero_le _
  | some handle => exact (h.fits hhandle).le

/-- A list lies in one class only. -/
theorem Sound.sum_slotLen (h : pool.Sound) (node : Nat) :
    ∑ k ∈ Finset.range pool.classes.size,
      (if pool.classOf node = some k then 1 else 0) * pool.bounds.slotLen k =
        pool.slotLenOf node := by
  unfold slotLenOf classOf
  cases hhandle : pool.handle node with
  | none => exact Finset.sum_eq_zero fun k _ => Nat.zero_mul _
  | some handle =>
    have hmem := Finset.mem_range.mpr (h.class_lt hhandle)
    simp only [Option.map_some, Option.some.injEq, Option.elim_some]
    rw [Finset.sum_boole_mul, if_pos hmem]

/-- A class is as much in use as it has residents. -/
theorem Sound.inUse_eq (h : pool.Sound) (k slotLen : Nat) :
    ((pool.sizeClass k).stats slotLen).inUse = pool.residents pool.nodeCount k := by
  have hslots := h.slots k pool.nodeCount (Nat.le_refl _)
  unfold SizeClass.stats
  dsimp only
  omega

theorem classStats_eq (pool : PowerLawPool) :
    pool.classStats = (List.range pool.classes.size).map fun k =>
      (pool.sizeClass k).stats (pool.bounds.slotLen k) := by
  unfold classStats
  apply List.ext_getElem
  · rw [List.length_map, List.length_zipIdx, Array.length_toList, List.length_map,
      List.length_range]
  · intro k hleft hright
    have hlt : k < pool.classes.size := by
      rw [List.length_map, List.length_range] at hright
      exact hright
    simp [sizeClass, Array.getD_eq_getD_getElem?, hlt]

/-- Summed by class and by node alike. -/
theorem Sound.reserved_eq (h : pool.Sound) :
    pool.stats.reserved = ∑ node ∈ Finset.range pool.nodeCount, pool.slotLenOf node := by
  calc pool.stats.reserved
      = ∑ k ∈ Finset.range pool.classes.size,
          pool.residents pool.nodeCount k * pool.bounds.slotLen k := by
        show total _ pool.classStats = _
        rw [classStats_eq, total_map, total_range]
        refine Finset.sum_congr rfl fun k _ => ?_
        rw [h.inUse_eq]
        rfl
    _ = ∑ node ∈ Finset.range pool.nodeCount, ∑ k ∈ Finset.range pool.classes.size,
          (if pool.classOf node = some k then 1 else 0) * pool.bounds.slotLen k := by
        rw [Finset.sum_comm]
        exact Finset.sum_congr rfl fun k _ => Finset.sum_mul ..
    _ = ∑ node ∈ Finset.range pool.nodeCount, pool.slotLenOf node :=
        Finset.sum_congr rfl fun node _ => h.sum_slotLen node

theorem Sound.edgeCount_le_reserved (h : pool.Sound) : pool.edgeCount ≤ pool.stats.reserved := by
  rw [h.reserved_eq, h.edges pool.nodeCount (Nat.le_refl _)]
  exact Finset.sum_le_sum fun node _ => h.degree_le_slotLenOf node

end PowerLawPool

/-! ## Lists laid end to end -/

theorem ExactFitPool.edgeCount_ofRows (rows : List (Array UInt32)) :
    (ofRows rows).edgeCount = total Array.size rows := by
  have hfold : ∀ (rows : List (Array UInt32)) (pool : ExactFitPool),
      (rows.foldl pushRow pool).entries.size = pool.entries.size + total Array.size rows := by
    intro rows
    induction rows with
    | nil => exact fun pool => rfl
    | cons row rest ih =>
      intro pool
      rw [List.foldl_cons, ih, entries_pushRow, Array.size_append, total_cons, Nat.add_assoc]
  refine (hfold rows empty).trans (Nat.zero_add _)

/-! ## Pools of every layout -/

namespace Pool

variable {limits : Limits} {pool grown : Pool} {node : Nat} {entry : UInt32}

/-- The pool counts its lists right, and keeps them within their bound. -/
structure Tallied (limits : Limits) (pool : Pool) : Prop where
  sound : pool.Sound
  serves : pool.Serves limits
  edges : ∀ nodes, pool.nodeCount ≤ nodes →
    pool.edgeCount = ∑ node ∈ Finset.range nodes, pool.degree node
  degree_le : ∀ node, pool.degree node ≤ limits.maxDegree
  unused : pool.edgeCount = 0 → pool.nodeCount = 0

@[simp] theorem edgeCount_sealed (pool : Pool) : pool.sealed.edgeCount = pool.edgeCount := by
  cases pool <;> rfl

@[simp] theorem degree_sealed (pool : Pool) (node : Nat) :
    pool.sealed.degree node = pool.degree node := by
  cases pool <;> rfl

theorem nodes_stats (pool : Pool) : pool.stats.nodes = pool.nodeCount := by
  cases pool <;> rfl

theorem edges_stats (pool : Pool) : pool.stats.edges = pool.edgeCount := by
  cases pool <;> rfl

theorem createPool_tallied (h : Segment.createPool limits = .ok pool) : pool.Tallied limits := by
  obtain ⟨hsound, hserves, hnodes, hedges, -, hrow⟩ := createPool_sound h
  have hdegree (node : Nat) : pool.degree node = 0 := by
    rw [← size_row hsound, hrow, List.size_toArray, List.length_nil]
  refine ⟨hsound, hserves, fun nodes _ => ?_, fun node => ?_, fun _ => hnodes⟩
  · rw [hedges, Finset.sum_eq_zero fun node _ => hdegree node]
  · rw [hdegree]
    exact Nat.zero_le _

namespace Tallied

theorem appends (h : pool.Tallied limits) (hcheck : pool.check node = .ok ())
    (happends : Appends limits pool grown node entry) : grown.Tallied limits := by
  have hdegree (other : Nat) :
      grown.degree other = pool.degree other + if node = other then 1 else 0 := by
    rw [← size_row happends.sound, happends.row, ← size_row h.sound]
    split
    · rw [Array.size_push]
    · rw [Nat.add_zero]
  refine ⟨happends.sound, happends.serves, fun nodes hnodes => ?_, fun other => ?_, fun hnone => ?_⟩
  · rw [happends.nodeCount] at hnodes
    have hmem : node ∈ Finset.range nodes := Finset.mem_range.mpr (by omega)
    rw [happends.edgeCount, h.edges nodes (by omega), Finset.sum_congr rfl fun other _ =>
      hdegree other, Finset.sum_add_distrib, Finset.sum_ite_eq, if_pos hmem]
  · rw [hdegree]
    split
    · rename_i hsame
      subst hsame
      exact degree_lt_of_check h.serves hcheck
    · exact h.degree_le other
  · rw [happends.edgeCount] at hnone
    contradiction

/-- A pool that does not refuse a node takes its entry. -/
theorem add (h : pool.Tallied limits) (hnode : node < limits.maxNodesPerSegment)
    (hcheck : pool.check node = .ok ()) (entry : UInt32) :
    ∃ grown, pool.add node entry = (grown, .ok ()) ∧ grown.Tallied limits ∧
      Appends limits pool grown node entry := by
  obtain ⟨grown, hadd, happends⟩ := add_of_check h.sound h.serves hnode hcheck entry
  exact ⟨grown, hadd, h.appends hcheck happends, happends⟩

theorem sealed (h : pool.Tallied limits) : pool.sealed.Tallied limits := by
  refine ⟨sealed_sound h.sound, sealed_serves h.serves, fun nodes hnodes => ?_, fun node => ?_,
    fun hnone => ?_⟩
  · rw [nodeCount_sealed] at hnodes
    rw [edgeCount_sealed, h.edges nodes hnodes]
    exact Finset.sum_congr rfl fun node _ => (degree_sealed pool node).symm
  · rw [degree_sealed]
    exact h.degree_le node
  · rw [edgeCount_sealed] at hnone
    rw [nodeCount_sealed, h.unused hnone]

/-- What is set aside holds all entries. -/
theorem edgeCount_le_reserved (h : pool.Tallied limits) :
    pool.edgeCount ≤ pool.stats.reserved := by
  cases pool with
  | uniform pool =>
    obtain ⟨-, hdegree⟩ := h.serves
    rw [h.edges pool.nodeCount (Nat.le_refl _)]
    refine Nat.le_trans (Finset.sum_le_card_nsmul _ _ _ fun node _ => h.degree_le node) ?_
    rw [Finset.card_range, ← hdegree]
    exact Nat.le_refl _
  | powerLaw pool => exact PowerLawPool.Sound.edgeCount_le_reserved h.sound
  | exactFit pool => exact Nat.le_refl _

/-- Nothing is set aside before there is an entry. -/
theorem reserved_of_unused (h : pool.Tallied limits) (hnone : pool.edgeCount = 0) :
    pool.stats.reserved = 0 := by
  have hnodes := h.unused hnone
  cases pool with
  | uniform pool =>
    change pool.nodeCount = 0 at hnodes
    show pool.nodeCount * pool.maxDegree = 0
    rw [hnodes, Nat.zero_mul]
  | powerLaw pool =>
    change pool.nodeCount = 0 at hnodes
    refine (PowerLawPool.Sound.reserved_eq h.sound).trans ?_
    rw [hnodes, Finset.range_zero, Finset.sum_empty]
  | exactFit pool => exact hnone

/-! ## Repacking -/

/-- Only the sheer number of entries keeps a sealed pool from being repacked. -/
theorem exists_repack (hsealed : pool.isSealed = true) (hedges : pool.edgeCount < UInt32.size) :
    ∃ repacked, pool.repack = .ok repacked := by
  exact ⟨_, repack_eq_ok_iff.mpr ⟨hsealed, hedges, rfl⟩⟩

theorem edgeCount_repack (h : pool.Tallied limits) (hnodes : pool.nodeCount < UInt32.size)
    {repacked : ExactFitPool} (hrepack : pool.repack = .ok repacked) :
    repacked.edgeCount = pool.edgeCount := by
  obtain ⟨-, -, rfl⟩ := repack_eq_ok_iff.mp hrepack
  -- the copy has as many entries as the lists, which the counter of the pool agrees with
  rw [ExactFitPool.edgeCount_ofRows, copiedNodes_of_lt hnodes, total_map, total_range,
    h.edges _ (Nat.le_refl _)]
  exact Finset.sum_congr rfl fun node _ => size_row h.sound node

theorem repack (h : pool.Tallied limits) (hnodes : pool.nodeCount < UInt32.size)
    {repacked : ExactFitPool} (hrepack : pool.repack = .ok repacked) :
    (exactFit repacked).Tallied limits := by
  obtain ⟨hsound, hcount, hrow⟩ := repack_sound h.sound hnodes hrepack
  have hdegree (node : Nat) : (exactFit repacked).degree node = pool.degree node := by
    rw [← size_row hsound, hrow, size_row h.sound]
  have hedges := h.edgeCount_repack hnodes hrepack
  refine ⟨hsound, trivial, fun nodes hle => ?_, fun node => ?_, fun hnone => ?_⟩
  · rw [hcount] at hle
    show repacked.edgeCount = _
    rw [hedges, h.edges nodes hle]
    exact Finset.sum_congr rfl fun node _ => (hdegree node).symm
  · rw [hdegree]
    exact h.degree_le node
  · rw [hcount]
    exact h.unused (hedges.symm.trans hnone)

end Tallied

end Pool

end Slidewalk
