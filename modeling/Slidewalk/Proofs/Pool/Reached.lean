import Slidewalk.Proofs.Pool.Occupancy

/-!
# The pools that calls can make

A pool is new, or a call has made it of another one: an entry was added under a number of 32 bits,
the pool was sealed, or a sealed pool was repacked. Each call keeps what the counters say of the
lists, counts no more nodes than fit, and leaves an entry with the highest node it counts.
-/

namespace Slidewalk

theorem UniformPool.pos_of_create {maxNodes maxDegree : Nat} {pool : UniformPool}
    (h : create maxNodes maxDegree = .ok pool) : 0 < maxNodes ∧ 0 < maxDegree := by
  unfold create at h
  split at h
  · contradiction
  · omega

theorem PowerLawPool.pos_of_create {bounds : PowerLawBounds} {pool : PowerLawPool}
    (h : create bounds = .ok pool) : 0 < bounds.maxNodes ∧ 0 < bounds.maxDegree := by
  unfold create at h
  split at h
  · contradiction
  · omega

@[simp] theorem PowerLawPool.bounds_push (pool : PowerLawPool) (node : Nat) (entry : UInt32) :
    (pool.push node entry).bounds = pool.bounds := by
  unfold push
  cases pool.handle node with
  | none => rfl
  | some handle =>
    dsimp only
    split <;> rfl

namespace Pool

/-- The pools that calls make of new ones, with nodes numbered in 32 bits. -/
inductive Reached : Pool → Prop where
  | uniform {maxNodes maxDegree : Nat} {pool : UniformPool}
      (create : UniformPool.create maxNodes maxDegree = .ok pool) : Reached (.uniform pool)
  | powerLaw {bounds : PowerLawBounds} {pool : PowerLawPool}
      (create : PowerLawPool.create bounds = .ok pool) : Reached (.powerLaw pool)
  | add {pool : Pool} (node entry : UInt32) (before : Reached pool) :
      Reached (pool.add node.toNat entry).1
  | sealed {pool : Pool} (before : Reached pool) : Reached pool.sealed
  | repacked {pool : Pool} {copy : ExactFitPool} (before : Reached pool)
      (repack : pool.repack = .ok copy) : Reached (.exactFit copy)

/-- What every call keeps of a pool that was made for these limits. -/
structure Kept (limits : Limits) (pool : Pool) : Prop where
  tallied : pool.Tallied limits
  degree_pos : 0 < limits.maxDegree
  nodes_pos : 0 < limits.maxNodesPerSegment
  nodes_le : pool.nodeCount ≤ UInt32.size
  fits : pool.isSealed = false → pool.nodeCount ≤ pool.nodeLimit
  highest : ∀ node, pool.nodeCount = node + 1 → 0 < pool.degree node

variable {limits : Limits} {pool : Pool} {copy : ExactFitPool} {node : Nat}

theorem pos_of_createPool (h : Segment.createPool limits = .ok pool) :
    0 < limits.maxNodesPerSegment ∧ 0 < limits.maxDegree := by
  obtain ⟨created, hcreated, -⟩ | ⟨created, hcreated, -⟩ := createPool_cases h
  · exact UniformPool.pos_of_create hcreated
  · exact PowerLawPool.pos_of_create hcreated

theorem createPool_kept (h : Segment.createPool limits = .ok pool) : pool.Kept limits := by
  obtain ⟨-, -, hnodes, -⟩ := createPool_sound h
  obtain ⟨hnodesPos, hdegreePos⟩ := pos_of_createPool h
  refine ⟨createPool_tallied h, hdegreePos, hnodesPos, ?_, fun _ => ?_, fun node hnode => ?_⟩
  · rw [hnodes]
    exact Nat.zero_le _
  · rw [hnodes]
    exact Nat.zero_le _
  · rw [hnodes] at hnode
    contradiction

/-! ## Adding and sealing -/

@[simp] theorem nodeLimit_add (pool : Pool) (node : Nat) (entry : UInt32) :
    (pool.add node entry).1.nodeLimit = pool.nodeLimit := by
  cases pool with
  | uniform pool =>
    simp only [add, UniformPool.add]
    split <;> rfl
  | powerLaw pool =>
    simp only [add, PowerLawPool.add]
    split
    · rfl
    · simp only [nodeLimit, PowerLawPool.bounds_push]
  | exactFit pool => rfl

namespace Kept

theorem add (h : pool.Kept limits) (hnode : node < UInt32.size) (entry : UInt32) :
    (pool.add node entry).1.Kept limits := by
  have hlimit := nodeLimit_add pool node entry
  obtain ⟨fault, hadd⟩ | ⟨grown, hadd, happends⟩ :=
    add_cases h.tallied.sound h.tallied.serves node entry
  · rw [hadd]
    exact h
  have hfits : node < pool.nodeLimit := lt_nodeLimit_of_add (by rw [hadd])
  have hcheck : pool.check node = .ok () := by rw [← add_eq_check hfits entry, hadd]
  have hcount := happends.nodeCount
  rw [hadd] at hlimit ⊢
  refine ⟨h.tallied.appends hcheck happends, h.degree_pos, h.nodes_pos, ?_, fun hopen => ?_,
    fun other hother => ?_⟩
  · have := h.nodes_le
    show grown.nodeCount ≤ _
    omega
  · have := h.fits (happends.isSealed ▸ hopen)
    show grown.nodeCount ≤ grown.nodeLimit
    rw [hlimit]
    omega
  -- the highest node is the one written to, or it is what it was
  · have hother : grown.nodeCount = other + 1 := hother
    show 0 < grown.degree other
    rw [← size_row happends.sound, happends.row]
    split
    · rw [Array.size_push]
      omega
    · rw [size_row h.tallied.sound]
      exact h.highest other (by omega)

theorem sealed (h : pool.Kept limits) : pool.sealed.Kept limits := by
  refine ⟨h.tallied.sealed, h.degree_pos, h.nodes_pos, ?_, fun hopen => ?_, fun node hnode => ?_⟩
  · rw [nodeCount_sealed]
    exact h.nodes_le
  · rw [isSealed_sealed] at hopen
    contradiction
  · rw [nodeCount_sealed] at hnode
    rw [degree_sealed]
    exact h.highest node hnode

end Kept

/-! ## Repacking -/

/-- If every number of 32 bits is counted, none is copied. -/
theorem repack_of_all_counted (hnodes : pool.nodeCount = UInt32.size)
    (hrepack : pool.repack = .ok copy) : copy = .empty := by
  obtain ⟨-, -, rfl⟩ := repack_eq_ok_iff.mp hrepack
  rw [copiedNodes, hnodes, Nat.mod_self]
  rfl

theorem empty_tallied (limits : Limits) : (exactFit .empty).Tallied limits := by
  have hsound : (exactFit .empty).Sound := ExactFitPool.empty_sound
  have hdegree (node : Nat) : (exactFit .empty).degree node = 0 := by
    rw [← size_row hsound, row_of_nodeCount_le hsound (Nat.zero_le node), List.size_toArray,
      List.length_nil]
  refine ⟨hsound, trivial, fun nodes _ => ?_, fun node => ?_, fun _ => rfl⟩
  · exact (Finset.sum_eq_zero fun node _ => hdegree node).symm
  · rw [hdegree]
    exact Nat.zero_le _

theorem Kept.repack (h : pool.Kept limits) (hrepack : pool.repack = .ok copy) :
    (exactFit copy).Kept limits := by
  by_cases hnodes : pool.nodeCount < UInt32.size
  · obtain ⟨hsound, hcount, hrow⟩ := repack_sound h.tallied.sound hnodes hrepack
    refine ⟨h.tallied.repack hnodes hrepack, h.degree_pos, h.nodes_pos, ?_, fun hopen => ?_,
      fun node hnode => ?_⟩
    · rw [hcount]
      exact h.nodes_le
    · contradiction
    · rw [← size_row hsound, hrow, size_row h.tallied.sound]
      exact h.highest node (hcount.symm.trans hnode)
  · have hall : pool.nodeCount = UInt32.size := Nat.le_antisymm h.nodes_le (Nat.le_of_not_lt hnodes)
    rw [repack_of_all_counted hall hrepack]
    refine ⟨empty_tallied limits, h.degree_pos, h.nodes_pos, Nat.zero_le _, fun hopen => ?_,
      fun node hnode => ?_⟩
    · contradiction
    · contradiction

/-- A new pool is that of a segment whose limits say the same of it. -/
theorem exists_limits_of_uniform {maxNodes maxDegree : Nat} {pool : UniformPool}
    (h : UniformPool.create maxNodes maxDegree = .ok pool) :
    ∃ limits, Segment.createPool limits = .ok (.uniform pool) ∧
      limits.maxNodesPerSegment = maxNodes ∧ limits.maxDegree = maxDegree := by
  refine ⟨{ Limits.standard with
    pool := .uniform
    maxNodesPerSegment := maxNodes
    maxDegree }, ?_, rfl, rfl⟩
  unfold Segment.createPool
  simp [h, Except.map]

theorem exists_limits_of_powerLaw {bounds : PowerLawBounds} {pool : PowerLawPool}
    (h : PowerLawPool.create bounds = .ok pool) :
    ∃ limits, Segment.createPool limits = .ok (.powerLaw pool) ∧
      limits.maxNodesPerSegment = bounds.maxNodes ∧ limits.maxDegree = bounds.maxDegree := by
  refine ⟨{ Limits.standard with
    pool := .powerLaw
    maxNodesPerSegment := bounds.maxNodes
    segmentEdgeCapacity := bounds.maxEdges
    maxDegree := bounds.maxDegree
    minSizeClassBits := bounds.minClassBits }, ?_, rfl, rfl⟩
  unfold Segment.createPool
  simp [h, Except.map]

/-- Every call keeps the pool in order, whatever it was made for. -/
theorem Reached.kept (h : pool.Reached) : ∃ limits, pool.Kept limits := by
  induction h with
  | uniform hcreate =>
    obtain ⟨limits, hcreated, -⟩ := exists_limits_of_uniform hcreate
    exact ⟨limits, createPool_kept hcreated⟩
  | powerLaw hcreate =>
    obtain ⟨limits, hcreated, -⟩ := exists_limits_of_powerLaw hcreate
    exact ⟨limits, createPool_kept hcreated⟩
  | add node entry _ ih =>
    obtain ⟨limits, hkept⟩ := ih
    exact ⟨limits, hkept.add node.toNat_lt entry⟩
  | sealed _ ih =>
    obtain ⟨limits, hkept⟩ := ih
    exact ⟨limits, hkept.sealed⟩
  | repacked _ hrepack ih =>
    obtain ⟨limits, hkept⟩ := ih
    exact ⟨limits, hkept.repack hrepack⟩

end Pool

/-! ## Pools with one entry -/

namespace UniformPool

def blank (maxNodes maxDegree : Nat) : UniformPool where
  maxNodes
  maxDegree
  rows := ∅
  nodeCount := 0
  edgeCount := 0
  isSealed := false

@[simp] theorem row_blank (maxNodes maxDegree node : Nat) :
    (blank maxNodes maxDegree).row node = #[] :=
  Std.HashMap.getD_empty

theorem add_blank {maxNodes maxDegree node : Nat} (hdegree : 0 < maxDegree)
    (hnode : node < (blank maxNodes maxDegree).nodeLimit) (entry : UInt32) :
    (blank maxNodes maxDegree).add node entry =
      ((blank maxNodes maxDegree).push node entry, .ok ()) := by
  have hcheck : (blank maxNodes maxDegree).check node = .ok () := by
    unfold check degree
    rw [row_blank]
    exact (if_neg Bool.false_ne_true).trans (if_neg (Nat.not_le.mpr hdegree))
  have hanswer := (add_eq_check hnode entry).trans hcheck
  unfold add at hanswer ⊢
  split at hanswer
  · contradiction
  · rfl

end UniformPool

namespace Pool

/-- A uniform pool with one entry. -/
def single (maxNodes maxDegree : Nat) (node entry : UInt32) : Pool :=
  uniform ((UniformPool.blank maxNodes maxDegree).push node.toNat entry)

theorem single_reached {maxNodes maxDegree : Nat} {node : UInt32}
    (hcreate : UniformPool.create maxNodes maxDegree = .ok (.blank maxNodes maxDegree))
    (hnode : node.toNat < (UniformPool.blank maxNodes maxDegree).nodeLimit) (entry : UInt32) :
    (single maxNodes maxDegree node entry).Reached := by
  have hadded := Reached.add node entry (.uniform hcreate)
  have hadd := UniformPool.add_blank (UniformPool.pos_of_create hcreate).2 hnode entry
  simp only [add, hadd] at hadded
  exact hadded

theorem row_single (maxNodes maxDegree : Nat) (node entry : UInt32) (other : Nat) :
    (single maxNodes maxDegree node entry).row other =
      if node.toNat = other then #[entry] else #[] := by
  show ((UniformPool.blank maxNodes maxDegree).push node.toNat entry).row other = _
  rw [UniformPool.row_push, UniformPool.row_blank]
  rfl

theorem degree_single (maxNodes maxDegree : Nat) (node entry : UInt32) (other : Nat) :
    (single maxNodes maxDegree node entry).degree other = if node.toNat = other then 1 else 0 := by
  show ((single maxNodes maxDegree node entry).row other).size = _
  rw [row_single]
  split <;> rfl

end Pool

end Slidewalk
