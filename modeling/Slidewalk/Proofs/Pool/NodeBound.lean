import Slidewalk.Proofs.Limits
import Slidewalk.Proofs.Pool.Reached

/-!
# The bounds of a pool

A pool takes an entry only for a node that fits and has room in its list. Which nodes fit is decided
by whole chunks. So a pool keeps to the number of nodes it was made for if these fill their chunks,
or if no number of 32 bits is beyond them; otherwise it takes entries of some nodes more.
-/

namespace Slidewalk

/-! ## Whole chunks -/

theorem roundUp_eq_iff {size chunk : Nat} (h : 0 < chunk) :
    roundUp size chunk = size ↔ chunk ∣ size := by
  constructor
  · intro heq
    rw [← heq]
    exact Nat.dvd_mul_left _ _
  · rintro ⟨count, rfl⟩
    rw [Nat.mul_comm, roundUp_mul count h]

/-- Rounding up does not depend on the unit. -/
theorem roundUp_mul_mul {size chunk unit : Nat} (hchunk : 0 < chunk) (hunit : 0 < unit) :
    roundUp (size * unit) (chunk * unit) = roundUp size chunk * unit := by
  have hchunkUnit : chunk * unit = (chunk - 1) * unit + unit := by
    rw [← Nat.succ_mul]
    congr 1
    omega
  have hsum : size * unit + (chunk * unit - 1) = unit - 1 + (size + (chunk - 1)) * unit := by
    rw [Nat.add_mul]
    omega
  -- whole units are counted first, and a part of a unit adds nothing to their number
  have hcount : (size * unit + (chunk * unit - 1)) / (chunk * unit) =
      (size + (chunk - 1)) / chunk := by
    rw [hsum, Nat.mul_comm chunk, ← Nat.div_div_eq_div_mul, Nat.add_mul_div_right _ _ hunit,
      Nat.div_eq_of_lt (Nat.sub_lt hunit Nat.one_pos), Nat.zero_add]
  unfold roundUp
  rw [hcount, Nat.mul_assoc]

theorem nodeRoom_eq_iff {maxNodes : Nat} (h : 0 < maxNodes) :
    nodeRoom maxNodes = maxNodes ↔ maxNodes ≤ chunkEntries ∨ chunkEntries ∣ maxNodes := by
  by_cases hle : maxNodes ≤ chunkEntries
  · exact iff_of_true (nodeRoom_of_le_chunk maxNodes h hle) (.inl hle)
  · rw [nodeRoom, Nat.min_eq_left (by omega), roundUp_eq_iff (by decide)]
    exact (or_iff_right hle).symm

theorem nodeRoom_lt {maxNodes : Nat} (h : 0 < maxNodes) :
    nodeRoom maxNodes < maxNodes + chunkEntries := by
  have hchunk : 0 < min chunkEntries maxNodes := Nat.lt_min.mpr ⟨by decide, h⟩
  have := roundUp_lt maxNodes hchunk
  unfold nodeRoom
  omega

namespace UniformPool

variable {maxNodes maxDegree : Nat} {pool : UniformPool}

/-- The slots that fill a chunk of entries. -/
def slotsPerChunk (pool : UniformPool) : Nat := max (chunkEntries / pool.maxDegree) 1

theorem slotsPerChunk_pos (pool : UniformPool) : 0 < pool.slotsPerChunk :=
  Nat.lt_of_lt_of_le Nat.one_pos (Nat.le_max_right _ _)

theorem nodeLimit_eq (h : 0 < pool.maxDegree) :
    pool.nodeLimit = min (nodeRoom pool.maxNodes) (roundUp pool.maxNodes pool.slotsPerChunk) := by
  have hroom : pool.entryRoom = roundUp pool.maxNodes pool.slotsPerChunk * pool.maxDegree :=
    roundUp_mul_mul pool.slotsPerChunk_pos h
  rw [nodeLimit, hroom, Nat.mul_div_cancel _ h]

/-- A new pool has room in every list. -/
theorem check_of_create (h : create maxNodes maxDegree = .ok pool) (node : Nat) :
    pool.check node = .ok () := by
  obtain ⟨-, ⟨-, hdegree⟩, -, -, hopen, hrow⟩ := create_sound h
  have hpos := (pos_of_create h).2
  unfold check degree
  rw [hopen, if_neg Bool.false_ne_true, hrow, hdegree]
  exact if_neg (Nat.not_le.mpr hpos)

end UniformPool

theorem PowerLawPool.check_of_create {bounds : PowerLawBounds} {pool : PowerLawPool}
    (h : create bounds = .ok pool) (node : Nat) : pool.check node = .ok () := by
  obtain ⟨hsound, rfl, -, -, hopen, hrow⟩ := create_sound h
  obtain ⟨hclass, hhandle, -⟩ := create_blank h
  obtain ⟨hnodes, hdegree⟩ := pos_of_create h
  have hnext : pool.nextClass node = some 0 := by
    unfold nextClass
    rw [hhandle]
  have hslot : pool.slotRefusal 0 = none := by
    have hroom : (pool.sizeClass 0).hasRoom (pool.bounds.maxSlots 0) = true := by
      rw [hclass]
      exact decide_eq_true hnodes
    unfold slotRefusal
    rw [if_neg (by rw [hsound.classes_size]; exact Nat.not_le.mpr pool.bounds.classCount_pos),
      if_pos hroom]
  have hempty : ¬ pool.bounds.maxDegree ≤ pool.degree node := by
    rw [degree, hrow]
    exact Nat.not_le.mpr hdegree
  have hlist : pool.listRefusal node = none := by
    unfold listRefusal
    rw [if_neg hempty, hnext]
    exact hslot
  unfold check
  rw [hopen, if_neg Bool.false_ne_true, hlist]

namespace Pool

/-- A new pool for a number of nodes that may have a number of entries each. -/
inductive New : (maxNodes maxDegree : Nat) → Pool → Prop where
  | uniform {maxNodes maxDegree : Nat} {pool : UniformPool}
      (create : UniformPool.create maxNodes maxDegree = .ok pool) :
      New maxNodes maxDegree (.uniform pool)
  | powerLaw {bounds : PowerLawBounds} {pool : PowerLawPool}
      (create : PowerLawPool.create bounds = .ok pool) :
      New bounds.maxNodes bounds.maxDegree (.powerLaw pool)

/-- The pool once entries were added in order, each under a node. -/
def addAll (pool : Pool) : List (UInt32 × UInt32) → Pool
  | [] => pool
  | (node, entry) :: rest => (pool.add node.toNat entry).1.addAll rest

/-- The pool takes entries of so many nodes at most, and so many of each. -/
structure Respects (maxNodes maxDegree : Nat) (pool : Pool) : Prop where
  taken : ∀ node entry : UInt32, (pool.add node.toNat entry).2 = .ok () →
    node.toNat < maxNodes ∧ pool.degree node.toNat < maxDegree
  nodeCount_le : pool.nodeCount ≤ maxNodes
  degree_le : ∀ node, pool.degree node ≤ maxDegree

/-- The nodes a pool was made for take up whole chunks: those of their lengths, or, where every node
has a slot of its own, those of the slots. -/
def FillsChunks : Pool → Prop
  | uniform pool => pool.maxNodes ≤ chunkEntries ∨ chunkEntries ∣ pool.maxNodes ∨
      pool.slotsPerChunk ∣ pool.maxNodes
  | powerLaw pool => pool.bounds.maxNodes ≤ chunkEntries ∨ chunkEntries ∣ pool.bounds.maxNodes
  | exactFit _ => True

variable {limits : Limits} {pool : Pool} {maxNodes maxDegree : Nat}

/-! ## New pools -/

namespace New

theorem kept (h : pool.New maxNodes maxDegree) : ∃ limits : Limits, pool.Kept limits ∧
    limits.maxDegree = maxDegree ∧ pool.isSealed = false := by
  cases h with
  | uniform hcreate =>
    obtain ⟨limits, hcreated, -, hdegree⟩ := exists_limits_of_uniform hcreate
    exact ⟨limits, createPool_kept hcreated, hdegree, (createPool_sound hcreated).2.2.2.2.1⟩
  | powerLaw hcreate =>
    obtain ⟨limits, hcreated, -, hdegree⟩ := exists_limits_of_powerLaw hcreate
    exact ⟨limits, createPool_kept hcreated, hdegree, (createPool_sound hcreated).2.2.2.2.1⟩

theorem check (h : pool.New maxNodes maxDegree) (node : Nat) : pool.check node = .ok () := by
  cases h with
  | uniform hcreate => exact UniformPool.check_of_create hcreate node
  | powerLaw hcreate => exact PowerLawPool.check_of_create hcreate node

theorem nodeLimit_bounds (h : pool.New maxNodes maxDegree) :
    maxNodes ≤ pool.nodeLimit ∧ pool.nodeLimit < maxNodes + chunkEntries := by
  cases h with
  | uniform hcreate =>
    obtain ⟨-, ⟨rfl, rfl⟩, -⟩ := UniformPool.create_sound hcreate
    obtain ⟨hnodes, hdegree⟩ := UniformPool.pos_of_create hcreate
    exact ⟨UniformPool.maxNodes_le_nodeLimit hnodes hdegree,
      Nat.lt_of_le_of_lt (Nat.min_le_left _ _) (nodeRoom_lt hnodes)⟩
  | powerLaw hcreate =>
    obtain ⟨-, rfl, -⟩ := PowerLawPool.create_sound hcreate
    have hnodes := (PowerLawPool.pos_of_create hcreate).1
    exact ⟨le_nodeRoom _ hnodes, nodeRoom_lt hnodes⟩

theorem nodeLimit_eq_iff (h : pool.New maxNodes maxDegree) :
    pool.nodeLimit = maxNodes ↔ pool.FillsChunks := by
  cases h with
  | @uniform _ _ pool hcreate =>
    obtain ⟨-, ⟨rfl, rfl⟩, -⟩ := UniformPool.create_sound hcreate
    obtain ⟨hnodes, hdegree⟩ := UniformPool.pos_of_create hcreate
    have hlengths := le_nodeRoom pool.maxNodes hnodes
    have hentries := le_roundUp pool.maxNodes pool.slotsPerChunk pool.slotsPerChunk_pos
    -- neither bound lies below the number of nodes, so the lower one is it if one of them is
    have hlower : pool.nodeLimit = pool.maxNodes ↔ nodeRoom pool.maxNodes = pool.maxNodes ∨
        roundUp pool.maxNodes pool.slotsPerChunk = pool.maxNodes := by
      rw [UniformPool.nodeLimit_eq hdegree]
      omega
    show pool.nodeLimit = pool.maxNodes ↔ _
    rw [hlower, nodeRoom_eq_iff hnodes, roundUp_eq_iff pool.slotsPerChunk_pos,
      or_assoc]
    rfl
  | powerLaw hcreate =>
    obtain ⟨-, rfl, -⟩ := PowerLawPool.create_sound hcreate
    exact nodeRoom_eq_iff (PowerLawPool.pos_of_create hcreate).1

end New

/-! ## Entries added to a pool -/

theorem isSealed_add (h : pool.Kept limits) (node : Nat) (entry : UInt32) :
    (pool.add node entry).1.isSealed = pool.isSealed := by
  obtain ⟨fault, hadd⟩ | ⟨grown, hadd, happends⟩ :=
    add_cases h.tallied.sound h.tallied.serves node entry
  · rw [hadd]
  · rw [hadd, happends.isSealed]

theorem Kept.addAll (h : pool.Kept limits) (entries : List (UInt32 × UInt32)) :
    (pool.addAll entries).Kept limits ∧ (pool.addAll entries).isSealed = pool.isSealed ∧
      (pool.addAll entries).nodeLimit = pool.nodeLimit := by
  induction entries generalizing pool with
  | nil => exact ⟨h, rfl, rfl⟩
  | cons first rest ih =>
    obtain ⟨hkept, hsealed, hlimit⟩ := ih (h.add first.1.toNat_lt first.2)
    exact ⟨hkept, hsealed.trans (isSealed_add h _ _), hlimit.trans (nodeLimit_add _ _ _)⟩

/-- An open pool takes an entry of a node that fits and has room in its list. -/
theorem Kept.respects (h : pool.Kept limits) (hopen : pool.isSealed = false) :
    pool.Respects pool.nodeLimit limits.maxDegree := by
  refine ⟨fun node entry htaken => ?_, h.fits hopen, h.tallied.degree_le⟩
  have hfits := lt_nodeLimit_of_add htaken
  exact ⟨hfits, degree_lt_of_check h.tallied.serves ((add_eq_check hfits entry).symm.trans htaken)⟩

/-- The bounds on lists hold always. The bound on nodes is the one the pool was made for exactly if
these nodes fill their chunks or no number is beyond them, and less than a chunk higher otherwise.

The places of entries are numbers without bound: what is said of nodes beyond those the pool was
made for is said of slots of at most `2 ^ 32` entries, as explained with `UniformPool.refusal`. -/
theorem bounds_respected_iff (h : pool.New maxNodes maxDegree) :
    (∀ entries, (pool.addAll entries).Respects pool.nodeLimit maxDegree) ∧
      (maxNodes ≤ pool.nodeLimit ∧ pool.nodeLimit < maxNodes + chunkEntries) ∧
      ((∀ entries, (pool.addAll entries).Respects maxNodes maxDegree) ↔
        pool.FillsChunks ∨ UInt32.size ≤ maxNodes) := by
  obtain ⟨limits, hkept, rfl, hopen⟩ := h.kept
  have hrespects (entries : List (UInt32 × UInt32)) :
      (pool.addAll entries).Kept limits ∧
        (pool.addAll entries).Respects pool.nodeLimit limits.maxDegree := by
    obtain ⟨hgrown, hsealed, hlimit⟩ := hkept.addAll entries
    exact ⟨hgrown, hlimit ▸ hgrown.respects (hsealed.trans hopen)⟩
  refine ⟨fun entries => (hrespects entries).2, h.nodeLimit_bounds, fun hall => ?_, ?_⟩
  · by_contra hneither
    obtain ⟨hpartial, hnumber⟩ := not_or.mp hneither
    have hlower := h.nodeLimit_bounds.1
    have hbeyond : maxNodes < pool.nodeLimit :=
      Nat.lt_of_le_of_ne hlower fun heq => hpartial (h.nodeLimit_eq_iff.mp heq.symm)
    -- the first node beyond those the pool was made for
    have hnode : (UInt32.ofNat maxNodes).toNat = maxNodes :=
      UInt32.toNat_ofNat_of_lt (Nat.lt_of_not_le hnumber)
    have htaken : (pool.add (UInt32.ofNat maxNodes).toNat 0).2 = .ok () := by
      rw [hnode, add_eq_check hbeyond, h.check]
    have := ((hall []).taken _ 0 htaken).1
    omega
  · rintro (hfills | hnumbers) entries
    · rw [← h.nodeLimit_eq_iff.mpr hfills]
      exact (hrespects entries).2
    · obtain ⟨hgrown, hwithin⟩ := hrespects entries
      exact ⟨fun node entry htaken => ⟨Nat.lt_of_lt_of_le node.toNat_lt hnumbers,
        (hwithin.taken node entry htaken).2⟩, hgrown.nodes_le.trans hnumbers, hwithin.degree_le⟩

/-- Every slot is a chunk of its own, so the bound on nodes is exact. -/
theorem blank_keeps_to_nodes : New 5000 4096 (.uniform (.blank 5000 4096)) ∧
    ∀ entries, ((uniform (.blank 5000 4096)).addAll entries).Respects 5000 4096 := by
  have hslots : (UniformPool.blank 5000 4096).slotsPerChunk = 1 := rfl
  have hfills : FillsChunks (.uniform (.blank 5000 4096)) := .inr (.inr (hslots ▸ one_dvd 5000))
  exact ⟨.uniform rfl, (bounds_respected_iff (.uniform rfl)).2.2.mpr (.inl hfills)⟩

/-- Made for 4097 nodes, a second chunk has room for thousands more. -/
theorem blank_exceeds_nodes : New 4097 1 (.uniform (.blank 4097 1)) ∧
    ((uniform (.blank 4097 1)).add 4097 7).2 = .ok () ∧
    ((uniform (.blank 4097 1)).add 4097 7).1.nodeCount = 4098 ∧
    ¬ ((uniform (.blank 4097 1)).addAll [(4097, 7)]).Respects 4097 1 := by
  have hlimit : 4097 < (UniformPool.blank 4097 1).nodeLimit := by decide
  have hadd := UniformPool.add_blank Nat.one_pos hlimit 7
  have hcount : ((uniform (.blank 4097 1)).add 4097 7).1.nodeCount = 4098 := by
    simp only [add, hadd]
    rfl
  refine ⟨.uniform rfl, ?_, hcount, fun hrespects => ?_⟩
  · simp only [add, hadd]
  · have : 4098 ≤ 4097 := hcount ▸ hrespects.nodeCount_le
    omega

end Pool

end Slidewalk
