import Slidewalk.Segment

/-!
# What validation makes sure of

Options are validated before a graph is made of them, so that making a segment need not fail. The
sizes a segment is laid out by are counted in 64 bits.
-/

namespace Slidewalk

/-- What is checked of the limits, given the packing they are used with. -/
structure Limits.Checked (codec : EdgeCodec) (limits : Limits) : Prop where
  capacity_pos : 0 < limits.segmentEdgeCapacity
  segments_pos : 0 < limits.maxSegments
  degree_pos : 0 < limits.maxDegree
  nodes_pos : 0 < limits.maxNodesPerSegment
  classBits_le : limits.minSizeClassBits ≤ maxMinClassBits
  addressable : limits.maxNodesPerSegment ≤ Options.addressable codec
  uniform_lt : limits.pool = .uniform →
    limits.maxNodesPerSegment * limits.maxDegree < UniformPool.sizeLimit

theorem Limits.zeroLimit_eq_none_iff {limits : Limits} :
    limits.zeroLimit = none ↔ 0 < limits.segmentEdgeCapacity ∧ 0 < limits.maxSegments ∧
      0 < limits.maxDegree ∧ 0 < limits.maxNodesPerSegment := by
  unfold zeroLimit
  grind

theorem Limits.uniformOverflows_eq_false_iff {limits : Limits} :
    limits.uniformOverflows = false ↔ (limits.pool = .uniform →
      limits.maxNodesPerSegment * limits.maxDegree < UniformPool.sizeLimit) := by
  unfold uniformOverflows
  simp

/-- Options are valid if and only if there is a packing and everything is as it should be. -/
theorem Options.validate_iff {options : Options} : options.validate = .ok () ↔
    ∃ codec, options.resolveCodec = .ok codec ∧ options.limits.Checked codec := by
  unfold validate
  simp only [bind, Except.bind, throw, throwThe, MonadExceptOf.throw, pure, Except.pure]
  constructor
  · intro h
    cases hzero : options.limits.zeroLimit with
    | some limit => simp [hzero] at h
    | none =>
      obtain ⟨hcapacity, hsegments, hdegree, hnodes⟩ := Limits.zeroLimit_eq_none_iff.mp hzero
      simp only [hzero] at h
      split at h
      · contradiction
      rename_i hbits
      cases hcodec : options.resolveCodec with
      | error fault => simp [hcodec] at h
      | ok codec =>
        simp only [hcodec] at h
        split at h
        · contradiction
        rename_i haddress
        split at h
        · contradiction
        rename_i huniform
        refine ⟨codec, rfl, hcapacity, hsegments, hdegree, hnodes, Nat.le_of_not_lt hbits,
          Nat.le_of_not_lt haddress, ?_⟩
        exact Limits.uniformOverflows_eq_false_iff.mp (Bool.eq_false_iff.mpr huniform)
  · rintro ⟨codec, hcodec, h⟩
    have hzero := Limits.zeroLimit_eq_none_iff.mpr
      ⟨h.capacity_pos, h.segments_pos, h.degree_pos, h.nodes_pos⟩
    have huniform := Limits.uniformOverflows_eq_false_iff.mpr h.uniform_lt
    simp only [hzero, hcodec, huniform]
    rw [if_neg (Nat.not_lt.mpr h.classBits_le), if_neg (Nat.not_lt.mpr h.addressable),
      if_neg (by decide)]

theorem Options.checked {options : Options} {codec : EdgeCodec} (hvalid : options.validate = .ok ())
    (hcodec : options.resolveCodec = .ok codec) : options.limits.Checked codec := by
  obtain ⟨found, hfound, hchecked⟩ := validate_iff.mp hvalid
  obtain rfl := Except.ok.inj (hcodec.symm.trans hfound)
  exact hchecked

/-! ## Sizes in words -/

theorem roundUp_lt {chunk : Nat} (size : Nat) (h : 0 < chunk) :
    roundUp size chunk < size + chunk := by
  have hle := Nat.div_mul_le_self (size + (chunk - 1)) chunk
  unfold roundUp
  omega

/-- Whole chunks are not rounded. -/
theorem roundUp_mul {chunk : Nat} (count : Nat) (h : 0 < chunk) :
    roundUp (count * chunk) chunk = count * chunk := by
  unfold roundUp
  rw [Nat.add_comm, Nat.add_mul_div_right _ _ h, Nat.div_eq_of_lt (by omega), Nat.zero_add]

theorem two_pow_ceilLog2_lt_iff {n bits : Nat} :
    Nat.pow 2 (ceilLog2 n) < Nat.pow 2 (bits + 1) ↔ n ≤ Nat.pow 2 bits := by
  have hexponent : Nat.pow 2 (ceilLog2 n) < Nat.pow 2 (bits + 1) ↔ ceilLog2 n < bits + 1 :=
    Nat.pow_lt_pow_iff_right (by decide)
  rw [hexponent, Nat.lt_succ_iff, ceilLog2_le_iff]

/-- The bounds that a power-law pool is made with. -/
def Limits.bounds (limits : Limits) : PowerLawBounds where
  maxNodes := limits.maxNodesPerSegment
  maxEdges := limits.segmentEdgeCapacity
  maxDegree := limits.maxDegree
  minClassBits := limits.minSizeClassBits

/-- The size classes are numbered in 8 bits, and what they hold is counted in 64 bits. -/
structure PowerLawBounds.FitWords (bounds : PowerLawBounds) : Prop where
  degree : Nat.pow 2 (ceilLog2 bounds.maxDegree) < UInt64.size
  classCount : bounds.classCount < UInt8.size
  slotLen : ∀ k < bounds.classCount, bounds.slotLen k < UInt64.size
  entries : ∀ k < bounds.classCount, bounds.maxSlots k * bounds.slotLen k < UInt64.size

/-- All that is worked out to lay out a segment is counted in 64 bits. -/
structure Limits.FitWords (limits : Limits) : Prop where
  table : (Table.sized (2 * min limits.initialNodeCapacity limits.maxNodesPerSegment)).size <
    UInt64.size
  nodes : nodeRoom limits.maxNodesPerSegment < UInt64.size
  uniform : limits.pool = .uniform → ∀ pool,
    UniformPool.create limits.maxNodesPerSegment limits.maxDegree = .ok pool →
    pool.entryRoom < UInt64.size
  powerLaw : limits.pool = .powerLaw → limits.bounds.FitWords

namespace PowerLawBounds

variable {bounds : PowerLawBounds}

/-- No slot is longer than the degree rounded up to a power of two, or than the smallest slots. -/
theorem slotLen_le (k : Nat) (hk : k < bounds.classCount) :
    bounds.slotLen k ≤ Nat.pow 2 (max (ceilLog2 bounds.maxDegree) bounds.minClassBits) := by
  unfold classCount at hk
  exact Nat.pow_le_pow_right (by decide) (by omega)

theorem fitWords (hnodes : bounds.maxNodes ≤ UInt32.size)
    (hdegree : bounds.maxDegree ≤ Nat.pow 2 63) (hbits : bounds.minClassBits ≤ maxMinClassBits) :
    bounds.FitWords := by
  have hlog : ceilLog2 bounds.maxDegree ≤ 63 := ceilLog2_le hdegree
  have hbits : bounds.minClassBits ≤ 16 := hbits
  have hslot (k : Nat) (hk : k < bounds.classCount) : bounds.slotLen k < UInt64.size := by
    refine Nat.lt_of_le_of_lt (slotLen_le k hk) ?_
    exact Nat.pow_lt_pow_right (by decide) (show _ < 64 by omega)
  refine ⟨two_pow_ceilLog2_lt_iff.mpr hdegree, ?_, hslot, fun k hk => ?_⟩
  · unfold classCount
    show _ < 256
    omega
  · unfold maxSlots
    split
    · rename_i hfirst
      subst hfirst
      have hlen : bounds.slotLen 0 ≤ Nat.pow 2 16 := Nat.pow_le_pow_right (by decide) hbits
      exact Nat.lt_of_le_of_lt (Nat.mul_le_mul hnodes hlen) (by decide)
    -- the other classes share what 64 bits count, or have a single slot
    · have hshared : bounds.sharedEntries < UInt64.size := by
        have hle : bounds.sharedEntries ≤ UInt64.size - 1 := Nat.min_le_right _ _
        exact Nat.lt_of_le_of_lt hle (by decide)
      have hle := Nat.div_mul_le_self bounds.sharedEntries (bounds.slotLen k)
      have hone := hslot k hk
      rcases Nat.le_total (bounds.sharedEntries / bounds.slotLen k) 1 with hfew | hmany
      · rw [Nat.max_eq_right hfew, Nat.one_mul]
        exact hone
      · rw [Nat.max_eq_left hmany]
        omega

end PowerLawBounds

namespace Limits

variable {limits : Limits} {codec : EdgeCodec}

theorem Checked.uniform_fits (h : limits.Checked codec)
    (hnodes : limits.maxNodesPerSegment ≤ UInt32.size) (huniform : limits.pool = .uniform)
    {pool : UniformPool}
    (hpool : UniformPool.create limits.maxNodesPerSegment limits.maxDegree = .ok pool) :
    pool.entryRoom < UInt64.size := by
  have hproduct := h.uniform_lt huniform
  have hdegree := h.degree_pos
  have hentries : pool.maxNodes = limits.maxNodesPerSegment ∧
      pool.maxDegree = limits.maxDegree := by
    unfold UniformPool.create at hpool
    split at hpool
    · contradiction
    split at hpool
    · contradiction
    · obtain rfl := Except.ok.inj hpool
      exact ⟨rfl, rfl⟩
  unfold UniformPool.entryRoom
  rw [hentries.1, hentries.2]
  rcases Nat.le_total limits.maxDegree chunkEntries with hshort | hlong
  -- several slots share a chunk, and there are few entries
  · have hchunk : max (chunkEntries / limits.maxDegree) 1 * limits.maxDegree ≤ chunkEntries := by
      rw [Nat.max_eq_left ((Nat.one_le_div_iff hdegree).mpr hshort)]
      exact Nat.div_mul_le_self _ _
    have hpos : 0 < max (chunkEntries / limits.maxDegree) 1 * limits.maxDegree :=
      Nat.mul_pos (by omega) hdegree
    have hround := roundUp_lt (limits.maxNodesPerSegment * limits.maxDegree) hpos
    have hfew := Nat.mul_le_mul hnodes hshort
    have hbound : UInt32.size * chunkEntries + chunkEntries < UInt64.size := by decide
    omega
  -- every slot is a chunk of its own
  · have hchunk : max (chunkEntries / limits.maxDegree) 1 = 1 := by
      apply Nat.max_eq_right
      rw [Nat.div_le_iff_le_mul_add_pred hdegree]
      omega
    rw [hchunk, Nat.one_mul, roundUp_mul _ hdegree]
    exact hproduct

/-- Of what is worked out for a segment only the degree of a power-law pool, once it is rounded up,
may need more than 64 bits. -/
theorem Checked.fitWords_iff (h : limits.Checked codec)
    (hnodes : limits.maxNodesPerSegment ≤ UInt32.size) :
    limits.FitWords ↔ (limits.pool = .powerLaw → limits.maxDegree ≤ Nat.pow 2 63) := by
  constructor
  · exact fun hfits hpool => two_pow_ceilLog2_lt_iff.mp (hfits.powerLaw hpool).degree
  · intro hdegree
    constructor
    case table =>
      have hroom :
          ceilLog2 (2 * min limits.initialNodeCapacity limits.maxNodesPerSegment) ≤ 33 := by
        apply ceilLog2_le
        show _ ≤ 8589934592
        have hsize : UInt32.size = 4294967296 := rfl
        omega
      unfold Table.sized
      rw [Table.size_empty]
      have hpow := Nat.pow_le_pow_right (show 0 < 2 by decide) hroom
      exact Nat.max_lt.mpr ⟨Nat.lt_of_le_of_lt hpow (by decide), by decide⟩
    case nodes =>
      have hround := roundUp_lt limits.maxNodesPerSegment
        (show 0 < min chunkEntries limits.maxNodesPerSegment from
          Nat.lt_min.mpr ⟨by decide, h.nodes_pos⟩)
      have hchunk : min chunkEntries limits.maxNodesPerSegment ≤ chunkEntries := Nat.min_le_left _ _
      have hbound : UInt32.size + chunkEntries < UInt64.size := by decide
      unfold nodeRoom
      omega
    case uniform => exact fun hpool pool hcreate => h.uniform_fits hnodes hpool hcreate
    case powerLaw =>
      exact fun hpool => PowerLawBounds.fitWords hnodes (hdegree hpool) h.classBits_le

end Limits

end Slidewalk
