import Slidewalk.EdgeCodec

/-!
# A bit mask is a faithful packing

Below its two bounds the index and the type lie in bits of their own, and there is no word that two
pairs share or that no pair has.
-/

namespace Slidewalk.BitMask

theorem toNat_packed (mask : BitMask) {index : Nat} {kind : EdgeType}
    (hindex : index < mask.indexSize) (hkind : kind.toNat < mask.typeSize) :
    (UInt32.ofNat (kind.toNat * mask.indexSize + index)).toNat =
      kind.toNat * mask.indexSize + index := by
  have hsize := mask.typeSize_mul_indexSize
  have hle : (kind.toNat + 1) * mask.indexSize ≤ mask.typeSize * mask.indexSize :=
    Nat.mul_le_mul_right _ hkind
  rw [Nat.succ_mul] at hle
  rw [UInt32.toNat_ofNat', Nat.mod_eq_of_lt]
  show _ < UInt32.size
  omega

theorem typeSize_pos (mask : BitMask) : 0 < mask.typeSize := Nat.two_pow_pos mask.typeBits

/-- The types in range are numbered below the number of types. -/
theorem le_maxKind_iff (mask : BitMask) {kind : EdgeType} :
    kind ≤ mask.maxKind ↔ kind.toNat < mask.typeSize := by
  have hpos := mask.typeSize_pos
  rw [UInt8.le_iff_toNat_le, mask.toNat_maxKind]
  omega

theorem le_maxIndex_iff (mask : BitMask) {index : Nat} :
    index ≤ mask.maxIndex ↔ index < mask.indexSize := by
  have hpos := mask.indexSize_pos
  unfold maxIndex
  omega

/-- What is in range is packed, and nothing else. -/
theorem encode_eq_ok_iff (mask : BitMask) {index : Nat} {kind : EdgeType} {packed : UInt32} :
    mask.encode index kind = .ok packed ↔ index ≤ mask.maxIndex ∧ kind ≤ mask.maxKind ∧
      packed.toNat = kind.toNat * mask.indexSize + index := by
  unfold encode
  split
  · rename_i hindex
    simp only [reduceCtorEq, false_iff, not_and]
    omega
  split
  · rename_i hkind
    simp only [reduceCtorEq, false_iff, not_and]
    exact fun _ hle => absurd hle (UInt8.not_le.mpr hkind)
  rename_i hindex hkind
  rw [Nat.not_lt] at hindex
  rw [UInt8.not_lt] at hkind
  have hpacked := mask.toNat_packed (mask.le_maxIndex_iff.mp hindex) (mask.le_maxKind_iff.mp hkind)
  rw [Except.ok.injEq, ← UInt32.toNat_inj, hpacked]
  exact ⟨fun h => ⟨hindex, hkind, h.symm⟩, fun h => h.2.2.symm⟩

/-! ## Unpacking -/

theorem index_lt (mask : BitMask) (packed : UInt32) : mask.index packed < mask.indexSize :=
  Nat.mod_lt _ mask.indexSize_pos

/-- Every word holds a type in range: what is above the index has as many bits as a type. -/
theorem div_indexSize_lt (mask : BitMask) (packed : UInt32) :
    packed.toNat / mask.indexSize < mask.typeSize := by
  rw [Nat.div_lt_iff_lt_mul mask.indexSize_pos, mask.typeSize_mul_indexSize]
  exact packed.toNat_lt

theorem toNat_kind (mask : BitMask) (packed : UInt32) :
    (mask.kind packed).toNat = packed.toNat / mask.indexSize := by
  have hlt := mask.div_indexSize_lt packed
  have hle : mask.typeSize ≤ 256 := mask.typeSize_le
  unfold kind
  rw [UInt8.toNat_ofNat']
  exact Nat.mod_eq_of_lt (by omega)

/-- A word is what its index and its type pack to. -/
theorem encode_unpacked (mask : BitMask) (packed : UInt32) :
    mask.encode (mask.index packed) (mask.kind packed) = .ok packed := by
  rw [encode_eq_ok_iff, le_maxIndex_iff, le_maxKind_iff, toNat_kind]
  exact ⟨mask.index_lt packed, mask.div_indexSize_lt packed, (Nat.div_add_mod' _ _).symm⟩

theorem unpacked_of_encode (mask : BitMask) {index : Nat} {kind : EdgeType} {packed : UInt32}
    (h : mask.encode index kind = .ok packed) :
    mask.index packed = index ∧ mask.kind packed = kind := by
  obtain ⟨hindex, hkind, hpacked⟩ := mask.encode_eq_ok_iff.mp h
  rw [le_maxIndex_iff] at hindex
  constructor
  · unfold BitMask.index
    rw [hpacked, Nat.mul_add_mod_self_right, Nat.mod_eq_of_lt hindex]
  · rw [← UInt8.toNat_inj, toNat_kind, hpacked, Nat.mul_comm, Nat.mul_add_div mask.indexSize_pos,
      Nat.div_eq_of_lt hindex, Nat.add_zero]

theorem toCodec_roundTrips (mask : BitMask) : mask.toCodec.RoundTrips := by
  intro index kind hindex hkind
  have hpacked := mask.toNat_packed (mask.le_maxIndex_iff.mp hindex) (mask.le_maxKind_iff.mp hkind)
  have hencode := mask.encode_eq_ok_iff.mpr ⟨hindex, hkind, hpacked⟩
  exact ⟨_, hencode, mask.unpacked_of_encode hencode⟩

/-! ## All words -/

/-- Pairs in range and words correspond, with the type in the high bits of the word and the index in
the low ones. -/
structure Bijects (mask : BitMask) : Prop where
  packs_iff : ∀ index kind, (∃ packed, mask.encode index kind = .ok packed) ↔
    index ≤ mask.maxIndex ∧ kind ≤ mask.maxKind
  unpacks : ∀ index kind packed, mask.encode index kind = .ok packed →
    mask.index packed = index ∧ mask.kind packed = kind
  inRange : ∀ packed, mask.index packed ≤ mask.maxIndex ∧ mask.kind packed ≤ mask.maxKind
  packs : ∀ packed, mask.encode (mask.index packed) (mask.kind packed) = .ok packed
  distinct : ∀ index kind index' kind' packed, mask.encode index kind = .ok packed →
    mask.encode index' kind' = .ok packed → index = index' ∧ kind = kind'
  joined : ∀ index kind packed, mask.encode index kind = .ok packed →
    packed.toNat = kind.toNat <<< mask.indexBits ||| index
  split : ∀ packed, mask.index packed = packed.toNat &&& mask.maxIndex ∧
    (mask.kind packed).toNat = packed.toNat >>> mask.indexBits
  sizes : (mask.maxIndex + 1) * (mask.maxKind.toNat + 1) = UInt32.size

theorem bijects (mask : BitMask) : mask.Bijects where
  packs_iff := by
    intro index kind
    constructor
    · rintro ⟨packed, hpacked⟩
      obtain ⟨hindex, hkind, -⟩ := mask.encode_eq_ok_iff.mp hpacked
      exact ⟨hindex, hkind⟩
    · rintro ⟨hindex, hkind⟩
      obtain ⟨packed, hpacked, -⟩ := mask.toCodec_roundTrips index kind hindex hkind
      exact ⟨packed, hpacked⟩
  unpacks := fun _ _ _ => mask.unpacked_of_encode
  inRange := by
    intro packed
    obtain ⟨hindex, hkind, -⟩ := mask.encode_eq_ok_iff.mp (mask.encode_unpacked packed)
    exact ⟨hindex, hkind⟩
  packs := mask.encode_unpacked
  distinct := by
    intro index kind index' kind' packed h h'
    obtain ⟨hindex, hkind⟩ := mask.unpacked_of_encode h
    obtain ⟨hindex', hkind'⟩ := mask.unpacked_of_encode h'
    exact ⟨hindex.symm.trans hindex', hkind.symm.trans hkind'⟩
  joined := by
    intro index kind packed h
    obtain ⟨hindex, -, hpacked⟩ := mask.encode_eq_ok_iff.mp h
    rw [hpacked, ← Nat.shiftLeft_add_eq_or_of_lt (mask.le_maxIndex_iff.mp hindex),
      Nat.shiftLeft_eq]
    rfl
  split := by
    intro packed
    refine ⟨(Nat.and_two_pow_sub_one_eq_mod _ _).symm, ?_⟩
    rw [toNat_kind, Nat.shiftRight_eq_div_pow]
    rfl
  sizes := by
    have hindex : mask.maxIndex + 1 = mask.indexSize := Nat.sub_add_cancel mask.indexSize_pos
    have hkind : mask.maxKind.toNat + 1 = mask.typeSize := by
      rw [mask.toNat_maxKind]
      exact Nat.sub_add_cancel mask.typeSize_pos
    rw [hindex, hkind, Nat.mul_comm, mask.typeSize_mul_indexSize]

/-- For every width that is allowed, the entries are all words, each of one index and one type. -/
theorem packed_entries_biject (bits : Nat) (hbits : bits ≤ maxTypeBits) :
    ∃ mask, ofWidth bits = .ok mask ∧ mask.typeBits = bits ∧ mask.Bijects :=
  ⟨⟨bits, hbits⟩, dif_pos hbits, rfl, bijects _⟩

/-- Without a type, the whole word is the index. -/
theorem untyped_entries_biject : 0 ≤ maxTypeBits ∧
    ∃ mask, ofWidth 0 = .ok mask ∧ mask.typeBits = 0 ∧ mask.Bijects :=
  ⟨by decide, packed_entries_biject 0 (by decide)⟩

end Slidewalk.BitMask
