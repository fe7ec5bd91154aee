import Mathlib.Data.Nat.Log
import Slidewalk.Binary64

/-!
# Doubles count exactly

A mantissa can be moved against its exponent without a difference to the rounding. Every whole
number up to two to the fifty-third has a double of its own, so as long as the sum is no larger the
sum of two of them is exact.
-/

namespace Slidewalk.Binary64

/-! ## Moving a mantissa -/

theorem roundHalfEven_mul (num den : Nat) {factor : Nat} (hpos : 0 < factor) :
    roundHalfEven (num * factor) (den * factor) = roundHalfEven num den := by
  have hless : 2 * (num % den * factor) < den * factor ↔ 2 * (num % den) < den := by
    rw [← Nat.mul_assoc, Nat.mul_lt_mul_right hpos]
  have hmore : den * factor < 2 * (num % den * factor) ↔ den < 2 * (num % den) := by
    rw [← Nat.mul_assoc, Nat.mul_lt_mul_right hpos]
  unfold roundHalfEven
  dsimp only
  rw [Nat.mul_div_mul_right _ _ hpos, Nat.mul_mod_mul_right]
  simp only [hless, hmore]

/-- What divides evenly is not rounded. -/
theorem roundHalfEven_of_dvd (quotient : Nat) {den : Nat} (hpos : 0 < den) :
    roundHalfEven (quotient * den) den = quotient := by
  unfold roundHalfEven
  dsimp only
  rw [Nat.mul_mod_left, Nat.mul_div_cancel _ hpos, if_pos (by omega)]

theorem log2_shiftLeft {m : Nat} (hm : m ≠ 0) (k : Nat) : (m <<< k).log2 = m.log2 + k := by
  have hne : m * 2 ^ k ≠ 0 := Nat.mul_ne_zero hm (Nat.two_pow_pos k).ne'
  rw [Nat.shiftLeft_eq, Nat.log2_eq_iff hne, Nat.pow_add]
  refine ⟨Nat.mul_le_mul_right _ (Nat.log2_self_le hm), ?_⟩
  rw [Nat.add_right_comm, Nat.pow_add]
  exact Nat.mul_lt_mul_of_pos_right Nat.lt_log2_self (Nat.two_pow_pos k)

theorem scaledBits_shift {m : Nat} (hm : m ≠ 0) (k : Nat) (e : Int) :
    scaledBits (m <<< k) (e - k) = scaledBits m e := by
  have hlast : lastPlace (m <<< k) (e - k) = lastPlace m e := by
    unfold lastPlace
    rw [log2_shiftLeft hm]
    congr 1
    omega
  unfold scaledBits
  rw [hlast]
  generalize lastPlace m e = last
  dsimp only
  congr 2
  by_cases hhigh : last ≤ e
  · rw [if_pos hhigh]
    by_cases hlow : last ≤ e - k
    · rw [if_pos hlow, ← Nat.shiftLeft_add]
      congr 1
      omega
    -- the places that are cut off are those that were moved in
    · rw [if_neg hlow, Nat.one_shiftLeft, Nat.shiftLeft_eq, Nat.shiftLeft_eq]
      have hk : k = (e - last).toNat + (last - (e - k)).toNat := by omega
      rw [congrArg (2 ^ ·) hk, Nat.pow_add, ← Nat.mul_assoc]
      exact roundHalfEven_of_dvd _ (Nat.two_pow_pos _)
  · rw [if_neg hhigh, if_neg (by omega), Nat.one_shiftLeft, Nat.one_shiftLeft, Nat.shiftLeft_eq]
    have hplaces : (last - (e - k)).toNat = (last - e).toNat + k := by omega
    rw [hplaces, Nat.pow_add]
    exact roundHalfEven_mul _ _ (Nat.two_pow_pos k)

theorem scaled_shift (negative : Bool) (m k : Nat) (e : Int) :
    scaled negative (m <<< k) (e - k) = scaled negative m e := by
  unfold scaled
  by_cases hm : m = 0
  · rw [hm, Nat.zero_shiftLeft, if_pos rfl, if_pos rfl]
  · have hne : m <<< k ≠ 0 := by
      rw [Nat.shiftLeft_eq]
      exact Nat.mul_ne_zero hm (Nat.two_pow_pos k).ne'
    rw [if_neg hm, if_neg hne, scaledBits_shift hm]

/-! ## Whole numbers -/

/-- The whole number that a mantissa and an exponent stand for. -/
def Stands (m : Nat) (e : Int) (n : Nat) : Prop := m <<< e.toNat = n <<< (-e).toNat

namespace Stands

variable {m m' n n' : Nat} {e f : Int}

theorem scaled_eq (h : Stands m e n) (negative : Bool) :
    scaled negative m e = scaled negative n 0 := by
  have hm := scaled_shift negative m e.toNat e
  have hn := scaled_shift negative n (-e).toNat 0
  have hsame : e - e.toNat = 0 - ((-e).toNat : Int) := by omega
  rw [← hm, h, hsame, hn]

theorem eq_zero_iff (h : Stands m e n) : m = 0 ↔ n = 0 := by
  unfold Stands at h
  rw [Nat.shiftLeft_eq, Nat.shiftLeft_eq] at h
  have hpos := Nat.two_pow_pos e.toNat
  have hpos' := Nat.two_pow_pos (-e).toNat
  constructor
  · rintro rfl
    rw [Nat.zero_mul] at h
    exact (Nat.mul_eq_zero.mp h.symm).resolve_right hpos'.ne'
  · rintro rfl
    rw [Nat.zero_mul] at h
    exact (Nat.mul_eq_zero.mp h).resolve_right hpos.ne'

/-- The same number with a smaller exponent. -/
theorem align (h : Stands m e n) (hle : f ≤ e) : Stands (m <<< (e - f).toNat) f n := by
  unfold Stands at h ⊢
  have hm : (e - f).toNat + f.toNat = e.toNat + ((-f).toNat - (-e).toNat) := by omega
  have hn : (-f).toNat = (-e).toNat + ((-f).toNat - (-e).toNat) := by omega
  rw [← Nat.shiftLeft_add, hm, Nat.shiftLeft_add, h, ← Nat.shiftLeft_add, ← hn]

theorem add (h : Stands m e n) (h' : Stands m' e n') : Stands (m + m') e (n + n') := by
  unfold Stands at h h' ⊢
  rw [Nat.shiftLeft_eq, Nat.shiftLeft_eq] at h h' ⊢
  rw [Nat.add_mul, Nat.add_mul, h, h']

end Stands

/-- Doubles count up to here. -/
def countLimit : Nat := 9007199254740992

theorem scaledBits_of_lt {n : Nat} (hpos : n ≠ 0) (hlog : n.log2 ≤ 52) :
    scaledBits n 0 = (n.log2 + 1022) * hiddenBit + n <<< (52 - n.log2) := by
  have hlast : lastPlace n 0 = (n.log2 : Int) - 52 := by
    unfold lastPlace minExponent
    omega
  have hfit : n <<< (52 - n.log2) < 2 * hiddenBit := by
    have hsize : (n <<< (52 - n.log2)).log2 = 52 := by
      rw [log2_shiftLeft hpos]
      omega
    have hlt := Nat.lt_log2_self (n := n <<< (52 - n.log2))
    rw [hsize] at hlt
    exact hlt
  unfold scaledBits
  rw [hlast]
  dsimp only
  rw [if_pos (by omega)]
  have hfield : ((n.log2 : Int) - 52 - minExponent).toNat = n.log2 + 1022 := by
    unfold minExponent
    omega
  have hplaces : (0 - ((n.log2 : Int) - 52)).toNat = 52 - n.log2 := by omega
  rw [hfield, hplaces]
  apply Nat.min_eq_left
  have hmost : (n.log2 + 1022) * hiddenBit ≤ 1074 * hiddenBit := Nat.mul_le_mul_right _ (by omega)
  calc _ ≤ 1074 * hiddenBit + 2 * hiddenBit := Nat.add_le_add hmost (Nat.le_of_lt hfit)
    _ ≤ infinityBits := by decide

theorem shapeOfBits_of_normal {field fraction : Nat} (hfield : field < 2046)
    (hfraction : fraction < hiddenBit) :
    shapeOfBits ((field + 1) * hiddenBit + fraction) =
      .finite false (hiddenBit + fraction) (minExponent + field) := by
  have hpos : 0 < hiddenBit := by decide
  have hdiv : ((field + 1) * hiddenBit + fraction) / hiddenBit = field + 1 := by
    rw [Nat.mul_comm, Nat.mul_add_div hpos, Nat.div_eq_of_lt hfraction]
  have hmod : ((field + 1) * hiddenBit + fraction) % hiddenBit = fraction := by
    rw [Nat.mul_comm, Nat.mul_add_mod, Nat.mod_eq_of_lt hfraction]
  have hbiased : (field + 1) % 2048 = field + 1 := Nat.mod_eq_of_lt (by omega)
  unfold shapeOfBits
  dsimp only
  rw [hdiv, hmod, hbiased, if_neg (by omega), if_neg (by omega), decide_eq_false (by omega)]
  rfl

theorem shape_signed {magnitude : Nat} (h : magnitude < signBit) :
    (signed false magnitude).shape = shapeOfBits magnitude := by
  have hsize : magnitude % 2 ^ 64 = magnitude := Nat.mod_eq_of_lt (Nat.lt_trans h (by decide))
  unfold shape signed
  rw [if_neg (by decide), Nat.add_zero, UInt64.toNat_ofNat', hsize]

/-- The double of a whole number stands for it. -/
theorem exists_shape_ofNat {n : Nat} (h : n ≤ countLimit) :
    ∃ m e, (ofNat n).shape = .finite false m e ∧ Stands m e n := by
  by_cases hzero : n = 0
  · subst hzero
    exact ⟨0, minExponent, rfl, rfl⟩
  by_cases hlimit : n = countLimit
  · subst hlimit
    exact ⟨hiddenBit, 1, by decide, rfl⟩
  · have hlog : n.log2 ≤ 52 := by
      have hlt : n.log2 < 53 := (Nat.log2_lt hzero).mpr (Nat.lt_of_le_of_ne h hlimit)
      omega
    have hsize : (n <<< (52 - n.log2)).log2 = 52 := by
      rw [log2_shiftLeft hzero]
      omega
    have hne : n <<< (52 - n.log2) ≠ 0 := fun hnil => by simp [hnil] at hsize
    obtain ⟨hlow, hhigh⟩ := (Nat.log2_eq_iff hne).mp hsize
    have hlow : hiddenBit ≤ n <<< (52 - n.log2) := hlow
    have hhigh : n <<< (52 - n.log2) < 2 * hiddenBit := hhigh
    have hbits : scaledBits n 0 =
        (n.log2 + 1022 + 1) * hiddenBit + (n <<< (52 - n.log2) - hiddenBit) := by
      have hcarry := Nat.succ_mul (n.log2 + 1022) hiddenBit
      rw [scaledBits_of_lt hzero hlog, hcarry, Nat.add_assoc, Nat.add_sub_cancel' hlow]
    have hsigned : scaledBits n 0 < signBit :=
      Nat.lt_of_le_of_lt (scaledBits_le n 0) (by decide)
    refine ⟨n <<< (52 - n.log2), minExponent + (n.log2 + 1022 : Nat), ?_, ?_⟩
    · unfold ofNat scaled
      rw [if_neg hzero, shape_signed hsigned, hbits,
        shapeOfBits_of_normal (by omega) (by omega), Nat.add_sub_cancel' hlow]
    · unfold Stands minExponent
      have hup : (-1074 + ((n.log2 + 1022 : Nat) : Int)).toNat = 0 := by omega
      have hdown : (-(-1074 + ((n.log2 + 1022 : Nat) : Int))).toNat = 52 - n.log2 := by omega
      rw [hup, hdown]
      rfl

theorem toUInt64_ofNat {n : Nat} (h : n ≤ countLimit) : (ofNat n).toUInt64.toNat = n := by
  obtain ⟨m, e, hshape, hstands⟩ := exists_shape_ofNat h
  unfold toUInt64
  rw [hshape]
  dsimp only
  rw [hstands, Nat.shiftLeft_shiftRight, UInt64.toNat_ofNat']
  have hless : countLimit < UInt64.size - 1 := by decide
  rw [Nat.min_eq_left (by omega)]
  exact Nat.mod_eq_of_lt (Nat.lt_of_le_of_lt h (by decide))

theorem ofNat_add {a b : Nat} (h : a + b ≤ countLimit) : ofNat a + ofNat b = ofNat (a + b) := by
  obtain ⟨m, e, hshape, hstands⟩ := exists_shape_ofNat (Nat.le_trans (Nat.le_add_right a b) h)
  obtain ⟨m', f, hshape', hstands'⟩ := exists_shape_ofNat (Nat.le_trans (Nat.le_add_left b a) h)
  have hnan (n : Nat) : (ofNat n).isNaN = false := isNaN_scaled false n 0
  show lift sum (ofNat a) (ofNat b) = _
  unfold lift
  rw [hnan, hnan, if_neg (by decide), if_neg (by decide), hshape, hshape']
  unfold sum
  dsimp only
  by_cases hm : m = 0
  · rw [if_pos hm, hstands.eq_zero_iff.mp hm, Nat.zero_add]
    by_cases hm' : m' = 0
    · rw [if_pos hm', hstands'.eq_zero_iff.mp hm']
      rfl
    · rw [if_neg hm']
      exact hstands'.scaled_eq false
  · rw [if_neg hm]
    by_cases hm' : m' = 0
    · rw [if_pos hm', hstands'.eq_zero_iff.mp hm', Nat.add_zero]
      exact hstands.scaled_eq false
    -- both mantissas are moved to the smaller exponent and added there
    · rw [if_neg hm', if_pos rfl]
      exact ((hstands.align (Int.min_le_left e f)).add
        (hstands'.align (Int.min_le_right e f))).scaled_eq false

/-- At the limit one more is lost to rounding. -/
theorem ofNat_countLimit_add_one : ofNat countLimit + ofNat 1 = ofNat countLimit := by decide

end Slidewalk.Binary64
