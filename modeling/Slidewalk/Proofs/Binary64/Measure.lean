import Mathlib.Algebra.Group.Nat.Defs
import Slidewalk.Proofs.Binary64.Whole

/-!
# Measuring doubles

Nonnegative doubles are whole multiples of the least positive one. Rounding keeps the order of such
multiples, and leaves those alone that are doubles.
-/

namespace Slidewalk.Binary64

/-! ## Rounding keeps the order -/

theorem div_le_roundHalfEven (num den : Nat) : num / den ≤ roundHalfEven num den := by
  unfold roundHalfEven
  dsimp only
  split
  · exact Nat.le_refl _
  · split <;> omega

theorem roundHalfEven_le_div (num den : Nat) : roundHalfEven num den ≤ num / den + 1 := by
  unfold roundHalfEven
  dsimp only
  split
  · omega
  · split <;> omega

theorem roundHalfEven_mono {a b : Nat} (h : a ≤ b) (den : Nat) :
    roundHalfEven a den ≤ roundHalfEven b den := by
  rcases Nat.lt_or_eq_of_le (Nat.div_le_div_right h) with hless | hsame
  · calc roundHalfEven a den ≤ a / den + 1 := roundHalfEven_le_div a den
      _ ≤ b / den := hless
      _ ≤ roundHalfEven b den := div_le_roundHalfEven b den
  · have hrest : a % den ≤ b % den := by
      have ha := Nat.div_add_mod a den
      have hb := Nat.div_add_mod b den
      rw [hsame] at ha
      omega
    unfold roundHalfEven
    dsimp only
    rw [hsame]
    -- the quotients are the same, so the rests decide
    split
    · split
      · exact Nat.le_refl _
      · split <;> omega
    · split
      · rw [if_neg (by omega), if_pos (by omega)]
      · rw [if_neg (by omega)]
        split <;> omega

/-- A number in multiples of a last place. -/
def placed (last : Int) (m : Nat) (e : Int) : Nat :=
  if last ≤ e then m <<< (e - last).toNat else roundHalfEven m (1 <<< (last - e).toNat)

theorem scaledBits_eq (m : Nat) (e : Int) :
    scaledBits m e =
      min ((lastPlace m e - minExponent).toNat * hiddenBit + placed (lastPlace m e) m e)
        infinityBits := rfl

theorem placed_mono {m n : Nat} (h : m ≤ n) (last e : Int) : placed last m e ≤ placed last n e := by
  unfold placed
  split
  · rw [Nat.shiftLeft_eq, Nat.shiftLeft_eq]
    exact Nat.mul_le_mul_right _ h
  · exact roundHalfEven_mono h _

/-- Powers of two from a last place on are not rounded. -/
theorem placed_two_pow {last e : Int} {k : Nat} (h : last ≤ e + k) :
    placed last (2 ^ k) e = 2 ^ (e + k - last).toNat := by
  unfold placed
  split
  · have hplaces : (e + k - last).toNat = k + (e - last).toNat := by omega
    rw [Nat.shiftLeft_eq, hplaces, Nat.pow_add]
  · have hplaces : k = (e + k - last).toNat + (last - e).toNat := by omega
    rw [Nat.one_shiftLeft, congrArg (2 ^ ·) hplaces, Nat.pow_add]
    have hsame := roundHalfEven_of_dvd (2 ^ (e + k - last).toNat)
      (Nat.two_pow_pos (last - e).toNat)
    rw [hsame]

theorem placed_lastPlace_le (m : Nat) (e : Int) :
    placed (lastPlace m e) m e ≤ 2 * hiddenBit := by
  have hlast : e + m.log2 - 52 ≤ lastPlace m e := Int.le_max_left _ _
  generalize lastPlace m e = last at hlast ⊢
  -- the first power of two above the number that is a multiple of the last place
  let k := max (m.log2 + 1) (last - e).toNat
  have hm : m ≤ 2 ^ k :=
    Nat.le_trans (Nat.le_of_lt Nat.lt_log2_self)
      (Nat.pow_le_pow_right (by decide) (Nat.le_max_left _ _))
  calc placed last m e ≤ placed last (2 ^ k) e := placed_mono hm last e
    _ = 2 ^ (e + k - last).toNat := placed_two_pow (by omega)
    _ ≤ 2 ^ 53 := Nat.pow_le_pow_right (by decide) (by omega)
    _ = 2 * hiddenBit := rfl

theorem le_placed_lastPlace {m : Nat} (hm : m ≠ 0) {e : Int}
    (hlast : lastPlace m e = e + m.log2 - 52) : hiddenBit ≤ placed (lastPlace m e) m e := by
  rw [hlast]
  calc hiddenBit = 2 ^ (e + m.log2 - (e + m.log2 - 52)).toNat := by
        have hplaces : (e + m.log2 - (e + m.log2 - 52)).toNat = 52 := by omega
        rw [hplaces]
        rfl
    _ = placed (e + m.log2 - 52) (2 ^ m.log2) e := (placed_two_pow (by omega)).symm
    _ ≤ placed (e + m.log2 - 52) m e := placed_mono (Nat.log2_self_le hm) _ _

theorem lastPlace_mono {m n : Nat} (hm : m ≠ 0) (h : m ≤ n) (e : Int) :
    lastPlace m e ≤ lastPlace n e := by
  have hlog : m.log2 ≤ n.log2 := by
    rw [Nat.le_log2 (by omega)]
    exact Nat.le_trans (Nat.log2_self_le hm) h
  unfold lastPlace
  omega

theorem scaledBits_mono {m n : Nat} (hm : m ≠ 0) (h : m ≤ n) (e : Int) :
    scaledBits m e ≤ scaledBits n e := by
  rw [scaledBits_eq, scaledBits_eq]
  refine Nat.le_min.mpr ⟨Nat.le_trans (Nat.min_le_left _ _) ?_, Nat.min_le_right _ _⟩
  rcases Int.lt_or_eq_of_le (lastPlace_mono hm h e) with hless | hsame
  · have hmin : minExponent ≤ lastPlace m e := Int.le_max_right _ _
    have hhigh : lastPlace n e = e + n.log2 - 52 := by
      unfold lastPlace at hmin hless ⊢
      omega
    have hfields : (lastPlace m e - minExponent).toNat + 1 ≤
        (lastPlace n e - minExponent).toNat := by omega
    -- a carry out of the smaller mantissa is made up for by the exponent
    calc (lastPlace m e - minExponent).toNat * hiddenBit + placed (lastPlace m e) m e
        ≤ (lastPlace m e - minExponent).toNat * hiddenBit + 2 * hiddenBit :=
          Nat.add_le_add_left (placed_lastPlace_le m e) _
      _ = ((lastPlace m e - minExponent).toNat + 1) * hiddenBit + hiddenBit := by
          rw [Nat.two_mul, Nat.succ_mul, Nat.add_assoc]
      _ ≤ (lastPlace n e - minExponent).toNat * hiddenBit + placed (lastPlace n e) n e :=
          Nat.add_le_add (Nat.mul_le_mul_right _ hfields)
            (le_placed_lastPlace (by omega) hhigh)
  · rw [hsame]
    exact Nat.add_le_add_left (placed_mono h _ e) _

/-! ## The number that a double stands for -/

/-- A mantissa that fills its places is not rounded. -/
theorem scaledBits_of_full {m : Nat} {e : Int} (hfit : m < 2 * hiddenBit) (he : minExponent ≤ e)
    (hfull : e = minExponent ∨ hiddenBit ≤ m) :
    scaledBits m e = min ((e - minExponent).toNat * hiddenBit + m) infinityBits := by
  have hlast : lastPlace m e = e := by
    have hhigh : m ≠ 0 → m.log2 < 53 := fun hm => (Nat.log2_lt hm).mpr hfit
    have hlow : hiddenBit ≤ m → 52 ≤ m.log2 := fun hle =>
      (Nat.le_log2 (Nat.ne_of_gt (Nat.lt_of_lt_of_le (by decide) hle))).mpr hle
    have hzero : m = 0 → m.log2 = 0 := fun hm => by rw [hm, Nat.log2_zero]
    unfold lastPlace
    omega
  rw [scaledBits_eq, hlast, placed, if_pos (Int.le_refl e), Int.sub_self]
  rfl

theorem ext_magnitude {x y : Binary64} (hsign : x.isNegative = y.isNegative)
    (hmagnitude : x.magnitude = y.magnitude) : x = y := by
  obtain ⟨x⟩ := x
  obtain ⟨y⟩ := y
  simp only [isNegative, magnitude, decide_eq_decide] at hsign hmagnitude
  have hx := x.toNat_lt
  have hy := y.toNat_lt
  have hsame : x.toNat = y.toNat := by
    simp only [signBit] at hsign hmagnitude
    omega
  exact congrArg mk (UInt64.toNat_inj.mp hsame)

theorem isNegative_signed (negative : Bool) {magnitude : Nat} (h : magnitude < signBit) :
    (signed negative magnitude).isNegative = negative := by
  simp only [isNegative, signed, UInt64.toNat_ofNat']
  cases negative <;> simp [signBit] at h ⊢ <;> omega

theorem signed_self (x : Binary64) : signed x.isNegative x.magnitude = x := by
  have hsmall : x.magnitude < signBit := Nat.mod_lt _ (by decide)
  exact ext_magnitude (isNegative_signed _ hsmall) (magnitude_signed _ hsmall)

theorem magnitude_lt (x : Binary64) : x.magnitude < signBit := Nat.mod_lt _ (by decide)

theorem shape_eq (x : Binary64) : x.shape =
    if x.magnitude / hiddenBit = 2047 then
      if x.magnitude % hiddenBit = 0 then .infinite x.isNegative else .nan
    else if x.magnitude / hiddenBit = 0 then
      .finite x.isNegative (x.magnitude % hiddenBit) minExponent
    else .finite x.isNegative (hiddenBit + x.magnitude % hiddenBit)
      (minExponent + (x.magnitude / hiddenBit - 1 : Nat)) := by
  have hbits := x.bits.toNat_lt
  have hbiased : x.bits.toNat / hiddenBit % 2048 = x.magnitude / hiddenBit := by
    simp only [magnitude, signBit, hiddenBit]
    omega
  have hfraction : x.bits.toNat % hiddenBit = x.magnitude % hiddenBit := by
    simp only [magnitude, signBit, hiddenBit]
    omega
  have hnegative : decide (2048 ≤ x.bits.toNat / hiddenBit) = x.isNegative := by
    refine decide_eq_decide.mpr ?_
    simp only [signBit, hiddenBit]
    omega
  unfold shape shapeOfBits
  dsimp only
  rw [hbiased, hfraction, hnegative]

theorem shape_of_isNaN {x : Binary64} (h : x.isNaN = true) : x.shape = .nan := by
  have hsmall := x.magnitude_lt
  have hlarge : infinityBits < x.magnitude := of_decide_eq_true h
  simp only [infinityBits, hiddenBit, signBit] at hlarge hsmall
  rw [shape_eq, hiddenBit, if_pos (by omega), if_neg (by omega)]

theorem shape_of_infinite {x : Binary64} (h : x.magnitude = infinityBits) :
    x.shape = .infinite x.isNegative := by
  rw [shape_eq, h]
  rfl

/-- A number comes from its shape by rounding, which changes nothing. -/
theorem shape_of_isFinite {x : Binary64} (h : x.isFinite = true) :
    ∃ m e, x.shape = .finite x.isNegative m e ∧ minExponent ≤ e ∧
      scaled x.isNegative m e = x ∧ (m = 0 ↔ x.magnitude = 0) := by
  have hfinite : x.magnitude < infinityBits := of_decide_eq_true h
  have hfield : x.magnitude / hiddenBit < 2047 :=
    (Nat.div_lt_iff_lt_mul (by decide)).mpr hfinite
  have hfraction : x.magnitude % hiddenBit < hiddenBit := Nat.mod_lt _ (by decide)
  have hmagnitude := Nat.div_add_mod' x.magnitude hiddenBit
  rw [shape_eq, if_neg (by omega)]
  generalize x.magnitude / hiddenBit = field at hfield hmagnitude ⊢
  generalize x.magnitude % hiddenBit = fraction at hfraction hmagnitude ⊢
  by_cases hsubnormal : field = 0
  · rw [if_pos hsubnormal]
    obtain rfl : fraction = x.magnitude := by
      rw [← hmagnitude, hsubnormal, Nat.zero_mul, Nat.zero_add]
    refine ⟨_, _, rfl, Int.le_refl _, ?_, Iff.rfl⟩
    have hbits : scaledBits x.magnitude minExponent = x.magnitude := by
      rw [scaledBits_of_full (by omega) (Int.le_refl _) (.inl rfl), Int.sub_self, Int.toNat_zero,
        Nat.zero_mul, Nat.zero_add, Nat.min_eq_left (Nat.le_of_lt hfinite)]
    unfold scaled
    split
    · rename_i hzero
      rw [← hzero, signed_self]
    · rw [hbits, signed_self]
  · rw [if_neg hsubnormal]
    have hpos : hiddenBit + fraction ≠ 0 :=
      Nat.ne_of_gt (Nat.lt_of_lt_of_le (by decide) (Nat.le_add_right _ _))
    have hbits : scaledBits (hiddenBit + fraction) (minExponent + (field - 1 : Nat)) =
        x.magnitude := by
      have hplaces : (minExponent + ((field - 1 : Nat) : Int) - minExponent).toNat + 1 = field := by
        omega
      rw [scaledBits_of_full (by omega) (by omega) (.inr (Nat.le_add_right _ _)), ← Nat.add_assoc,
        ← Nat.succ_mul, Nat.succ_eq_add_one, hplaces, hmagnitude,
        Nat.min_eq_left (Nat.le_of_lt hfinite)]
    refine ⟨_, _, rfl, by omega, ?_, iff_of_false hpos fun hzero => ?_⟩
    · unfold scaled
      rw [if_neg hpos, hbits, signed_self]
    · have hfull := Nat.le_mul_of_pos_left hiddenBit (Nat.pos_of_ne_zero hsubnormal)
      omega

theorem isFinite_of_shape {x : Binary64} {s : Bool} {m : Nat} {e : Int}
    (h : x.shape = .finite s m e) : x.isFinite = true := by
  refine decide_eq_true (Nat.lt_of_not_le fun hle => ?_)
  rcases Nat.lt_or_eq_of_le hle with hnan | hinfinite
  · rw [shape_of_isNaN (decide_eq_true hnan)] at h
    contradiction
  · rw [shape_of_infinite hinfinite.symm] at h
    contradiction

/-! ## Rounded numbers -/

theorem magnitude_scaled (s : Bool) (m : Nat) (e : Int) :
    (scaled s m e).magnitude = if m = 0 then 0 else scaledBits m e := by
  refine magnitude_signed s (Nat.lt_of_le_of_lt (m := infinityBits) ?_ (by decide))
  split
  · exact Nat.zero_le _
  · exact scaledBits_le m e

theorem isNegative_scaled (s : Bool) (m : Nat) (e : Int) : (scaled s m e).isNegative = s := by
  refine isNegative_signed s (Nat.lt_of_le_of_lt (m := infinityBits) ?_ (by decide))
  split
  · exact Nat.zero_le _
  · exact scaledBits_le m e

theorem magnitude_scaled_mono {m n : Nat} (h : m ≤ n) (s t : Bool) (e : Int) :
    (scaled s m e).magnitude ≤ (scaled t n e).magnitude := by
  rw [magnitude_scaled, magnitude_scaled]
  by_cases hm : m = 0
  · rw [if_pos hm]
    exact Nat.zero_le _
  · rw [if_neg hm, if_neg (by omega)]
    exact scaledBits_mono hm h e

/-- A number in units of the least positive double. -/
theorem scaled_units (s : Bool) (m : Nat) {e : Int} (he : minExponent ≤ e) :
    scaled s (m <<< (e - minExponent).toNat) minExponent = scaled s m e := by
  have hmoved := scaled_shift s m (e - minExponent).toNat e
  have hleast : e - ((e - minExponent).toNat : Int) = minExponent := by omega
  rw [hleast] at hmoved
  exact hmoved

/-- What is at least as large as the least positive double is not rounded to zero. -/
theorem magnitude_scaled_pos {m : Nat} (hm : m ≠ 0) {e : Int} (he : minExponent ≤ e + m.log2)
    (s : Bool) : 0 < (scaled s m e).magnitude := by
  have hone : (scaled s 1 (e + m.log2)).magnitude ≤ (scaled s m e).magnitude := by
    have hmoved := scaled_shift s 1 m.log2 (e + m.log2)
    have hplace : e + (m.log2 : Int) - m.log2 = e := by omega
    rw [hplace] at hmoved
    rw [← hmoved]
    exact magnitude_scaled_mono (by rw [Nat.one_shiftLeft]; exact Nat.log2_self_le hm) s s e
  have hleast : 1 ≤ 1 <<< (e + m.log2 - minExponent).toNat := by
    rw [Nat.one_shiftLeft]
    exact Nat.two_pow_pos _
  calc 0 < (scaled s 1 minExponent).magnitude := by cases s <;> decide
    _ ≤ (scaled s (1 <<< (e + m.log2 - minExponent).toNat) minExponent).magnitude :=
      magnitude_scaled_mono hleast s s _
    _ = (scaled s 1 (e + m.log2)).magnitude := by rw [scaled_units s 1 he]
    _ ≤ (scaled s m e).magnitude := hone

/-! ## Nonnegative doubles -/

/-- A number without a negative sign, infinite ones and both zeros among them. -/
structure IsNonneg (x : Binary64) : Prop where
  isNumber : x.isNaN = false
  sign : x.isNegative = true → x.magnitude = 0

/-- A nonnegative double and the multiple of the least positive one that it stands for. -/
def Measures (x : Binary64) (n : Nat) : Prop :=
  ∃ s m e, x.shape = .finite s m e ∧ (s = true → m = 0) ∧ m <<< (e - minExponent).toNat = n

variable {x y : Binary64} {n k : Nat}

theorem IsNonneg.zero_lt_iff (h : IsNonneg x) : 0.0 < x ↔ x.magnitude ≠ 0 := by
  have hkey : (0.0 : Binary64).numericKey = 0 := by decide
  rw [lt_def, hkey, h.isNumber, numericKey]
  have hnumber : (!(0.0 : Binary64).isNaN) = true := by decide
  simp only [hnumber, Bool.not_false, true_and]
  split
  · rename_i hnegative
    rw [h.sign hnegative]
    decide
  · omega

theorem isNonneg_scaled {s : Bool} {m : Nat} (h : s = true → m = 0) (e : Int) :
    IsNonneg (scaled s m e) := by
  refine ⟨isNaN_scaled s m e, fun hnegative => ?_⟩
  rw [isNegative_scaled] at hnegative
  rw [magnitude_scaled, if_pos (h hnegative)]

theorem exists_measures (h : IsNonneg x) (hfinite : x.isFinite = true) :
    ∃ n, Measures x n := by
  obtain ⟨m, e, hshape, -, -, hzero⟩ := shape_of_isFinite hfinite
  exact ⟨_, _, _, _, hshape, fun hnegative => hzero.mpr (h.sign hnegative), rfl⟩

namespace Measures

theorem isFinite (h : Measures x n) : x.isFinite = true := by
  obtain ⟨s, m, e, hshape, -⟩ := h
  exact isFinite_of_shape hshape

/-- The parts of a measured double. -/
theorem parts (h : Measures x n) : ∃ s m e, x.shape = .finite s m e ∧ minExponent ≤ e ∧
    x = scaled s m e ∧ (s = true → m = 0) ∧ m <<< (e - minExponent).toNat = n := by
  obtain ⟨s, m, e, hshape, hsign, hn⟩ := h
  obtain ⟨m', e', hshape', he, hscaled, -⟩ := shape_of_isFinite (isFinite_of_shape hshape)
  obtain ⟨rfl, rfl, rfl⟩ := Shape.finite.inj (hshape'.symm.trans hshape)
  exact ⟨_, _, _, hshape, he, hscaled.symm, hsign, hn⟩

theorem eq_scaled (h : Measures x n) : ∃ s, x = scaled s n minExponent ∧ (s = true → n = 0) := by
  obtain ⟨s, m, e, -, he, rfl, hsign, rfl⟩ := h.parts
  refine ⟨s, (scaled_units s m he).symm, fun hnegative => ?_⟩
  rw [hsign hnegative, Nat.zero_shiftLeft]

theorem isNonneg (h : Measures x n) : IsNonneg x := by
  obtain ⟨s, rfl, hsign⟩ := h.eq_scaled
  exact isNonneg_scaled hsign _

theorem magnitude_eq (h : Measures x n) : x.magnitude = (scaled false n minExponent).magnitude := by
  obtain ⟨s, rfl, -⟩ := h.eq_scaled
  rw [magnitude_scaled, magnitude_scaled]

theorem eq_zero_iff (h : Measures x n) : n = 0 ↔ x.magnitude = 0 := by
  rw [h.magnitude_eq]
  constructor
  · rintro rfl
    rfl
  · intro hzero
    refine Decidable.byContradiction fun hn => ?_
    have hpos := magnitude_scaled_pos hn (e := minExponent) (by omega) false
    omega

theorem zero_lt_iff (h : Measures x n) : 0.0 < x ↔ n ≠ 0 := by
  rw [h.isNonneg.zero_lt_iff, ne_eq, ne_eq, h.eq_zero_iff]

theorem unique (h : Measures x n) (h' : Measures x k) : n = k := by
  obtain ⟨s, m, e, hshape, -, hn⟩ := h
  obtain ⟨s', m', e', hshape', -, hk⟩ := h'
  obtain ⟨rfl, rfl, rfl⟩ := Shape.finite.inj (hshape.symm.trans hshape')
  exact hn.symm.trans hk

theorem magnitude_le (h : Measures x n) (h' : Measures y k) (hle : n ≤ k) :
    x.magnitude ≤ y.magnitude := by
  rw [h.magnitude_eq, h'.magnitude_eq]
  exact magnitude_scaled_mono hle _ _ _

theorem le_of_magnitude_le (h : Measures x n) (h' : Measures y k)
    (hle : x.magnitude ≤ y.magnitude) : n ≤ k := by
  refine Nat.le_of_not_lt fun hless => ?_
  have hge : y.magnitude ≤ x.magnitude := h'.magnitude_le h (Nat.le_of_lt hless)
  have hsame : x.magnitude = y.magnitude := Nat.le_antisymm hle hge
  have hpos : x.magnitude ≠ 0 := fun hzero => by
    have := h.eq_zero_iff.mpr hzero
    omega
  -- doubles of the same sign and magnitude are the same
  have hx : x.isNegative = false := Bool.eq_false_iff.mpr fun hx => hpos (h.isNonneg.sign hx)
  have hy : y.isNegative = false :=
    Bool.eq_false_iff.mpr fun hy => hpos (hsame.trans (h'.isNonneg.sign hy))
  obtain rfl := ext_magnitude (hx.trans hy.symm) hsame
  exact absurd (h.unique h') (Nat.ne_of_gt hless)

end Measures

end Slidewalk.Binary64
