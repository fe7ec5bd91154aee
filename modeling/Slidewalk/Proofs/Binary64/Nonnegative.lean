import Slidewalk.Proofs.Binary64.Measure

/-!
# Arithmetic of nonnegative doubles

Sums, products, and quotients of nonnegative doubles are nonnegative. A sum is not below its terms,
and positive if one of them is. A product with a part of one is not larger than the other factor. A
quotient by a number that is not smaller is a part of one; it is positive if the divisor is not much
larger, and zero if the divisor is infinite.
-/

namespace Slidewalk.Binary64

variable {x y : Binary64} {n k : Nat}

/-! ## Infinity -/

theorem IsNonneg.cases (h : IsNonneg x) : x = infinity false ∨ ∃ n, Measures x n := by
  have hnumber : ¬infinityBits < x.magnitude := of_decide_eq_false h.isNumber
  rcases Nat.lt_or_eq_of_le (Nat.le_of_not_lt hnumber) with hfinite | hinfinite
  · exact .inr (exists_measures h (decide_eq_true hfinite))
  · have hpositive : x.isNegative = false := by
      refine Bool.eq_false_iff.mpr fun hnegative => ?_
      rw [h.sign hnegative] at hinfinite
      contradiction
    refine .inl (ext_magnitude ?_ ?_)
    · rw [hpositive]
      decide
    · rw [hinfinite]
      decide

theorem isNonneg_infinity : IsNonneg (infinity false) := ⟨by decide, by decide⟩

theorem zero_lt_infinity : 0.0 < infinity false := by decide

theorem measures_zero (s : Bool) : Measures (zero s) 0 := by
  cases s <;> exact ⟨_, 0, minExponent, rfl, fun _ => rfl, rfl⟩

theorem lift_of_isNonneg (op : Shape → Shape → Binary64) (hx : IsNonneg x) (hy : IsNonneg y) :
    lift op x y = op x.shape y.shape := by
  rw [lift, hx.isNumber, hy.isNumber]
  rfl

theorem shape_infinity : (infinity false).shape = .infinite false := rfl

theorem Measures.positive_parts (hx : Measures x n) (hn : n ≠ 0) :
    ∃ m e, x.shape = .finite false m e ∧ m ≠ 0 ∧ minExponent ≤ e ∧
      m <<< (e - minExponent).toNat = n := by
  obtain ⟨s, m, e, hshape, he, -, hs, rfl⟩ := hx.parts
  have hm : m ≠ 0 := by
    rintro rfl
    exact hn (Nat.zero_shiftLeft _)
  obtain rfl : s = false := Bool.eq_false_iff.mpr fun hnegative => hm (hs hnegative)
  exact ⟨m, e, hshape, hm, he, rfl⟩

/-- A mantissa at an exponent, by way of a smaller one. -/
theorem shiftLeft_align (m : Nat) {base place e : Int} (hbase : base ≤ place) (hplace : place ≤ e) :
    m <<< (e - base).toNat = m <<< (e - place).toNat * 2 ^ (place - base).toNat := by
  have hplaces : (e - base).toNat = (e - place).toNat + (place - base).toNat := by omega
  rw [hplaces, Nat.shiftLeft_add, Nat.shiftLeft_eq _ (place - base).toNat]

/-! ## Sums -/

theorem Measures.add (hx : Measures x n) (hy : Measures y k) :
    ∃ s, x + y = scaled s (n + k) minExponent ∧ (s = true → n + k = 0) := by
  have hlift : x + y = sum x.shape y.shape := lift_of_isNonneg sum hx.isNonneg hy.isNonneg
  obtain ⟨s, m, e, hshape, he, -, hs, rfl⟩ := hx.parts
  obtain ⟨t, m', f, hshape', hf, -, ht, rfl⟩ := hy.parts
  rw [hlift, hshape, hshape']
  unfold sum
  dsimp only
  by_cases hm : m = 0
  · rw [hm, if_pos rfl, Nat.zero_shiftLeft, Nat.zero_add]
    by_cases hm' : m' = 0
    · rw [hm', if_pos rfl, Nat.zero_shiftLeft]
      exact ⟨s && t, (scaled_zero _ _).symm, fun _ => rfl⟩
    · rw [if_neg hm']
      exact ⟨t, (scaled_units t m' hf).symm, fun hnegative => absurd (ht hnegative) hm'⟩
  · obtain rfl : s = false := Bool.eq_false_iff.mpr fun hnegative => hm (hs hnegative)
    rw [if_neg hm]
    by_cases hm' : m' = 0
    · rw [hm', if_pos rfl, Nat.zero_shiftLeft, Nat.add_zero]
      exact ⟨false, (scaled_units false m he).symm, fun hnegative => by contradiction⟩
    · obtain rfl : t = false := Bool.eq_false_iff.mpr fun hnegative => hm' (ht hnegative)
      rw [if_neg hm', if_pos rfl]
      refine ⟨false, ?_, fun hnegative => by contradiction⟩
      have hmin : minExponent ≤ min e f := by omega
      -- both mantissas are moved to the smaller exponent and added there
      rw [shiftLeft_align m hmin (Int.min_le_left e f),
        shiftLeft_align m' hmin (Int.min_le_right e f), ← Nat.add_mul, ← Nat.shiftLeft_eq]
      exact (scaled_units false _ hmin).symm

theorem infinity_add (hy : Measures y k) : infinity false + y = infinity false := by
  have hlift : infinity false + y = sum (infinity false).shape y.shape :=
    lift_of_isNonneg sum isNonneg_infinity hy.isNonneg
  obtain ⟨t, m, e, hshape, -⟩ := hy
  rw [hlift, shape_infinity, hshape]
  rfl

theorem add_infinity (hx : Measures x n) : x + infinity false = infinity false := by
  have hlift : x + infinity false = sum x.shape (infinity false).shape :=
    lift_of_isNonneg sum hx.isNonneg isNonneg_infinity
  obtain ⟨s, m, e, hshape, -⟩ := hx
  rw [hlift, shape_infinity, hshape]
  rfl

theorem IsNonneg.add (hx : IsNonneg x) (hy : IsNonneg y) :
    IsNonneg (x + y) ∧ (0.0 < x + y ↔ 0.0 < x ∨ 0.0 < y) := by
  have hinfinite (hsum : x + y = infinity false) (hterm : 0.0 < x ∨ 0.0 < y) :
      IsNonneg (x + y) ∧ (0.0 < x + y ↔ 0.0 < x ∨ 0.0 < y) := by
    rw [hsum]
    exact ⟨isNonneg_infinity, iff_of_true zero_lt_infinity hterm⟩
  rcases hx.cases with rfl | ⟨n, hn⟩
  · refine hinfinite ?_ (.inl zero_lt_infinity)
    rcases hy.cases with rfl | ⟨k, hk⟩
    · rfl
    · exact infinity_add hk
  · rcases hy.cases with rfl | ⟨k, hk⟩
    · exact hinfinite (add_infinity hn) (.inr zero_lt_infinity)
    · obtain ⟨s, hsum, hs⟩ := hn.add hk
      have hnonneg : IsNonneg (x + y) := hsum ▸ isNonneg_scaled hs _
      refine ⟨hnonneg, ?_⟩
      rw [hnonneg.zero_lt_iff, hn.zero_lt_iff, hk.zero_lt_iff, hsum, magnitude_scaled]
      by_cases hzero : n + k = 0
      · rw [if_pos hzero]
        omega
      · have hpos := magnitude_scaled_pos hzero (e := minExponent) (by omega) s
        rw [magnitude_scaled] at hpos
        omega

/-- A sum is not below its terms. -/
theorem IsNonneg.magnitude_le_add (hx : IsNonneg x) (hy : IsNonneg y) :
    x.magnitude ≤ (x + y).magnitude ∧ y.magnitude ≤ (x + y).magnitude := by
  have hinfinite (hsum : x + y = infinity false) :
      x.magnitude ≤ (x + y).magnitude ∧ y.magnitude ≤ (x + y).magnitude := by
    have hmost : (infinity false).magnitude = infinityBits := by decide
    rw [hsum, hmost]
    exact ⟨Nat.le_of_not_lt (of_decide_eq_false hx.isNumber),
      Nat.le_of_not_lt (of_decide_eq_false hy.isNumber)⟩
  rcases hx.cases with rfl | ⟨n, hn⟩
  · rcases hy.cases with rfl | ⟨k, hk⟩
    · exact hinfinite rfl
    · exact hinfinite (infinity_add hk)
  · rcases hy.cases with rfl | ⟨k, hk⟩
    · exact hinfinite (add_infinity hn)
    · obtain ⟨s, hsum, -⟩ := hn.add hk
      rw [hsum, hn.magnitude_eq, hk.magnitude_eq]
      exact ⟨magnitude_scaled_mono (Nat.le_add_right n k) _ _ _,
        magnitude_scaled_mono (Nat.le_add_left k n) _ _ _⟩

theorem numericKey_of_isNonneg (h : IsNonneg x) : x.numericKey = x.magnitude := by
  unfold numericKey
  split
  · rename_i hnegative
    rw [h.sign hnegative]
    rfl
  · rfl

theorem isNonneg_of_le (h : 0.0 ≤ x) : IsNonneg x := by
  obtain ⟨-, hnumber, hkey⟩ := le_def.mp h
  refine ⟨by simpa using hnumber, fun hnegative => ?_⟩
  have hzero : (0.0 : Binary64).numericKey = 0 := by decide
  rw [hzero, numericKey, if_pos hnegative] at hkey
  omega

/-- What is finite and not below zero can be measured. -/
theorem exists_measures_of_not_lt (hfinite : x.isFinite = true) (h : ¬x < 0.0) :
    ∃ n, Measures x n := by
  have hsmall : x.magnitude < infinityBits := of_decide_eq_true hfinite
  have hnumber : x.isNaN = false := decide_eq_false (by omega)
  refine exists_measures ⟨hnumber, fun hnegative => ?_⟩ hfinite
  refine Decidable.byContradiction fun hpos => h (lt_def.mpr ⟨by simp [hnumber], by decide, ?_⟩)
  have hzero : (0.0 : Binary64).numericKey = 0 := by decide
  rw [hzero, numericKey, if_pos hnegative]
  omega

/-! ## Parts of one -/

/-- One in units of the least positive double. -/
@[irreducible] def unit : Nat := hiddenBit <<< (-52 - minExponent).toNat

/-- A number from zero to one. -/
def IsPart (x : Binary64) : Prop := ∃ n ≤ unit, Measures x n

theorem shape_one : (1.0 : Binary64).shape = .finite false hiddenBit (-52) := by decide

theorem measures_one : Measures 1.0 unit := by
  refine ⟨_, _, _, shape_one, fun hnegative => by contradiction, ?_⟩
  rw [unit]

theorem isPart_one : IsPart 1.0 := ⟨unit, Nat.le_refl _, measures_one⟩

theorem IsPart.isNonneg (h : IsPart x) : IsNonneg x := h.elim fun _ hx => hx.2.isNonneg

theorem IsNonneg.isPart (h : IsNonneg x) (hle : x.magnitude ≤ (1.0 : Binary64).magnitude) :
    IsPart x := by
  obtain ⟨n, hn⟩ := exists_measures h (decide_eq_true (Nat.lt_of_le_of_lt hle (by decide)))
  exact ⟨n, hn.le_of_magnitude_le measures_one hle, hn⟩

theorem isPart_of_le (hlow : 0.0 ≤ x) (hhigh : x ≤ 1.0) : IsPart x := by
  have hnonneg := isNonneg_of_le hlow
  obtain ⟨-, -, hkey⟩ := le_def.mp hhigh
  rw [numericKey_of_isNonneg hnonneg, numericKey_of_isNonneg measures_one.isNonneg] at hkey
  exact hnonneg.isPart (by omega)

theorem scaled_hiddenBit_mul (s : Bool) (m : Nat) (e : Int) :
    scaled s (hiddenBit * m) (e - 52) = scaled s m e := by
  rw [← scaled_shift s m 52 e, Nat.shiftLeft_eq, Nat.mul_comm]
  rfl

theorem scaled_unit_mul (s : Bool) (m : Nat) (e : Int) :
    scaled s (unit * m) (e + minExponent) = scaled s m e := by
  have hunit : unit * m = (hiddenBit * m) <<< (-52 - minExponent).toNat := by
    rw [unit, Nat.shiftLeft_eq, Nat.shiftLeft_eq, Nat.mul_right_comm]
  have hplace : e + minExponent = e - 52 - ((-52 - minExponent).toNat : Int) := by
    unfold minExponent
    omega
  rw [hunit, hplace, scaled_shift, scaled_hiddenBit_mul]

theorem Measures.one_mul (hx : Measures x n) : 1.0 * x = x := by
  have hlift : 1.0 * x = product (1.0 : Binary64).shape x.shape :=
    lift_of_isNonneg product measures_one.isNonneg hx.isNonneg
  obtain ⟨s, m, e, hshape, -, hscaled, -⟩ := hx.parts
  have hplace : -52 + e = e - 52 := by omega
  rw [hlift, shape_one, hshape, product, hplace, scaled_hiddenBit_mul, hscaled]
  cases s <;> rfl

/-- A product is not above what comes of a factor that is rounded up to a multiple of one. -/
theorem Measures.mul_le {c : Nat} (hx : Measures x n) (hn : n ≤ unit * c) (hy : Measures y k) :
    IsNonneg (x * y) ∧ (x * y).magnitude ≤ (scaled false (c * k) minExponent).magnitude := by
  have hlift : x * y = product x.shape y.shape := lift_of_isNonneg product hx.isNonneg hy.isNonneg
  obtain ⟨s, m, e, hshape, he, -, hs, rfl⟩ := hx.parts
  obtain ⟨t, m', f, hshape', hf, -, ht, rfl⟩ := hy.parts
  rw [hshape, hshape', product] at hlift
  rw [hlift]
  constructor
  · refine isNonneg_scaled (fun hnegative => ?_) _
    cases s with
    | true => rw [hs rfl, Nat.zero_mul]
    | false =>
      cases t with
      | true => rw [ht rfl, Nat.mul_zero]
      | false => contradiction
  · -- in units of the least double, a factor is at most so many of them as are in one
    have hplace : e + f - ((e - minExponent).toNat : Int) = f + minExponent := by omega
    have hmost : (m * m') <<< (e - minExponent).toNat ≤ unit * (c * m') := by
      rw [Nat.shiftLeft_eq, Nat.mul_right_comm, ← Nat.shiftLeft_eq, ← Nat.mul_assoc]
      exact Nat.mul_le_mul_right m' hn
    have hunits : c * m' <<< (f - minExponent).toNat = (c * m') <<< (f - minExponent).toNat := by
      rw [Nat.shiftLeft_eq, Nat.shiftLeft_eq, Nat.mul_assoc]
    rw [← scaled_shift _ _ (e - minExponent).toNat, hplace]
    calc _ ≤ (scaled false (unit * (c * m')) (f + minExponent)).magnitude :=
          magnitude_scaled_mono hmost _ false _
      _ = _ := by rw [scaled_unit_mul, hunits, scaled_units _ _ hf]

/-- A part of a number is not larger than the number. -/
theorem IsPart.mul (hx : IsPart x) (hy : Measures y k) : ∃ j ≤ k, Measures (x * y) j := by
  obtain ⟨n, hpart, hx⟩ := hx
  obtain ⟨hnonneg, hle⟩ := hx.mul_le ((Nat.mul_one unit).symm ▸ hpart) hy
  rw [Nat.one_mul, ← hy.magnitude_eq] at hle
  have hfinite : y.magnitude < infinityBits := of_decide_eq_true hy.isFinite
  obtain ⟨j, hj⟩ := exists_measures hnonneg (decide_eq_true (Nat.lt_of_le_of_lt hle hfinite))
  exact ⟨j, hj.le_of_magnitude_le hy hle, hj⟩

theorem Measures.one_sub_zero (hx : Measures x 0) : 1.0 - x = 1.0 := by
  have hlift : 1.0 - x = sum (1.0 : Binary64).shape x.shape.negate :=
    lift_of_isNonneg _ measures_one.isNonneg hx.isNonneg
  obtain ⟨s, m, e, hshape, -, hzero⟩ := hx
  obtain rfl : m = 0 := by
    rw [Nat.shiftLeft_eq] at hzero
    exact (Nat.mul_eq_zero.mp hzero).resolve_right (Nat.two_pow_pos _).ne'
  rw [hlift, shape_one, hshape]
  rfl

/-- What is left of one is a part of it. -/
theorem IsPart.one_sub (hx : IsPart x) : IsPart (1.0 - x) := by
  obtain ⟨n, hpart, hx⟩ := hx
  have hlift : 1.0 - x = sum (1.0 : Binary64).shape x.shape.negate :=
    lift_of_isNonneg _ measures_one.isNonneg hx.isNonneg
  by_cases hn : n = 0
  · subst hn
    rw [hx.one_sub_zero]
    exact isPart_one
  obtain ⟨m, e, hshape, hm, he, rfl⟩ := hx.positive_parts hn
  rw [shape_one, hshape, Shape.negate] at hlift
  unfold sum at hlift
  dsimp only at hlift
  rw [if_neg (by decide), if_neg hm, if_neg (by decide)] at hlift
  -- both mantissas are moved to the smaller exponent
  have hone := scaled_shift false hiddenBit (-52 - min (-52) e).toNat (-52)
  have hplace : -52 - ((-52 - min (-52) e).toNat : Int) = min (-52) e := by omega
  rw [hplace] at hone
  have hle : m <<< (e - min (-52) e).toNat ≤ hiddenBit <<< (-52 - min (-52) e).toNat := by
    have hmin : minExponent ≤ min (-52) e := Int.le_min.mpr ⟨by decide, he⟩
    rw [unit, shiftLeft_align m hmin (Int.min_le_right _ _),
      shiftLeft_align hiddenBit hmin (Int.min_le_left _ _)] at hpart
    exact Nat.le_of_mul_le_mul_right hpart (Nat.two_pow_pos _)
  generalize m <<< (e - min (-52) e).toNat = b at hlift hle
  generalize hiddenBit <<< (-52 - min (-52) e).toNat = a at hlift hle hone
  have hrest : 1.0 - x = scaled false (a - b) (min (-52) e) := by
    rw [hlift]
    split
    · rfl
    · rw [if_neg (by omega), Nat.sub_eq_zero_of_le (by omega), scaled_zero]
  have hmost : (1.0 - x).magnitude ≤ (1.0 : Binary64).magnitude := by
    rw [hrest]
    calc _ ≤ (scaled false a (min (-52) e)).magnitude :=
          magnitude_scaled_mono (Nat.sub_le a b) _ _ _
      _ = (1.0 : Binary64).magnitude := congrArg magnitude hone
  have hnonneg : IsNonneg (1.0 - x) := hrest ▸ isNonneg_scaled (fun h => by contradiction) _
  exact hnonneg.isPart hmost

/-! ## Quotients -/

theorem magnitude_nearest_le_one {num den : Nat} (hle : num ≤ den) (s : Bool) :
    (nearest s num den).magnitude ≤ (1.0 : Binary64).magnitude := by
  unfold nearest
  dsimp only
  generalize 55 + den.log2 - num.log2 = places
  -- a quotient below one leaves room for the bit that tells of a rest
  have hmost : withRest (num <<< places / den) (num <<< places / den * den = num <<< places) ≤
      1 <<< (places + 1) := by
    have hwhole : num <<< places ≤ 2 ^ places * den := by
      rw [Nat.shiftLeft_eq, Nat.mul_comm]
      exact Nat.mul_le_mul_left _ hle
    rw [Nat.one_shiftLeft, Nat.pow_succ, withRest]
    rcases Nat.lt_or_eq_of_le (Nat.div_le_of_le_mul (Nat.mul_comm den _ ▸ hwhole)) with hless | hone
    · split <;> omega
    · have hexact : num <<< places / den * den = num <<< places := by
        refine Nat.le_antisymm (Nat.div_mul_le_self _ _) ?_
        rw [hone]
        exact hwhole
      rw [if_pos (decide_eq_true hexact)]
      omega
  have hone : scaled s (1 <<< (places + 1)) (-(places : Int) - 1) = scaled s 1 0 := by
    have hplace : -(places : Int) - 1 = 0 - ((places + 1 : Nat) : Int) := by omega
    rw [hplace, scaled_shift]
  calc _ ≤ (scaled s (1 <<< (places + 1)) (-(places : Int) - 1)).magnitude :=
        magnitude_scaled_mono hmost _ _ _
    _ = (1.0 : Binary64).magnitude := by
      rw [hone]
      cases s <;> decide

/-- A quotient is not rounded to zero unless the divisor is out of all proportion. -/
theorem magnitude_nearest_pos {num den : Nat} (hnum : num ≠ 0) (hden : den ≠ 0)
    (hratio : den ≤ num * 2 ^ 200) (s : Bool) : 0 < (nearest s num den).magnitude := by
  have hlog : den.log2 ≤ num.log2 + 200 := by
    have hmost : num * 2 ^ 200 < 2 ^ (num.log2 + 201) := by
      calc num * 2 ^ 200 < 2 ^ (num.log2 + 1) * 2 ^ 200 :=
            Nat.mul_lt_mul_of_pos_right Nat.lt_log2_self (Nat.two_pow_pos _)
        _ = 2 ^ (num.log2 + 201) := by rw [← Nat.pow_add]
    exact Nat.le_of_lt_succ ((Nat.log2_lt hden).mpr (Nat.lt_of_le_of_lt hratio hmost))
  -- the quotient is cut to places enough not to vanish
  have hwhole : 1 ≤ num <<< (55 + den.log2 - num.log2) / den := by
    rw [Nat.one_le_div_iff (Nat.pos_of_ne_zero hden), Nat.shiftLeft_eq]
    calc den ≤ 2 ^ (den.log2 + 1) := Nat.le_of_lt Nat.lt_log2_self
      _ ≤ 2 ^ (num.log2 + (55 + den.log2 - num.log2)) :=
        Nat.pow_le_pow_right (by decide) (by omega)
      _ ≤ num * 2 ^ (55 + den.log2 - num.log2) := by
        rw [Nat.pow_add]
        exact Nat.mul_le_mul_right _ (Nat.log2_self_le hnum)
  refine magnitude_scaled_pos ?_ ?_ s
  · unfold withRest
    omega
  · unfold minExponent
    omega

theorem isNonneg_nearest {s : Bool} {num : Nat} (hs : s = true → num = 0) (den : Nat) :
    IsNonneg (nearest s num den) := by
  refine isNonneg_scaled (fun hnegative => ?_) _
  rw [hs hnegative]
  simp [withRest]

theorem Measures.div_infinity (hx : Measures x n) : ∃ s, x / infinity false = zero s := by
  have hlift : x / infinity false = quotient x.shape (infinity false).shape :=
    lift_of_isNonneg quotient hx.isNonneg isNonneg_infinity
  obtain ⟨s, m, e, hshape, -⟩ := hx.parts
  rw [hlift, hshape, shape_infinity]
  exact ⟨_, rfl⟩

/-- A quotient of doubles is rounded from that of their measures, less a common power of two. -/
theorem Measures.div_eq (hx : Measures x n) (hy : Measures y k) (hk : k ≠ 0) :
    ∃ s num den places, x / y = nearest s num den ∧ (s = true → num = 0) ∧
      num * 2 ^ places = n ∧ den * 2 ^ places = k := by
  have hlift : x / y = quotient x.shape y.shape :=
    lift_of_isNonneg quotient hx.isNonneg hy.isNonneg
  obtain ⟨s, m, e, hshape, he, -, hs, rfl⟩ := hx.parts
  obtain ⟨m', f, hshape', hm', hf, rfl⟩ := hy.positive_parts hk
  rw [hshape, hshape', quotient, if_pos hm', Bool.bne_false] at hlift
  have hmin : minExponent ≤ min e f := Int.le_min.mpr ⟨he, hf⟩
  have hplaces : (e - min e f).toNat = (e - f).toNat := by omega
  have hplaces' : (f - min e f).toNat = (f - e).toNat := by omega
  rw [shiftLeft_align m hmin (Int.min_le_left e f), shiftLeft_align m' hmin (Int.min_le_right e f),
    hplaces, hplaces']
  refine ⟨s, _, _, _, hlift, fun hnegative => ?_, rfl, rfl⟩
  rw [hs hnegative, Nat.zero_shiftLeft]

/-- A quotient by a number that is not smaller is a part of one. -/
theorem Measures.div (hx : Measures x n) (hy : IsNonneg y) (hpos : 0.0 < y)
    (hle : x.magnitude ≤ y.magnitude) : IsPart (x / y) := by
  rcases hy.cases with rfl | ⟨k, hk⟩
  · obtain ⟨s, hzero⟩ := hx.div_infinity
    rw [hzero]
    exact ⟨0, Nat.zero_le _, measures_zero s⟩
  · obtain ⟨s, num, den, places, hdiv, hs, rfl, rfl⟩ := hx.div_eq hk (hk.zero_lt_iff.mp hpos)
    have hratio : num ≤ den :=
      Nat.le_of_mul_le_mul_right (hx.le_of_magnitude_le hk hle) (Nat.two_pow_pos places)
    rw [hdiv]
    exact (isNonneg_nearest hs den).isPart (magnitude_nearest_le_one hratio s)

theorem Measures.zero_lt_div (hx : Measures x n) (hy : Measures y k) (hn : n ≠ 0) (hk : k ≠ 0)
    (hle : k ≤ n * 2 ^ 200) : 0.0 < x / y := by
  obtain ⟨s, num, den, places, hdiv, hs, rfl, rfl⟩ := hx.div_eq hy hk
  rw [hdiv, (isNonneg_nearest hs den).zero_lt_iff]
  have hratio : den ≤ num * 2 ^ 200 := by
    rw [Nat.mul_right_comm] at hle
    exact Nat.le_of_mul_le_mul_right hle (Nat.two_pow_pos places)
  exact (magnitude_nearest_pos (Nat.ne_zero_of_mul_ne_zero_left hn)
    (Nat.ne_zero_of_mul_ne_zero_left hk) hratio s).ne'

/-! ## Sums of many -/

/-- Powers of two are exact as long as they are finite. -/
theorem scaled_two_pow {q : Nat} (hq : 52 ≤ q) :
    scaled false (2 ^ q) minExponent = signed false (min ((q - 51) * hiddenBit) infinityBits) := by
  have hmoved : 2 ^ q = hiddenBit <<< (minExponent + (q - 52 : Nat) - minExponent).toNat := by
    have hplaces : (minExponent + ((q - 52 : Nat) : Int) - minExponent).toNat = q - 52 := by omega
    have hbit : hiddenBit = 2 ^ 52 := rfl
    rw [hplaces, hbit, Nat.shiftLeft_eq, ← Nat.pow_add]
    congr 1
    omega
  have hfields : (minExponent + ((q - 52 : Nat) : Int) - minExponent).toNat + 1 = q - 51 := by
    omega
  rw [hmoved, scaled_units false hiddenBit (by omega), scaled, if_neg (by decide),
    scaledBits_of_full (by decide) (by omega) (.inr (Nat.le_refl _)), ← Nat.succ_mul,
    Nat.succ_eq_add_one, hfields]

theorem measures_two_pow {q : Nat} (hq : 52 ≤ q) (hfit : q < 2098) :
    Measures (scaled false (2 ^ q) minExponent) (2 ^ q) := by
  have hmost : (q - 51) * hiddenBit ≤ 2046 * hiddenBit := Nat.mul_le_mul_right _ (by omega)
  have hfinite : (q - 51) * hiddenBit ≤ infinityBits := Nat.le_trans hmost (by decide)
  have hfield : (q - 51) * hiddenBit = (q - 52 + 1) * hiddenBit + 0 := by
    rw [Nat.add_zero]
    congr 1
    omega
  have hbit : hiddenBit + 0 = 2 ^ 52 := rfl
  have hplaces : (minExponent + ((q - 52 : Nat) : Int) - minExponent).toNat = q - 52 := by omega
  refine ⟨false, hiddenBit + 0, minExponent + (q - 52 : Nat), ?_,
    fun hnegative => absurd hnegative Bool.false_ne_true, ?_⟩
  · rw [scaled_two_pow hq, Nat.min_eq_left hfinite,
      shape_signed (Nat.lt_of_le_of_lt hmost (by decide)), hfield]
    exact shapeOfBits_of_normal (by omega) (by decide)
  · rw [hplaces, hbit, Nat.shiftLeft_eq, ← Nat.pow_add]
    congr 1
    omega

theorem Measures.le_two_pow {q : Nat} (hx : Measures x n) (hq : 52 ≤ q)
    (hle : x.magnitude ≤ (scaled false (2 ^ q) minExponent).magnitude) : n ≤ 2 ^ q := by
  rcases Nat.lt_or_ge q 2098 with hfit | hlarge
  · exact hx.le_of_magnitude_le (measures_two_pow hq hfit) hle
  · refine Nat.le_of_not_lt fun hless => ?_
    have hmost : infinityBits ≤ (q - 51) * hiddenBit := Nat.mul_le_mul_right _ (by omega)
    have hinfinite : infinityBits ≤ x.magnitude := by
      rw [hx.magnitude_eq]
      calc infinityBits = (scaled false (2 ^ q) minExponent).magnitude := by
            rw [scaled_two_pow hq, Nat.min_eq_right hmost]
            exact (magnitude_signed false (by decide)).symm
        _ ≤ _ := magnitude_scaled_mono (Nat.le_of_lt hless) _ _ _
    have hfinite : x.magnitude < infinityBits := of_decide_eq_true hx.isFinite
    omega

/-- One more than doubles count to is rounded back, at every exponent. -/
theorem scaled_countLimit_add_one (s : Bool) {e : Int} (he : minExponent ≤ e) :
    scaled s (countLimit + 1) e = scaled s countLimit e := by
  have hlast (m : Nat) (hm : m.log2 = 53) : lastPlace m e = e + 1 := by
    unfold lastPlace
    omega
  have hplaces : (e + 1 - e).toNat = 1 := by omega
  rw [scaled, scaled, if_neg (by decide), if_neg (by decide), scaledBits_eq, scaledBits_eq,
    hlast _ (by decide), hlast _ (by decide), placed, placed, if_neg (by omega), if_neg (by omega),
    hplaces]
  rfl

/-- The sum of a number and one that is at most two to the minus fifty-third of a power of two, is
not above that power if the number is not: at the power what is added is lost to rounding. -/
theorem Measures.magnitude_add_le {q : Nat} (hx : Measures x n) (hn : n ≤ 2 ^ (q + 53))
    (hy : Measures y k) (hk : k ≤ 2 ^ q) :
    (x + y).magnitude ≤ (scaled false (2 ^ (q + 53)) minExponent).magnitude := by
  obtain ⟨s, hsum, -⟩ := hx.add hy
  have hmost : n + k ≤ (countLimit + 1) <<< q := by
    have hlimit : countLimit = 2 ^ 53 := rfl
    rw [Nat.shiftLeft_eq, Nat.succ_mul, hlimit, ← Nat.pow_add, Nat.add_comm 53]
    exact Nat.add_le_add hn hk
  -- rounding keeps the order, so only what is just above the limit matters
  have hplace : minExponent + (q : Int) - q = minExponent := by omega
  have hmore := scaled_shift false (countLimit + 1) q (minExponent + q)
  have hlimit := scaled_shift false countLimit q (minExponent + q)
  rw [hplace] at hmore hlimit
  calc (x + y).magnitude ≤ (scaled false ((countLimit + 1) <<< q) minExponent).magnitude :=
        hsum ▸ magnitude_scaled_mono hmost _ _ _
    _ = (scaled false (countLimit <<< q) minExponent).magnitude := by
      rw [hmore, hlimit, scaled_countLimit_add_one false (by omega)]
    _ = (scaled false (2 ^ (q + 53)) minExponent).magnitude := by
      rw [Nat.shiftLeft_eq, Nat.add_comm, Nat.pow_add]
      rfl

/-- A sum of numbers that are at most a power of two, however many they are, never comes to more
than two to the fifty-third times that power. -/
def Settles (q : Nat) (x : Binary64) : Prop :=
  x = infinity false ∨ ∃ n ≤ 2 ^ (q + 53), Measures x n

theorem Settles.add {q : Nat} (hx : Settles q x) (hy : Measures y k) (hk : k ≤ 2 ^ q) :
    Settles q (x + y) := by
  rcases hx with rfl | ⟨n, hn, hx⟩
  · exact .inl (infinity_add hy)
  · have hnonneg := (hx.isNonneg.add hy.isNonneg).1
    have hmost := hx.magnitude_add_le hn hy hk
    exact hnonneg.cases.imp_right fun ⟨j, hj⟩ => ⟨j, hj.le_two_pow (by omega) hmost, hj⟩

end Slidewalk.Binary64
