import Slidewalk.Proofs.Binary64.Nonnegative

/-!
# Numbers up to a power of two

Powers of two are exact, so rounding does not go beyond them: sums, products and whole parts of
numbers up to a power of two are bounded as the exact ones are.
-/

namespace Slidewalk.Binary64

variable {x y : Binary64} {p q : Nat}

/-- The places between the least positive double and one. -/
@[irreducible] def unitPlaces : Nat := 52 + (-52 - minExponent).toNat

theorem unitPlaces_eq : (unitPlaces : Int) = -minExponent := by
  rw [unitPlaces]
  decide

theorem unit_eq : unit = 2 ^ unitPlaces := by
  have hbit : hiddenBit = 2 ^ 52 := rfl
  rw [unit, unitPlaces, Nat.pow_add, hbit, Nat.shiftLeft_eq]

theorem scaled_unitPlaces (s : Bool) (m : Nat) : scaled s (m * 2 ^ unitPlaces) minExponent =
    scaled s m 0 := by
  have hplaces : (0 - minExponent).toNat = unitPlaces := by
    have := unitPlaces_eq
    omega
  rw [← scaled_units s m (by decide), hplaces, Nat.shiftLeft_eq]

/-- A number from zero to a power of two. -/
def IsUpTo (p : Nat) (x : Binary64) : Prop := ∃ n ≤ 2 ^ (unitPlaces + p), Measures x n

theorem IsNonneg.isUpTo (h : IsNonneg x) (hp : p < 1024)
    (hle : x.magnitude ≤ (scaled false (2 ^ (unitPlaces + p)) minExponent).magnitude) :
    IsUpTo p x := by
  have hplaces : (unitPlaces : Int) = 1074 := unitPlaces_eq
  have hlimit := (measures_two_pow (q := unitPlaces + p) (by omega) (by omega)).isFinite
  obtain ⟨n, hn⟩ := exists_measures h
    (decide_eq_true (Nat.lt_of_le_of_lt hle (of_decide_eq_true hlimit)))
  exact ⟨n, hn.le_two_pow (by omega) hle, hn⟩

theorem IsPart.isUpTo (h : IsPart x) (p : Nat) : IsUpTo p x := by
  obtain ⟨n, hn, hx⟩ := h
  rw [unit_eq] at hn
  exact ⟨n, Nat.le_trans hn (Nat.pow_le_pow_right (by decide) (Nat.le_add_right _ _)), hx⟩

theorem IsPart.add (hx : IsPart x) (hy : IsPart y) : IsUpTo 1 (x + y) := by
  obtain ⟨n, hn, hx⟩ := hx
  obtain ⟨k, hk, hy⟩ := hy
  rw [unit_eq] at hn hk
  obtain ⟨s, hsum, -⟩ := hx.add hy
  refine (hx.isNonneg.add hy.isNonneg).1.isUpTo (by decide) ?_
  rw [hsum]
  apply magnitude_scaled_mono
  rw [Nat.pow_succ]
  omega

theorem isUpTo_ofNat {n : Nat} (hn : n ≤ 2 ^ p) (hp : p < 1024) : IsUpTo p (ofNat n) := by
  refine (isNonneg_scaled (fun h => by contradiction) 0).isUpTo hp ?_
  rw [← scaled_unitPlaces]
  apply magnitude_scaled_mono
  rw [Nat.add_comm, Nat.pow_add]
  exact Nat.mul_le_mul_right _ hn

theorem IsUpTo.mul (hx : IsUpTo p x) (hy : IsUpTo q y) (hfit : p + q < 1024) :
    IsUpTo (p + q) (x * y) := by
  obtain ⟨n, hn, hx⟩ := hx
  obtain ⟨k, hk, hy⟩ := hy
  have hmost : n ≤ unit * 2 ^ p := by
    rw [unit_eq, ← Nat.pow_add]
    exact hn
  obtain ⟨hnonneg, hle⟩ := hx.mul_le hmost hy
  refine hnonneg.isUpTo hfit (Nat.le_trans hle (magnitude_scaled_mono ?_ _ _ _))
  calc 2 ^ p * k ≤ 2 ^ p * 2 ^ (unitPlaces + q) := Nat.mul_le_mul_left _ hk
    _ = 2 ^ (unitPlaces + (p + q)) := by rw [← Nat.pow_add, Nat.add_left_comm]

/-- Rounding down does not make a number larger. -/
theorem IsUpTo.floor (hx : IsUpTo p x) (hp : p < 1024) : IsUpTo p x.floor := by
  obtain ⟨n, hn, hx⟩ := hx
  obtain ⟨s, m, e, hshape, -, hscaled, hs, -⟩ := hx.parts
  unfold Binary64.floor
  rw [hshape]
  dsimp only
  split
  case isTrue => exact ⟨n, hn, hx⟩
  case isFalse hpart =>
    -- something is cut off, so the exponent is negative and the number is not
    have hplaces : ((-e).toNat : Int) = -e := by
      refine Int.toNat_of_nonneg (Decidable.byContradiction fun hwhole => hpart ?_)
      rw [Int.toNat_of_nonpos (by omega)]
      rfl
    have hsign : s = false := Bool.eq_false_iff.mpr fun hnegative => hpart (by simp [hs hnegative])
    have hmoved := scaled_shift false (m >>> (-e).toNat) (-e).toNat 0
    have hplace : (0 : Int) - (-e).toNat = e := by omega
    have hcut : (m >>> (-e).toNat) <<< (-e).toNat ≤ m := by
      rw [Nat.shiftLeft_eq, Nat.shiftRight_eq_div_pow]
      exact Nat.div_mul_le_self _ _
    rw [hsign, if_neg Bool.false_ne_true, ← hmoved, hplace]
    refine (isNonneg_scaled (fun h => by contradiction) e).isUpTo hp ?_
    calc _ ≤ (scaled s m e).magnitude := magnitude_scaled_mono hcut _ _ _
      _ = (scaled false n minExponent).magnitude := by rw [← hscaled, hx.magnitude_eq]
      _ ≤ _ := magnitude_scaled_mono hn _ _ _

theorem IsUpTo.toUInt64_le (hx : IsUpTo p x) : x.toUInt64.toNat ≤ 2 ^ p := by
  obtain ⟨n, hn, hx⟩ := hx
  obtain ⟨s, m, e, hshape, he, -, -, hunits⟩ := hx.parts
  unfold toUInt64
  rw [hshape]
  cases s with
  | true => exact Nat.zero_le _
  | false =>
    dsimp only
    have hplaces : (e - minExponent).toNat + (-e).toNat = unitPlaces + e.toNat := by
      have := unitPlaces_eq
      omega
    have hwhole : m <<< e.toNat ≤ 2 ^ (-e).toNat * 2 ^ p := by
      apply Nat.le_of_mul_le_mul_left (c := 2 ^ (e - minExponent).toNat) ?_ (Nat.two_pow_pos _)
      calc _ = 2 ^ e.toNat * m <<< (e - minExponent).toNat := by
            rw [Nat.shiftLeft_eq, Nat.shiftLeft_eq, Nat.mul_left_comm,
              Nat.mul_left_comm (2 ^ e.toNat), Nat.mul_comm (2 ^ e.toNat)]
        _ ≤ 2 ^ e.toNat * 2 ^ (unitPlaces + p) := Nat.mul_le_mul_left _ (hunits ▸ hn)
        _ = _ := by
          rw [← Nat.pow_add, ← Nat.pow_add, ← Nat.pow_add]
          congr 1
          omega
    rw [UInt64.toNat_ofNat']
    calc _ ≤ (m <<< e.toNat) >>> (-e).toNat := Nat.le_trans (Nat.mod_le _ _) (Nat.min_le_left _ _)
      _ ≤ 2 ^ p := by
        rw [Nat.shiftRight_eq_div_pow]
        exact Nat.div_le_of_le_mul hwhole

end Slidewalk.Binary64
