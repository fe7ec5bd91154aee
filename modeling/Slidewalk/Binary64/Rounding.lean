import Slidewalk.Binary64.Shape

/-!
# Rounding

The double nearest to a number; of two equally near ones the one with the even mantissa. `scaled`
rounds, and everything else goes through it: a quotient is first cut to more places than a mantissa
has, with a last bit that tells whether something was cut off.
-/

namespace Slidewalk.Binary64

/-- A quotient rounded to the nearest integer, a half to the even neighbour. -/
def roundHalfEven (num den : Nat) : Nat :=
  let quotient := num / den
  let twice := 2 * (num % den)
  if twice < den then quotient
  else if den < twice then quotient + 1
  else quotient + quotient % 2

/-- The exponent of two of the last mantissa place for a positive number. -/
def lastPlace (mantissa : Nat) (exponent : Int) : Int :=
  max (exponent + mantissa.log2 - 52) minExponent

/-- The bits of the double nearest to a positive number. The carry out of a full mantissa runs into
the exponent field. -/
def scaledBits (mantissa : Nat) (exponent : Int) : Nat :=
  let last := lastPlace mantissa exponent
  let rounded :=
    if last ≤ exponent then mantissa <<< (exponent - last).toNat
    else roundHalfEven mantissa (1 <<< (last - exponent).toNat)
  -- the field of the exponent is zero for subnormal numbers, and one more than
  -- the distance from them otherwise: the hidden bit in the mantissa adds the one
  min ((last - minExponent).toNat * hiddenBit + rounded) infinityBits

/-- The double nearest to `mantissa * 2 ^ exponent` with a sign. -/
def scaled (negative : Bool) (mantissa : Nat) (exponent : Int) : Binary64 :=
  signed negative (if mantissa = 0 then 0 else scaledBits mantissa exponent)

/-- A whole number with a bit behind it that tells whether something was cut off. With enough places
in front of that bit it rounds as the number before it was cut. -/
def withRest (whole : Nat) (isExact : Bool) : Nat := 2 * whole + if isExact then 0 else 1

/-- The double nearest to a quotient with a sign. -/
def nearest (negative : Bool) (num den : Nat) : Binary64 :=
  -- two places more than a mantissa has
  let places := 55 + den.log2 - num.log2
  let moved := num <<< places
  let whole := moved / den
  scaled negative (withRest whole (whole * den = moved)) (-(places : Int) - 1)

def ofInt (n : Int) : Binary64 := scaled (n < 0) n.natAbs 0

def ofNat (n : Nat) : Binary64 := scaled false n 0

/-- Decimal literals stand for the nearest double. -/
instance : OfScientific Binary64 where
  ofScientific mantissa isFraction places :=
    let power := Nat.pow 10 places
    if isFraction then nearest false mantissa power else scaled false (mantissa * power) 0

theorem scaledBits_le (mantissa : Nat) (exponent : Int) :
    scaledBits mantissa exponent ≤ infinityBits := Nat.min_le_right _ _

theorem magnitude_signed (negative : Bool) {magnitude : Nat} (h : magnitude < signBit) :
    (signed negative magnitude).magnitude = magnitude := by
  simp only [Binary64.magnitude, signed, UInt64.toNat_ofNat']
  simp only [signBit] at h ⊢
  split <;> omega

/-- A rounded number is a number or infinite. -/
theorem isNaN_scaled (negative : Bool) (mantissa : Nat) (exponent : Int) :
    (scaled negative mantissa exponent).isNaN = false := by
  have hinfinity : infinityBits < signBit := by decide
  have hle : (if mantissa = 0 then 0 else scaledBits mantissa exponent) ≤ infinityBits := by
    split
    · exact Nat.zero_le _
    · exact scaledBits_le mantissa exponent
  simp only [isNaN, scaled, magnitude_signed negative (Nat.lt_of_le_of_lt hle hinfinity),
    decide_eq_false_iff_not, Nat.not_lt]
  exact hle

/-- Zero has the sign it is given, whatever the exponent. -/
@[simp] theorem scaled_zero (negative : Bool) (exponent : Int) :
    scaled negative 0 exponent = zero negative := by
  simp [scaled, zero]

end Slidewalk.Binary64
