import Slidewalk.Binary64.Rounding

/-!
# The shortest decimal number that reads back

Of all decimal numbers that round to a double, the ones with the fewest digits, and of those the
nearest to its value. All comparisons are exact, on numerators over one denominator.
-/

namespace Slidewalk.Decimal

/-- Which of two equally near candidates is taken. -/
inductive Tie where
  | up
  | toEven
  deriving DecidableEq, Repr

/-- A positive value with the ends of the interval of numbers that round to it, over a common
denominator. The ends belong to it if `closed`. -/
structure RoundingInterval where
  low : Nat
  value : Nat
  high : Nat
  den : Nat
  closed : Bool
  deriving DecidableEq, Repr

/-- The interval of `mantissa * 2 ^ exponent`. It reaches half way to both neighbours; the one below
a power of two is twice as near. -/
def RoundingInterval.of (mantissa : Nat) (exponent : Int) : RoundingInterval :=
  let below :=
    if mantissa = Binary64.hiddenBit ∧ Binary64.minExponent < exponent then 1 else 2
  let scale := if 0 ≤ exponent then Nat.pow 2 exponent.toNat else 1
  { low := (4 * mantissa - below) * scale
    value := 4 * mantissa * scale
    high := (4 * mantissa + 2) * scale
    den := 4 * if 0 ≤ exponent then 1 else Nat.pow 2 (-exponent).toNat
    closed := mantissa % 2 = 0 }

/-- Whether a number over the common denominator lies in the interval. -/
def RoundingInterval.holds (interval : RoundingInterval) (num : Nat) : Bool :=
  if interval.closed then interval.low ≤ num && num ≤ interval.high
  else interval.low < num && num < interval.high

/-- A decimal number `digits * 10 ^ exponent`. -/
structure Scaled where
  digits : Nat
  exponent : Int
  deriving DecidableEq, Repr

def digitCount (n : Nat) : Nat := (Nat.toDigits 10 n).length

/-- The decimal exponent of the first digit of a positive quotient. -/
def leadingExponent (num den : Nat) : Int :=
  if den ≤ num then (digitCount (num / den) : Int) - 1
  else
    -- the exponent is minus the number of digits of the inverse, or one more
    let guess := digitCount (den / num)
    if den ≤ num * Nat.pow 10 (guess - 1) then -(guess - 1 : Nat) else -guess

/-- The nearest multiple of `10 ^ exponent` in the interval, of the two neighbours of its value. -/
def RoundingInterval.onGrid (interval : RoundingInterval) (tie : Tie) (exponent : Int) :
    Option Nat :=
  -- one of the two powers is one: the other makes both sides whole numbers
  let up := Nat.pow 10 exponent.toNat
  let down := Nat.pow 10 (-exponent).toNat
  let step := interval.den * up
  let interval := { interval with
    low := interval.low * down, value := interval.value * down, high := interval.high * down }
  let below := interval.value / step
  let above := below + 1
  let lower := if interval.holds (below * step) then some below else none
  let upper := if interval.holds (above * step) then some above else none
  match lower, upper with
  | some below, some above =>
      let rise := above * step - interval.value
      let fall := interval.value - below * step
      if fall < rise then some below
      else if rise < fall then some above
      else match tie with
        | .up => some above
        | .toEven => some (if below % 2 = 0 then below else above)
  | some below, none => some below
  | none, found => found

/-- The number with the fewest digits, searching from `count` digits on. -/
def RoundingInterval.search (interval : RoundingInterval) (tie : Tie) (leading : Int) :
    (tries count : Nat) → Scaled
  -- not reached: seventeen digits always read back
  | 0, _ => { digits := interval.value / interval.den, exponent := 0 }
  | tries + 1, count =>
      let exponent := leading - (count : Int) + 1
      match interval.onGrid tie exponent with
      | some digits => { digits, exponent }
      | none => search interval tie leading tries (count + 1)

def Scaled.strip (number : Scaled) : (tries : Nat) → Scaled
  | 0 => number
  | tries + 1 =>
      if number.digits ≠ 0 ∧ number.digits % 10 = 0 then
        strip { digits := number.digits / 10, exponent := number.exponent + 1 } tries
      else number

/-- The shortest number that rounds to `mantissa * 2 ^ exponent`; seventeen digits always do. -/
def shortest (tie : Tie) (mantissa : Nat) (exponent : Int) : Scaled :=
  if mantissa = 0 then { digits := 0, exponent := 0 }
  else
    let interval := RoundingInterval.of mantissa exponent
    (interval.search tie (leadingExponent interval.value interval.den) 17 1).strip 20

end Slidewalk.Decimal
