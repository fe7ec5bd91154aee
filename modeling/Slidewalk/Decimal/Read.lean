import Slidewalk.Binary64.Rounding
import Slidewalk.Text.Integer

/-!
# Reading decimal numbers as doubles

A decimal number is an optional sign, digits with an optional point among, before or behind them,
and an optional exponent; or one of the words for infinity and not-a-number in any case.
-/

namespace Slidewalk.Decimal

open Text (digitValue?)

/-- A decimal number `± digits * 10 ^ exponent`. -/
structure Numeral where
  negative : Bool
  digits : Nat
  exponent : Int
  deriving DecidableEq, Repr

/-- The nearest double. Exponents past all doubles are settled without computing the power. -/
def Numeral.nearest (numeral : Numeral) : Binary64 :=
  let { negative, digits, exponent } := numeral
  if digits = 0 then Binary64.zero negative
  else if 400 < exponent then Binary64.infinity negative
  else if exponent + (digits.log2 + 1) < -400 then Binary64.zero negative
  else if 0 ≤ exponent then Binary64.scaled negative (digits * Nat.pow 10 exponent.toNat) 0
  else Binary64.nearest negative digits (Nat.pow 10 (-exponent).toNat)

def takeSign : List Char → Bool × List Char
  | '+' :: rest => (false, rest)
  | '-' :: rest => (true, rest)
  | text => (false, text)

def isDigit (c : Char) : Bool := (digitValue? c).isSome

def lower (text : List Char) : List Char := text.map Char.toLower

/-- The value of an exponent: a marker, a sign and digits, or nothing. -/
def readExponent? : List Char → Option Int
  | [] => some 0
  | marker :: rest =>
      if marker = 'e' ∨ marker = 'E' then
        let (negative, digits) := takeSign rest
        (Text.readNat? digits).map fun n => if negative then -Int.ofNat n else Int.ofNat n
      else none

/-- Reads digits, a point, digits and an exponent; there is at least one digit in front of the
exponent. -/
def readUnsignedNumeral? (negative : Bool) (text : List Char) : Option Numeral :=
  let whole := text.takeWhile isDigit
  let rest := text.dropWhile isDigit
  let (fraction, rest) := match rest with
    | '.' :: rest => (rest.takeWhile isDigit, rest.dropWhile isDigit)
    | rest => ([], rest)
  match Text.readNat? (whole ++ fraction), readExponent? rest with
  | some digits, some exponent =>
      some { negative, digits, exponent := exponent - fraction.length }
  | _, _ => none

def read? (text : List Char) : Option Binary64 :=
  let (negative, rest) := takeSign text
  let word := String.ofList (lower rest)
  if word = "inf" ∨ word = "infinity" then some (Binary64.infinity negative)
  else if word = "nan" then some (Binary64.nan negative)
  else (readUnsignedNumeral? negative rest).map (·.nearest)

end Slidewalk.Decimal
