import Slidewalk.Config.Value
import Slidewalk.Decimal.Read
import Slidewalk.Toml.Lexeme

/-!
# Numbers of TOML

Integers are decimal with a sign, or hexadecimal, octal or binary without one, in 64 signed bits.
Single underscores may stand between digits. A number with a point or an exponent is a fraction, and
so are the words for infinity and not-a-number.
-/

namespace Slidewalk.Toml

open Config (Value)
open Text (digitValue?)

/-- Digits behind a first one. An underscore must have a digit behind it. -/
def moreDigits (isDigit : Char → Bool) : Reader (List Char)
  | [] => some ([], [])
  | '_' :: c :: rest => if isDigit c then prepend c (moreDigits isDigit rest) else none
  | c :: rest =>
      if isDigit c then prepend c (moreDigits isDigit rest)
      else if c = '_' then none
      else some ([], c :: rest)

def digits (isDigit : Char → Bool) : Reader (List Char)
  | [] => none
  | c :: rest => if isDigit c then prepend c (moreDigits isDigit rest) else none

/-- The digits of a decimal integer: a zero alone, or digits that do not begin with one. -/
def wholeDigits : Reader (List Char)
  | '0' :: rest => some (['0'], rest)
  | text => digits Decimal.isDigit text

def integer? (value : Int) : Option Value :=
  if Int64.minValue.toInt ≤ value ∧ value ≤ Int64.maxValue.toInt then some (.integer value)
  else none

/-- The integer with digits in a base. -/
def basedInteger (base : Nat) (digit? : Char → Option Nat) : Reader Value := fun text => do
  let (digits, rest) ← digits (fun c => (digit? c).isSome) text
  let value ← number? base digit? digits
  return (← integer? value, rest)

def digitBelow? (bound : Nat) (c : Char) : Option Nat := (digitValue? c).filter (· < bound)

/-- The part of a number behind its point, which may be missing. -/
def fractionDigits : Reader (List Char)
  | '.' :: rest => digits Decimal.isDigit rest
  | text => some ([], text)

def isExponentMark (c : Char) : Bool := c == 'e' || c == 'E'

/-- An exponent, zero if it is missing. -/
def exponent (text : List Char) : Option (Int × List Char) :=
  match text with
  | [] => some (0, [])
  | c :: rest =>
      if isExponentMark c then do
        let (negative, rest) := Decimal.takeSign rest
        let (digits, rest) ← digits Decimal.isDigit rest
        let value ← Text.readNat? digits
        return (if negative then -(value : Int) else value, rest)
      else some (0, c :: rest)

/-- Whether a number goes on as a fraction behind its whole part. -/
def isFraction : List Char → Bool
  | c :: _ => c == '.' || isExponentMark c
  | [] => false

/-- A fraction. One above all doubles is refused. -/
def fraction? (value : Binary64) : Option Value :=
  if value = Binary64.infinity false then none else some (.fraction value)

def decimalNumber (negative : Bool) (text : List Char) : Option (Value × List Char) := do
  let (whole, rest) ← wholeDigits text
  if isFraction rest then
    let (fraction, rest) ← fractionDigits rest
    let (exponent, rest) ← exponent rest
    let digits ← Text.readNat? (whole ++ fraction)
    let numeral : Decimal.Numeral :=
      { negative, digits, exponent := exponent - fraction.length }
    return (← fraction? numeral.nearest, rest)
  else
    let value ← Text.readNat? whole
    return (← integer? (if negative then -(value : Int) else value), rest)

def signedNumber (negative : Bool) : Reader Value
  | 'i' :: 'n' :: 'f' :: rest =>
      some (.fraction (Binary64.infinity negative), rest)
  | 'n' :: 'a' :: 'n' :: rest => some (.fraction (Binary64.nan negative), rest)
  | text => decimalNumber negative text

def number : Reader Value
  | '+' :: rest => signedNumber false rest
  | '-' :: rest => signedNumber true rest
  | '0' :: 'x' :: rest => basedInteger 16 hexDigit? rest
  | '0' :: 'o' :: rest => basedInteger 8 (digitBelow? 8) rest
  | '0' :: 'b' :: rest => basedInteger 2 (digitBelow? 2) rest
  | text => signedNumber false text

end Slidewalk.Toml
