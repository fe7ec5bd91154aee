import Slidewalk.Decimal.Shortest

/-!
# Ways to write a double

Positional text has no exponent and no point for whole numbers. Marked text always shows that it is
no integer, by a point or by an exponent, and is positional only near one. Fixed text has a given
number of decimal places.
-/

namespace Slidewalk.Decimal

def sign (negative : Bool) : String := if negative then "-" else ""

def zeros (n : Nat) : String := String.ofList (List.replicate n '0')

def digitsText (n : Nat) : String := String.ofList (Nat.toDigits 10 n)

/-- Digits with the decimal point behind the first `point` of them, filled up with zeros. A point at
the end is left out. -/
def pointed (digits : String) (point : Int) : String :=
  if point ≤ 0 then "0." ++ zeros (-point).toNat ++ digits
  else
    let whole := point.toNat
    if digits.length ≤ whole then digits ++ zeros (whole - digits.length)
    else String.ofList (digits.toList.take whole) ++ "." ++
      String.ofList (digits.toList.drop whole)

/-- Positional text: `1.5`, `-1`, `0.0000001`. -/
def positional (x : Binary64) : String :=
  match x.shape with
  | .nan => "NaN"
  | .infinite negative => sign negative ++ "inf"
  | .finite negative mantissa exponent =>
      let number := shortest .up mantissa exponent
      let digits := digitsText number.digits
      sign negative ++
        if number.digits = 0 then "0" else pointed digits (digits.length + number.exponent)

/-- The exponents of the first digit that marked text writes without an exponent. -/
def isPlain (exponent : Int) : Bool := -5 ≤ exponent && exponent < 16

/-- Marked text of a finite double: `0.5`, `1.0`, `1e-7`, `1.5e+300`. -/
def marked? (x : Binary64) : Option String :=
  match x.shape with
  | .finite negative mantissa exponent =>
      let number := shortest .toEven mantissa exponent
      let digits := digitsText number.digits
      let leading : Int := digits.length + number.exponent - 1
      let text :=
        if number.digits = 0 then "0.0"
        else if isPlain leading then
          -- a whole number is told from an integer by its point
          if 0 ≤ number.exponent then pointed digits (leading + 1) ++ ".0"
          else pointed digits (leading + 1)
        else
          let significand := if digits.length = 1 then digits else pointed digits 1
          let mark := if leading < 0 then "e-" else "e+"
          significand ++ mark ++ digitsText leading.natAbs
      some (sign negative ++ text)
  | _ => none

/-- Fixed text: rounded to some decimal places, a half to the even neighbour. -/
def fixed (places : Nat) (x : Binary64) : String :=
  match x.shape with
  | .nan => "NaN"
  | .infinite negative => sign negative ++ "inf"
  | .finite negative mantissa exponent =>
      let unit := Nat.pow 10 places
      let scaled := Binary64.roundHalfEven
        (mantissa * unit * Nat.pow 2 exponent.toNat) (Nat.pow 2 (-exponent).toNat)
      let fraction := digitsText (scaled % unit)
      sign negative ++ digitsText (scaled / unit) ++ "." ++
        zeros (places - fraction.length) ++ fraction

end Slidewalk.Decimal
