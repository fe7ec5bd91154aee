/-!
# Reading integers

An integer is a non-empty run of ASCII digits, with an optional plus sign in front, or a minus sign
where negative values can be stored. There is no other character in it, and it must be in range.
-/

namespace Slidewalk.Text

def digitValue? (c : Char) : Option Nat :=
  if '0' ≤ c ∧ c ≤ '9' then some (c.toNat - '0'.toNat) else none

def readDigits (value : Nat) : List Char → Option Nat
  | [] => some value
  | c :: rest => (digitValue? c).bind fun digit => readDigits (10 * value + digit) rest

/-- The number a non-empty text of digits denotes. -/
def readNat? : List Char → Option Nat
  | [] => none
  | text => readDigits 0 text

/-- A number up to `max`, with an optional plus sign. -/
def readUnsigned? (max : Nat) (text : List Char) : Option Nat :=
  let digits := match text with
    | '+' :: rest => rest
    | text => text
  (readNat? digits).filter (· ≤ max)

/-- A number between `min` and `max`, with an optional sign. -/
def readSigned? (min max : Int) (text : List Char) : Option Int :=
  let value := match text with
    | '+' :: rest => (readNat? rest).map Int.ofNat
    | '-' :: rest => (readNat? rest).map fun n => -Int.ofNat n
    | text => (readNat? text).map Int.ofNat
  value.filter fun n => min ≤ n ∧ n ≤ max

def readUInt64? (text : List Char) : Option UInt64 :=
  (readUnsigned? (UInt64.size - 1) text).map UInt64.ofNat

def readUInt8? (text : List Char) : Option UInt8 :=
  (readUnsigned? (UInt8.size - 1) text).map UInt8.ofNat

def readInt64? (text : List Char) : Option Int64 :=
  (readSigned? Int64.minValue.toInt Int64.maxValue.toInt text).map Int64.ofInt

end Slidewalk.Text
