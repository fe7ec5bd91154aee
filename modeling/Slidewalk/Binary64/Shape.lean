/-!
# Doubles

A double is 64 bits: a sign, an exponent and a fraction. Its shape says what they stand for, and a
finite shape is a sign, a mantissa and a power of two. Two doubles are equal if their bits are. In
the order of numbers the two zeros do not differ, and a NaN has no place; in the total order every
double has a place of its own.
-/

namespace Slidewalk

structure Binary64 where
  bits : UInt64
  deriving DecidableEq, Repr, Inhabited

namespace Binary64

/-- What the bits of a double stand for. -/
inductive Shape where
  | nan
  | infinite (negative : Bool)
  | finite (negative : Bool) (mantissa : Nat) (exponent : Int)
  deriving DecidableEq, Repr

/-! ## Fields -/

/-- The least exponent, that of subnormal numbers. -/
def minExponent : Int := -1074

/-- The mantissa of the normal numbers starts here. -/
def hiddenBit : Nat := 0x10000000000000

def signBit : Nat := 0x8000000000000000

def infinityBits : Nat := 2047 * hiddenBit

/-- The bit of the fraction that is set in a quiet NaN. -/
def quietBit : Nat := 0x8000000000000

def isNegative (x : Binary64) : Bool := signBit ≤ x.bits.toNat

def magnitude (x : Binary64) : Nat := x.bits.toNat % signBit

def isNaN (x : Binary64) : Bool := infinityBits < x.magnitude

def isFinite (x : Binary64) : Bool := x.magnitude < infinityBits

def isZero (x : Binary64) : Bool := x.magnitude = 0

def shapeOfBits (bits : Nat) : Shape :=
  let fields := bits / hiddenBit
  let negative := 2048 ≤ fields
  let biased := fields % 2048
  let fraction := bits % hiddenBit
  if biased = 2047 then
    if fraction = 0 then .infinite negative else .nan
  -- subnormal numbers have no hidden bit
  else if biased = 0 then .finite negative fraction minExponent
  else .finite negative (hiddenBit + fraction) (minExponent + (biased - 1 : Nat))

def shape (x : Binary64) : Shape := shapeOfBits x.bits.toNat

def Shape.negate : Shape → Shape
  | nan => nan
  | infinite negative => infinite (!negative)
  | finite negative mantissa exponent => finite (!negative) mantissa exponent

/-! ## Special doubles -/

def signed (negative : Bool) (magnitude : Nat) : Binary64 :=
  ⟨UInt64.ofNat (magnitude + if negative then signBit else 0)⟩

def infinity (negative : Bool) : Binary64 := signed negative infinityBits

def zero (negative : Bool) : Binary64 := signed negative 0

/-- A quiet NaN with nothing else in its fraction. -/
def nan (negative : Bool) : Binary64 := signed negative (infinityBits + quietBit)

/-- A NaN with its quiet bit set. -/
def quiet (x : Binary64) : Binary64 := ⟨x.bits ||| UInt64.ofNat quietBit⟩

/-! ## Order -/

/-- The place of a double among the numbers. -/
def numericKey (x : Binary64) : Int :=
  if x.isNegative then -(x.magnitude : Int) else x.magnitude

instance : LT Binary64 := ⟨fun a b => !a.isNaN ∧ !b.isNaN ∧ a.numericKey < b.numericKey⟩

instance : LE Binary64 := ⟨fun a b => !a.isNaN ∧ !b.isNaN ∧ a.numericKey ≤ b.numericKey⟩

theorem lt_def {a b : Binary64} :
    a < b ↔ !a.isNaN ∧ !b.isNaN ∧ a.numericKey < b.numericKey := Iff.rfl

theorem le_def {a b : Binary64} :
    a ≤ b ↔ !a.isNaN ∧ !b.isNaN ∧ a.numericKey ≤ b.numericKey := Iff.rfl

instance (a b : Binary64) : Decidable (a < b) := decidable_of_iff' _ lt_def

instance (a b : Binary64) : Decidable (a ≤ b) := decidable_of_iff' _ le_def

theorem lt_irrefl (a : Binary64) : ¬ a < a := fun h => Int.lt_irrefl _ (lt_def.mp h).2.2

/-! ## Total order -/

/-- The place of a double in the order of all of them, from its bits. -/
def totalKeyOfBits (bits : Nat) : Int :=
  if bits < signBit then bits else (signBit : Int) - 1 - bits

/-- Orders all doubles: negative before positive, -0.0 before 0.0, the infinities at the ends of the
numbers, and the NaNs past them. -/
def totalKey (x : Binary64) : Int := totalKeyOfBits x.bits.toNat

end Binary64

end Slidewalk
