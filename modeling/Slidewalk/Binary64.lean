import Slidewalk.Binary64.Rounding

/-!
# Arithmetic of doubles

An operation computes the exact result and rounds it once. A NaN goes through an operation; what has
no result is a negative NaN. Numbers are given by sign, mantissa and exponent, as `s`, `m`, `e` and
`t`, `n`, `f`.
-/

namespace Slidewalk.Binary64

/-- The answer of an operation without a result. -/
def undefined : Binary64 := nan true

/-- Applies an operation to numbers. Of two NaNs the second one goes through. -/
def lift (op : Shape → Shape → Binary64) (a b : Binary64) : Binary64 :=
  if b.isNaN then b.quiet else if a.isNaN then a.quiet else op a.shape b.shape

/-! ## Sums -/

def sum : Shape → Shape → Binary64
  | .finite s m e, .finite t n f =>
      if m = 0 then (if n = 0 then zero (s && t) else scaled t n f)
      else if n = 0 then scaled s m e
      else
        let exponent := min e f
        let a := m <<< (e - exponent).toNat
        let b := n <<< (f - exponent).toNat
        if s = t then scaled s (a + b) exponent
        else if b < a then scaled s (a - b) exponent
        else if a < b then scaled t (b - a) exponent
        else zero false
  | .infinite s, .infinite t => if s = t then infinity s else undefined
  | .infinite s, .finite .. => infinity s
  | .finite .., .infinite t => infinity t
  | .nan, _ | _, .nan => undefined

instance : Add Binary64 := ⟨lift sum⟩

instance : Sub Binary64 := ⟨lift fun a b => sum a b.negate⟩

/-! ## Products and quotients -/

def product : Shape → Shape → Binary64
  | .finite s m e, .finite t n f => scaled (s != t) (m * n) (e + f)
  | .infinite s, .infinite t => infinity (s != t)
  | .infinite s, .finite t n _ | .finite s n _, .infinite t =>
      if n = 0 then undefined else infinity (s != t)
  | .nan, _ | _, .nan => undefined

instance : Mul Binary64 := ⟨lift product⟩

def quotient : Shape → Shape → Binary64
  | .finite s m e, .finite t n f =>
      if n ≠ 0 then nearest (s != t) (m <<< (e - f).toNat) (n <<< (f - e).toNat)
      else if m = 0 then undefined
      else infinity (s != t)
  | .infinite s, .finite t _ _ => infinity (s != t)
  | .finite s _ _, .infinite t => zero (s != t)
  | .infinite _, .infinite _ | .nan, _ | _, .nan => undefined

instance : Div Binary64 := ⟨lift quotient⟩

/-! ## Square roots -/

/-- Adds to a root whose square is at most `n` the bits below a place that keep it so, from the
highest to the lowest. -/
def extendRoot (n : Nat) : (places : Nat) → (root : Nat) → Nat
  | 0, root => root
  | places + 1, root =>
      let extended := root + 1 <<< places
      extendRoot n places (if extended * extended ≤ n then extended else root)

def wholeRoot (n : Nat) : Nat := extendRoot n (n.log2 / 2 + 1) 0

/-- The double nearest to the root of a positive number. -/
def root (mantissa : Nat) (exponent : Int) : Binary64 :=
  -- enough places for the root to be longer than a mantissa, and an even exponent
  let places := 108 + (exponent % 2).toNat
  let moved := mantissa <<< places
  let root := wholeRoot moved
  scaled false (withRest root (root * root = moved)) ((exponent - places) / 2 - 1)

def sqrt (x : Binary64) : Binary64 :=
  match x.shape with
  | .nan => x.quiet
  | .infinite negative => if negative then undefined else x
  | .finite negative mantissa exponent =>
      if mantissa = 0 then x else if negative then undefined else root mantissa exponent

/-! ## Whole numbers -/

def floor (x : Binary64) : Binary64 :=
  match x.shape with
  | .nan => x.quiet
  | .infinite _ => x
  | .finite negative mantissa exponent =>
      let places := (-exponent).toNat
      let whole := mantissa >>> places
      if whole <<< places = mantissa then x
      else scaled negative (if negative then whole + 1 else whole) 0

/-- The whole part of a double, cut to 64 bits. -/
def toUInt64 (x : Binary64) : UInt64 :=
  match x.shape with
  | .finite false mantissa exponent =>
      UInt64.ofNat (min ((mantissa <<< exponent.toNat) >>> (-exponent).toNat) (UInt64.size - 1))
  | .infinite false => UInt64.ofNat (UInt64.size - 1)
  | .nan | .infinite true | .finite true _ _ => 0

end Slidewalk.Binary64
