import Slidewalk.Binary64
import Slidewalk.Random.ChaCha

/-!
# Draws

Draws from a stream of random words: a number below a bound, an event of some probability, and one
of several weighted items.
-/

namespace Slidewalk.Random

/-! ## Numbers below a bound -/

/-- The low halves that `below` accepts: as many as make every answer equally likely. -/
def zone (bound : Nat) : Nat := bound * Nat.pow 2 (63 - bound.log2) - 1

/-- How many words `below` may reject; a word is rejected less often than not. -/
def maxRejections : Nat := 1024

/-- Draws words until the low half of a word times the bound is accepted; its high half is the
answer. The last word allowed is not rejected. -/
def belowWithin (bound : Nat) : (rejections : Nat) → Stream → Nat × Stream
  | 0, stream =>
      let (word, stream) := stream.next
      (word.toNat * bound / UInt64.size, stream)
  | rejections + 1, stream =>
      let (word, stream) := stream.next
      let product := word.toNat * bound
      if product % UInt64.size ≤ zone bound then (product / UInt64.size, stream)
      else belowWithin bound rejections stream

/-- A number below a positive bound, each equally likely. -/
def below (bound : Nat) (stream : Stream) : Nat × Stream :=
  belowWithin bound maxRejections stream

theorem belowWithin_lt (bound rejections : Nat) (stream : Stream) (h : 0 < bound) :
    (belowWithin bound rejections stream).1 < bound := by
  have hword (word : UInt64) : word.toNat * bound / UInt64.size < bound := by
    rw [Nat.div_lt_iff_lt_mul (by decide), Nat.mul_comm bound]
    exact Nat.mul_lt_mul_of_pos_right word.toNat_lt h
  induction rejections generalizing stream with
  | zero => exact hword _
  | succ rejections ih =>
    unfold belowWithin
    dsimp only
    split
    · exact hword _
    · exact ih _

theorem below_lt (bound : Nat) (stream : Stream) (h : 0 < bound) :
    (below bound stream).1 < bound :=
  belowWithin_lt bound maxRejections stream h

/-! ## Events -/

structure Chance where
  /-- A certain event draws no word. -/
  isCertain : Bool
  /-- The number of words for which it happens if it is not certain. -/
  threshold : UInt64
  deriving DecidableEq, Repr

namespace Chance

def ofProbability (probability : Binary64) : Chance where
  isCertain := probability = 1.0
  threshold := (probability * 18446744073709551616.0).toUInt64

def draw (chance : Chance) (stream : Stream) : Bool × Stream :=
  if chance.isCertain then (true, stream)
  else
    let (word, stream) := stream.next
    (word < chance.threshold, stream)

end Chance

/-! ## Weighted items -/

/-- Items with the sums of the weights in front of them. -/
structure Weighted (α : Type) where
  first : α
  /-- The others, each with the sum of the weights before it. -/
  rest : List (Binary64 × α)
  /-- A draw is a uniform number below one times this. -/
  scale : Binary64

namespace Weighted

/-- The sums of weights in front of each item behind the first, and the sum of all. -/
def partialSums (sum : Binary64) : List (α × Binary64) → List (Binary64 × α) × Binary64
  | [] => ([], sum)
  | (item, weight) :: rest =>
      let (sums, total) := partialSums (sum + weight) rest
      ((sum, item) :: sums, total)

/-- The greatest number that a draw multiplies by the scale. -/
def maxFraction : Binary64 := 1.0 - 1.0 / 4503599627370496.0

/-- Lowers the scale by single places until every draw stays below the total. -/
def fitScale (total : Binary64) : (tries : Nat) → (scale : Binary64) → Binary64
  | 0, scale => scale
  | tries + 1, scale =>
      if total ≤ scale * maxFraction + 0.0 then
        fitScale total tries (⟨scale.bits - 1⟩)
      else scale

/-- Items with their weights, of which there is at least one. -/
def ofList? : List (α × Binary64) → Option (Weighted α)
  | [] => none
  | (first, weight) :: others =>
      let (rest, total) := partialSums weight others
      some { first, rest, scale := fitScale total 64 total }

/-- The last item whose preceding sum is at most a number. -/
def pick (current : α) (number : Binary64) : List (Binary64 × α) → α
  | [] => current
  | (sum, item) :: rest => if sum ≤ number then pick item number rest else current

/-- The uniform number below one that the upper 52 bits of a word stand for. -/
def fraction (word : UInt64) : Binary64 := .scaled false (word >>> 12).toNat (-52)

/-- One of the items, each as likely as its weight says. -/
def draw (items : Weighted α) (stream : Stream) : α × Stream :=
  let (word, stream) := stream.next
  (pick items.first (fraction word * items.scale + 0.0) items.rest, stream)

theorem pick_mem (current : α) (number : Binary64) (rest : List (Binary64 × α)) :
    pick current number rest = current ∨ pick current number rest ∈ rest.map (·.2) := by
  induction rest generalizing current with
  | nil => exact .inl rfl
  | cons entry rest ih =>
    unfold pick
    split
    · rcases ih entry.2 with h | h
      · exact .inr (by simp [h])
      · exact .inr (by simp [h])
    · exact .inl rfl

end Weighted

end Slidewalk.Random
