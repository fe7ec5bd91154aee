/-!
# Random words

A stream of 32-bit words from the ChaCha block function with eight rounds and a 64-bit block
counter. A 64-bit seed is stretched to the 256-bit key by a linear congruential generator with a
permuted output.
-/

namespace Slidewalk.Random

/-- The sixteen words the block function works on. -/
abbrev Block := Vector UInt32 16

def rotateLeft (x : UInt32) (n : UInt32) : UInt32 := (x <<< n) ||| (x >>> (32 - n))

def quarterRound (block : Block) (a b c d : Fin 16) : Block :=
  let block := block.set a (block[a] + block[b])
  let block := block.set d (rotateLeft (block[d] ^^^ block[a]) 16)
  let block := block.set c (block[c] + block[d])
  let block := block.set b (rotateLeft (block[b] ^^^ block[c]) 12)
  let block := block.set a (block[a] + block[b])
  let block := block.set d (rotateLeft (block[d] ^^^ block[a]) 8)
  let block := block.set c (block[c] + block[d])
  block.set b (rotateLeft (block[b] ^^^ block[c]) 7)

def doubleRound (block : Block) : Block :=
  -- columns
  let block := quarterRound block 0 4 8 12
  let block := quarterRound block 1 5 9 13
  let block := quarterRound block 2 6 10 14
  let block := quarterRound block 3 7 11 15
  -- diagonals
  let block := quarterRound block 0 5 10 15
  let block := quarterRound block 1 6 11 12
  let block := quarterRound block 2 7 8 13
  quarterRound block 3 4 9 14

def doubleRounds : Nat := 4

/-- The block function: the mixed words added to the words they were mixed from. -/
def mix (block : Block) : Block :=
  (Nat.repeat doubleRound doubleRounds block).zipWith (· + ·) block

abbrev Key := Vector UInt32 8

/-- The block of a key and a counter: four constants, the key, the counter, two zeros. -/
def blockOf (key : Key) (counter : UInt64) : Block :=
  #v[0x61707865, 0x3320646e, 0x79622d32, 0x6b206574,
    key[0], key[1], key[2], key[3], key[4], key[5], key[6], key[7],
    counter.toUInt32, (counter >>> 32).toUInt32, 0, 0]

/-! ## Seeds -/

/-- One step of the generator that stretches seeds. -/
def stretch (state : UInt64) : UInt64 := state * 6364136223846793005 + 11634580027462260723

/-- The word that a state of that generator gives out. -/
def permuted (state : UInt64) : UInt32 :=
  let word := (((state >>> 18) ^^^ state) >>> 27).toUInt32
  let rotation := (state >>> 59).toUInt32
  -- rotated to the right by the top five bits
  (word >>> rotation) ||| (word <<< ((32 - rotation) % 32))

def keyWords (state : UInt64) : (count : Nat) → List UInt32
  | 0 => []
  | count + 1 => permuted (stretch state) :: keyWords (stretch state) count

theorem length_keyWords (state : UInt64) (count : Nat) :
    (keyWords state count).length = count := by
  induction count generalizing state with
  | zero => rfl
  | succ count ih => simp [keyWords, ih]

def keyOfSeed (seed : UInt64) : Key :=
  ⟨(keyWords seed 8).toArray, by simp [length_keyWords]⟩

/-! ## The stream -/

structure Stream where
  key : Key
  counter : UInt64
  /-- Words of the blocks so far that were not drawn yet. -/
  pending : List UInt32
  deriving DecidableEq, Repr

namespace Stream

def ofSeed (seed : UInt64) : Stream := { key := keyOfSeed seed, counter := 0, pending := [] }

/-- Draws a 64-bit word, the low half first. -/
def next (stream : Stream) : UInt64 × Stream :=
  match stream.pending with
  | low :: high :: rest =>
      (high.toUInt64 <<< 32 ||| low.toUInt64, { stream with pending := rest })
  | _ =>
      let block := mix (blockOf stream.key stream.counter)
      (block[1].toUInt64 <<< 32 ||| block[0].toUInt64,
        { key := stream.key, counter := stream.counter + 1, pending := block.toList.drop 2 })

end Stream

end Slidewalk.Random
