import Slidewalk.Edge
import Slidewalk.Fault

/-!
# Packed adjacency entries

An adjacency list stores one 32-bit word per edge: the index of the node at the other end in the
low bits, the edge type in the high bits. `BitMask` fixes the split; `EdgeCodec` is what a segment
needs of any such packing.
-/

namespace Slidewalk

/-- A packing of a node index and an edge type into one word, with the largest index and type it
declares. -/
structure EdgeCodec where
  encode : Nat → EdgeType → Except Fault UInt32
  index : UInt32 → Nat
  kind : UInt32 → EdgeType
  maxIndex : Nat
  maxKind : EdgeType

namespace EdgeCodec

/-- Every pair within the declared bounds packs, and unpacks to itself. -/
def RoundTrips (codec : EdgeCodec) : Prop :=
  ∀ index kind, index ≤ codec.maxIndex → kind ≤ codec.maxKind →
    ∃ packed, codec.encode index kind = .ok packed ∧
      codec.index packed = index ∧ codec.kind packed = kind

def withMaxIndex (codec : EdgeCodec) (maxIndex : Nat) : EdgeCodec :=
  { codec with maxIndex }

end EdgeCodec

/-- A split of a 32-bit word into `typeBits` high bits for the type and the rest for the index. -/
structure BitMask where
  typeBits : Nat
  typeBits_le : typeBits ≤ maxTypeBits := by decide

namespace BitMask

/-- The split used unless another is asked for. -/
def standard : BitMask := { typeBits := 4 }

/-- The whole word is an index; only type zero can be stored. -/
def untyped : BitMask := { typeBits := 0 }

def ofWidth (bits : Nat) : Except Fault BitMask :=
  if h : bits ≤ maxTypeBits then .ok ⟨bits, h⟩ else .error (.configuration (.typeWidth bits))

def indexBits (mask : BitMask) : Nat := 32 - mask.typeBits

/-- The number of indices that fit. -/
def indexSize (mask : BitMask) : Nat := Nat.pow 2 mask.indexBits

def typeSize (mask : BitMask) : Nat := Nat.pow 2 mask.typeBits

def maxIndex (mask : BitMask) : Nat := mask.indexSize - 1

def maxKind (mask : BitMask) : EdgeType := UInt8.ofNat (mask.typeSize - 1)

/-- The type above the index. The index is checked before the type. -/
def encode (mask : BitMask) (index : Nat) (kind : EdgeType) : Except Fault UInt32 :=
  if mask.maxIndex < index then
    .error (.encoding .nodeIndex index mask.maxIndex)
  else if mask.maxKind < kind then
    .error (.encoding .edgeType kind.toNat mask.maxKind.toNat)
  else
    .ok (UInt32.ofNat (kind.toNat * mask.indexSize + index))

def index (mask : BitMask) (packed : UInt32) : Nat := packed.toNat % mask.indexSize

def kind (mask : BitMask) (packed : UInt32) : EdgeType :=
  UInt8.ofNat (packed.toNat / mask.indexSize)

def toCodec (mask : BitMask) : EdgeCodec where
  encode := mask.encode
  index := mask.index
  kind := mask.kind
  maxIndex := mask.maxIndex
  maxKind := mask.maxKind

theorem indexSize_pos (mask : BitMask) : 0 < mask.indexSize := Nat.two_pow_pos mask.indexBits

theorem typeSize_mul_indexSize (mask : BitMask) :
    mask.typeSize * mask.indexSize = UInt32.size := by
  have : mask.typeBits ≤ 8 := mask.typeBits_le
  have : mask.typeBits + mask.indexBits = 32 := by
    unfold indexBits
    omega
  have := Nat.pow_add 2 mask.typeBits mask.indexBits
  simp_all [typeSize, indexSize, UInt32.size]

theorem typeSize_le (mask : BitMask) : mask.typeSize ≤ UInt8.size :=
  Nat.pow_le_pow_right (by decide) mask.typeBits_le

theorem toNat_maxKind (mask : BitMask) : mask.maxKind.toNat = mask.typeSize - 1 := by
  have : mask.typeSize ≤ 256 := mask.typeSize_le
  rw [maxKind, UInt8.toNat_ofNat']
  omega

end BitMask

end Slidewalk
