import Slidewalk.EdgeCodec
import Slidewalk.Pool.Uniform

/-!
# Limits and options of a graph

`Limits` are the sizes a configuration can set. `Options` add what only a program can choose: the
packing of adjacency entries and whether events are counted.
-/

namespace Slidewalk

/-- The layout of the pools that take edges. -/
inductive PoolKind where
  | uniform
  | powerLaw
  deriving DecidableEq, Repr

structure Limits where
  pool : PoolKind
  /-- Edges a segment takes before it is sealed. -/
  segmentEdgeCapacity : Nat
  maxSegments : Nat
  /-- Distinct nodes per side of a segment. -/
  maxNodesPerSegment : Nat
  maxDegree : Nat
  /-- Nodes that the tables of a new segment have room for. -/
  initialNodeCapacity : Nat
  /-- The smallest slot of a power-law pool has `2 ^ minSizeClassBits` entries. -/
  minSizeClassBits : Nat
  /-- High bits of an adjacency entry that hold the edge type. -/
  edgeTypeBits : Nat
  optimizeOnSeal : Bool
  deriving DecidableEq, Repr

namespace Limits

def standard : Limits where
  pool := .powerLaw
  segmentEdgeCapacity := 1048576
  maxSegments := 8
  maxNodesPerSegment := 1048576
  maxDegree := 65536
  initialNodeCapacity := 1024
  minSizeClassBits := 1
  edgeTypeBits := 4
  optimizeOnSeal := false

/-- The first limit that is zero but must not be. -/
def zeroLimit (limits : Limits) : Option PositiveLimit :=
  if limits.segmentEdgeCapacity = 0 then some .segmentEdgeCapacity
  else if limits.maxSegments = 0 then some .maxSegments
  else if limits.maxDegree = 0 then some .maxDegree
  else if limits.maxNodesPerSegment = 0 then some .maxNodesPerSegment
  else none

/-- Whether a uniform pool of these limits has more entries than 64 bits count. -/
def uniformOverflows (limits : Limits) : Bool :=
  limits.pool = .uniform ∧
    UniformPool.sizeLimit ≤ limits.maxNodesPerSegment * limits.maxDegree

end Limits

structure Options where
  limits : Limits
  /-- The packing to use instead of a bit mask of `limits.edgeTypeBits`. -/
  codec : Option EdgeCodec
  counting : Bool

namespace Options

def ofLimits (limits : Limits) : Options := { limits, codec := none, counting := true }

def standard : Options := ofLimits .standard

def resolveCodec (options : Options) : Except Fault EdgeCodec :=
  match options.codec with
  | some codec => .ok codec
  | none => (BitMask.ofWidth options.limits.edgeTypeBits).map (·.toCodec)

/-- The node indices the packing declares room for. -/
def addressable (codec : EdgeCodec) : Nat := codec.maxIndex + 1

/-- Whether the limits can be used together; the first thing wrong with them otherwise. -/
def validate (options : Options) : Except Fault Unit := do
  let limits := options.limits
  if let some limit := limits.zeroLimit then
    throw (.configuration (.zeroLimit limit))
  if maxMinClassBits < limits.minSizeClassBits then
    throw (.configuration (.minSizeClassBits limits.minSizeClassBits))
  let codec ← options.resolveCodec
  if addressable codec < limits.maxNodesPerSegment then
    throw (.configuration (.unaddressableNodes limits.maxNodesPerSegment (addressable codec)))
  if limits.uniformOverflows then
    throw (.configuration .uniformLimits)

end Options

end Slidewalk
