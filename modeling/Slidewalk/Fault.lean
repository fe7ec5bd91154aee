/-!
# Reasons for refusing an operation of the store

A reason is data; its wording is `Fault.message`. Absent nodes are never a fault: reading them
gives nothing.
-/

namespace Slidewalk

/-- The bounds of the store that an insertion can run into. -/
inductive Bound where
  | nodes
  | degree
  | poolEntries
  | exactFitEntries
  deriving DecidableEq, Repr

inductive PackedField where
  | nodeIndex
  | edgeType
  deriving DecidableEq, Repr

inductive SealedStore where
  | segment (id : Nat)
  | uniformPool
  | powerLawPool
  | exactFitPool
  deriving DecidableEq, Repr

inductive PositiveLimit where
  | segmentEdgeCapacity
  | maxSegments
  | maxDegree
  | maxNodesPerSegment
  deriving DecidableEq, Repr

/-- Options that cannot be used, and uses that the options rule out. -/
inductive Misconfiguration where
  | typeWidth (bits : Nat)
  | nodeBound (nodes : Nat)
  | zeroUniformBound
  | uniformSize
  | zeroPowerLawBound
  | minClassBits (bits : Nat)
  | unsealedPool
  | unsealedSegment (id : Nat)
  | evictingUnsealed
  | zeroLimit (limit : PositiveLimit)
  | minSizeClassBits (bits : Nat)
  | unaddressableNodes (nodes addressable : Nat)
  | uniformLimits
  deriving DecidableEq, Repr

inductive Fault where
  | configuration (cause : Misconfiguration)
  | capacity (bound : Bound) (limit : Nat)
  | encoding (field : PackedField) (value max : Nat)
  | sealed (store : SealedStore)
  deriving DecidableEq, Repr

/-- The widest type field a packed entry can carry, in bits. -/
def maxTypeBits : Nat := 8

/-- The largest exponent of the smallest size class. -/
def maxMinClassBits : Nat := 16

def Bound.label : Bound → String
  | nodes => "nodes"
  | degree => "degree"
  | poolEntries => "pool entries"
  | exactFitEntries => "optimized entries"

def PackedField.label : PackedField → String
  | nodeIndex => "node index"
  | edgeType => "edge type"

def SealedStore.label : SealedStore → String
  | segment id => s!"segment {id}"
  | uniformPool => "uniform edge pool"
  | powerLawPool => "power-law edge pool"
  | exactFitPool => "optimized edge pool"

def PositiveLimit.label : PositiveLimit → String
  | segmentEdgeCapacity => "segment_edge_capacity"
  | maxSegments => "max_segments"
  | maxDegree => "max_degree"
  | maxNodesPerSegment => "max_nodes_per_segment"

def Misconfiguration.message : Misconfiguration → String
  | typeWidth bits => s!"edge type width {bits} exceeds {maxTypeBits} bits"
  | nodeBound nodes => s!"max nodes {nodes} must be in 1..=u32::MAX"
  | zeroUniformBound => "uniform pool needs non-zero node and degree bounds"
  | uniformSize => "uniform pool capacity overflows usize"
  | zeroPowerLawBound => "power-law pool needs non-zero node, edge and degree bounds"
  | minClassBits bits => s!"minimum size class 2^{bits} exceeds 2^{maxMinClassBits}"
  | unsealedPool => "optimizer requires a sealed pool"
  | unsealedSegment id => s!"segment {id} must be sealed before optimization"
  | evictingUnsealed => "only sealed segments can be evicted"
  | zeroLimit limit => s!"{limit.label} must be positive"
  | minSizeClassBits bits => s!"min_size_class_bits {bits} exceeds {maxMinClassBits}"
  | unaddressableNodes nodes addressable =>
      s!"max_nodes_per_segment {nodes} exceeds the {addressable} indices the edge codec can address"
  | uniformLimits => "uniform pool size max_nodes_per_segment * max_degree overflows"

namespace Fault

def message : Fault → String
  | configuration cause => s!"invalid configuration: {cause.message}"
  | capacity bound limit => s!"capacity exceeded: {bound.label} limit is {limit}"
  | encoding field value max => s!"{field.label} {value} exceeds representable maximum {max}"
  | sealed store => s!"{store.label} is sealed"

def isCapacity : Fault → Bool
  | capacity _ _ => true
  | _ => false

def isConfiguration : Fault → Bool
  | configuration _ => true
  | _ => false

end Fault

end Slidewalk
