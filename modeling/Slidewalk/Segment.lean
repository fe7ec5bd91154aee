import Slidewalk.Limits
import Slidewalk.NodeIndex
import Slidewalk.Pool

/-!
# Segments

A segment is a bounded part of the window. For each side it numbers the nodes it has seen and keeps
their adjacency in a pool, so that it can be dropped as a whole. A sealed segment takes no more
edges and can be repacked.
-/

namespace Slidewalk

/-- One side of a segment: the numbering of its nodes and the edges leaving them. -/
structure Shore where
  index : NodeIndex
  pool : Pool

namespace Shore

/-- The entries of a node, none if the node is unknown. -/
def entries (shore : Shore) (node : NodeId) : Array UInt32 :=
  match shore.index.lookup node with
  | none => #[]
  | some number => shore.pool.row number

def degree (shore : Shore) (node : NodeId) : Nat :=
  match shore.index.lookup node with
  | none => 0
  | some number => shore.pool.degree number

/-- The number a node has or would be given next, if there is room for it. -/
def prospect (shore : Shore) (codec : EdgeCodec) (node : NodeId) : Except Fault Nat :=
  match shore.index.lookup node with
  | some number => .ok number
  | none =>
      if shore.index.maxNodes ≤ shore.index.size then
        .error (.capacity .nodes shore.index.maxNodes)
      else if codec.maxIndex < shore.index.size then
        .error (.encoding .nodeIndex shore.index.size codec.maxIndex)
      else
        .ok shore.index.size

end Shore

structure Segment where
  /-- Segments are numbered in the order they are opened. -/
  id : Nat
  edgeCapacity : Nat
  codec : EdgeCodec
  left : Shore
  right : Shore
  edgeCount : Nat
  isSealed : Bool
  /-- Whether the pools are exact-fit copies. -/
  isRepacked : Bool
  /-- The earliest time of an edge, or the largest time before there is one. -/
  oldest : Time
  /-- The latest time of an edge, or the smallest time before there is one. -/
  newest : Time

namespace Segment

/-- An empty pool of the layout the limits ask for. -/
def createPool (limits : Limits) : Except Fault Pool :=
  match limits.pool with
  | .uniform =>
      (UniformPool.create limits.maxNodesPerSegment limits.maxDegree).map .uniform
  | .powerLaw =>
      (PowerLawPool.create {
        maxNodes := limits.maxNodesPerSegment
        maxEdges := limits.segmentEdgeCapacity
        maxDegree := limits.maxDegree
        minClassBits := limits.minSizeClassBits }).map .powerLaw

/-- An empty segment that takes edges. The limits need not have been validated. -/
def create (id : Nat) (options : Options) : Except Fault Segment := do
  let limits := options.limits
  let codec ← options.resolveCodec
  let leftIndex ← NodeIndex.create limits.initialNodeCapacity limits.maxNodesPerSegment
  let rightIndex ← NodeIndex.create limits.initialNodeCapacity limits.maxNodesPerSegment
  let leftPool ← createPool limits
  let rightPool ← createPool limits
  return {
    id, codec
    edgeCapacity := limits.segmentEdgeCapacity
    left := ⟨leftIndex, leftPool⟩
    right := ⟨rightIndex, rightPool⟩
    edgeCount := 0
    isSealed := false
    isRepacked := false
    oldest := .maxValue
    newest := .minValue }

def shore (segment : Segment) : Side → Shore
  | .left => segment.left
  | .right => segment.right

def nodeCount (segment : Segment) (side : Side) : Nat := (segment.shore side).index.size

def timeRange (segment : Segment) : Option (Time × Time) :=
  if segment.edgeCount = 0 then none else some (segment.oldest, segment.newest)

def sealed (segment : Segment) : Segment :=
  let ⟨id, edgeCapacity, codec, ⟨leftIndex, leftPool⟩, ⟨rightIndex, rightPool⟩, edgeCount, _,
    isRepacked, oldest, newest⟩ := segment
  { id, edgeCapacity, codec, edgeCount, isRepacked, oldest, newest
    left := ⟨leftIndex, leftPool.sealed⟩
    right := ⟨rightIndex, rightPool.sealed⟩
    isSealed := true }

/-- Whether an unsealed segment would refuse an edge, and why. The edge type is looked at first,
then the room for the left and the right node, then the room in their adjacency. -/
def verdict (segment : Segment) (edge : Edge) : Except Fault Unit := do
  if segment.codec.maxKind < edge.kind then
    throw (.encoding .edgeType edge.kind.toNat segment.codec.maxKind.toNat)
  let leftNumber ← segment.left.prospect segment.codec edge.left
  let rightNumber ← segment.right.prospect segment.codec edge.right
  segment.left.pool.check leftNumber
  segment.right.pool.check rightNumber

/-- Counts an edge, and seals the segment if it is now full. -/
def count (segment : Segment) : Segment :=
  let counted := { segment with edgeCount := segment.edgeCount + 1 }
  if counted.edgeCapacity ≤ counted.edgeCount then counted.sealed else counted

/-- Writes the two entries of an edge whose nodes are numbered: into the left node's list, then into
the right node's. -/
def link (segment : Segment) (leftNumber rightNumber : Nat) (toRight toLeft : UInt32) :
    Segment × Except Fault Unit :=
  -- taking the segment apart lets its arrays be changed in place
  let ⟨id, edgeCapacity, codec, ⟨leftIndex, leftPool⟩, ⟨rightIndex, rightPool⟩, edgeCount, isSealed,
    isRepacked, oldest, newest⟩ := segment
  match leftPool.add leftNumber toRight with
  | (leftPool, .error fault) =>
      ({ id, edgeCapacity, codec, edgeCount, isSealed, isRepacked, oldest, newest
         left := ⟨leftIndex, leftPool⟩
         right := ⟨rightIndex, rightPool⟩ }, .error fault)
  -- an entry in the left list stays even if the right list refuses its own
  | (leftPool, .ok ()) =>
      let (rightPool, result) := rightPool.add rightNumber toLeft
      let segment :=
        { id, edgeCapacity, codec, edgeCount, isSealed, isRepacked, oldest, newest
          left := ⟨leftIndex, leftPool⟩
          right := ⟨rightIndex, rightPool⟩ }
      match result with
      | .error fault => (segment, .error fault)
      | .ok () => (segment.count, .ok ())

def touch (segment : Segment) (time : Time) : Segment :=
  { segment with oldest := min segment.oldest time, newest := max segment.newest time }

/-- Numbers the nodes of an edge, packs its two entries and writes them. -/
def write (segment : Segment) (edge : Edge) : Segment × Except Fault Unit :=
  -- taking the segment apart lets its arrays be changed in place
  let ⟨id, edgeCapacity, codec, ⟨leftIndex, leftPool⟩, ⟨rightIndex, rightPool⟩, edgeCount, isSealed,
    isRepacked, oldest, newest⟩ := segment
  let (leftIndex, leftNumber) := leftIndex.intern edge.left
  match leftNumber with
  | .error fault =>
      ({ id, edgeCapacity, codec, edgeCount, isSealed, isRepacked, oldest, newest
         left := ⟨leftIndex, leftPool⟩
         right := ⟨rightIndex, rightPool⟩ }, .error fault)
  | .ok leftNumber =>
      let (rightIndex, rightNumber) := rightIndex.intern edge.right
      let segment :=
        { id, edgeCapacity, codec, edgeCount, isSealed, isRepacked, oldest, newest
          left := ⟨leftIndex, leftPool⟩
          right := ⟨rightIndex, rightPool⟩ }
      match rightNumber with
      | .error fault => (segment, .error fault)
      | .ok rightNumber =>
          match codec.encode rightNumber edge.kind, codec.encode leftNumber edge.kind with
          | .error fault, _ => (segment, .error fault)
          | _, .error fault => (segment, .error fault)
          | .ok toRight, .ok toLeft =>
              (segment.touch edge.time).link leftNumber rightNumber toRight toLeft

/-- Appends an edge, sealing the segment when it is full. -/
def add (segment : Segment) (edge : Edge) : Segment × Except Fault Unit :=
  if segment.isSealed then (segment, .error (.sealed (.segment segment.id)))
  else if segment.edgeCapacity ≤ segment.edgeCount then
    -- a capacity of zero is reached before the first edge
    (segment.sealed, .error (.sealed (.segment segment.id)))
  else match segment.verdict edge with
    | .error fault => (segment, .error fault)
    | .ok () => segment.write edge

def degree (segment : Segment) (node : NodeId) (side : Side) : Nat :=
  (segment.shore side).degree node

/-- What an entry in the list of a node on a side says; nothing if it names no node. -/
def neighbor? (segment : Segment) (side : Side) (packed : UInt32) : Option Neighbor :=
  ((segment.shore side.opposite).index.external (segment.codec.index packed)).map fun node =>
    { node, kind := segment.codec.kind packed, engagedAt := segment.newest }

/-- The neighbors of a node, in the order its edges were written. -/
def neighbors (segment : Segment) (node : NodeId) (side : Side) : List Neighbor :=
  ((segment.shore side).entries node).toList.filterMap (segment.neighbor? side)

def stats (segment : Segment) : PoolStats := segment.left.pool.stats.merge segment.right.pool.stats

def growths (segment : Segment) : Nat := segment.left.index.growths + segment.right.index.growths

def promotions (segment : Segment) : Nat :=
  segment.left.pool.promotions + segment.right.pool.promotions

/-- A copy of a sealed segment with exact-fit pools. -/
def repack (segment : Segment) : Except Fault Segment := do
  if !segment.isSealed then
    throw (.configuration (.unsealedSegment segment.id))
  let leftPool ← segment.left.pool.repack
  let rightPool ← segment.right.pool.repack
  return { segment with
    left := { segment.left with pool := .exactFit leftPool }
    right := { segment.right with pool := .exactFit rightPool }
    isSealed := true
    isRepacked := true }

theorem repack_cases {segment repacked : Segment} (h : segment.repack = .ok repacked) :
    segment.isSealed = true ∧ ∃ leftPool rightPool,
      segment.left.pool.repack = .ok leftPool ∧ segment.right.pool.repack = .ok rightPool ∧
      repacked = { segment with
        left := { segment.left with pool := .exactFit leftPool }
        right := { segment.right with pool := .exactFit rightPool }
        isSealed := true
        isRepacked := true } := by
  unfold repack at h
  cases hsealed : segment.isSealed with
  | false => simp [hsealed, throw, bind, Except.bind] at h
  | true =>
    cases hleft : segment.left.pool.repack with
    | error fault => simp [hsealed, hleft, bind, Except.bind] at h
    | ok leftPool =>
      cases hright : segment.right.pool.repack with
      | error fault => simp [hsealed, hleft, hright, bind, Except.bind] at h
      | ok rightPool =>
        simp only [hsealed, hleft, hright, bind, Except.bind, pure, Except.pure, Bool.not_true,
          Bool.false_eq_true, if_false, Except.ok.injEq] at h
        exact ⟨rfl, leftPool, rightPool, rfl, rfl, h.symm⟩

def describe (segment : Segment) : String :=
  let state := s!"sealed: {segment.isSealed}, optimized: {segment.isRepacked}"
  "Segment \x7b " ++ s!"id: {segment.id}, edges: {segment.edgeCount}, " ++ state ++ " \x7d"

end Segment

end Slidewalk
