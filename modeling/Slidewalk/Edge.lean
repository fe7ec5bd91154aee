/-!
# Edges

The window holds edges between left nodes and right nodes. An edge is seen from both of its
ends: as a neighbor of its left node and as a neighbor of its right node.
-/

namespace Slidewalk

/-- The id a caller gives a node. Left and right ids live in separate spaces. -/
abbrev NodeId := UInt64

/-- A small categorical tag of an edge. -/
abbrev EdgeType := UInt8

/-- A signed 64-bit point in time; its unit is the caller's. -/
abbrev Time := Int64

inductive Side where
  | left
  | right
  deriving DecidableEq, Repr, Inhabited

namespace Side

def opposite : Side → Side
  | left => right
  | right => left

@[simp] theorem opposite_opposite (side : Side) : side.opposite.opposite = side := by
  cases side <;> rfl

end Side

structure Edge where
  left : NodeId
  right : NodeId
  kind : EdgeType
  time : Time
  deriving DecidableEq, Repr, Inhabited

def Edge.endpoint (edge : Edge) : Side → NodeId
  | .left => edge.left
  | .right => edge.right

/-- One entry of a node's adjacency: the node at the other end, the type of the edge, and the
latest time of any edge in the segment that holds it. -/
structure Neighbor where
  node : NodeId
  kind : EdgeType
  engagedAt : Time
  deriving DecidableEq, Repr, Inhabited

end Slidewalk
