import Slidewalk.Cursor
import Slidewalk.Segment
import Slidewalk.Total

/-!
# Views

A view is a list of segments read together, oldest first. Reads of a node go through the segments
in that order.
-/

namespace Slidewalk

structure GraphStats where
  segments : Nat
  sealedSegments : Nat
  optimizedSegments : Nat
  edges : Nat
  /-- Left nodes, counted once per segment. -/
  leftNodes : Nat
  /-- Right nodes, counted once per segment. -/
  rightNodes : Nat
  timeRange : Option (Time × Time)
  pools : PoolStats

structure View where
  segments : List Segment

namespace View

def empty : View := { segments := [] }

def neighbors (view : View) (node : NodeId) (side : Side) : List Neighbor :=
  view.segments.flatMap (·.neighbors node side)

/-- The segments with an edge at or after a point in time. -/
def since (view : View) (time : Time) : View where
  segments := view.segments.filter fun segment =>
    match segment.timeRange with
    | some (_, newest) => time ≤ newest
    | none => false

/-- The neighbors of a node in the segments with an edge at or after a point in time. -/
def neighborsSince (view : View) (node : NodeId) (side : Side) (time : Time) : List Neighbor :=
  (view.since time).neighbors node side

def degree (view : View) (node : NodeId) (side : Side) : Nat :=
  total (·.degree node side) view.segments

def load (view : View) (node : NodeId) (side : Side) (cursor : Cursor) : Cursor :=
  cursor.load side (view.neighbors node side)

def loadSince (view : View) (node : NodeId) (side : Side) (time : Time) (cursor : Cursor) :
    Cursor :=
  cursor.load side (view.neighborsSince node side time)

/-- The least range that covers two ranges. -/
def joinRanges : Option (Time × Time) → Option (Time × Time) → Option (Time × Time)
  | some (oldest, newest), some (oldest', newest') => some (min oldest oldest', max newest newest')
  | some range, none => some range
  | none, range => range

def timeRange (view : View) : Option (Time × Time) :=
  view.segments.foldl (fun range segment => joinRanges range segment.timeRange) none

def poolStats (view : View) : PoolStats :=
  view.segments.foldl (fun stats segment => stats.merge segment.stats) .empty

def stats (view : View) : GraphStats where
  segments := view.segments.length
  sealedSegments := view.segments.countP (·.isSealed)
  optimizedSegments := view.segments.countP (·.isRepacked)
  edges := total (·.edgeCount) view.segments
  leftNodes := total (·.nodeCount .left) view.segments
  rightNodes := total (·.nodeCount .right) view.segments
  timeRange := view.timeRange
  pools := view.poolStats

@[simp] theorem neighbors_empty (node : NodeId) (side : Side) :
    empty.neighbors node side = [] := rfl

theorem neighbors_append (older newer : List Segment) (node : NodeId) (side : Side) :
    View.neighbors ⟨older ++ newer⟩ node side =
      View.neighbors ⟨older⟩ node side ++ View.neighbors ⟨newer⟩ node side := by
  simp [neighbors]

end View

end Slidewalk
