import Slidewalk.Upsert

/-!
# Occupancy of adjacency pools

Statistics add up field by field; the size classes of two pools are matched by slot length and
listed in ascending order of it.
-/

namespace Slidewalk

/-- The slots of one length: those that hold a node's list and those given back. -/
structure ClassStats where
  slotLen : Nat
  inUse : Nat
  released : Nat
  deriving DecidableEq, Repr

structure PoolStats where
  nodes : Nat
  edges : Nat
  /-- Entries set aside for nodes, used or not. -/
  reserved : Nat
  classes : List ClassStats
  deriving DecidableEq, Repr

namespace ClassStats

def add (old new : ClassStats) : ClassStats :=
  { old with inUse := old.inUse + new.inUse, released := old.released + new.released }

/-- Adds a class to the first one of its slot length, or lists it at the end if there is none. -/
def record (new : ClassStats) (classes : List ClassStats) : List ClassStats :=
  upsert (·.slotLen) new.slotLen (·.add new) new classes

/-- Whether one class is listed no later than another: the shorter slots first. -/
def precedes (a b : ClassStats) : Bool := a.slotLen ≤ b.slotLen

end ClassStats

namespace PoolStats

def empty : PoolStats := { nodes := 0, edges := 0, reserved := 0, classes := [] }

def wasted (stats : PoolStats) : Nat := stats.reserved - stats.edges

/-- The classes of the second are added to those of the first one by one, and sorted afterwards. -/
def merge (a b : PoolStats) : PoolStats where
  nodes := a.nodes + b.nodes
  edges := a.edges + b.edges
  reserved := a.reserved + b.reserved
  classes :=
    (b.classes.foldl (fun classes new => new.record classes) a.classes).mergeSort
      ClassStats.precedes

end PoolStats

end Slidewalk
