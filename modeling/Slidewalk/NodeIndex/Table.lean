import Slidewalk.Edge
import Slidewalk.PowerOfTwo

/-!
# Open-addressed table of node indices

A slot holds the index of a node or nothing; the ids themselves stay in the list the indices point
into. A search starts at an id's home slot and walks to the next slot until it meets the id or a
vacant slot. It gives up after as many steps as the table has slots.
-/

namespace Slidewalk

/-- Where the search for an id starts in a table of a given capacity; taken modulo the capacity. -/
abbrev Placement := Nat → NodeId → Nat

/-- The top bits of the Fx hash of an id, as many as number the slots. The Fx hash of one word is
the word times this odd constant. -/
def Placement.multiplicative : Placement := fun capacity id =>
  ((id * 0x517cc1b727220a95).toNat >>> (64 - capacity.log2))

inductive Probe where
  | found (index : Nat)
  | vacant (slot : Nat)
  | exhausted
  deriving DecidableEq, Repr

def Probe.index? : Probe → Option Nat
  | found index => some index
  | _ => none

abbrev Table := Array (Option Nat)

namespace Table

/-- The fewest slots a table has. -/
def minCapacity : Nat := 16

def empty (capacity : Nat) : Table := Array.replicate capacity none

/-- A table for at least this many slots: the next power of two. -/
def sized (capacity : Nat) : Table := empty (max (Nat.pow 2 (ceilLog2 capacity)) minCapacity)

def home (table : Table) (placement : Placement) (id : NodeId) : Nat :=
  placement table.size id % table.size

def next (table : Table) (slot : Nat) : Nat := (slot + 1) % table.size

/-- Searches for an id, resolving the indices it meets through `ids`. -/
def probe (table : Table) (ids : Array NodeId) (id : NodeId) : (steps slot : Nat) → Probe
  | 0, _ => .exhausted
  | steps + 1, slot =>
      -- ids are never taken out, so a vacant slot ends the search
      match table[slot]? with
      | none => .exhausted
      | some none => .vacant slot
      | some (some index) =>
          if ids[index]? = some id then .found index
          else probe table ids id steps (table.next slot)

/-- The first vacant slot from a given one on. -/
def vacancy (table : Table) : (steps slot : Nat) → Option Nat
  | 0, _ => none
  | steps + 1, slot =>
      match table[slot]? with
      | none => none
      | some none => some slot
      | some (some _) => vacancy table steps (table.next slot)

/-- Puts an index into the first vacant slot from the id's home on. -/
def place (table : Table) (placement : Placement) (id : NodeId) (index : Nat) : Table :=
  match table.vacancy table.size (table.home placement id) with
  | some slot => table.setIfInBounds slot (some index)
  | none => table

/-- The table of a given capacity that holds every id of a list under its position. -/
def ofIds (placement : Placement) (capacity : Nat) (ids : Array NodeId) : Table :=
  ids.zipIdx.foldl (fun table entry => table.place placement entry.1 entry.2) (empty capacity)

def occupied (table : Table) : Nat := table.countP Option.isSome

@[simp] theorem size_empty (capacity : Nat) : (empty capacity).size = capacity := by
  simp [empty]

@[simp] theorem size_place (table : Table) (placement : Placement) (id : NodeId) (index : Nat) :
    (table.place placement id index).size = table.size := by
  unfold place
  split <;> simp

theorem home_lt (table : Table) (placement : Placement) (id : NodeId) (h : 0 < table.size) :
    table.home placement id < table.size :=
  Nat.mod_lt _ h

theorem next_lt (table : Table) (slot : Nat) (h : 0 < table.size) :
    table.next slot < table.size :=
  Nat.mod_lt _ h

end Table

end Slidewalk
