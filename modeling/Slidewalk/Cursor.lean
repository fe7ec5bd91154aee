import Slidewalk.Edge

/-!
# Cursors

A cursor is a reusable buffer of neighbors with a reading position.
-/

namespace Slidewalk

structure Cursor where
  neighbors : Array Neighbor
  position : Nat
  /-- The side of the node whose neighbors were loaded last. -/
  side : Option Side
  deriving Repr

namespace Cursor

def empty : Cursor := { neighbors := #[], position := 0, side := none }

/-- An emptied cursor for the neighbors of a node on a side. -/
def reset (_ : Cursor) (side : Side) : Cursor :=
  { neighbors := #[], position := 0, side := some side }

def append (cursor : Cursor) (neighbors : List Neighbor) : Cursor :=
  { cursor with neighbors := cursor.neighbors ++ neighbors }

/-- The cursor at the first of the given neighbors, whatever it held before. -/
def load (cursor : Cursor) (side : Side) (neighbors : List Neighbor) : Cursor :=
  (cursor.reset side).append neighbors

def size (cursor : Cursor) : Nat := cursor.neighbors.size

def get? (cursor : Cursor) (position : Nat) : Option Neighbor := cursor.neighbors[position]?

/-- How many neighbors are still to be read. -/
def remaining (cursor : Cursor) : Nat := cursor.neighbors.size - cursor.position

def next? (cursor : Cursor) : Option (Neighbor × Cursor) :=
  cursor.neighbors[cursor.position]?.map fun neighbor =>
    (neighbor, { cursor with position := cursor.position + 1 })

/-- Up to `count` neighbors, and the cursor behind them. -/
def take (cursor : Cursor) : (count : Nat) → List Neighbor × Cursor
  | 0 => ([], cursor)
  | count + 1 =>
      match cursor.next? with
      | none => ([], cursor)
      | some (neighbor, rest) =>
          let (neighbors, rest) := take rest count
          (neighbor :: neighbors, rest)

/-- The cursor back at its first neighbor. -/
def restart (cursor : Cursor) : Cursor := { cursor with position := 0 }

@[simp] theorem toList_load (cursor : Cursor) (side : Side) (neighbors : List Neighbor) :
    (cursor.load side neighbors).neighbors.toList = neighbors := by
  simp [load, append, reset]

end Cursor

end Slidewalk
