import Slidewalk.Fault
import Slidewalk.Pool.Stats

/-!
# Exact-fit pools

A read-only layout without slack: the lists of nodes 0, 1, … lie end to end in one array, and an
array of offsets says where each begins and where the last one ends.
-/

namespace Slidewalk

structure ExactFitPool where
  offsets : Array Nat
  entries : Array UInt32
  deriving DecidableEq, Repr

namespace ExactFitPool

/-- Offsets are stored in 32 bits. -/
def maxEntries : Nat := UInt32.size - 1

def empty : ExactFitPool := { offsets := #[0], entries := #[] }

def pushRow (pool : ExactFitPool) (row : Array UInt32) : ExactFitPool where
  offsets := pool.offsets.push (pool.entries.size + row.size)
  entries := pool.entries ++ row

/-- The layout of the lists of nodes 0, 1, … -/
def ofRows (rows : List (Array UInt32)) : ExactFitPool := rows.foldl pushRow empty

def row (pool : ExactFitPool) (node : Nat) : Array UInt32 :=
  match pool.offsets[node]?, pool.offsets[node + 1]? with
  | some start, some stop => pool.entries.extract start stop
  | _, _ => #[]

def degree (pool : ExactFitPool) (node : Nat) : Nat :=
  match pool.offsets[node]?, pool.offsets[node + 1]? with
  | some start, some stop => stop - start
  | _, _ => 0

def nodeCount (pool : ExactFitPool) : Nat := pool.offsets.size - 1

def edgeCount (pool : ExactFitPool) : Nat := pool.entries.size

def stats (pool : ExactFitPool) : PoolStats where
  nodes := pool.nodeCount
  edges := pool.edgeCount
  reserved := pool.entries.size
  classes := []

@[simp] theorem nodeCount_empty : empty.nodeCount = 0 := rfl

@[simp] theorem entries_pushRow (pool : ExactFitPool) (row : Array UInt32) :
    (pool.pushRow row).entries = pool.entries ++ row := rfl

end ExactFitPool

end Slidewalk
