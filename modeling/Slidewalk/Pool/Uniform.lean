import Std.Data.HashMap
import Slidewalk.Fault
import Slidewalk.Pool.Room
import Slidewalk.Pool.Stats

/-!
# Uniform pools

Every node has one slot of `maxDegree` entries. `row` is the view: a node's entries in the order
they were written.
-/

namespace Slidewalk

structure UniformPool where
  maxNodes : Nat
  maxDegree : Nat
  /-- The written part of each slot that was written to. -/
  rows : Std.HashMap Nat (Array UInt32)
  /-- One more than the highest node written to. -/
  nodeCount : Nat
  edgeCount : Nat
  isSealed : Bool

namespace UniformPool

/-- Entries are counted in 64 bits. -/
def sizeLimit : Nat := UInt64.size

def create (maxNodes maxDegree : Nat) : Except Fault UniformPool :=
  if maxNodes = 0 ∨ maxDegree = 0 then .error (.configuration .zeroUniformBound)
  else if sizeLimit ≤ maxNodes * maxDegree then .error (.configuration .uniformSize)
  else .ok { maxNodes, maxDegree, rows := ∅, nodeCount := 0, edgeCount := 0, isSealed := false }

/-- How many entries fit: whole slots in whole chunks. -/
def entryRoom (pool : UniformPool) : Nat :=
  roundUp (pool.maxNodes * pool.maxDegree) (max (chunkEntries / pool.maxDegree) 1 * pool.maxDegree)

def row (pool : UniformPool) (node : Nat) : Array UInt32 := pool.rows.getD node #[]

/-- The length of a node's list. It is a number without bound here; lengths that are stored in 32
bits are the same up to a list of `2 ^ 32` entries, which fills 16 GiB. -/
def degree (pool : UniformPool) (node : Nat) : Nat := (pool.row node).size

/-- Why the pool refuses an edge of a node whatever its number. -/
def check (pool : UniformPool) (node : Nat) : Except Fault Unit :=
  if pool.isSealed then .error (.sealed .uniformPool)
  else if pool.maxDegree ≤ pool.degree node then .error (.capacity .degree pool.maxDegree)
  else .ok ()

/-- Why `add` refuses an edge of a node, if it does.

The place of an entry is a number without bound here. In 64 bits it is the same for every node the
pool was made for, and for every node at all unless a slot has more than `2 ^ 32` entries. Then the
product of a higher node and the length of a slot may not fit: a program that checks its products
stops, and one that does not goes on with the product modulo `2 ^ 64`, which may lie in a slot of
another node. -/
def refusal (pool : UniformPool) (node : Nat) : Option Fault :=
  if pool.isSealed then some (.sealed .uniformPool)
  else if nodeRoom pool.maxNodes ≤ node then some (.capacity .nodes (nodeRoom pool.maxNodes))
  else if pool.maxDegree ≤ pool.degree node then some (.capacity .degree pool.maxDegree)
  -- a node may be counted whose slot lies behind the last chunk
  else if pool.entryRoom ≤ node * pool.maxDegree + pool.degree node then
    some (.capacity .poolEntries pool.entryRoom)
  else none

def push (pool : UniformPool) (node : Nat) (entry : UInt32) : UniformPool :=
  -- taking the pool apart lets its rows be changed in place
  let ⟨maxNodes, maxDegree, rows, nodeCount, edgeCount, isSealed⟩ := pool
  { maxNodes, maxDegree, isSealed
    rows := rows.alter node fun row => some ((row.getD #[]).push entry)
    nodeCount := max nodeCount (node + 1)
    edgeCount := edgeCount + 1 }

def add (pool : UniformPool) (node : Nat) (entry : UInt32) : UniformPool × Except Fault Unit :=
  match pool.refusal node with
  | some fault => (pool, .error fault)
  | none => (pool.push node entry, .ok ())

def sealed (pool : UniformPool) : UniformPool := { pool with isSealed := true }

def stats (pool : UniformPool) : PoolStats where
  nodes := pool.nodeCount
  edges := pool.edgeCount
  reserved := pool.nodeCount * pool.maxDegree
  classes := []

theorem row_push (pool : UniformPool) (node : Nat) (entry : UInt32) (other : Nat) :
    (pool.push node entry).row other =
      if node = other then (pool.row other).push entry else pool.row other := by
  unfold push row
  dsimp only
  rw [Std.HashMap.getD_alter]
  by_cases h : node = other
  · subst h
    simp [Std.HashMap.getD_eq_getD_getElem?]
  · simp [h]

end UniformPool

end Slidewalk
