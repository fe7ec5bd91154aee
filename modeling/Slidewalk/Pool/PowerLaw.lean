import Std.Data.HashMap
import Slidewalk.Fault
import Slidewalk.Pool.Room
import Slidewalk.Pool.Stats
import Slidewalk.PowerOfTwo
import Slidewalk.Total

/-!
# Power-law pools

Class `k` holds slots of `2 ^ (minClassBits + k)` entries. A node starts in class 0 and moves one
class up when its slot is full; the slot it leaves is free for the next node that needs one of that
class. `row` is the view: a node's entries in the order they were written, wherever they lie.

The pool has one user at a time. So nobody reads a slot while its list moves away, and a slot that a
list leaves is free at once: a list of slots that wait for their readers would be empty before every
edge and behind it.

Class 0 has a slot for every node. The others share room for four times the edge bound each, of
which a node above class 0 fills more than half a slot.
-/

namespace Slidewalk

/-- The place of a node's list: a slot of a size class. -/
structure SlotHandle where
  sizeClass : Nat
  slot : Nat
  deriving DecidableEq, Repr

structure PowerLawBounds where
  maxNodes : Nat
  maxEdges : Nat
  maxDegree : Nat
  minClassBits : Nat
  deriving DecidableEq, Repr

namespace PowerLawBounds

/-- The slots of the largest class hold a list of `maxDegree` entries. -/
def classCount (bounds : PowerLawBounds) : Nat :=
  -- a bound that is no power of two is rounded up to one
  max (ceilLog2 bounds.maxDegree) bounds.minClassBits - bounds.minClassBits + 1

def slotLen (bounds : PowerLawBounds) (sizeClass : Nat) : Nat :=
  Nat.pow 2 (bounds.minClassBits + sizeClass)

/-- The entries that the slots of one class above class 0 may take, counted in 64 bits. -/
def sharedEntries (bounds : PowerLawBounds) : Nat := min (4 * bounds.maxEdges) (UInt64.size - 1)

def maxSlots (bounds : PowerLawBounds) (sizeClass : Nat) : Nat :=
  if sizeClass = 0 then bounds.maxNodes
  else max (bounds.sharedEntries / bounds.slotLen sizeClass) 1

/-- The smallest class whose slots hold a list of this length. -/
def classFor (bounds : PowerLawBounds) (degree : Nat) : Option Nat :=
  (List.range bounds.classCount).find? fun sizeClass => degree ≤ bounds.slotLen sizeClass

theorem slotLen_succ (bounds : PowerLawBounds) (sizeClass : Nat) :
    bounds.slotLen (sizeClass + 1) = 2 * bounds.slotLen sizeClass := by
  exact Nat.mul_comm _ 2

end PowerLawBounds

/-- The slots of one class: what each slot handed out so far holds, and which of them are free, the
one freed last in front. -/
structure SizeClass where
  slots : Array (Array UInt32)
  free : List Nat

namespace SizeClass

def empty : SizeClass := { slots := #[], free := [] }

def content (sizeClass : SizeClass) (slot : Nat) : Array UInt32 := sizeClass.slots.getD slot #[]

/-- Whether a slot can be handed out where at most `maxSlots` exist. -/
def hasRoom (sizeClass : SizeClass) (maxSlots : Nat) : Bool :=
  !sizeClass.free.isEmpty || sizeClass.slots.size < maxSlots

def nextSlot (sizeClass : SizeClass) : Nat :=
  match sizeClass.free with
  | slot :: _ => slot
  | [] => sizeClass.slots.size

/-- Hands out a slot that holds a list: the one freed last, or a new one. -/
def allocate (sizeClass : SizeClass) (content : Array UInt32) : SizeClass :=
  match sizeClass with
  | { slots, free := slot :: rest } => { slots := slots.setIfInBounds slot content, free := rest }
  | { slots, free := [] } => { slots := slots.push content, free := [] }

def release (sizeClass : SizeClass) (slot : Nat) : SizeClass :=
  { slots := sizeClass.slots.setIfInBounds slot #[], free := slot :: sizeClass.free }

def push (sizeClass : SizeClass) (slot : Nat) (entry : UInt32) : SizeClass :=
  { sizeClass with slots := sizeClass.slots.modify slot (·.push entry) }

def stats (sizeClass : SizeClass) (slotLen : Nat) : ClassStats where
  slotLen
  inUse := sizeClass.slots.size - sizeClass.free.length
  released := sizeClass.free.length

end SizeClass

structure PowerLawPool where
  bounds : PowerLawBounds
  classes : Array SizeClass
  handles : Std.HashMap Nat SlotHandle
  /-- One more than the highest node written to. -/
  nodeCount : Nat
  edgeCount : Nat
  /-- How often a list moved one class up. -/
  promotions : Nat
  isSealed : Bool

namespace PowerLawPool

def create (bounds : PowerLawBounds) : Except Fault PowerLawPool :=
  if bounds.maxNodes = 0 ∨ bounds.maxEdges = 0 ∨ bounds.maxDegree = 0 then
    .error (.configuration .zeroPowerLawBound)
  else if maxMinClassBits < bounds.minClassBits then
    .error (.configuration (.minClassBits bounds.minClassBits))
  else
    .ok {
      bounds
      classes := Array.replicate bounds.classCount .empty
      handles := ∅
      nodeCount := 0
      edgeCount := 0
      promotions := 0
      isSealed := false }

def sizeClass (pool : PowerLawPool) (k : Nat) : SizeClass := pool.classes.getD k .empty

def handle (pool : PowerLawPool) (node : Nat) : Option SlotHandle := pool.handles[node]?

def row (pool : PowerLawPool) (node : Nat) : Array UInt32 :=
  match pool.handle node with
  | none => #[]
  | some handle => (pool.sizeClass handle.sizeClass).content handle.slot

/-- The length of a node's list; a number without bound here, as for uniform pools. -/
def degree (pool : PowerLawPool) (node : Nat) : Nat := (pool.row node).size

def slotLen? (pool : PowerLawPool) (k : Nat) : Option Nat :=
  if k < pool.classes.size then some (pool.bounds.slotLen k) else none

/-- The class a node's list has to move to before it can take one more entry, if it has to. -/
def nextClass (pool : PowerLawPool) (node : Nat) : Option Nat :=
  match pool.handle node with
  | none => some 0
  | some handle =>
      if pool.degree node < pool.bounds.slotLen handle.sizeClass then none
      else some (handle.sizeClass + 1)

/-- Why no slot of a class can be handed out, if none can. -/
def slotRefusal (pool : PowerLawPool) (k : Nat) : Option Fault :=
  if pool.classes.size ≤ k then some (.capacity .degree pool.bounds.maxDegree)
  else if (pool.sizeClass k).hasRoom (pool.bounds.maxSlots k) then none
  else some (.capacity .poolEntries (pool.bounds.maxSlots k * pool.bounds.slotLen k))

/-- Why a node's list cannot take one more entry, if it cannot. -/
def listRefusal (pool : PowerLawPool) (node : Nat) : Option Fault :=
  if pool.bounds.maxDegree ≤ pool.degree node then some (.capacity .degree pool.bounds.maxDegree)
  else match pool.nextClass node with
    | none => none
    | some k => pool.slotRefusal k

/-- Why the pool refuses an edge of a node whatever its number. A slot that was left counts as free:
there is no reader to hold it back. -/
def check (pool : PowerLawPool) (node : Nat) : Except Fault Unit :=
  if pool.isSealed then .error (.sealed .powerLawPool)
  else match pool.listRefusal node with
    | some fault => .error fault
    | none => .ok ()

/-- Why `add` refuses an edge of a node, if it does. -/
def refusal (pool : PowerLawPool) (node : Nat) : Option Fault :=
  if pool.isSealed then some (.sealed .powerLawPool)
  else if nodeRoom pool.bounds.maxNodes ≤ node then
    some (.capacity .nodes (nodeRoom pool.bounds.maxNodes))
  else pool.listRefusal node

/-- Gives a node that has no list a slot of class 0 with one entry. -/
def start (pool : PowerLawPool) (node : Nat) (entry : UInt32) : PowerLawPool :=
  let slot := (pool.sizeClass 0).nextSlot
  { pool with
    classes := pool.classes.modify 0 (·.allocate #[entry])
    handles := pool.handles.insert node ⟨0, slot⟩ }

/-- Moves a node's list one class up, writes an entry behind it, and frees the slot it leaves at
once, as there is no reader to wait for. -/
def promote (pool : PowerLawPool) (node : Nat) (old : SlotHandle) (entry : UInt32) : PowerLawPool :=
  let content := (pool.sizeClass old.sizeClass).content old.slot
  let slot := (pool.sizeClass (old.sizeClass + 1)).nextSlot
  { pool with
    classes := (pool.classes.modify (old.sizeClass + 1) (·.allocate (content.push entry))).modify
      old.sizeClass (·.release old.slot)
    handles := pool.handles.insert node ⟨old.sizeClass + 1, slot⟩
    promotions := pool.promotions + 1 }

def extend (pool : PowerLawPool) (handle : SlotHandle) (entry : UInt32) : PowerLawPool :=
  { pool with classes := pool.classes.modify handle.sizeClass (·.push handle.slot entry) }

def count (pool : PowerLawPool) (node : Nat) : PowerLawPool :=
  { pool with
    nodeCount := max pool.nodeCount (node + 1)
    edgeCount := pool.edgeCount + 1 }

/-- Writes an entry behind a node's others, in a larger slot if theirs is full. -/
def push (pool : PowerLawPool) (node : Nat) (entry : UInt32) : PowerLawPool :=
  let written := match pool.handle node with
    | none => pool.start node entry
    | some handle =>
        if pool.degree node < pool.bounds.slotLen handle.sizeClass then pool.extend handle entry
        else pool.promote node handle entry
  written.count node

def add (pool : PowerLawPool) (node : Nat) (entry : UInt32) : PowerLawPool × Except Fault Unit :=
  match pool.refusal node with
  | some fault => (pool, .error fault)
  | none => (pool.push node entry, .ok ())

def sealed (pool : PowerLawPool) : PowerLawPool := { pool with isSealed := true }

def classStats (pool : PowerLawPool) : List ClassStats :=
  pool.classes.toList.zipIdx.map fun (sizeClass, k) => sizeClass.stats (pool.bounds.slotLen k)

def stats (pool : PowerLawPool) : PoolStats where
  nodes := pool.nodeCount
  edges := pool.edgeCount
  reserved := total (fun stats => stats.inUse * stats.slotLen) pool.classStats
  classes := pool.classStats

def describe (pool : PowerLawPool) : String :=
  let layout := s!"min_class_bits: {pool.bounds.minClassBits}, size_classes: {pool.classes.size}"
  let counts := s!"nodes: {pool.nodeCount}, edges: {pool.edgeCount}"
  "PowerLawEdgePool \x7b " ++ layout ++ ", " ++ counts ++ " \x7d"

end PowerLawPool

end Slidewalk
