import Slidewalk.Fault
import Slidewalk.NodeIndex.Table

/-!
# Dense numbering of node ids

An index numbers ids in the order they are first seen, from zero and without gaps, up to a bound.
`ids` is its view: the number of an id is its position in that list. The table only makes the
search fast; it doubles before it is more than half full.
-/

namespace Slidewalk

structure NodeIndex where
  maxNodes : Nat
  placement : Placement
  table : Table
  /-- The known ids in first-seen order. -/
  ids : Array NodeId
  /-- How often the table was rebuilt at twice its size. -/
  growths : Nat

namespace NodeIndex

/-- The largest node bound: numbers are stored in 32 bits. -/
def maxBound : Nat := UInt32.size - 1

/-- An empty index for at most `maxNodes` ids whose table has room for `initial` of them. -/
def withPlacement (placement : Placement) (initial maxNodes : Nat) : Except Fault NodeIndex :=
  if maxNodes = 0 ∨ maxBound < maxNodes then
    .error (.configuration (.nodeBound maxNodes))
  else
    .ok {
      maxNodes, placement
      table := Table.sized (2 * min initial maxNodes)
      ids := #[]
      growths := 0 }

def create (initial maxNodes : Nat) : Except Fault NodeIndex :=
  withPlacement .multiplicative initial maxNodes

def size (index : NodeIndex) : Nat := index.ids.size

def capacity (index : NodeIndex) : Nat := index.table.size

def probe (index : NodeIndex) (id : NodeId) : Probe :=
  index.table.probe index.ids id index.table.size (index.table.home index.placement id)

def lookup (index : NodeIndex) (id : NodeId) : Option Nat := (index.probe id).index?

def external (index : NodeIndex) (number : Nat) : Option NodeId := index.ids[number]?

def accepts (index : NodeIndex) (id : NodeId) : Bool :=
  index.ids.size < index.maxNodes || (index.lookup id).isSome

/-- Appends an unknown id, with a table of twice the size if the present one would be more than
half full, and otherwise at the vacant slot its search ended at. -/
def append (index : NodeIndex) (id : NodeId) (slot : Option Nat) : NodeIndex :=
  -- taking the index apart lets its arrays be changed in place
  let ⟨maxNodes, placement, table, ids, growths⟩ := index
  let number := ids.size
  let ids := ids.push id
  match slot with
  | some slot =>
      if table.size < 2 * (number + 1) then
        { maxNodes, placement, ids
          table := .ofIds placement (2 * table.size) ids
          growths := growths + 1 }
      else
        { maxNodes, placement, ids, growths
          table := table.setIfInBounds slot (some number) }
  | none =>
      { maxNodes, placement, ids
        table := .ofIds placement (2 * table.size) ids
        growths := growths + 1 }

/-- The number of an id, which a new id is given first. A new id is refused at the bound. -/
def intern (index : NodeIndex) (id : NodeId) : NodeIndex × Except Fault Nat :=
  match index.probe id with
  | .found number => (index, .ok number)
  | found =>
      let number := index.ids.size
      if number < index.maxNodes then
        let slot := match found with
          | .vacant slot => some slot
          | _ => none
        (index.append id slot, .ok number)
      else
        (index, .error (.capacity .nodes index.maxNodes))

/-- Interns every id of a list and forgets the answers. -/
def internAll (index : NodeIndex) (ids : List NodeId) : NodeIndex :=
  ids.foldl (fun index id => (index.intern id).1) index

@[simp] theorem ids_append (index : NodeIndex) (id : NodeId) (slot : Option Nat) :
    (index.append id slot).ids = index.ids.push id := by
  unfold append
  cases slot
  · rfl
  · dsimp only
    split <;> rfl

@[simp] theorem maxNodes_append (index : NodeIndex) (id : NodeId) (slot : Option Nat) :
    (index.append id slot).maxNodes = index.maxNodes := by
  unfold append
  cases slot
  · rfl
  · dsimp only
    split <;> rfl

end NodeIndex

end Slidewalk
