import Std.Data.TreeMap
import Slidewalk.Binary64
import Slidewalk.Edge

/-!
# Mass on nodes

A finite assignment of weights to nodes, listed by ascending node.
-/

namespace Slidewalk.Salsa

abbrev Mass := Std.TreeMap NodeId Binary64

namespace Mass

def empty : Mass := ∅

/-- Adds to the weight of a node, which is zero if the node is not listed. -/
def add (mass : Mass) (node : NodeId) (amount : Binary64) : Mass :=
  mass.alter node fun held => some (held.getD 0.0 + amount)

/-- The sum of the weights, added up by ascending node. -/
def total (mass : Mass) : Binary64 := mass.foldl (fun sum _ amount => sum + amount) 0.0

theorem getElem?_add (mass : Mass) (node : NodeId) (amount : Binary64) (other : NodeId) :
    (mass.add node amount)[other]? =
      if node = other then some (mass[node]?.getD 0.0 + amount) else mass[other]? := by
  simp only [add, Std.TreeMap.getElem?_alter, Std.LawfulEqCmp.compare_eq_iff_eq]

theorem nodup_nodes (mass : Mass) : (mass.toList.map (·.1)).Nodup := by
  rw [Std.TreeMap.map_fst_toList_eq_keys]
  exact Std.TreeMap.nodup_keys

/-- A node is listed once something was added to it. -/
theorem mem_add {mass : Mass} {node other : NodeId} {amount : Binary64} :
    other ∈ mass.add node amount ↔ node = other ∨ other ∈ mass := by
  rw [← Std.TreeMap.isSome_getElem?_iff_mem, ← Std.TreeMap.isSome_getElem?_iff_mem, getElem?_add]
  split <;> simp_all

end Mass

end Slidewalk.Salsa
