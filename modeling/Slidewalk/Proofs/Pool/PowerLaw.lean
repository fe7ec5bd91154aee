import Mathlib.Algebra.BigOperators.Group.Finset.Basic
import Mathlib.Algebra.Order.BigOperators.Group.Finset
import Slidewalk.Proofs.Pool.SizeClass

/-!
# A power-law pool is one list per node

`Sound` says how lists and slots belong together: nodes own distinct live slots, a list fits its
class and no smaller one, and slots and edges are counted right. Every way of writing an entry is a
`Moves`: the node's list ends up in one slot with the entry behind it, and nothing else changes
hands. From that `Sound` is kept and the rows are known, promotions and reused slots included.
-/

namespace Slidewalk

/-! ## Lengths of slots -/

namespace PowerLawBounds

theorem slotLen_pos (bounds : PowerLawBounds) (k : Nat) : 0 < bounds.slotLen k :=
  Nat.two_pow_pos _

theorem slotLen_lt_slotLen (bounds : PowerLawBounds) {j k : Nat} :
    bounds.slotLen j < bounds.slotLen k ↔ j < k := by
  have := Nat.pow_lt_pow_iff_right (a := 2) (n := bounds.minClassBits + j)
    (m := bounds.minClassBits + k) (by decide)
  exact this.trans (by omega)

/-- The slots of the largest class hold a list of the greatest length allowed. -/
theorem maxDegree_le_slotLen (bounds : PowerLawBounds) :
    bounds.maxDegree ≤ bounds.slotLen (bounds.classCount - 1) := by
  refine Nat.le_trans (le_two_pow_ceilLog2 bounds.maxDegree) (Nat.pow_le_pow_right (by decide) ?_)
  unfold classCount
  omega

theorem classCount_pos (bounds : PowerLawBounds) : 0 < bounds.classCount := Nat.succ_pos _

/-- A list of this length belongs into a class: it fits, and fits no smaller class. -/
structure Fits (bounds : PowerLawBounds) (k degree : Nat) : Prop where
  pos : 0 < degree
  le : degree ≤ bounds.slotLen k
  lower : ∀ j, k = j + 1 → bounds.slotLen j < degree

/-- A full list with one more entry belongs one class up. -/
theorem Fits.succ_of_full {bounds : PowerLawBounds} {k degree : Nat} (h : bounds.Fits k degree)
    (hfull : bounds.slotLen k ≤ degree) : bounds.Fits (k + 1) (degree + 1) := by
  have hpos := bounds.slotLen_pos k
  have hdouble := bounds.slotLen_succ k
  have hle := h.le
  refine ⟨by omega, by omega, fun j hj => ?_⟩
  obtain rfl : k = j := Nat.succ.inj hj
  omega

end PowerLawBounds

namespace PowerLawPool

/-! ## What is counted over the nodes -/

/-- The class a node's list lies in. -/
def classOf (pool : PowerLawPool) (node : Nat) : Option Nat :=
  (pool.handle node).map (·.sizeClass)

/-- The number of the class a node's list lies in. A node without a list counts as in class 0. -/
def level (pool : PowerLawPool) (node : Nat) : Nat := (pool.classOf node).getD 0

/-- How many of the first nodes have their list in a class. -/
def residents (pool : PowerLawPool) (nodes k : Nat) : Nat :=
  ∑ node ∈ Finset.range nodes, if pool.classOf node = some k then 1 else 0

def degreeSum (pool : PowerLawPool) (nodes : Nat) : Nat :=
  ∑ node ∈ Finset.range nodes, pool.degree node

theorem sum_of_eq_off {f g : Nat → Nat} {node nodes : Nat} (hlt : node < nodes)
    (h : ∀ other, other ≠ node → g other = f other) :
    (∑ n ∈ Finset.range nodes, g n) + f node = (∑ n ∈ Finset.range nodes, f n) + g node := by
  have hmem : node ∈ Finset.range nodes := Finset.mem_range.mpr hlt
  rw [← Finset.add_sum_erase _ g hmem, ← Finset.add_sum_erase _ f hmem]
  -- without the node itself the two sums agree term by term
  have hrest : ∑ n ∈ (Finset.range nodes).erase node, g n =
      ∑ n ∈ (Finset.range nodes).erase node, f n :=
    Finset.sum_congr rfl fun other hother => h other (Finset.ne_of_mem_erase hother)
  omega

/-! ## The invariant -/

structure Sound (pool : PowerLawPool) : Prop where
  classes_size : pool.classes.size = pool.bounds.classCount
  class_sound : ∀ k, (pool.sizeClass k).Sound
  live : ∀ {node handle}, pool.handle node = some handle →
    (pool.sizeClass handle.sizeClass).Live handle.slot
  apart : ∀ {a b handle}, pool.handle a = some handle → pool.handle b = some handle → a = b
  fits : ∀ {node handle}, pool.handle node = some handle →
    pool.bounds.Fits handle.sizeClass (pool.degree node)
  node_lt : ∀ {node handle}, pool.handle node = some handle → node < pool.nodeCount
  slots : ∀ k nodes, pool.nodeCount ≤ nodes →
    (pool.sizeClass k).slots.size = pool.residents nodes k + (pool.sizeClass k).free.length
  edges : ∀ nodes, pool.nodeCount ≤ nodes → pool.edgeCount = pool.degreeSum nodes

theorem row_of_handle {pool : PowerLawPool} {node : Nat} {handle : SlotHandle}
    (h : pool.handle node = some handle) :
    pool.row node = (pool.sizeClass handle.sizeClass).content handle.slot := by
  unfold row
  rw [h]

theorem row_of_no_handle {pool : PowerLawPool} {node : Nat} (h : pool.handle node = none) :
    pool.row node = #[] := by
  unfold row
  rw [h]

theorem Sound.class_lt {pool : PowerLawPool} (h : pool.Sound) {node : Nat} {handle : SlotHandle}
    (hnode : pool.handle node = some handle) : handle.sizeClass < pool.classes.size := by
  by_contra hge
  have hempty : pool.sizeClass handle.sizeClass = .empty := by
    unfold sizeClass
    rw [Array.getD_eq_getD_getElem?, Array.getElem?_eq_none (by omega), Option.getD_none]
  exact SizeClass.not_live_empty _ (hempty ▸ h.live hnode)

theorem Sound.handle_eq_none {pool : PowerLawPool} (h : pool.Sound) {node : Nat}
    (hnode : pool.nodeCount ≤ node) : pool.handle node = none := by
  cases hhandle : pool.handle node with
  | none => rfl
  | some handle =>
    have := h.node_lt hhandle
    omega

theorem Sound.sealed {pool : PowerLawPool} (h : pool.Sound) : pool.sealed.Sound :=
  ⟨h.classes_size, h.class_sound, h.live, h.apart, h.fits, h.node_lt, h.slots, h.edges⟩

/-- A new pool has handed out nothing. -/
theorem create_blank {bounds : PowerLawBounds} {pool : PowerLawPool}
    (h : create bounds = .ok pool) :
    (∀ k, pool.sizeClass k = .empty) ∧ (∀ node, pool.handle node = none) ∧
      pool.promotions = 0 := by
  unfold create at h
  split at h
  · simp at h
  split at h
  · simp at h
  obtain rfl := Except.ok.inj h
  refine ⟨fun k => ?_, fun node => by simp [handle], rfl⟩
  unfold sizeClass
  rw [Array.getD_eq_getD_getElem?, Array.getElem?_replicate]
  split <;> rfl

theorem create_sound {bounds : PowerLawBounds} {pool : PowerLawPool}
    (h : create bounds = .ok pool) :
    pool.Sound ∧ pool.bounds = bounds ∧ pool.nodeCount = 0 ∧ pool.edgeCount = 0 ∧
      pool.isSealed = false ∧ ∀ node, pool.row node = #[] := by
  obtain ⟨hclass, hhandle, -⟩ := create_blank h
  unfold create at h
  split at h
  · simp at h
  split at h
  · simp at h
  obtain rfl := Except.ok.inj h
  refine ⟨⟨by simp, fun k => ?_, by simp [handle], by simp [handle], by simp [handle],
    by simp [handle], fun k nodes _ => ?_, fun nodes _ => ?_⟩, rfl, rfl, rfl, rfl,
    fun node => row_of_no_handle (hhandle node)⟩
  · rw [hclass k]
    exact SizeClass.empty_sound
  · rw [hclass k]
    simp [SizeClass.empty, residents, classOf, handle]
  · simp [degreeSum, degree, row, handle]

/-! ## Writing an entry -/

/-- The second pool is the first with a node's list in the slot `target` and an entry behind it;
no other node's list moves or changes. -/
structure Moves (pool moved : PowerLawPool) (node : Nat) (target : SlotHandle) (entry : UInt32) :
    Prop where
  bounds : moved.bounds = pool.bounds
  nodeCount : moved.nodeCount = pool.nodeCount
  edgeCount : moved.edgeCount = pool.edgeCount
  isSealed : moved.isSealed = pool.isSealed
  classes_size : moved.classes.size = pool.classes.size
  class_sound : ∀ k, (moved.sizeClass k).Sound
  here : moved.handle node = some target
  elsewhere : ∀ other, other ≠ node → moved.handle other = pool.handle other
  kept : ∀ other handle, other ≠ node → pool.handle other = some handle →
    handle ≠ target ∧ (moved.sizeClass handle.sizeClass).Live handle.slot ∧
      (moved.sizeClass handle.sizeClass).content handle.slot =
        (pool.sizeClass handle.sizeClass).content handle.slot
  live : (moved.sizeClass target.sizeClass).Live target.slot
  content : (moved.sizeClass target.sizeClass).content target.slot = (pool.row node).push entry
  fits : pool.bounds.Fits target.sizeClass (pool.degree node + 1)
  promotions : moved.promotions + pool.level node = pool.promotions + target.sizeClass
  slots : ∀ k, (moved.sizeClass k).slots.size + (pool.sizeClass k).free.length +
      (if pool.classOf node = some k then 1 else 0) =
    (pool.sizeClass k).slots.size + (moved.sizeClass k).free.length +
      (if target.sizeClass = k then 1 else 0)
  -- a class gets one more slot only where one is needed and none is free
  opened : ∀ k, (moved.sizeClass k).slots.size = (pool.sizeClass k).slots.size +
    if pool.nextClass node = some k ∧ (pool.sizeClass k).free = [] then 1 else 0

namespace Moves

variable {pool moved : PowerLawPool} {node : Nat} {target : SlotHandle} {entry : UInt32}

theorem row (h : Moves pool moved node target entry) (other : Nat) :
    moved.row other = if node = other then (pool.row other).push entry else pool.row other := by
  by_cases heq : node = other
  · rw [if_pos heq, ← heq, row_of_handle h.here, h.content]
  · rw [if_neg heq]
    have hother := h.elsewhere other (Ne.symm heq)
    cases hhandle : pool.handle other with
    | none => rw [row_of_no_handle (hother.trans hhandle), row_of_no_handle hhandle]
    | some handle =>
      rw [row_of_handle (hother.trans hhandle), row_of_handle hhandle]
      exact (h.kept other handle (Ne.symm heq) hhandle).2.2

theorem degree (h : Moves pool moved node target entry) (other : Nat) :
    moved.degree other = pool.degree other + if node = other then 1 else 0 := by
  unfold PowerLawPool.degree
  rw [h.row]
  split <;> simp

theorem handle_cases (h : Moves pool moved node target entry) {other : Nat} {handle : SlotHandle}
    (hother : moved.handle other = some handle) :
    other = node ∧ handle = target ∨ other ≠ node ∧ pool.handle other = some handle := by
  by_cases heq : other = node
  · subst heq
    exact .inl ⟨rfl, Option.some.inj (hother.symm.trans h.here)⟩
  · exact .inr ⟨heq, (h.elsewhere other heq).symm.trans hother⟩

theorem residents (h : Moves pool moved node target entry) {nodes : Nat} (hlt : node < nodes)
    (k : Nat) :
    moved.residents nodes k + (if pool.classOf node = some k then 1 else 0) =
      pool.residents nodes k + (if target.sizeClass = k then 1 else 0) := by
  have hoff : ∀ other, other ≠ node →
      (if moved.classOf other = some k then 1 else 0) =
        if pool.classOf other = some k then 1 else 0 := by
    intro other hne
    unfold classOf
    rw [h.elsewhere other hne]
  have := sum_of_eq_off hlt hoff
  unfold PowerLawPool.residents
  rw [this]
  simp [classOf, h.here]

theorem degreeSum (h : Moves pool moved node target entry) {nodes : Nat} (hlt : node < nodes) :
    moved.degreeSum nodes = pool.degreeSum nodes + 1 := by
  have hoff : ∀ other, other ≠ node → moved.degree other = pool.degree other := by
    intro other hne
    rw [h.degree, if_neg (Ne.symm hne), Nat.add_zero]
  have := sum_of_eq_off hlt hoff
  rw [h.degree node, if_pos rfl] at this
  unfold PowerLawPool.degreeSum
  omega

theorem sound (hsound : pool.Sound) (h : Moves pool moved node target entry) :
    (moved.count node).Sound where
  classes_size := by
    show moved.classes.size = moved.bounds.classCount
    rw [h.classes_size, h.bounds, hsound.classes_size]
  class_sound := h.class_sound
  live := by
    intro other handle hother
    rcases h.handle_cases hother with ⟨-, rfl⟩ | ⟨hne, hold⟩
    · exact h.live
    · exact (h.kept other handle hne hold).2.1
  apart := by
    intro a b handle ha hb
    -- an old slot that is kept is never the target
    rcases h.handle_cases ha with ⟨rfl, rfl⟩ | ⟨hane, haold⟩
    · rcases h.handle_cases hb with ⟨rfl, -⟩ | ⟨hbne, hbold⟩
      · rfl
      · exact absurd rfl (h.kept b _ hbne hbold).1
    · rcases h.handle_cases hb with ⟨rfl, rfl⟩ | ⟨hbne, hbold⟩
      · exact absurd rfl (h.kept a _ hane haold).1
      · exact hsound.apart haold hbold
  fits := by
    intro other handle hother
    show moved.bounds.Fits handle.sizeClass (moved.degree other)
    rw [h.bounds, h.degree]
    rcases h.handle_cases hother with ⟨rfl, rfl⟩ | ⟨hne, hold⟩
    · rw [if_pos rfl]
      exact h.fits
    · rw [if_neg (Ne.symm hne)]
      exact hsound.fits hold
  node_lt := by
    intro other handle hother
    show other < max moved.nodeCount (node + 1)
    rw [h.nodeCount]
    rcases h.handle_cases hother with ⟨rfl, -⟩ | ⟨-, hold⟩
    · omega
    · have := hsound.node_lt hold
      omega
  slots := by
    intro k nodes hnodes
    change max moved.nodeCount (node + 1) ≤ nodes at hnodes
    rw [h.nodeCount] at hnodes
    have hlt : node < nodes := by omega
    have hbefore := hsound.slots k nodes (by omega)
    -- the node leaves its old class and is a resident of the target's
    have hresidents := h.residents hlt k
    have hslots := h.slots k
    show (moved.sizeClass k).slots.size =
      moved.residents nodes k + (moved.sizeClass k).free.length
    omega
  edges := by
    intro nodes hnodes
    change max moved.nodeCount (node + 1) ≤ nodes at hnodes
    rw [h.nodeCount] at hnodes
    show moved.edgeCount + 1 = moved.degreeSum nodes
    rw [h.degreeSum (by omega), h.edgeCount, hsound.edges nodes (by omega)]

end Moves

end PowerLawPool

end Slidewalk
