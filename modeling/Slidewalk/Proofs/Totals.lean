import Mathlib.Algebra.BigOperators.Group.Finset.Basic
import Mathlib.Algebra.GroupWithZero.Nat
import Slidewalk.Total

/-!
# Totals as sums

A total does not depend on the order of the items, and totals over two lists can be exchanged.
-/

namespace Slidewalk

variable {α β : Type} {as : List α}

theorem total_eq_sum (quantity : α → Nat) (items : List α) :
    total quantity items = (items.map quantity).sum := by
  induction items with
  | nil => rfl
  | cons item rest ih => rw [total_cons, ih, List.map_cons, List.sum_cons]

theorem total_range (quantity : Nat → Nat) (count : Nat) :
    total quantity (List.range count) = ∑ k ∈ Finset.range count, quantity k := by
  rw [total_eq_sum]
  rfl

theorem total_map (quantity : β → Nat) (f : α → β) (items : List α) :
    total quantity (items.map f) = total (fun item => quantity (f item)) items := by
  rw [total_eq_sum, total_eq_sum, List.map_map]
  rfl

theorem total_flatMap (quantity : β → Nat) (f : α → List β) (items : List α) :
    total quantity (items.flatMap f) = total (fun item => total quantity (f item)) items := by
  induction items with
  | nil => rfl
  | cons item rest ih => rw [List.flatMap_cons, total_append, ih, total_cons]

theorem total_congr {f g : α → Nat} (h : ∀ item ∈ as, f item = g item) :
    total f as = total g as := by
  rw [total_eq_sum, total_eq_sum, List.map_congr_left h]

theorem total_mono {f g : α → Nat} (h : ∀ item ∈ as, f item ≤ g item) :
    total f as ≤ total g as := by
  induction as with
  | nil => exact Nat.le_refl 0
  | cons item rest ih =>
    exact Nat.add_le_add (h item List.mem_cons_self)
      (ih fun other hother => h other (List.mem_cons_of_mem _ hother))

theorem total_le_mul {quantity : α → Nat} {bound : Nat} (h : ∀ item ∈ as, quantity item ≤ bound) :
    total quantity as ≤ as.length * bound := by
  induction as with
  | nil => exact Nat.zero_le _
  | cons item rest ih =>
    rw [total_cons, List.length_cons, Nat.succ_mul, Nat.add_comm]
    exact Nat.add_le_add (ih fun other hother => h other (List.mem_cons_of_mem _ hother))
      (h item List.mem_cons_self)

theorem le_total_of_mem (quantity : α → Nat) {item : α} (h : item ∈ as) :
    quantity item ≤ total quantity as := by
  obtain ⟨front, back, rfl⟩ := List.append_of_mem h
  rw [total_append, total_cons]
  omega

theorem total_perm {bs : List α} (quantity : α → Nat) (h : as.Perm bs) :
    total quantity as = total quantity bs := by
  rw [total_eq_sum, total_eq_sum, (h.map quantity).sum_eq]

theorem total_add (f g : α → Nat) (items : List α) :
    total (fun item => f item + g item) items = total f items + total g items := by
  induction items with
  | nil => rfl
  | cons item rest ih =>
    rw [total_cons, total_cons, total_cons, ih]
    omega

theorem total_zero {f : α → Nat} (h : ∀ item ∈ as, f item = 0) : total f as = 0 := by
  induction as with
  | nil => rfl
  | cons item rest ih =>
    rw [total_cons, h item List.mem_cons_self,
      ih fun other hother => h other (List.mem_cons_of_mem _ hother)]

theorem total_modify (quantity : α → Nat) (change : α → α) {old : α} {place : Nat}
    (h : as[place]? = some old) :
    total quantity (as.modify place change) + quantity old =
      total quantity as + quantity (change old) := by
  induction as generalizing place with
  | nil => simp at h
  | cons item rest ih =>
    cases place with
    | zero =>
      obtain rfl := Option.some.inj h
      rw [List.modify_zero_cons, total_cons, total_cons]
      omega
    | succ place =>
      have hrest := ih h
      rw [List.modify_succ_cons, total_cons, total_cons]
      omega

theorem countP_cons_eq (p : α → Bool) (item : α) (rest : List α) :
    (item :: rest).countP p = (p item).toNat + rest.countP p := by
  rw [List.countP_cons, Nat.add_comm]
  cases p item <;> rfl

theorem total_toNat (p : α → Bool) (items : List α) :
    total (fun item => (p item).toNat) items = items.countP p := by
  induction items with
  | nil => rfl
  | cons item rest ih => rw [total_cons, ih, countP_cons_eq]

theorem total_filter (quantity : α → Nat) (p : α → Bool) (items : List α) :
    total quantity (items.filter p) =
      total (fun item => if p item then quantity item else 0) items := by
  induction items with
  | nil => rfl
  | cons item rest ih =>
    rw [List.filter_cons, total_cons, ← ih]
    cases p item with
    | true => rfl
    | false => exact (Nat.zero_add _).symm

/-- Items that count for nothing may be left out. -/
theorem total_of_subset {bs : List α} {f : α → Nat} (has : as.Nodup) (hbs : bs.Nodup)
    (hsubset : as ⊆ bs) (hzero : ∀ item ∈ bs, item ∉ as → f item = 0) :
    total f bs = total f as := by
  classical
  have hkept : (bs.filter fun item => decide (item ∈ as)).Perm as := by
    apply (List.perm_ext_iff_of_nodup (hbs.filter _) has).mpr
    intro item
    rw [List.mem_filter, decide_eq_true_eq]
    exact ⟨fun hboth => hboth.2, fun hitem => ⟨hsubset hitem, hitem⟩⟩
  rw [← total_perm f hkept, total_filter]
  refine total_congr fun item hitem => ?_
  by_cases hmem : item ∈ as
  · rw [if_pos (decide_eq_true hmem)]
  · rw [if_neg (by simpa using hmem), hzero item hitem hmem]

/-- Distinct items of a list without repetitions are counted in it. -/
theorem countP_mem_of_subset [DecidableEq α] {bs : List α} (has : as.Nodup) (hbs : bs.Nodup)
    (hsubset : as ⊆ bs) : bs.countP (fun item => decide (item ∈ as)) = as.length := by
  rw [← total_toNat, total_of_subset has hbs hsubset]
  · rw [total_toNat, List.countP_eq_length]
    exact fun item hitem => decide_eq_true hitem
  · intro item _ hout
    rw [decide_eq_false hout]
    rfl

theorem total_comm (f : α → β → Nat) (as : List α) (bs : List β) :
    total (fun a => total (f a) bs) as = total (fun b => total (fun a => f a b) as) bs := by
  induction as with
  | nil => exact (total_zero fun _ _ => rfl).symm
  | cons a rest ih =>
    rw [total_cons, ih, ← total_add]
    rfl

end Slidewalk
