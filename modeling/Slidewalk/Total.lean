/-!
# Totals over lists

The sum of a quantity over the items of a list. It takes lists apart as appending puts them
together. A sum in 64 bits that is checked at each step fails exactly if the whole sum does not fit.
-/

namespace Slidewalk

def total {α : Type} (quantity : α → Nat) : List α → Nat
  | [] => 0
  | item :: rest => quantity item + total quantity rest

@[simp] theorem total_nil {α : Type} (quantity : α → Nat) : total quantity [] = 0 := rfl

@[simp] theorem total_cons {α : Type} (quantity : α → Nat) (item : α) (rest : List α) :
    total quantity (item :: rest) = quantity item + total quantity rest := rfl

theorem total_append {α : Type} (quantity : α → Nat) (front back : List α) :
    total quantity (front ++ back) = total quantity front + total quantity back := by
  induction front with
  | nil => simp
  | cons item rest ih => simp [ih, Nat.add_assoc]

/-- The sum of a quantity in 64 bits, item by item; it stops at the first item with which it does
not fit. -/
def total? {α : Type} (quantity : α → Nat) (items : List α) : Option Nat :=
  items.foldlM (fun sum item =>
    if sum + quantity item < UInt64.size then some (sum + quantity item) else none) 0

theorem total?_eq {α : Type} (quantity : α → Nat) (items : List α) :
    total? quantity items =
      if total quantity items < UInt64.size then some (total quantity items) else none := by
  have hfrom (sum : Nat) (hsum : sum < UInt64.size) :
      items.foldlM (fun sum item =>
          if sum + quantity item < UInt64.size then some (sum + quantity item) else none) sum =
        if sum + total quantity items < UInt64.size then some (sum + total quantity items)
        else none := by
    induction items generalizing sum with
    | nil => exact (if_pos hsum).symm
    | cons item rest ih =>
      rw [List.foldlM_cons, total_cons, ← Nat.add_assoc]
      by_cases hfits : sum + quantity item < UInt64.size
      · rw [if_pos hfits]
        exact ih (sum + quantity item) hfits
      · -- a sum that is too large does not get smaller
        rw [if_neg hfits, if_neg (by omega)]
        rfl
  rw [total?, hfrom 0 (by decide), Nat.zero_add]

end Slidewalk
