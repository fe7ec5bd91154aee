import Mathlib.Data.List.Forall2
import Slidewalk.Total

/-!
# Lists related item by item

What a map or a total makes of two lists follows from what it makes of related items.
-/

namespace Slidewalk

variable {α β γ : Type} {as : List α} {bs : List β}

theorem map_eq_map_of_forall₂ {f : α → γ} {g : β → γ}
    (h : List.Forall₂ (fun a b => f a = g b) as bs) : as.map f = bs.map g := by
  rw [← List.forall₂_eq_eq_eq, List.forall₂_map_left_iff, List.forall₂_map_right_iff]
  exact h

theorem eq_map_of_forall₂ {f : α → β} (h : List.Forall₂ (fun a b => b = f a) as bs) :
    bs = as.map f := by
  rw [← List.forall₂_eq_eq_eq, List.forall₂_map_right_iff]
  exact h.flip

theorem forall₂_filterMap {f : α → Option γ} {R : γ → β → Prop}
    (h : List.Forall₂ (fun a b => ∃ c, f a = some c ∧ R c b) as bs) :
    List.Forall₂ R (as.filterMap f) bs := by
  induction h with
  | nil => exact .nil
  | cons hfirst _ ih =>
    obtain ⟨c, hc, hrelated⟩ := hfirst
    rw [List.filterMap_cons, hc]
    exact .cons hrelated ih

theorem filterMap_eq_map_of_forall₂ {f : α → Option γ} {g : β → γ}
    (h : List.Forall₂ (fun a b => f a = some (g b)) as bs) : as.filterMap f = bs.map g := by
  rw [← List.forall₂_eq_eq_eq, List.forall₂_map_right_iff]
  exact forall₂_filterMap (h.imp fun _ _ hfound => ⟨_, hfound, rfl⟩)

theorem total_eq_total_of_forall₂ {f : α → Nat} {g : β → Nat}
    (h : List.Forall₂ (fun a b => f a = g b) as bs) : total f as = total g bs := by
  induction h with
  | nil => rfl
  | cons hfirst _ ih => rw [total_cons, total_cons, hfirst, ih]

end Slidewalk
