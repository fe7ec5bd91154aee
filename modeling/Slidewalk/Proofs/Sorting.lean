import Mathlib.Data.List.Nodup

/-!
# Sorting by distinct keys

An order that is tied only between items of one key sorts items of distinct keys strictly, so what
stands in front of a place is determined.
-/

namespace Slidewalk

/-- An order to sort by in which only items of the same key can be tied. -/
structure Ranks {α κ : Type} (key : α → κ) (precedes : α → α → Bool) (outranks : α → α → Prop) :
    Prop where
  trans : ∀ a b c, precedes a b = true → precedes b c = true → precedes a c = true
  total : ∀ a b, (precedes a b || precedes b a) = true
  strict : ∀ a b, precedes a b = true → key a ≠ key b → outranks a b

/-- Items of different keys are sorted strictly. -/
theorem Ranks.pairwise_mergeSort {α κ : Type} {key : α → κ} {precedes : α → α → Bool}
    {outranks : α → α → Prop} {items : List α} (h : Ranks key precedes outranks)
    (hnodup : (items.map key).Nodup) : (items.mergeSort precedes).Pairwise outranks := by
  have hdistinct := ((List.mergeSort_perm items precedes).map key).nodup_iff.mpr hnodup
  have hsorted := List.pairwise_mergeSort h.trans h.total items
  exact (hsorted.and (List.pairwise_map.mp hdistinct)).imp fun hboth =>
    h.strict _ _ hboth.1 hboth.2

/-- The items that come first in an order, at most `count` of them. -/
structure First {α : Type} (outranks : α → α → Prop) (items : List α) (count : Nat)
    (kept : List α) : Prop where
  length : kept.length = min count items.length
  ordered : kept.Pairwise outranks
  mem : ∀ item ∈ kept, item ∈ items
  ahead : ∀ item ∈ kept, ∀ other ∈ items, other ∉ kept → outranks item other

theorem Ranks.first_take {α κ : Type} {key : α → κ} {precedes : α → α → Bool}
    {outranks : α → α → Prop} {items : List α} (h : Ranks key precedes outranks)
    (hnodup : (items.map key).Nodup) (count : Nat) :
    First outranks items count ((items.mergeSort precedes).take count) := by
  have hperm := List.mergeSort_perm items precedes
  have hsorted := h.pairwise_mergeSort hnodup
  -- what is kept stands in front of the rest of the sorted items
  rw [← List.take_append_drop count (items.mergeSort precedes)] at hsorted hperm
  obtain ⟨hordered, -, hahead⟩ := List.pairwise_append.mp hsorted
  constructor
  case length => rw [List.length_take, List.length_mergeSort]
  case ordered => exact hordered
  case mem => exact fun item hitem => hperm.mem_iff.mp (List.mem_append_left _ hitem)
  case ahead =>
    intro item hitem other hother hout
    have hrest := (List.mem_append.mp (hperm.mem_iff.mpr hother)).resolve_left hout
    exact hahead item hitem other hrest

end Slidewalk
