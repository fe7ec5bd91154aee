import Mathlib.Data.List.Forall2
import Std.Data.TreeMap.Lemmas
import Slidewalk.Edge
import Slidewalk.Proofs.Related

/-!
# Renamed ids

A renaming pairs ids of one run with ids of another, side by side and in the same order. What
follows are the list and map operations that the model is made of, each of them taking paired
arguments to paired results.
-/

namespace Slidewalk

structure Renaming where
  Pairs : Side → NodeId → NodeId → Prop
  lt_iff : ∀ {side a a' b b'}, Pairs side a a' → Pairs side b b' → (a < b ↔ a' < b')

namespace Renaming

variable {names : Renaming} {side : Side} {a a' b b' : NodeId}

theorem le_iff (ha : names.Pairs side a a') (hb : names.Pairs side b b') : a ≤ b ↔ a' ≤ b' := by
  rw [← UInt64.not_lt, ← UInt64.not_lt, names.lt_iff hb ha]

theorem eq_iff (ha : names.Pairs side a a') (hb : names.Pairs side b b') : a = b ↔ a' = b' := by
  constructor
  · rintro rfl
    exact UInt64.le_antisymm ((le_iff ha hb).mp (UInt64.le_refl _))
      ((le_iff hb ha).mp (UInt64.le_refl _))
  · rintro rfl
    exact UInt64.le_antisymm ((le_iff ha hb).mpr (UInt64.le_refl _))
      ((le_iff hb ha).mpr (UInt64.le_refl _))

/-- The same pairs the other way round. -/
def symm (names : Renaming) : Renaming where
  Pairs side a b := names.Pairs side b a
  lt_iff ha hb := (names.lt_iff ha hb).symm

end Renaming

/-- Steps that leave related states and give the same answer. -/
def Lockstep {σ τ α : Type} (R : σ → τ → Prop) (step : σ × α) (step' : τ × α) : Prop :=
  R step.1 step'.1 ∧ step'.2 = step.2

/-! ## Lists -/

section Lists

variable {α β : Type} {R : α → β → Prop} {as : List α} {bs : List β}

theorem isEmpty_eq_of_forall₂ (h : List.Forall₂ R as bs) : bs.isEmpty = as.isEmpty := by
  cases h with
  | nil => rfl
  | cons _ _ => rfl

theorem rel_getElem?_of_forall₂ (h : List.Forall₂ R as bs) (i : Nat) :
    Option.Rel R as[i]? bs[i]? := by
  induction h generalizing i with
  | nil => exact .none
  | cons hfirst _ ih =>
    cases i with
    | zero => exact .some hfirst
    | succ i => exact ih i

theorem exists_of_mem_of_forall₂ (h : List.Forall₂ R as bs) {a : α} (ha : a ∈ as) :
    ∃ b ∈ bs, R a b := by
  induction h with
  | nil => contradiction
  | @cons first first' rest rest' hfirst _ ih =>
    rcases List.mem_cons.mp ha with rfl | ha
    · exact ⟨first', List.mem_cons_self, hfirst⟩
    · obtain ⟨b, hb, hab⟩ := ih ha
      exact ⟨b, List.mem_cons_of_mem _ hb, hab⟩

theorem forall₂_modify {f : α → α} {g : β → β} (hfg : ∀ a b, R a b → R (f a) (g b))
    (h : List.Forall₂ R as bs) (place : Nat) :
    List.Forall₂ R (as.modify place f) (bs.modify place g) := by
  induction h generalizing place with
  | nil => rw [List.modify_nil, List.modify_nil]; exact .nil
  | cons hfirst hrest ih =>
    cases place with
    | zero => exact .cons (hfg _ _ hfirst) hrest
    | succ place => exact .cons hfirst (ih place)

theorem forall₂_zipIdx (h : List.Forall₂ R as bs) (start : Nat) :
    List.Forall₂ (fun x y => R x.1 y.1 ∧ x.2 = y.2) (as.zipIdx start) (bs.zipIdx start) := by
  induction h generalizing start with
  | nil => exact .nil
  | cons hfirst _ ih =>
    rw [List.zipIdx_cons, List.zipIdx_cons]
    exact .cons ⟨hfirst, rfl⟩ (ih (start + 1))

/-- Sorting keeps the pairs if both orders agree on them. -/
theorem forall₂_mergeSort {r : α → α → Bool} {s : β → β → Bool} (h : List.Forall₂ R as bs)
    (hrs : ∀ a b a' b', R a b → R a' b' → r a a' = s b b') :
    List.Forall₂ R (as.mergeSort r) (bs.mergeSort s) := by
  -- both lists are images of the list of pairs, sorted by either of its sides
  have hfst : (as.zip bs).map Prod.fst = as := List.map_fst_zip (Nat.le_of_eq h.length_eq)
  have hsnd : (as.zip bs).map Prod.snd = bs := List.map_snd_zip (Nat.le_of_eq h.length_eq.symm)
  have hmem : ∀ x ∈ as.zip bs, R x.1 x.2 := fun x hx => List.forall₂_zip h hx
  have hleft : ((as.zip bs).mergeSort fun x y => r x.1 y.1).map Prod.fst = as.mergeSort r := by
    rw [List.map_mergeSort (s := r) fun _ _ _ _ => rfl, hfst]
  have hright : ((as.zip bs).mergeSort fun x y => r x.1 y.1).map Prod.snd = bs.mergeSort s := by
    rw [List.map_mergeSort (s := s) fun x hx y hy => hrs _ _ _ _ (hmem x hx) (hmem y hy), hsnd]
  rw [← hleft, ← hright, List.forall₂_map_left_iff, List.forall₂_map_right_iff, List.forall₂_same]
  exact fun x hx => hmem x (List.mem_mergeSort.mp hx)

/-- Keeping first occurrences keeps the pairs if equality agrees on them. -/
theorem forall₂_eraseDups [BEq α] [BEq β]
    (hbeq : ∀ a b a' b', R a b → R a' b' → (a == a') = (b == b')) (h : List.Forall₂ R as bs) :
    List.Forall₂ R as.eraseDups bs.eraseDups := by
  -- what is left once the first item's copies are gone is shorter, but no tail of the list
  induction hlength : as.length using Nat.strongRecOn generalizing as bs with
  | ind length ih =>
    cases h with
    | nil => exact .nil
    | @cons a b rest rest' hfirst hrest =>
      rw [List.eraseDups_cons, List.eraseDups_cons]
      have hkept :
          List.Forall₂ R (rest.filter fun x => !x == a) (rest'.filter fun y => !y == b) := by
        apply List.rel_filter _ hrest
        intro x y hxy
        dsimp only
        rw [hbeq x y a b hxy hfirst]
      have hshort := List.length_filter_le (fun x => !x == a) rest
      rw [List.length_cons] at hlength
      exact .cons hfirst (ih _ (by omega) hkept rfl)

/-- Sorted lists that pair up item by item in some way do so in order. -/
theorem forall₂_of_sorted {r : α → α → Prop} {s : β → β → Prop}
    (hrs : ∀ a b a' b', R a b → R a' b' → (r a a' ↔ s b b'))
    (hasymm : ∀ b b', s b b' → ¬s b' b) (has : as.Pairwise r) (hbs : bs.Pairwise s)
    (hto : ∀ a ∈ as, ∃ b ∈ bs, R a b) (hfrom : ∀ b ∈ bs, ∃ a ∈ as, R a b) :
    List.Forall₂ R as bs := by
  induction as generalizing bs with
  | nil =>
    cases bs with
    | nil => exact .nil
    | cons b rest =>
      obtain ⟨a, ha, -⟩ := hfrom b List.mem_cons_self
      contradiction
  | cons a as ih =>
    cases bs with
    | nil =>
      obtain ⟨b, hb, -⟩ := hto a List.mem_cons_self
      contradiction
    | cons b bs =>
      rw [List.pairwise_cons] at has hbs
      -- two heads with other partners would each have to be less than the other
      have hfirst : R a b := by
        obtain ⟨b', hb', hab'⟩ := hto a List.mem_cons_self
        obtain ⟨a', ha', ha'b⟩ := hfrom b List.mem_cons_self
        rcases List.mem_cons.mp hb' with rfl | hb'
        · exact hab'
        rcases List.mem_cons.mp ha' with rfl | ha'
        · exact ha'b
        · have hless := (hrs _ _ _ _ hab' ha'b).mp (has.1 a' ha')
          exact absurd hless (hasymm _ _ (hbs.1 b' hb'))
      refine .cons hfirst (ih has.2 hbs.2 ?_ ?_)
      · intro x hx
        obtain ⟨y, hy, hxy⟩ := hto x (List.mem_cons_of_mem _ hx)
        rcases List.mem_cons.mp hy with rfl | hy
        · have hless := (hrs _ _ _ _ hfirst hxy).mp (has.1 x hx)
          exact absurd hless (hasymm _ _ hless)
        · exact ⟨y, hy, hxy⟩
      · intro y hy
        obtain ⟨x, hx, hxy⟩ := hfrom y (List.mem_cons_of_mem _ hy)
        rcases List.mem_cons.mp hx with rfl | hx
        · have hless := hbs.1 y hy
          have hsame := (hrs _ _ _ _ hfirst hxy).mpr hless
          exact absurd ((hrs _ _ _ _ hxy hfirst).mp hsame) (hasymm _ _ hless)
        · exact ⟨x, hx, hxy⟩

end Lists

end Slidewalk
