/-!
# Updating a list by key

The first item under a key is updated, or a new one is listed at the end. What changes no key keeps
the keys as they are, in their order.
-/

namespace Slidewalk

variable {α κ : Type} [DecidableEq κ]

/-- The list with the first item under a key updated, or with a new item at its end. -/
def upsert (key : α → κ) (wanted : κ) (update : α → α) (new : α) : List α → List α
  | [] => [new]
  | first :: rest =>
      if key first = wanted then update first :: rest
      else first :: upsert key wanted update new rest

/-- A key is listed once more only if it is new. -/
theorem map_key_upsert {key : α → κ} {wanted : κ} {update : α → α} {new : α}
    (hupdate : ∀ item, key (update item) = key item) (hnew : key new = wanted) (items : List α) :
    (upsert key wanted update new items).map key =
      if wanted ∈ items.map key then items.map key else items.map key ++ [wanted] := by
  induction items with
  | nil => simp [upsert, hnew]
  | cons first rest ih =>
    unfold upsert
    by_cases h : key first = wanted
    · simp [h, hupdate]
    · rw [if_neg h, List.map_cons, ih]
      by_cases hmem : wanted ∈ rest.map key
      · rw [if_pos hmem, if_pos (by simp [hmem]), List.map_cons]
      · have hall : wanted ∉ (first :: rest).map key := by
          rw [List.map_cons, List.mem_cons, not_or]
          exact ⟨Ne.symm h, hmem⟩
        rw [if_neg hmem, if_neg hall, List.map_cons, List.cons_append]

/-- If keys are distinct, the items under other keys are left as they were. -/
theorem mem_upsert {key : α → κ} {wanted : κ} {update : α → α} {new item : α} {items : List α}
    (hnodup : (items.map key).Nodup) (h : item ∈ upsert key wanted update new items) :
    (item ∈ items ∧ key item ≠ wanted) ∨
      (∃ before ∈ items, key before = wanted ∧ item = update before) ∨
      (wanted ∉ items.map key ∧ item = new) := by
  induction items with
  | nil => exact .inr (.inr ⟨List.not_mem_nil, List.mem_singleton.mp h⟩)
  | cons first rest ih =>
    obtain ⟨hfirst, hrest⟩ := List.nodup_cons.mp hnodup
    unfold upsert at h
    split at h
    · rename_i hsame
      rcases List.mem_cons.mp h with rfl | hitem
      · exact .inr (.inl ⟨first, List.mem_cons_self, hsame, rfl⟩)
      · refine .inl ⟨List.mem_cons_of_mem _ hitem, fun hwanted => hfirst ?_⟩
        rw [hsame, ← hwanted]
        exact List.mem_map_of_mem hitem
    · rename_i hdiffer
      rcases List.mem_cons.mp h with rfl | hitem
      · exact .inl ⟨List.mem_cons_self, hdiffer⟩
      obtain ⟨hold, hkey⟩ | ⟨before, hbefore, hkey, rfl⟩ | ⟨hnew, rfl⟩ := ih hrest hitem
      · exact .inl ⟨List.mem_cons_of_mem _ hold, hkey⟩
      · exact .inr (.inl ⟨before, List.mem_cons_of_mem _ hbefore, hkey, rfl⟩)
      · refine .inr (.inr ⟨?_, rfl⟩)
        rw [List.map_cons, List.mem_cons, not_or]
        exact ⟨Ne.symm hdiffer, hnew⟩

end Slidewalk
