import Slidewalk.Pool.ExactFit

/-!
# Lists laid end to end are read back

Every offset lies within the entries and the last one ends them. Appending a list keeps that, shows
the new list behind the others and leaves what they read alone.
-/

namespace Slidewalk.ExactFitPool

structure Sound (pool : ExactFitPool) : Prop where
  size_pos : 0 < pool.offsets.size
  last : pool.offsets[pool.nodeCount]? = some pool.entries.size
  le : ∀ (node : Nat) (offset : Nat), pool.offsets[node]? = some offset → offset ≤ pool.entries.size

theorem empty_sound : empty.Sound where
  size_pos := by decide
  last := rfl
  le := by
    intro node offset h
    obtain ⟨hlt, heq⟩ := Array.getElem?_eq_some_iff.mp h
    simp only [empty, List.size_toArray, List.length_cons, List.length_nil] at hlt
    obtain rfl : node = 0 := by omega
    simp [empty] at heq
    omega

theorem size_row {pool : ExactFitPool} (h : pool.Sound) (node : Nat) :
    (pool.row node).size = pool.degree node := by
  unfold row degree
  split
  · rename_i start stop _ hstop
    have := h.le _ _ hstop
    rw [Array.size_extract]
    omega
  · rfl

theorem nodeCount_pushRow {pool : ExactFitPool} (h : pool.Sound) (row : Array UInt32) :
    (pool.pushRow row).nodeCount = pool.nodeCount + 1 := by
  have := h.size_pos
  simp only [nodeCount, pushRow, Array.size_push]
  omega

theorem pushRow_sound {pool : ExactFitPool} (h : pool.Sound) (row : Array UInt32) :
    (pool.pushRow row).Sound := by
  have hpos := h.size_pos
  refine ⟨by simp [pushRow], ?_, fun node offset hget => ?_⟩
  · rw [nodeCount_pushRow h]
    have hsize : pool.nodeCount + 1 = pool.offsets.size := by
      simp only [nodeCount]
      omega
    simp [pushRow, hsize]
  · simp only [pushRow, Array.getElem?_push] at hget
    simp only [pushRow, Array.size_append]
    split at hget
    · have := Option.some.inj hget
      omega
    · have := h.le node offset hget
      omega

theorem row_pushRow {pool : ExactFitPool} (h : pool.Sound) (new : Array UInt32) (node : Nat) :
    (pool.pushRow new).row node =
      if node < pool.nodeCount then pool.row node
      else if node = pool.nodeCount then new else #[] := by
  have hpos := h.size_pos
  have hsize : pool.offsets.size = pool.nodeCount + 1 := by
    simp only [nodeCount]
    omega
  have hlast := h.last
  unfold row
  simp only [pushRow, Array.getElem?_push, hsize]
  by_cases hlt : node < pool.nodeCount
  · rw [if_pos hlt, if_neg (by omega), if_neg (by omega)]
    have hstop : pool.offsets[node + 1]? = some pool.offsets[node + 1] :=
      Array.getElem?_eq_getElem (by omega)
    have hstart : pool.offsets[node]? = some pool.offsets[node] :=
      Array.getElem?_eq_getElem (by omega)
    have hle := h.le _ _ hstop
    rw [hstart, hstop]
    show (pool.entries ++ new).extract _ _ = pool.entries.extract _ _
    -- a list that was there ends within the old entries
    rw [Array.extract_append, Nat.sub_eq_zero_of_le hle]
    simp
  rw [if_neg hlt]
  by_cases heq : node = pool.nodeCount
  · subst heq
    rw [if_pos rfl, if_neg (by omega), if_pos rfl, hlast]
    show (pool.entries ++ new).extract pool.entries.size (pool.entries.size + new.size) = new
    rw [Array.extract_append_right, Array.extract_size]
  · rw [if_neg heq, if_neg (by omega : ¬ node + 1 = pool.nodeCount + 1),
      Array.getElem?_eq_none (by omega : pool.offsets.size ≤ node + 1)]
    split <;> simp_all

theorem row_foldl_pushRow (rows : List (Array UInt32)) {pool : ExactFitPool} (h : pool.Sound) :
    (rows.foldl pushRow pool).Sound ∧
      (rows.foldl pushRow pool).nodeCount = pool.nodeCount + rows.length ∧
      ∀ node, (rows.foldl pushRow pool).row node =
        if node < pool.nodeCount then pool.row node
        else rows.getD (node - pool.nodeCount) #[] := by
  -- node by node: a row is an old one, the first of the new ones, or one of the rest
  induction rows generalizing pool with
  | nil =>
    refine ⟨h, rfl, fun node => ?_⟩
    split
    · rfl
    · rename_i hge
      have hnone : pool.offsets[node + 1]? = none :=
        Array.getElem?_eq_none (by simp only [nodeCount] at hge; omega)
      simp only [List.foldl_nil, List.getD_nil]
      unfold row
      rw [hnone]
      split <;> simp_all
  | cons first rows ih =>
    obtain ⟨hsound, hcount, hrow⟩ := ih (pushRow_sound h first)
    rw [nodeCount_pushRow h] at hcount hrow
    refine ⟨hsound, by rw [List.foldl_cons, hcount, List.length_cons]; omega, fun node => ?_⟩
    rw [List.foldl_cons, hrow, row_pushRow h]
    rcases Nat.lt_trichotomy node pool.nodeCount with hlt | heq | hgt
    · rw [if_pos (by omega), if_pos hlt, if_pos hlt]
    · simp [heq]
    · obtain ⟨distance, rfl⟩ : ∃ distance, node = pool.nodeCount + 1 + distance :=
        ⟨node - (pool.nodeCount + 1), by omega⟩
      rw [if_neg (by omega), if_neg (by omega), Nat.add_sub_cancel_left,
        show pool.nodeCount + 1 + distance - pool.nodeCount = distance + 1 by omega]
      rfl

theorem ofRows_sound (rows : List (Array UInt32)) :
    (ofRows rows).Sound ∧ (ofRows rows).nodeCount = rows.length ∧
      ∀ node, (ofRows rows).row node = rows.getD node #[] := by
  obtain ⟨hsound, hcount, hrow⟩ := row_foldl_pushRow rows empty_sound
  rw [nodeCount_empty, Nat.zero_add] at hcount
  refine ⟨hsound, hcount, fun node => ?_⟩
  have hnode := hrow node
  rw [nodeCount_empty, if_neg (Nat.not_lt_zero node), Nat.sub_zero] at hnode
  exact hnode

end Slidewalk.ExactFitPool
