import Slidewalk.Pool.PowerLaw

/-!
# Slots of one size class

A slot is live between being handed out and being given back. Handing out a slot makes exactly one
more slot live, one that was not, and leaves the content of the live slots alone.
-/

namespace Slidewalk.SizeClass

def Live (sizeClass : SizeClass) (slot : Nat) : Prop :=
  slot < sizeClass.slots.size ∧ slot ∉ sizeClass.free

/-- Free slots exist and are listed once. -/
structure Sound (sizeClass : SizeClass) : Prop where
  nodup : sizeClass.free.Nodup
  free_lt : ∀ slot ∈ sizeClass.free, slot < sizeClass.slots.size

theorem empty_sound : empty.Sound := ⟨List.Pairwise.nil, by simp [empty]⟩

theorem not_live_empty (slot : Nat) : ¬ empty.Live slot := by
  rintro ⟨hlt, -⟩
  simp [empty] at hlt

/-! ## Handing out -/

theorem not_live_nextSlot (sizeClass : SizeClass) : ¬ sizeClass.Live sizeClass.nextSlot := by
  obtain ⟨slots, free⟩ := sizeClass
  rintro ⟨hlt, hfree⟩
  cases free with
  | nil => exact Nat.lt_irrefl _ hlt
  | cons slot rest => exact hfree (List.mem_cons_self ..)

theorem allocate_sound {sizeClass : SizeClass} (h : sizeClass.Sound) (content : Array UInt32) :
    (sizeClass.allocate content).Sound := by
  obtain ⟨slots, free⟩ := sizeClass
  cases free with
  | nil => exact ⟨List.Pairwise.nil, by simp [allocate]⟩
  | cons slot rest =>
    refine ⟨(List.nodup_cons.mp h.nodup).2, fun other hmem => ?_⟩
    show other < (slots.setIfInBounds slot content).size
    rw [Array.size_setIfInBounds]
    exact h.free_lt other (List.mem_cons_of_mem _ hmem)

theorem live_allocate {sizeClass : SizeClass} (h : sizeClass.Sound) (content : Array UInt32)
    (slot : Nat) :
    (sizeClass.allocate content).Live slot ↔ slot = sizeClass.nextSlot ∨ sizeClass.Live slot := by
  obtain ⟨slots, free⟩ := sizeClass
  cases free with
  | nil =>
    simp only [allocate, Live, nextSlot, Array.size_push, List.not_mem_nil, not_false_eq_true,
      and_true]
    omega
  | cons first rest =>
    -- the slot freed last exists and is free only once, so it becomes live
    have hfirst : first < slots.size := h.free_lt first (List.mem_cons_self ..)
    have hnotin : first ∉ rest := (List.nodup_cons.mp h.nodup).1
    simp only [allocate, Live, nextSlot, Array.size_setIfInBounds, List.mem_cons, not_or]
    by_cases heq : slot = first
    · simp [heq, hfirst, hnotin]
    · simp [heq]

theorem content_allocate_self {sizeClass : SizeClass} (h : sizeClass.Sound)
    (content : Array UInt32) :
    (sizeClass.allocate content).content sizeClass.nextSlot = content := by
  obtain ⟨slots, free⟩ := sizeClass
  cases free with
  | nil => simp [allocate, SizeClass.content, nextSlot, Array.getD_eq_getD_getElem?]
  | cons first rest =>
    have hfirst : first < slots.size := h.free_lt first (List.mem_cons_self ..)
    simp [allocate, SizeClass.content, nextSlot, Array.getD_eq_getD_getElem?, hfirst]

theorem content_allocate_of_live {sizeClass : SizeClass} {slot : Nat} (h : sizeClass.Live slot)
    (content : Array UInt32) :
    (sizeClass.allocate content).content slot = sizeClass.content slot := by
  obtain ⟨slots, free⟩ := sizeClass
  obtain ⟨hlt, hfree⟩ := h
  cases free with
  | nil =>
    have hlt : slot < slots.size := hlt
    simp [allocate, SizeClass.content, Array.getD_eq_getD_getElem?, Array.getElem?_push,
      Nat.ne_of_lt hlt]
  | cons first rest =>
    have hne : first ≠ slot := fun heq => hfree (heq ▸ List.mem_cons_self ..)
    simp [allocate, SizeClass.content, Array.getD_eq_getD_getElem?, hne]

/-- One more slot is in use: a new one, or one that was free. -/
theorem size_allocate (sizeClass : SizeClass) (content : Array UInt32) :
    (sizeClass.allocate content).slots.size + sizeClass.free.length =
      sizeClass.slots.size + 1 + (sizeClass.allocate content).free.length := by
  obtain ⟨slots, free⟩ := sizeClass
  cases free with
  | nil => simp [allocate]
  | cons first rest =>
    simp only [allocate, Array.size_setIfInBounds, List.length_cons]
    omega

/-- A slot that was free makes do. -/
theorem size_slots_allocate (sizeClass : SizeClass) (content : Array UInt32) :
    (sizeClass.allocate content).slots.size =
      sizeClass.slots.size + if sizeClass.free = [] then 1 else 0 := by
  obtain ⟨slots, free⟩ := sizeClass
  cases free with
  | nil => simp [allocate]
  | cons first rest => simp [allocate]

/-! ## Giving back -/

theorem release_sound {sizeClass : SizeClass} (h : sizeClass.Sound) {slot : Nat}
    (hlive : sizeClass.Live slot) : (sizeClass.release slot).Sound := by
  refine ⟨List.nodup_cons.mpr ⟨hlive.2, h.nodup⟩, fun other hmem => ?_⟩
  show other < (sizeClass.slots.setIfInBounds slot #[]).size
  rw [Array.size_setIfInBounds]
  rcases List.mem_cons.mp hmem with rfl | hmem
  · exact hlive.1
  · exact h.free_lt other hmem

theorem live_release (sizeClass : SizeClass) (slot other : Nat) :
    (sizeClass.release slot).Live other ↔ other ≠ slot ∧ sizeClass.Live other := by
  simp only [release, Live, Array.size_setIfInBounds, List.mem_cons, not_or]
  constructor
  · rintro ⟨hlt, hne, hfree⟩
    exact ⟨hne, hlt, hfree⟩
  · rintro ⟨hne, hlt, hfree⟩
    exact ⟨hlt, hne, hfree⟩

theorem content_release_of_ne (sizeClass : SizeClass) {slot other : Nat} (h : other ≠ slot) :
    (sizeClass.release slot).content other = sizeClass.content other := by
  simp [release, content, Array.getD_eq_getD_getElem?, h.symm]

theorem size_release (sizeClass : SizeClass) (slot : Nat) :
    (sizeClass.release slot).slots.size + 1 + sizeClass.free.length =
      sizeClass.slots.size + (sizeClass.release slot).free.length := by
  simp only [release, Array.size_setIfInBounds, List.length_cons]
  omega

theorem size_slots_release (sizeClass : SizeClass) (slot : Nat) :
    (sizeClass.release slot).slots.size = sizeClass.slots.size := by
  simp [release]

/-! ## Writing behind a list -/

theorem push_sound {sizeClass : SizeClass} (h : sizeClass.Sound) (slot : Nat) (entry : UInt32) :
    (sizeClass.push slot entry).Sound := by
  refine ⟨h.nodup, fun other hmem => ?_⟩
  show other < (sizeClass.slots.modify slot _).size
  rw [Array.size_modify]
  exact h.free_lt other hmem

theorem live_push (sizeClass : SizeClass) (slot : Nat) (entry : UInt32) (other : Nat) :
    (sizeClass.push slot entry).Live other ↔ sizeClass.Live other := by
  simp [push, Live]

theorem content_push_self {sizeClass : SizeClass} {slot : Nat} (h : sizeClass.Live slot)
    (entry : UInt32) :
    (sizeClass.push slot entry).content slot = (sizeClass.content slot).push entry := by
  have hlt : slot < sizeClass.slots.size := h.1
  simp [push, content, Array.getD_eq_getD_getElem?, hlt, Array.getElem_modify_self]

theorem content_push_of_ne (sizeClass : SizeClass) {slot other : Nat} (h : other ≠ slot)
    (entry : UInt32) : (sizeClass.push slot entry).content other = sizeClass.content other := by
  simp [push, content, Array.getD_eq_getD_getElem?, Array.getElem?_modify, h.symm]

theorem size_push (sizeClass : SizeClass) (slot : Nat) (entry : UInt32) :
    (sizeClass.push slot entry).slots.size = sizeClass.slots.size := by
  simp [push]

end Slidewalk.SizeClass
