import Mathlib.Algebra.BigOperators.Ring.Finset
import Slidewalk.Proofs.Pool.PowerLaw

/-!
# Promotions keep the lists, and slots never run out

A first entry takes a slot of class 0, a full list moves one class up, and any other entry is
written in place: each is a `Moves`. A node above class 0 fills more than half of its slot, so the
room shared by a class lasts as long as the pool holds fewer edges than it was made for; the only
bound an edge can run into is the degree of its node.
-/

namespace Slidewalk.PowerLawPool

variable {pool : PowerLawPool} {node : Nat} {entry : UInt32}

theorem getD_modify (classes : Array SizeClass) {j : Nat} (change : SizeClass → SizeClass)
    (h : j < classes.size) (k : Nat) :
    (classes.modify j change).getD k .empty =
      if j = k then change (classes.getD k .empty) else classes.getD k .empty := by
  simp only [Array.getD_eq_getD_getElem?, Array.getElem?_modify]
  by_cases hjk : j = k
  · subst hjk
    simp [h]
  · simp [hjk]

/-! ## A first entry -/

theorem sizeClass_start (h : pool.Sound) (node : Nat) (entry : UInt32) (k : Nat) :
    (pool.start node entry).sizeClass k =
      if 0 = k then (pool.sizeClass k).allocate #[entry] else pool.sizeClass k := by
  apply getD_modify
  rw [h.classes_size]
  exact pool.bounds.classCount_pos

theorem handle_start (pool : PowerLawPool) (node : Nat) (entry : UInt32) (other : Nat) :
    (pool.start node entry).handle other =
      if node = other then some ⟨0, (pool.sizeClass 0).nextSlot⟩ else pool.handle other := by
  simp [start, handle, Std.HashMap.getElem?_insert]

theorem start_moves (h : pool.Sound) (hnone : pool.handle node = none) (entry : UInt32) :
    pool.Moves (pool.start node entry) node ⟨0, (pool.sizeClass 0).nextSlot⟩ entry := by
  have hclass := sizeClass_start h node entry
  have hhandle := handle_start pool node entry
  have hrow : pool.row node = #[] := row_of_no_handle hnone
  constructor
  case bounds => rfl
  case nodeCount => rfl
  case edgeCount => rfl
  case isSealed => rfl
  case classes_size => simp [start]
  case class_sound =>
    intro k
    rw [hclass]
    split
    · exact SizeClass.allocate_sound (h.class_sound k) _
    · exact h.class_sound k
  case here => rw [hhandle, if_pos rfl]
  case elsewhere =>
    intro other hne
    rw [hhandle, if_neg (Ne.symm hne)]
  case kept =>
    intro other handle _ hother
    have hlive := h.live hother
    rw [hclass]
    split
    · rename_i hk
      refine ⟨?_, (SizeClass.live_allocate (h.class_sound _) _ _).mpr (.inr hlive),
        SizeClass.content_allocate_of_live hlive _⟩
      rintro rfl
      exact SizeClass.not_live_nextSlot _ hlive
    · rename_i hk
      refine ⟨?_, hlive, rfl⟩
      rintro rfl
      exact hk rfl
  case live =>
    rw [hclass, if_pos rfl]
    exact (SizeClass.live_allocate (h.class_sound 0) _ _).mpr (.inl rfl)
  case content =>
    rw [hclass, if_pos rfl, hrow]
    exact SizeClass.content_allocate_self (h.class_sound 0) _
  case fits =>
    have := pool.bounds.slotLen_pos 0
    have hdegree : pool.degree node = 0 := by simp [degree, hrow]
    exact ⟨by omega, by show pool.degree node + 1 ≤ pool.bounds.slotLen 0; omega, by simp⟩
  case promotions => simp [start, level, classOf, hnone]
  case slots =>
    intro k
    have hold : pool.classOf node = none := by simp [classOf, hnone]
    rw [hclass, hold]
    by_cases hk : 0 = k
    · have := SizeClass.size_allocate (pool.sizeClass k) #[entry]
      simp only [if_pos hk, reduceCtorEq, if_false]
      omega
    · simp [hk]
  case opened =>
    intro k
    have hnext : pool.nextClass node = some 0 := by simp [nextClass, hnone]
    rw [hclass, hnext]
    by_cases hk : 0 = k
    · simp [hk, SizeClass.size_slots_allocate]
    · simp [hk]

/-! ## An entry with room in its slot -/

theorem sizeClass_extend (h : pool.Sound) {handle : SlotHandle}
    (hnode : pool.handle node = some handle) (entry : UInt32) (k : Nat) :
    (pool.extend handle entry).sizeClass k =
      if handle.sizeClass = k then (pool.sizeClass k).push handle.slot entry
      else pool.sizeClass k :=
  getD_modify _ _ (h.class_lt hnode) k

theorem extend_moves (h : pool.Sound) {handle : SlotHandle} (hnode : pool.handle node = some handle)
    (hroom : pool.degree node < pool.bounds.slotLen handle.sizeClass) (entry : UInt32) :
    pool.Moves (pool.extend handle entry) node handle entry := by
  have hclass := sizeClass_extend h hnode entry
  constructor
  case bounds => rfl
  case nodeCount => rfl
  case edgeCount => rfl
  case isSealed => rfl
  case classes_size => simp [extend]
  case class_sound =>
    intro k
    rw [hclass]
    split
    · exact SizeClass.push_sound (h.class_sound k) _ _
    · exact h.class_sound k
  case here => exact hnode
  case elsewhere => exact fun _ _ => rfl
  case kept =>
    intro other handle' hne hother
    have hlive := h.live hother
    -- two nodes never share a slot
    have happart : handle' ≠ handle := by
      rintro rfl
      exact hne (h.apart hother hnode)
    refine ⟨happart, ?_⟩
    rw [hclass]
    split
    · rename_i hk
      have hslot : handle'.slot ≠ handle.slot := by
        intro hslot
        obtain ⟨k, slot⟩ := handle
        obtain ⟨k', slot'⟩ := handle'
        exact happart (by simp_all)
      exact ⟨(SizeClass.live_push _ _ _ _).mpr hlive, SizeClass.content_push_of_ne _ hslot _⟩
    · exact ⟨hlive, rfl⟩
  case live =>
    rw [hclass, if_pos rfl]
    exact (SizeClass.live_push _ _ _ _).mpr (h.live hnode)
  case content =>
    -- the slot is live, so the entry lands behind what the list holds
    rw [hclass, if_pos rfl, row_of_handle hnode]
    exact SizeClass.content_push_self (h.live hnode) entry
  case fits =>
    have hfits := h.fits hnode
    refine ⟨by omega, by omega, fun j hj => ?_⟩
    have := hfits.lower j hj
    omega
  case promotions => simp [extend, level, classOf, hnode]
  case slots =>
    intro k
    have hold : pool.classOf node = some handle.sizeClass := by simp [classOf, hnode]
    rw [hclass, hold]
    by_cases hk : handle.sizeClass = k
    · simp only [hk, if_true, SizeClass.size_push]
      rfl
    · simp only [Option.some.injEq, if_neg hk]
  case opened =>
    intro k
    have hnext : pool.nextClass node = none := by simp [nextClass, hnode, hroom]
    rw [hclass, hnext]
    split
    · simp [SizeClass.size_push]
    · simp

/-! ## An entry that moves its list one class up -/

theorem sizeClass_promote (h : pool.Sound) {old : SlotHandle} (hnode : pool.handle node = some old)
    (hlt : old.sizeClass + 1 < pool.classes.size) (entry : UInt32) (k : Nat) :
    (pool.promote node old entry).sizeClass k =
      if old.sizeClass = k then (pool.sizeClass k).release old.slot
      else if old.sizeClass + 1 = k then (pool.sizeClass k).allocate ((pool.row node).push entry)
      else pool.sizeClass k := by
  rw [row_of_handle hnode]
  refine (getD_modify _ _ (by rw [Array.size_modify]; exact h.class_lt hnode) k).trans ?_
  rw [getD_modify _ _ hlt]
  by_cases hk : old.sizeClass = k
  · rw [if_pos hk, if_pos hk, if_neg (by omega)]
    rfl
  · rw [if_neg hk, if_neg hk]
    rfl

theorem handle_promote (pool : PowerLawPool) (node : Nat) (old : SlotHandle) (entry : UInt32)
    (other : Nat) :
    (pool.promote node old entry).handle other =
      if node = other then some ⟨old.sizeClass + 1, (pool.sizeClass (old.sizeClass + 1)).nextSlot⟩
      else pool.handle other := by
  simp [promote, handle, Std.HashMap.getElem?_insert]

theorem promote_moves (h : pool.Sound) {old : SlotHandle} (hnode : pool.handle node = some old)
    (hfull : pool.bounds.slotLen old.sizeClass ≤ pool.degree node)
    (hlt : old.sizeClass + 1 < pool.classes.size) (entry : UInt32) :
    pool.Moves (pool.promote node old entry) node
      ⟨old.sizeClass + 1, (pool.sizeClass (old.sizeClass + 1)).nextSlot⟩ entry := by
  have hclass := sizeClass_promote h hnode hlt entry
  have hhandle := handle_promote pool node old entry
  constructor
  case bounds => rfl
  case nodeCount => rfl
  case edgeCount => rfl
  case isSealed => rfl
  case classes_size => simp [promote]
  case class_sound =>
    intro k
    rw [hclass]
    split
    · rename_i hk
      exact SizeClass.release_sound (h.class_sound k) (hk ▸ h.live hnode)
    split
    · exact SizeClass.allocate_sound (h.class_sound k) _
    · exact h.class_sound k
  case here => rw [hhandle, if_pos rfl]
  case elsewhere =>
    intro other hne
    rw [hhandle, if_neg (Ne.symm hne)]
  case kept =>
    intro other handle hne hother
    have hlive := h.live hother
    obtain ⟨k, slot⟩ := handle
    rw [hclass]
    split
    -- in the class that the list leaves, only its own slot is given back
    · rename_i hsame
      have hk : old.sizeClass = k := hsame
      have hslot : slot ≠ old.slot := by
        rintro rfl
        exact hne (h.apart hother (hk ▸ hnode))
      refine ⟨?_, (SizeClass.live_release _ _ _).mpr ⟨hslot, hlive⟩,
        SizeClass.content_release_of_ne _ hslot⟩
      rw [Ne, SlotHandle.mk.injEq]
      rintro ⟨rfl, -⟩
      omega
    split
    · rename_i hk
      -- the slot handed out was not live, so it is nobody else's
      refine ⟨?_, (SizeClass.live_allocate (h.class_sound _) _ _).mpr (.inr hlive),
        SizeClass.content_allocate_of_live hlive _⟩
      rw [Ne, SlotHandle.mk.injEq]
      rintro ⟨rfl, rfl⟩
      exact SizeClass.not_live_nextSlot _ hlive
    · rename_i hk
      refine ⟨?_, hlive, rfl⟩
      rw [Ne, SlotHandle.mk.injEq]
      rintro ⟨rfl, -⟩
      exact hk rfl
  case live =>
    rw [hclass, if_neg (by simp), if_pos rfl]
    exact (SizeClass.live_allocate (h.class_sound _) _ _).mpr (.inl rfl)
  case content =>
    rw [hclass, if_neg (by simp), if_pos rfl]
    exact SizeClass.content_allocate_self (h.class_sound _) _
  case fits => exact (h.fits hnode).succ_of_full hfull
  case promotions =>
    have hlevel : pool.level node = old.sizeClass := by simp [level, classOf, hnode]
    rw [hlevel]
    show pool.promotions + 1 + old.sizeClass = pool.promotions + (old.sizeClass + 1)
    omega
  case slots =>
    intro k
    have hold : pool.classOf node = some old.sizeClass := by simp [classOf, hnode]
    rw [hclass, hold]
    by_cases hk : old.sizeClass = k
    · have := SizeClass.size_release (pool.sizeClass k) old.slot
      have hne : ¬ old.sizeClass + 1 = k := by omega
      simp only [Option.some.injEq, if_pos hk, if_neg hne]
      omega
    by_cases hk' : old.sizeClass + 1 = k
    · have := SizeClass.size_allocate (pool.sizeClass k) ((pool.row node).push entry)
      simp only [Option.some.injEq, if_neg hk, if_pos hk']
      omega
    · simp only [Option.some.injEq, if_neg hk, if_neg hk']
  case opened =>
    intro k
    have hnext : pool.nextClass node = some (old.sizeClass + 1) := by
      simp [nextClass, hnode, Nat.not_lt.mpr hfull]
    rw [hclass, hnext]
    by_cases hk : old.sizeClass = k
    · have hne : ¬ old.sizeClass + 1 = k := by omega
      simp [if_pos hk, hne, SizeClass.size_slots_release]
    by_cases hk' : old.sizeClass + 1 = k
    · simp [if_neg hk, hk', SizeClass.size_slots_allocate]
    · simp [hk, hk']

/-! ## Adding an edge -/

/-- Whatever the way of writing, it is a move. -/
theorem push_moves (h : pool.Sound) (entry : UInt32)
    (hnext : ∀ k, pool.nextClass node = some k → k < pool.classes.size) :
    ∃ moved target, pool.push node entry = moved.count node ∧
      pool.Moves moved node target entry := by
  unfold push
  unfold nextClass at hnext
  cases hnode : pool.handle node with
  | none => exact ⟨_, _, rfl, start_moves h hnode entry⟩
  | some handle =>
    dsimp only
    split
    · rename_i hroom
      exact ⟨_, _, rfl, extend_moves h hnode hroom entry⟩
    · rename_i hfull
      rw [hnode] at hnext
      exact ⟨_, _, rfl, promote_moves h hnode (by omega)
        (hnext _ (by dsimp only; rw [if_neg hfull])) entry⟩

theorem push_sound (h : pool.Sound) (entry : UInt32)
    (hnext : ∀ k, pool.nextClass node = some k → k < pool.classes.size) :
    (pool.push node entry).Sound ∧
      (pool.push node entry).bounds = pool.bounds ∧
      (pool.push node entry).edgeCount = pool.edgeCount + 1 ∧
      (pool.push node entry).nodeCount = max pool.nodeCount (node + 1) ∧
      (pool.push node entry).isSealed = pool.isSealed ∧
      ∀ other, (pool.push node entry).row other =
        if node = other then (pool.row other).push entry else pool.row other := by
  obtain ⟨moved, target, hpush, hmoves⟩ := push_moves h entry hnext
  rw [hpush]
  refine ⟨hmoves.sound h, hmoves.bounds, ?_, ?_, hmoves.isSealed, hmoves.row⟩
  · show moved.edgeCount + 1 = pool.edgeCount + 1
    rw [hmoves.edgeCount]
  · show max moved.nodeCount (node + 1) = max pool.nodeCount (node + 1)
    rw [hmoves.nodeCount]

/-- A list shorter than the greatest length allowed never lacks a larger class. -/
theorem nextClass_lt (h : pool.Sound) (hdegree : pool.degree node < pool.bounds.maxDegree) {k : Nat}
    (hnext : pool.nextClass node = some k) : k < pool.classes.size := by
  have hcount := h.classes_size
  have hpos := pool.bounds.classCount_pos
  unfold nextClass at hnext
  split at hnext
  · obtain rfl := Option.some.inj hnext
    omega
  · rename_i handle hnode
    split at hnext
    · simp at hnext
    · rename_i hfull
      obtain rfl := Option.some.inj hnext
      -- the largest class holds the greatest length, and this slot is shorter
      have hlen : pool.bounds.slotLen handle.sizeClass <
          pool.bounds.slotLen (pool.bounds.classCount - 1) := by
        have := pool.bounds.maxDegree_le_slotLen
        omega
      have := pool.bounds.slotLen_lt_slotLen.mp hlen
      omega

/-! ## The slot budget -/

/-- Each resident of a class holds more than half a slot, apart from those of class 0. -/
theorem residents_mul_le (h : pool.Sound) {k nodes : Nat} (hnodes : pool.nodeCount ≤ nodes)
    (hnode : node < nodes) (hclass : pool.classOf node ≠ some (k + 1)) :
    pool.residents nodes (k + 1) * pool.bounds.slotLen k + pool.degree node ≤ pool.edgeCount := by
  have hmem : node ∈ Finset.range nodes := Finset.mem_range.mpr hnode
  rw [h.edges nodes hnodes, degreeSum, residents, Finset.sum_mul,
    ← Finset.add_sum_erase _ _ hmem, ← Finset.add_sum_erase _ (fun n => pool.degree n) hmem,
    if_neg hclass, Nat.zero_mul, Nat.zero_add, Nat.add_comm]
  apply Nat.add_le_add_left
  apply Finset.sum_le_sum
  intro other _
  split
  · rename_i hother
    obtain ⟨handle, hhandle, hk⟩ := Option.map_eq_some_iff.mp hother
    have := (h.fits hhandle).lower k hk
    omega
  · omega

/-- A node without a list leaves one of the slots of class 0 unused. -/
theorem residents_zero_lt {nodes : Nat} (hnode : node < nodes) (hnone : pool.handle node = none) :
    pool.residents nodes 0 < nodes := by
  have hmem : node ∈ Finset.range nodes := Finset.mem_range.mpr hnode
  have hclass : pool.classOf node ≠ some 0 := by simp [classOf, hnone]
  calc pool.residents nodes 0
      = ∑ n ∈ (Finset.range nodes).erase node, if pool.classOf n = some 0 then 1 else 0 := by
        rw [residents, ← Finset.add_sum_erase _ _ hmem, if_neg hclass, Nat.zero_add]
    _ ≤ ∑ _n ∈ (Finset.range nodes).erase node, 1 :=
        Finset.sum_le_sum fun n _ => by split <;> omega
    _ < nodes := by
        rw [← Finset.card_eq_sum_ones, Finset.card_erase_of_mem hmem, Finset.card_range]
        omega

/-- The node's own full slot and the residents' more than half slots are edges. -/
theorem residents_succ_lt (h : pool.Sound) (hnodes : pool.nodeCount ≤ pool.bounds.maxNodes)
    (hnode : node < pool.bounds.maxNodes) (hedges : pool.edgeCount < pool.bounds.maxEdges)
    (hshared : 4 * pool.bounds.maxEdges < UInt64.size) {handle : SlotHandle}
    (hhandle : pool.handle node = some handle)
    (hfull : pool.bounds.slotLen handle.sizeClass ≤ pool.degree node) :
    pool.residents pool.bounds.maxNodes (handle.sizeClass + 1) <
      pool.bounds.maxSlots (handle.sizeClass + 1) := by
  have hclass : pool.classOf node ≠ some (handle.sizeClass + 1) := by simp [classOf, hhandle]
  have hbudget := residents_mul_le h hnodes hnode hclass
  have hlen := pool.bounds.slotLen_pos handle.sizeClass
  have hdouble := pool.bounds.slotLen_succ handle.sizeClass
  generalize pool.residents pool.bounds.maxNodes (handle.sizeClass + 1) = residents at *
  unfold PowerLawBounds.maxSlots PowerLawBounds.sharedEntries
  rw [if_neg (by omega), Nat.min_eq_left (by omega)]
  have hfit : residents + 1 ≤
      4 * pool.bounds.maxEdges / pool.bounds.slotLen (handle.sizeClass + 1) := by
    rw [Nat.le_div_iff_mul_le (by omega), hdouble, Nat.mul_left_comm, Nat.add_mul, Nat.one_mul]
    omega
  exact Nat.lt_of_lt_of_le hfit (Nat.le_max_left _ _)

/-- While the pool holds fewer edges than it was made for, a slot can be handed out to a node that
needs one. -/
theorem hasRoom_of_nextClass (h : pool.Sound) (hnodes : pool.nodeCount ≤ pool.bounds.maxNodes)
    (hnode : node < pool.bounds.maxNodes) (hedges : pool.edgeCount < pool.bounds.maxEdges)
    (hshared : 4 * pool.bounds.maxEdges < UInt64.size) {k : Nat}
    (hnext : pool.nextClass node = some k) :
    (pool.sizeClass k).hasRoom (pool.bounds.maxSlots k) = true := by
  have hresidents : pool.residents pool.bounds.maxNodes k < pool.bounds.maxSlots k := by
    unfold nextClass at hnext
    split at hnext
    · rename_i hnone
      obtain rfl := Option.some.inj hnext
      exact residents_zero_lt hnode hnone
    · rename_i handle hhandle
      split at hnext
      · contradiction
      · rename_i hfull
        obtain rfl := Option.some.inj hnext
        exact residents_succ_lt h hnodes hnode hedges hshared hhandle (Nat.not_lt.mp hfull)
  unfold SizeClass.hasRoom
  cases hfree : (pool.sizeClass k).free with
  | cons slot rest => rfl
  | nil =>
    -- without free slots, the slots in use are those of the residents
    have hslots := h.slots k pool.bounds.maxNodes hnodes
    rw [hfree, List.length_nil, Nat.add_zero] at hslots
    rw [hslots, decide_eq_true hresidents]
    rfl

/-- Below the edge bound a node is refused only at its own degree bound. -/
theorem check_eq (h : pool.Sound) (hsealed : pool.isSealed = false)
    (hnodes : pool.nodeCount ≤ pool.bounds.maxNodes) (hnode : node < pool.bounds.maxNodes)
    (hedges : pool.edgeCount < pool.bounds.maxEdges)
    (hshared : 4 * pool.bounds.maxEdges < UInt64.size) :
    pool.check node = if pool.bounds.maxDegree ≤ pool.degree node then
      .error (.capacity .degree pool.bounds.maxDegree) else .ok () := by
  unfold check listRefusal
  rw [hsealed]
  simp only [Bool.false_eq_true, if_false]
  -- behind the degree bound both refusals for want of a slot are ruled out
  by_cases hdegree : pool.bounds.maxDegree ≤ pool.degree node
  · simp only [if_pos hdegree]
  · simp only [if_neg hdegree]
    cases hnext : pool.nextClass node with
    | none => rfl
    | some k =>
      have hlt := nextClass_lt h (by omega) hnext
      have hroom := hasRoom_of_nextClass h hnodes hnode hedges hshared hnext
      simp only [slotRefusal, if_neg (Nat.not_le.mpr hlt), hroom, if_true]

end Slidewalk.PowerLawPool
