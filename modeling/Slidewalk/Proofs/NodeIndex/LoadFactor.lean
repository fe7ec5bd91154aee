import Slidewalk.Proofs.NodeIndex.FirstSeen

/-!
# The table of an index never fills

A table is at every moment what rebuilding it from the list of ids would make of it: placing one
more id is the last step of a rebuild. So what holds of rebuilt tables holds of all of them, and as
at most half of the slots are used, every walk from slot to slot meets a vacant one within one
round. The table doubles exactly when the next id would take it past one half.
-/

namespace Slidewalk

namespace Table

/-! ## Walks come to an end -/

/-- A search for a vacant slot that has ended does not go on. -/
theorem vacancy_add {table : Table} {steps start slot : Nat}
    (h : table.vacancy steps start = some slot) (more : Nat) :
    table.vacancy (steps + more) start = some slot := by
  induction steps generalizing start with
  | zero => simp [vacancy] at h
  | succ steps ih =>
    rw [Nat.add_right_comm]
    unfold vacancy at h ⊢
    split at h
    · contradiction
    · exact h
    · exact ih h

/-- Nor does a search for an id: it ends at the vacant slot if the id is not met before. -/
theorem probe_add {table : Table} {steps start slot : Nat}
    (h : table.vacancy steps start = some slot) (ids : Array NodeId) (id : NodeId) (more : Nat) :
    table.probe ids id (steps + more) start = table.probe ids id steps start ∧
      table.probe ids id steps start ≠ .exhausted := by
  induction steps generalizing start with
  | zero => simp [vacancy] at h
  | succ steps ih =>
    rw [Nat.add_right_comm]
    unfold vacancy at h
    unfold probe
    split at h
    · contradiction
    · exact ⟨rfl, Probe.noConfusion⟩
    · split
      · exact ⟨rfl, Probe.noConfusion⟩
      · exact ih h

/-- Every walk through a table comes to an end within one round, wherever it starts. -/
structure WalksEnd (table : Table) : Prop where
  vacancy : ∀ start, start < table.size → ∃ slot, table[slot]? = some none ∧
    ∀ more, table.vacancy (table.size + more) start = some slot
  probe : ∀ ids id start more, start < table.size →
    table.probe ids id (table.size + more) start = table.probe ids id table.size start ∧
      table.probe ids id table.size start ≠ .exhausted

theorem walksEnd {table : Table} (h : table.occupied < table.size) : table.WalksEnd where
  vacancy := by
    intro start hstart
    obtain ⟨slot, hslot⟩ := vacancy_isSome h hstart
    exact ⟨slot, (vacancy_eq_some hslot).1, vacancy_add hslot⟩
  probe := by
    intro ids id start more hstart
    obtain ⟨slot, hslot⟩ := vacancy_isSome h hstart
    exact probe_add hslot ids id more

/-! ## Rebuilt tables -/

/-- The numbers below a count are in the table, each in one slot, and nothing else is. -/
structure Numbered (table : Table) (count : Nat) : Prop where
  once : ∀ number, number < count → ∃! slot : Nat, table[slot]? = some (some number)
  below : ∀ slot number : Nat, table[slot]? = some (some number) → number < count

theorem numbered_empty (capacity : Nat) : Numbered (empty capacity) 0 where
  once := fun number hnumber => absurd hnumber (Nat.not_lt_zero number)
  below := by
    intro slot number hslot
    simp [empty, Array.getElem?_replicate] at hslot

theorem Numbered.place {table : Table} {count : Nat} (h : table.Numbered count)
    (hroom : table.occupied < table.size) (placement : Placement) (id : NodeId) :
    (table.place placement id count).Numbered (count + 1) := by
  have hhome : table.home placement id < table.size := table.home_lt placement id (by omega)
  obtain ⟨vacant, hvacancy⟩ := vacancy_isSome hroom hhome
  have hvacant := (vacancy_eq_some hvacancy).1
  have hlt : vacant < table.size := (Array.getElem?_eq_some_iff.mp hvacant).1
  -- the vacant slot gets the next number, and the other slots stay as they are
  have hplaced (slot number : Nat) :
      (table.place placement id count)[slot]? = some (some number) ↔
        slot = vacant ∧ number = count ∨ table[slot]? = some (some number) := by
    unfold Table.place
    rw [hvacancy]
    dsimp only
    by_cases hslot : vacant = slot
    · subst hslot
      rw [Array.getElem?_setIfInBounds_self_of_lt hlt, hvacant]
      simp [eq_comm]
    · rw [Array.getElem?_setIfInBounds_ne hslot]
      simp [Ne.symm hslot]
  constructor
  · intro number hnumber
    by_cases hlast : number = count
    · subst hlast
      refine ⟨vacant, (hplaced _ _).mpr (.inl ⟨rfl, rfl⟩), fun slot hslot => ?_⟩
      rcases (hplaced _ _).mp hslot with ⟨hsame, -⟩ | hold
      · exact hsame
      · exact absurd (h.below _ _ hold) (Nat.lt_irrefl _)
    · obtain ⟨slot, hslot, honly⟩ := h.once number (by omega)
      refine ⟨slot, (hplaced _ _).mpr (.inr hslot), fun other hother => ?_⟩
      rcases (hplaced _ _).mp hother with ⟨-, hsame⟩ | hold
      · exact absurd hsame hlast
      · exact honly other hold
  · intro slot number hslot
    rcases (hplaced _ _).mp hslot with ⟨-, hlast⟩ | hold
    · omega
    · have := h.below _ _ hold
      omega

/-- Placing one more id is the last step of rebuilding a table. -/
theorem ofIds_push (placement : Placement) (capacity : Nat) (ids : Array NodeId) (id : NodeId) :
    ofIds placement capacity (ids.push id) =
      (ofIds placement capacity ids).place placement id ids.size := by
  unfold ofIds
  rw [← Array.foldl_toList, ← Array.foldl_toList, Array.toList_zipIdx, Array.toList_zipIdx,
    Array.toList_push, List.zipIdx_append, List.foldl_append, Array.length_toList, Nat.zero_add]
  rfl

theorem numbered_ofIds (placement : Placement) {capacity : Nat} (ids : List NodeId)
    (hroom : ids.length ≤ capacity) :
    (ofIds placement capacity ids.toArray).Numbered ids.length := by
  induction ids using List.reverseRecOn with
  | nil => exact numbered_empty capacity
  | append_singleton ids id ih =>
    rw [List.length_append, List.length_singleton] at hroom ⊢
    have hsize : ids.toArray.size ≤ capacity := by
      rw [List.size_toArray]
      omega
    have hindexed := indexes_ofIds placement hsize
    rw [← List.push_toArray, ofIds_push]
    refine (ih (by omega)).place ?_ placement id
    rw [hindexed.occupied, size_ofIds, List.size_toArray]
    omega

end Table

namespace NodeIndex

/-! ## Doubling -/

/-- How an index has come from a table of a first capacity. -/
structure Doubled (first : Nat) (index : NodeIndex) : Prop where
  sound : index.Sound
  rebuilt : index.table = .ofIds index.placement index.capacity index.ids
  capacity : index.capacity = first * Nat.pow 2 index.growths
  /-- A table has doubled only for the ids that are there now. -/
  late : index.growths = 0 ∨ index.capacity < 4 * index.size

variable {placement : Placement} {initial maxNodes first : Nat} {index : NodeIndex}

/-- A new id is placed in the table, or the table is rebuilt at twice its size. -/
theorem append_cases {id : NodeId} {slot : Nat}
    (hslot : index.table.vacancy index.table.size (index.table.home index.placement id) =
      some slot) :
    (index.table.size < 2 * (index.ids.size + 1) ∧
      (index.append id (some slot)).table =
        .ofIds index.placement (2 * index.table.size) (index.ids.push id) ∧
      (index.append id (some slot)).growths = index.growths + 1) ∨
    (2 * (index.ids.size + 1) ≤ index.table.size ∧
      (index.append id (some slot)).table = index.table.place index.placement id index.ids.size ∧
      (index.append id (some slot)).growths = index.growths) := by
  rw [table_append hslot]
  unfold append
  dsimp only
  split
  · rename_i hgrows
    exact .inl ⟨hgrows, rfl, rfl⟩
  · rename_i hroom
    exact .inr ⟨Nat.le_of_not_lt hroom, rfl, rfl⟩

theorem create_doubled (hcreate : withPlacement placement initial maxNodes = .ok index) :
    index.Doubled index.capacity := by
  refine ⟨(withPlacement_sound hcreate).1, ?_, ?_, ?_⟩
  all_goals
    unfold withPlacement at hcreate
    split at hcreate
    · contradiction
    obtain rfl := Except.ok.inj hcreate
  · simp only [capacity, Table.sized, Table.size_empty]
    rfl
  · exact (Nat.mul_one _).symm
  · exact .inl rfl

/-- The table doubles with an id that would take it past one half, and not before. -/
theorem Doubled.append (h : index.Doubled first) {id : NodeId} {slot : Nat}
    (hid : id ∉ index.ids) (hroom : index.ids.size < index.maxNodes)
    (hslot : index.table.vacancy index.table.size (index.table.home index.placement id) =
      some slot) : (index.append id (some slot)).Doubled first := by
  have hsound := append_sound h.sound hid hroom hslot
  have hcapacity : index.table.size = first * Nat.pow 2 index.growths := h.capacity
  have hhalf := h.sound.half
  have hsize : (index.append id (some slot)).size = index.ids.size + 1 := by
    rw [size, ids_append, Array.size_push]
  obtain ⟨hgrows, htable, hgrowths⟩ | ⟨-, htable, hgrowths⟩ := append_cases hslot
  · have hdoubled : (index.append id (some slot)).capacity = 2 * index.table.size := by
      rw [NodeIndex.capacity, htable, Table.size_ofIds]
    refine ⟨hsound, ?_, ?_, .inr ?_⟩
    · rw [htable, hdoubled, placement_append, ids_append]
    · rw [hdoubled, hgrowths, hcapacity, Nat.mul_left_comm, Nat.mul_comm 2]
      rfl
    · omega
  · have hsame : (index.append id (some slot)).capacity = index.table.size := by
      rw [NodeIndex.capacity, htable, Table.size_place]
    refine ⟨hsound, ?_, ?_, h.late.imp (hgrowths.trans ·) fun hlate => ?_⟩
    · rw [htable, hsame, placement_append, ids_append, Table.ofIds_push]
      exact congrArg (Table.place · index.placement id index.ids.size) h.rebuilt
    · rw [hsame, hgrowths, hcapacity]
    · rw [hsame, hsize]
      exact Nat.lt_of_lt_of_le hlate (Nat.mul_le_mul_left 4 (Nat.le_succ _))

theorem Doubled.intern (h : index.Doubled first) (id : NodeId) :
    (index.intern id).1.Doubled first := by
  by_cases hid : id ∈ index.ids
  · obtain ⟨number, hnumber⟩ := Array.mem_iff_getElem?.mp hid
    rw [intern_of_known h.sound hnumber]
    exact h
  by_cases hroom : index.ids.size < index.maxNodes
  · obtain ⟨slot, hslot, hintern⟩ := intern_eq_append h.sound hid hroom
    rw [hintern]
    exact h.append hid hroom hslot
  · rw [intern_of_full h.sound hid (Nat.le_of_not_lt hroom)]
    exact h

theorem Doubled.internAll (h : index.Doubled first) (ids : List NodeId) :
    (index.internAll ids).Doubled first := by
  induction ids using List.reverseRecOn with
  | nil => exact h
  | append_singleton ids id ih =>
    rw [internAll_concat]
    exact ih.intern id

/-! ## Capacity -/

theorem exists_capacity_of_create
    (hcreate : withPlacement placement initial maxNodes = .ok index) :
    ∃ bits, index.capacity = Nat.pow 2 bits := by
  unfold withPlacement at hcreate
  split at hcreate
  · contradiction
  obtain rfl := Except.ok.inj hcreate
  unfold capacity
  rw [Table.sized, Table.size_empty]
  rcases Nat.le_total (Nat.pow 2 (ceilLog2 (2 * min initial maxNodes))) Table.minCapacity with
    hsmall | hlarge
  · exact ⟨4, Nat.max_eq_right hsmall⟩
  · exact ⟨_, Nat.max_eq_left hlarge⟩

/-- The least power of two with room for twice the ids is the present capacity once the table has
doubled, and at most the first one before. -/
theorem Doubled.capacity_eq {bits : Nat} (h : index.Doubled (Nat.pow 2 bits)) :
    index.capacity = max (Nat.pow 2 bits) (Nat.pow 2 (ceilLog2 (2 * index.size))) := by
  have hhalf : 2 * index.size ≤ index.capacity := h.sound.half
  have hpower : index.capacity = Nat.pow 2 (bits + index.growths) :=
    h.capacity.trans (Nat.pow_add 2 bits index.growths).symm
  have hle : ceilLog2 (2 * index.size) ≤ bits + index.growths :=
    ceilLog2_le_iff.mpr (hpower ▸ hhalf)
  cases hgrowths : index.growths with
  | zero =>
    rw [hgrowths, Nat.add_zero] at hpower hle
    rw [hpower]
    exact (Nat.max_eq_left (Nat.pow_le_pow_right (by decide) hle)).symm
  | succ before =>
    have hlate := h.late.resolve_left (by omega)
    -- half of the present capacity was too small for the ids
    have hsmall : Nat.pow 2 (bits + before) < 2 * index.size := by
      rw [hpower, hgrowths, ← Nat.add_assoc] at hlate
      have hdouble : Nat.pow 2 (bits + before + 1) = Nat.pow 2 (bits + before) * 2 := rfl
      omega
    have hexponent : ceilLog2 (2 * index.size) = bits + index.growths := by
      have := mt ceilLog2_le_iff.mp (Nat.not_le.mpr hsmall)
      omega
    rw [hexponent, hpower]
    exact (Nat.max_eq_right (Nat.pow_le_pow_right (by decide) (Nat.le_add_right _ _))).symm

/-- An index of which at most half is used, and which has doubled only for ids that are there. -/
structure Spacious (first : Nat) (index : NodeIndex) : Prop where
  occupied : index.table.occupied = index.size
  half : 2 * index.size ≤ index.capacity
  numbered : index.table.Numbered index.size
  walksEnd : index.table.WalksEnd
  /-- While the table is rebuilt it holds the first of the ids. -/
  rebuilding : ∀ front, front <+: index.ids.toList →
    (Table.ofIds index.placement index.capacity front.toArray).WalksEnd
  capacity : index.capacity = max first (Nat.pow 2 (ceilLog2 (2 * index.size)))
  doubled : index.capacity = first * Nat.pow 2 index.growths
  growths : index.growths = (index.capacity / first).log2

/-- As many of the ids as there are leave a vacant slot. -/
theorem Doubled.size_lt (h : index.Doubled first) : index.size < index.capacity := by
  have hhalf : 2 * index.size ≤ index.capacity := h.sound.half
  have hpos : 0 < index.capacity := h.sound.table_pos
  omega

theorem Doubled.spacious {bits : Nat} (h : index.Doubled (Nat.pow 2 bits)) :
    index.Spacious (Nat.pow 2 bits) where
  occupied := h.sound.indexed.occupied
  half := h.sound.half
  numbered := by
    have hroom : index.ids.toList.length ≤ index.capacity := Nat.le_of_lt h.size_lt
    rw [h.rebuilt]
    exact Table.numbered_ofIds index.placement index.ids.toList hroom
  walksEnd := by
    apply Table.walksEnd
    rw [h.sound.indexed.occupied]
    exact h.size_lt
  rebuilding := by
    intro front hfront
    have hroom : front.toArray.size < index.capacity :=
      Nat.lt_of_le_of_lt hfront.length_le h.size_lt
    apply Table.walksEnd
    rw [(Table.indexes_ofIds index.placement (Nat.le_of_lt hroom)).occupied, Table.size_ofIds]
    exact hroom
  capacity := h.capacity_eq
  doubled := h.capacity
  growths := by
    have hpos : 0 < Nat.pow 2 bits := Nat.two_pow_pos bits
    rw [h.capacity, Nat.mul_div_cancel_left _ hpos]
    exact Nat.log2_two_pow.symm

/-- Whatever the placement, after every run at most half of the table is used, so that every walk
through it ends within one round, and its capacity is the least that allows this. -/
theorem table_never_fills (hcreate : withPlacement placement initial maxNodes = .ok index)
    (ids : List NodeId) : (index.internAll ids).Spacious index.capacity := by
  obtain ⟨bits, hbits⟩ := exists_capacity_of_create hcreate
  have hdoubled := (create_doubled hcreate).internAll ids
  rw [hbits] at hdoubled ⊢
  exact hdoubled.spacious

/-- Ten ids in a table whose walks all begin at one slot. -/
theorem colliding_never_fills :
    withPlacement (fun _ _ => 15) 1 10 = .ok colliding ∧
      (colliding.internAll fillColliding).growths = 1 ∧
      (colliding.internAll fillColliding).Spacious 16 :=
  ⟨rfl, rfl, table_never_fills create_colliding fillColliding⟩

end NodeIndex

end Slidewalk
