import Slidewalk.NodeIndex.Table

/-!
# Linear probing finds what it placed

A search that starts at an id's home slot meets the slot of the id before it meets a vacant one, as
long as every slot between the two is occupied. Placing an index occupies one more slot and vacates
none, so it keeps these walks; a table that is not full always has a vacant slot to end a search at.
Nothing here depends on where a placement sends an id.
-/

namespace Slidewalk.Table

/-! ## Walks through occupied slots -/

def Occupied (table : Table) (slot : Nat) : Prop := ∃ index, table[slot]? = some (some index)

/-- A walk of some steps from `start` to `slot` through occupied slots only. -/
def Leads (table : Table) (slot : Nat) : (steps start : Nat) → Prop
  | 0, start => start = slot
  | steps + 1, start => table.Occupied start ∧ table.Leads slot steps (table.next start)

theorem Leads.mono {table table' : Table} {slot steps start : Nat}
    (hsize : table'.size = table.size)
    (hkeep : ∀ position, table.Occupied position → table'.Occupied position)
    (h : table.Leads slot steps start) : table'.Leads slot steps start := by
  induction steps generalizing start with
  | zero => exact h
  | succ steps ih =>
    obtain ⟨hocc, hrest⟩ := h
    have hnext : table'.next start = table.next start := by simp [next, hsize]
    exact ⟨hkeep start hocc, hnext ▸ ih hrest⟩

/-! ## The first vacant slot -/

theorem vacancy_eq_some {table : Table} {steps start slot : Nat}
    (h : table.vacancy steps start = some slot) :
    table[slot]? = some none ∧ ∃ walked, walked < steps ∧ table.Leads slot walked start := by
  induction steps generalizing start with
  | zero => simp [vacancy] at h
  | succ steps ih =>
    unfold vacancy at h
    split at h
    · simp at h
    · rename_i hvacant
      obtain rfl : start = slot := by simpa using h
      exact ⟨hvacant, 0, by omega, rfl⟩
    · rename_i index hocc
      obtain ⟨hslot, walked, hwalked, hleads⟩ := ih h
      exact ⟨hslot, walked + 1, by omega, ⟨index, hocc⟩, hleads⟩

theorem next_add_mod (table : Table) (start steps : Nat) :
    (table.next start + steps) % table.size = (start + (steps + 1)) % table.size := by
  unfold next
  rw [Nat.mod_add_mod, Nat.add_right_comm, Nat.add_assoc]

theorem exists_vacancy {table : Table} {steps start distance : Nat} (hstart : start < table.size)
    (hlt : distance < steps)
    (hvacant : table[(start + distance) % table.size]? = some none) :
    ∃ slot, table.vacancy steps start = some slot := by
  induction steps generalizing start distance with
  | zero => omega
  | succ steps ih =>
    unfold vacancy
    obtain ⟨content, hcontent⟩ : ∃ content, table[start]? = some content :=
      ⟨_, Array.getElem?_eq_getElem hstart⟩
    rw [hcontent]
    -- an earlier vacant slot ends the search as well
    cases content with
    | none => exact ⟨start, rfl⟩
    | some index =>
      cases distance with
      | zero =>
        rw [Nat.add_zero, Nat.mod_eq_of_lt hstart, hcontent] at hvacant
        simp at hvacant
      | succ distance =>
        apply ih (table.next_lt start (by omega)) (by omega : distance < steps)
        rw [next_add_mod]
        exact hvacant

/-- A table that is not full has a vacant slot. -/
theorem exists_vacant {table : Table} (h : table.occupied < table.size) :
    ∃ slot, slot < table.size ∧ table[slot]? = some none := by
  have hne : ¬ ∀ content ∈ table, content.isSome := fun hall =>
    Nat.ne_of_lt h (Array.countP_eq_size.mpr hall)
  simp only [Classical.not_forall, Bool.not_eq_true, Option.isSome_eq_false_iff,
    Option.isNone_iff_eq_none] at hne
  obtain ⟨content, hmem, rfl⟩ := hne
  obtain ⟨slot, hslot, hget⟩ := Array.mem_iff_getElem.mp hmem
  exact ⟨slot, hslot, by rw [Array.getElem?_eq_getElem hslot, hget]⟩

/-- From any slot of a table that is not full, one round meets a vacant slot. -/
theorem vacancy_isSome {table : Table} {start : Nat} (h : table.occupied < table.size)
    (hstart : start < table.size) : ∃ slot, table.vacancy table.size start = some slot := by
  obtain ⟨slot, hslot, hvacant⟩ := exists_vacant h
  -- the steps from `start` round to the vacant slot
  apply exists_vacancy hstart (Nat.mod_lt (slot + (table.size - start)) (by omega))
  rw [Nat.add_mod_mod, show start + (slot + (table.size - start)) = slot + table.size by omega,
    Nat.add_mod_right, Nat.mod_eq_of_lt hslot]
  exact hvacant

/-! ## Searching -/

theorem probe_eq_found {table : Table} {ids : Array NodeId} {id : NodeId} {steps start number : Nat}
    (h : table.probe ids id steps start = .found number) : ids[number]? = some id := by
  induction steps generalizing start with
  | zero => simp [probe] at h
  | succ steps ih =>
    unfold probe at h
    split at h
    · simp at h
    · simp at h
    · split at h
      · rename_i hid
        obtain rfl := Probe.found.inj h
        exact hid
      · exact ih h

theorem probe_of_leads {table : Table} {ids : Array NodeId} {id : NodeId}
    {slot walked steps start number : Nat} (hleads : table.Leads slot walked start)
    (hlt : walked < steps) (hslot : table[slot]? = some (some number))
    (hid : ids[number]? = some id) : ∃ found, table.probe ids id steps start = .found found := by
  induction steps generalizing walked start with
  | zero => omega
  | succ steps ih =>
    unfold probe
    -- the search may stop before the walk does, at another copy of the id
    cases walked with
    | zero =>
      obtain rfl : start = slot := hleads
      rw [hslot]
      exact ⟨number, if_pos hid⟩
    | succ walked =>
      obtain ⟨⟨index, hindex⟩, hrest⟩ := hleads
      rw [hindex]
      dsimp only
      split
      · exact ⟨index, rfl⟩
      · exact ih hrest (by omega)

/-- A search for an id that is not there ends where the id would be placed. -/
theorem probe_of_not_mem {table : Table} {ids : Array NodeId} {id : NodeId} {steps start slot : Nat}
    (hid : id ∉ ids) (h : table.vacancy steps start = some slot) :
    table.probe ids id steps start = .vacant slot := by
  induction steps generalizing start with
  | zero => simp [vacancy] at h
  | succ steps ih =>
    unfold vacancy at h
    unfold probe
    split at h
    · simp at h
    · simpa using h
    · rename_i index _
      have hne : ids[index]? ≠ some id := fun hget => hid (Array.mem_of_getElem? hget)
      rw [if_neg hne]
      exact ih h

/-! ## Tables of a list of ids -/

/-- The table holds the position of every id of a list, where a search from the id's home slot meets
it, and nothing else. -/
structure Indexes (table : Table) (placement : Placement) (ids : Array NodeId) : Prop where
  reached : ∀ number id, ids[number]? = some id → ∃ slot walked, walked < table.size ∧
    table.Leads slot walked (table.home placement id) ∧ table[slot]? = some (some number)
  occupied : table.occupied = ids.size

theorem indexes_empty (placement : Placement) (capacity : Nat) :
    (empty capacity).Indexes placement #[] where
  reached := by simp
  occupied := by simp [Table.occupied, empty, Array.countP_replicate]

/-- Occupying a vacant slot vacates no slot. -/
theorem occupied_set {table : Table} {slot number position : Nat}
    (hslot : table[slot]? = some none) (h : table.Occupied position) :
    Occupied (table.setIfInBounds slot (some number)) position := by
  obtain ⟨index, hindex⟩ := h
  have hne : slot ≠ position := by
    rintro rfl
    simp [hslot] at hindex
  exact ⟨index, by rw [Array.getElem?_setIfInBounds_ne hne, hindex]⟩

theorem indexes_place {table : Table} {placement : Placement} {ids : Array NodeId}
    (h : table.Indexes placement ids) (hroom : ids.size < table.size) (id : NodeId) :
    (table.place placement id ids.size).Indexes placement (ids.push id) := by
  have hhome : table.home placement id < table.size := table.home_lt placement id (by omega)
  obtain ⟨slot, hvacancy⟩ := vacancy_isSome (h.occupied ▸ hroom) hhome
  obtain ⟨hslot, walked, hwalked, hleads⟩ := vacancy_eq_some hvacancy
  have hlt : slot < table.size := Array.getElem?_eq_some_iff.mp hslot |>.1
  have hkeep : ∀ position, table.Occupied position →
      Occupied (table.setIfInBounds slot (some ids.size)) position := fun _ => occupied_set hslot
  unfold place
  rw [hvacancy]
  dsimp only
  constructor
  · intro number other hget
    rw [Array.getElem?_push] at hget
    rw [Array.size_setIfInBounds]
    unfold home at hleads ⊢
    rw [Array.size_setIfInBounds]
    split at hget
    -- the new id lies at the end of the walk that found the vacant slot
    · rename_i hnew
      obtain rfl := Option.some.inj hget
      refine ⟨slot, walked, hwalked, hleads.mono (by simp) hkeep, ?_⟩
      rw [Array.getElem?_setIfInBounds_self_of_lt hlt, hnew]
    -- the walk to another id goes through the same slots as before
    · obtain ⟨slot', walked', hwalked', hleads', hslot'⟩ := h.reached number other hget
      have hne : slot ≠ slot' := by
        rintro rfl
        simp [hslot] at hslot'
      refine ⟨slot', walked', hwalked', hleads'.mono (by simp) hkeep, ?_⟩
      rw [Array.getElem?_setIfInBounds_ne hne, hslot']
  · have hvacant : table[slot] = none := by
      rw [Array.getElem?_eq_getElem hlt] at hslot
      exact Option.some.inj hslot
    have hcount := h.occupied
    unfold Table.occupied at hcount ⊢
    rw [Array.setIfInBounds_def, dif_pos hlt, Array.countP_set, hvacant]
    simp [hcount]

theorem indexes_foldl_place {placement : Placement} (rest : List NodeId) {table : Table}
    {ids : Array NodeId} (h : table.Indexes placement ids)
    (hroom : ids.size + rest.length ≤ table.size) :
    ((rest.zipIdx ids.size).foldl
      (fun table entry => table.place placement entry.1 entry.2) table).Indexes placement
        (ids ++ rest) := by
  -- the ids placed so far are the invariant: each step indexes one more
  induction rest generalizing table ids with
  | nil => simpa using h
  | cons id rest ih =>
    rw [List.length_cons] at hroom
    have hstep := indexes_place h (by omega) id
    have := ih hstep (by rw [Array.size_push, size_place]; omega)
    simpa [List.zipIdx_cons, Array.size_push] using this

/-- A rebuilt table holds every id, whatever its capacity was before. -/
theorem indexes_ofIds (placement : Placement) {capacity : Nat} {ids : Array NodeId}
    (hroom : ids.size ≤ capacity) : (ofIds placement capacity ids).Indexes placement ids := by
  have := indexes_foldl_place ids.toList (indexes_empty placement capacity) (by simpa using hroom)
  unfold ofIds
  rw [← Array.foldl_toList, Array.toList_zipIdx]
  simpa using this

theorem size_ofIds (placement : Placement) (capacity : Nat) (ids : Array NodeId) :
    (ofIds placement capacity ids).size = capacity := by
  have hfold (entries : List (NodeId × Nat)) (table : Table) :
      (entries.foldl (fun table entry => table.place placement entry.1 entry.2) table).size =
        table.size := by
    induction entries generalizing table with
    | nil => rfl
    | cons entry entries ih => rw [List.foldl_cons, ih, size_place]
  unfold ofIds
  rw [← Array.foldl_toList, hfold, size_empty]

end Slidewalk.Table
