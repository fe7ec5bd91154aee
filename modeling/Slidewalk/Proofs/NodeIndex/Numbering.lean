import Mathlib.Data.List.Nodup
import Slidewalk.NodeIndex
import Slidewalk.Proofs.NodeIndex.Probing

/-!
# Ids are numbered in first-seen order

`Sound` is what every operation of an index keeps: no id is numbered twice, the table holds every
number where a search finds it, and at most half of it is used. Under it a lookup is the position in
`ids`, wherever the placement sends the ids and however often the table has grown.
-/

namespace Slidewalk.NodeIndex

structure Sound (index : NodeIndex) : Prop where
  nodup : index.ids.toList.Nodup
  size_le : index.ids.size ≤ index.maxNodes
  bounded : index.maxNodes ≤ maxBound
  indexed : index.table.Indexes index.placement index.ids
  half : 2 * index.ids.size ≤ index.table.size
  table_pos : 0 < index.table.size

theorem withPlacement_sound {placement : Placement} {initial maxNodes : Nat} {index : NodeIndex}
    (h : withPlacement placement initial maxNodes = .ok index) :
    index.Sound ∧ index.ids = #[] ∧ index.maxNodes = maxNodes := by
  unfold withPlacement at h
  split at h
  · simp at h
  · rename_i hbound
    obtain rfl := Except.ok.inj h
    refine ⟨⟨by simp, by simp, Nat.le_of_not_lt fun hlt => hbound (.inr hlt),
      Table.indexes_empty placement _, by simp, ?_⟩, rfl, rfl⟩
    show 0 < (Table.sized (2 * min initial maxNodes)).size
    simp only [Table.sized, Table.size_empty, Table.minCapacity]
    omega

/-- Numbers and their count fit in 32 bits. -/
theorem Sound.size_lt {index : NodeIndex} (h : index.Sound) : index.size < UInt32.size :=
  Nat.lt_of_le_of_lt (Nat.le_trans h.size_le h.bounded) (by decide)

/-! ## Lookups -/

theorem ids_inj {index : NodeIndex} (h : index.Sound) {a b : Nat} {id : NodeId}
    (ha : index.ids[a]? = some id) (hb : index.ids[b]? = some id) : a = b := by
  rw [← Array.getElem?_toList] at ha hb
  exact (List.getElem?_inj (List.getElem?_eq_some_iff.mp ha).1 h.nodup).mp (ha.trans hb.symm)

theorem lookup_eq_some_iff {index : NodeIndex} (h : index.Sound) {id : NodeId} {number : Nat} :
    index.lookup id = some number ↔ index.ids[number]? = some id := by
  unfold lookup probe
  constructor
  · intro hlookup
    cases hprobe : index.table.probe index.ids id index.table.size
        (index.table.home index.placement id) with
    | found found =>
      rw [hprobe] at hlookup
      obtain rfl : found = number := Option.some.inj hlookup
      exact Table.probe_eq_found hprobe
    | vacant slot => simp [hprobe, Probe.index?] at hlookup
    | exhausted => simp [hprobe, Probe.index?] at hlookup
  · intro hid
    obtain ⟨slot, walked, hwalked, hleads, hslot⟩ := h.indexed.reached number id hid
    -- what is found first need not be the number looked for, but no id has two
    obtain ⟨found, hfound⟩ := Table.probe_of_leads hleads hwalked hslot hid
    rw [hfound, ids_inj h (Table.probe_eq_found hfound) hid]
    rfl

theorem lookup_eq_none_iff {index : NodeIndex} (h : index.Sound) {id : NodeId} :
    index.lookup id = none ↔ id ∉ index.ids := by
  constructor
  · intro hnone hmem
    obtain ⟨number, hnumber⟩ := Array.mem_iff_getElem?.mp hmem
    rw [(lookup_eq_some_iff h).mpr hnumber] at hnone
    simp at hnone
  · intro hid
    cases hlookup : index.lookup id with
    | none => rfl
    | some number =>
      exact absurd (Array.mem_of_getElem? ((lookup_eq_some_iff h).mp hlookup)) hid

/-- The search for an unknown id ends at the slot it would be placed in. -/
theorem probe_of_unknown {index : NodeIndex} (h : index.Sound) {id : NodeId}
    (hid : id ∉ index.ids) :
    ∃ slot, index.probe id = .vacant slot ∧
      index.table.vacancy index.table.size (index.table.home index.placement id) = some slot := by
  have hfree : index.table.occupied < index.table.size := by
    have := h.half
    have := h.table_pos
    rw [h.indexed.occupied]
    omega
  obtain ⟨slot, hslot⟩ :=
    Table.vacancy_isSome hfree (index.table.home_lt index.placement id h.table_pos)
  exact ⟨slot, Table.probe_of_not_mem hid hslot, hslot⟩

/-! ## Numbering a new id -/

theorem intern_of_known {index : NodeIndex} (h : index.Sound) {id : NodeId} {number : Nat}
    (hid : index.ids[number]? = some id) : index.intern id = (index, .ok number) := by
  have hlookup := (lookup_eq_some_iff h).mpr hid
  unfold lookup at hlookup
  unfold intern
  cases hprobe : index.probe id with
  | found found =>
    rw [hprobe] at hlookup
    obtain rfl : found = number := Option.some.inj hlookup
    rfl
  | vacant slot => simp [hprobe, Probe.index?] at hlookup
  | exhausted => simp [hprobe, Probe.index?] at hlookup

theorem intern_of_full {index : NodeIndex} (h : index.Sound) {id : NodeId} (hid : id ∉ index.ids)
    (hfull : index.maxNodes ≤ index.ids.size) :
    index.intern id = (index, .error (.capacity .nodes index.maxNodes)) := by
  obtain ⟨slot, hprobe, -⟩ := probe_of_unknown h hid
  unfold intern
  rw [hprobe]
  dsimp only
  rw [if_neg (by omega)]

theorem table_append {index : NodeIndex} {id : NodeId} {slot : Nat}
    (hslot : index.table.vacancy index.table.size (index.table.home index.placement id) =
      some slot) :
    (index.append id (some slot)).table =
      if index.table.size < 2 * (index.ids.size + 1) then
        .ofIds index.placement (2 * index.table.size) (index.ids.push id)
      else index.table.place index.placement id index.ids.size := by
  unfold append Table.place
  dsimp only
  rw [hslot]
  split <;> rfl

@[simp] theorem placement_append (index : NodeIndex) (id : NodeId) (slot : Option Nat) :
    (index.append id slot).placement = index.placement := by
  unfold append
  cases slot
  · rfl
  · dsimp only
    split <;> rfl

theorem append_sound {index : NodeIndex} (h : index.Sound) {id : NodeId} {slot : Nat}
    (hid : id ∉ index.ids) (hroom : index.ids.size < index.maxNodes)
    (hslot : index.table.vacancy index.table.size (index.table.home index.placement id) =
      some slot) : (index.append id (some slot)).Sound := by
  have hhalf := h.half
  have hpos := h.table_pos
  have htable := table_append hslot
  constructor
  · rw [ids_append, Array.toList_push]
    exact List.nodup_append.mpr ⟨h.nodup, List.nodup_singleton _, by
      rintro a ha b hb rfl
      exact hid (Array.mem_def.mpr (List.mem_singleton.mp hb ▸ ha))⟩
  · rw [ids_append, maxNodes_append, Array.size_push]
    omega
  · rw [maxNodes_append]
    exact h.bounded
  · rw [htable, ids_append, placement_append]
    -- a table that would be more than half full is rebuilt at twice the size
    split
    · exact Table.indexes_ofIds _ (by rw [Array.size_push]; omega)
    · exact Table.indexes_place h.indexed (by omega) id
  · rw [htable, ids_append, Array.size_push]
    split
    · rw [Table.size_ofIds]
      omega
    · rw [Table.size_place]
      omega
  · rw [htable]
    split
    · rw [Table.size_ofIds]
      omega
    · rw [Table.size_place]
      omega

/-- A new id is appended at the vacant slot that the search for it ends at. -/
theorem intern_eq_append {index : NodeIndex} (h : index.Sound) {id : NodeId} (hid : id ∉ index.ids)
    (hroom : index.ids.size < index.maxNodes) :
    ∃ slot, index.table.vacancy index.table.size (index.table.home index.placement id) =
        some slot ∧
      index.intern id = (index.append id (some slot), .ok index.ids.size) := by
  obtain ⟨slot, hprobe, hslot⟩ := probe_of_unknown h hid
  refine ⟨slot, hslot, ?_⟩
  unfold intern
  rw [hprobe]
  dsimp only
  rw [if_pos hroom]

theorem intern_of_new {index : NodeIndex} (h : index.Sound) {id : NodeId} (hid : id ∉ index.ids)
    (hroom : index.ids.size < index.maxNodes) :
    ∃ grown, index.intern id = (grown, .ok index.ids.size) ∧ grown.Sound ∧
      grown.ids = index.ids.push id ∧ grown.maxNodes = index.maxNodes := by
  obtain ⟨slot, hslot, hintern⟩ := intern_eq_append h hid hroom
  exact ⟨index.append id (some slot), hintern, append_sound h hid hroom hslot, ids_append ..,
    by simp⟩

end Slidewalk.NodeIndex
