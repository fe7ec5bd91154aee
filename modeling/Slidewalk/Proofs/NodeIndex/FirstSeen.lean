import Mathlib.Data.List.Induction
import Slidewalk.Proofs.Bucket
import Slidewalk.Proofs.NodeIndex.Numbering

/-!
# An index is a bounded bijection

The ids that an index was given and took, each at its first appearance, are a list that determines
all it answers: the number of an id is its place there. The list only grows at its end, so no number
changes when the table is rebuilt, and none depends on where the placement sends the ids.
-/

namespace Slidewalk.NodeIndex

/-- The id of a call that succeeded. -/
def taken (id : NodeId) : Except Fault Nat → List NodeId
  | .ok _ => [id]
  | .error _ => []

/-- The ids whose calls succeed when those of a list are interned one after the other. -/
def accepted (index : NodeIndex) : List NodeId → List NodeId
  | [] => []
  | id :: rest => taken id (index.intern id).2 ++ (index.intern id).1.accepted rest

/-- The distinct ids of the calls that succeed, in the order they first appear. -/
def seen (index : NodeIndex) (ids : List NodeId) : List NodeId := (index.accepted ids).eraseDups

/-- The ids of an index are those of a list, in that order. -/
structure Knows (maxNodes : Nat) (known : List NodeId) (index : NodeIndex) : Prop where
  sound : index.Sound
  ids : index.ids.toList = known
  maxNodes : index.maxNodes = maxNodes

/-- An index that numbers the ids of a list by their places, and would number more of them as long
as there is room. -/
structure Bijects (maxNodes : Nat) (known : List NodeId) (index : NodeIndex) : Prop where
  nodup : known.Nodup
  length_le : known.length ≤ maxNodes
  size : index.size = known.length
  lookup : ∀ id number, index.lookup id = some number ↔ known[number]? = some id
  external : ∀ number, index.external number = known[number]?
  accepts : ∀ id, index.accepts id = true ↔ ∃ number, (index.intern id).2 = .ok number
  old : ∀ id number, known[number]? = some id → index.intern id = (index, .ok number)
  new : ∀ id, id ∉ known → known.length < maxNodes → (index.intern id).2 = .ok known.length
  full : ∀ id, id ∉ known → maxNodes ≤ known.length →
    index.intern id = (index, .error (.capacity .nodes maxNodes))

variable {placement : Placement} {initial maxNodes : Nat} {index : NodeIndex}
  {known : List NodeId}

/-! ## One call -/

namespace Knows

theorem size (h : index.Knows maxNodes known) : index.ids.size = known.length := by
  rw [← h.ids, Array.length_toList]

theorem mem_ids (h : index.Knows maxNodes known) {id : NodeId} : id ∈ index.ids ↔ id ∈ known := by
  rw [← h.ids, Array.mem_toList_iff]

theorem getElem?_ids (h : index.Knows maxNodes known) (number : Nat) :
    index.ids[number]? = known[number]? := by
  rw [← h.ids, Array.getElem?_toList]

/-- A known id keeps its number, a new one gets the next if there is one, and is refused if not. -/
theorem intern_cases (h : index.Knows maxNodes known) (id : NodeId) :
    (∃ number, known[number]? = some id ∧ index.intern id = (index, .ok number)) ∨
    (id ∉ known ∧ known.length < maxNodes ∧
      ∃ grown, index.intern id = (grown, .ok known.length) ∧ grown.Knows maxNodes (known ++ [id])) ∨
    (id ∉ known ∧ maxNodes ≤ known.length ∧
      index.intern id = (index, .error (.capacity .nodes maxNodes))) := by
  by_cases hid : id ∈ known
  · obtain ⟨number, hnumber⟩ := List.mem_iff_getElem?.mp hid
    rw [← h.getElem?_ids] at hnumber
    exact .inl ⟨number, h.getElem?_ids number ▸ hnumber, intern_of_known h.sound hnumber⟩
  have hnew : id ∉ index.ids := mt h.mem_ids.mp hid
  by_cases hroom : known.length < maxNodes
  · obtain ⟨grown, hintern, hsound, hids, hmax⟩ := intern_of_new h.sound hnew
      (by rw [h.size, h.maxNodes]; exact hroom)
    rw [h.size] at hintern
    refine .inr (.inl ⟨hid, hroom, grown, hintern, hsound, ?_, hmax.trans h.maxNodes⟩)
    rw [hids, Array.toList_push, h.ids]
  · have hfull := intern_of_full h.sound hnew (by rw [h.size, h.maxNodes]; omega)
    rw [h.maxNodes] at hfull
    exact .inr (.inr ⟨hid, Nat.le_of_not_lt hroom, hfull⟩)

theorem accepts_iff (h : index.Knows maxNodes known) (id : NodeId) :
    index.accepts id = true ↔ id ∈ known ∨ known.length < maxNodes := by
  unfold accepts
  rw [Bool.or_eq_true, decide_eq_true_eq, h.size, h.maxNodes, ← Option.not_isNone,
    Bool.not_eq_true', ← Bool.not_eq_true, Option.isNone_iff_eq_none, lookup_eq_none_iff h.sound,
    h.mem_ids, not_not, Or.comm]

theorem bijects (h : index.Knows maxNodes known) : index.Bijects maxNodes known where
  nodup := h.ids ▸ h.sound.nodup
  length_le := by
    rw [← h.size, ← h.maxNodes]
    exact h.sound.size_le
  size := h.size
  lookup := by
    intro id number
    rw [lookup_eq_some_iff h.sound, h.getElem?_ids]
  external := h.getElem?_ids
  accepts := by
    intro id
    rw [h.accepts_iff]
    obtain ⟨number, hnumber, hintern⟩ | ⟨-, hroom, grown, hintern, -⟩ | ⟨hid, hfull, hintern⟩ :=
      h.intern_cases id
    · exact ⟨fun _ => ⟨number, by rw [hintern]⟩, fun _ => .inl (List.mem_of_getElem? hnumber)⟩
    · exact ⟨fun _ => ⟨known.length, by rw [hintern]⟩, fun _ => .inr hroom⟩
    · rw [hintern]
      constructor
      · rintro (hmem | hroom)
        · exact absurd hmem hid
        · omega
      · rintro ⟨number, hok⟩
        contradiction
  old := by
    intro id number hnumber
    exact intern_of_known h.sound ((h.getElem?_ids number).trans hnumber)
  new := by
    intro id hid hroom
    obtain ⟨number, hnumber, -⟩ | ⟨-, -, grown, hintern, -⟩ | ⟨-, hfull, -⟩ := h.intern_cases id
    · exact absurd (List.mem_of_getElem? hnumber) hid
    · rw [hintern]
    · omega
  full := by
    intro id hid hfull
    obtain ⟨number, hnumber, -⟩ | ⟨-, hroom, -⟩ | ⟨-, -, hintern⟩ := h.intern_cases id
    · exact absurd (List.mem_of_getElem? hnumber) hid
    · omega
    · exact hintern

end Knows

/-! ## Every run -/

theorem internAll_concat (index : NodeIndex) (ids : List NodeId) (id : NodeId) :
    index.internAll (ids ++ [id]) = ((index.internAll ids).intern id).1 :=
  List.foldl_concat ..

theorem accepted_concat (index : NodeIndex) (ids : List NodeId) (id : NodeId) :
    index.accepted (ids ++ [id]) =
      index.accepted ids ++ taken id ((index.internAll ids).intern id).2 := by
  induction ids generalizing index with
  | nil => exact List.append_nil _
  | cons first rest ih =>
    rw [List.cons_append, accepted, ih, ← List.append_assoc]
    rfl

/-- One more call that succeeds adds its id, unless that is there already. -/
theorem seen_concat (index : NodeIndex) (ids : List NodeId) (id : NodeId) :
    index.seen (ids ++ [id]) = match ((index.internAll ids).intern id).2 with
      | .ok _ => if id ∈ index.seen ids then index.seen ids else index.seen ids ++ [id]
      | .error _ => index.seen ids := by
  unfold seen
  rw [accepted_concat]
  cases ((index.internAll ids).intern id).2 with
  | ok number =>
    dsimp only [taken]
    rw [eraseDups_concat]
    simp only [List.mem_eraseDups]
  | error fault =>
    dsimp only [taken]
    rw [List.append_nil]

/-- What a run numbers is the list of the distinct ids that it takes. -/
theorem run_knows (hcreate : withPlacement placement initial maxNodes = .ok index)
    (ids : List NodeId) : (index.internAll ids).Knows maxNodes (index.seen ids) := by
  -- on the last call: what it answers says whether its id ends the list
  induction ids using List.reverseRecOn with
  | nil =>
    obtain ⟨hsound, hids, hmax⟩ := withPlacement_sound hcreate
    refine ⟨hsound, ?_, hmax⟩
    show index.ids.toList = []
    rw [hids]
  | append_singleton ids id ih =>
    rw [internAll_concat, seen_concat]
    obtain ⟨number, hnumber, hintern⟩ | ⟨hid, -, grown, hintern, hgrown⟩ | ⟨-, -, hintern⟩ :=
      ih.intern_cases id
    · rw [hintern]
      dsimp only
      rw [if_pos (List.mem_of_getElem? hnumber)]
      exact ih
    · rw [hintern]
      dsimp only
      rw [if_neg hid]
      exact hgrown
    · rw [hintern]
      exact ih

/-- An id joins the list at its end if it is new and there is room. -/
theorem seen_concat_eq (hcreate : withPlacement placement initial maxNodes = .ok index)
    (ids : List NodeId) (id : NodeId) :
    index.seen (ids ++ [id]) =
      if id ∈ index.seen ids ∨ maxNodes ≤ (index.seen ids).length then index.seen ids
      else index.seen ids ++ [id] := by
  rw [seen_concat]
  obtain ⟨number, hnumber, hintern⟩ | ⟨hid, hroom, grown, hintern, -⟩ | ⟨-, hfull, hintern⟩ :=
    (run_knows hcreate ids).intern_cases id
  · have hid := List.mem_of_getElem? hnumber
    rw [hintern]
    dsimp only
    rw [if_pos hid, if_pos (.inl hid)]
  · rw [hintern]
    dsimp only
    rw [if_neg hid, if_neg (not_or.mpr ⟨hid, Nat.not_le.mpr hroom⟩)]
  · rw [hintern]
    dsimp only
    rw [if_pos (.inr hfull)]

theorem seen_isPrefix (hcreate : withPlacement placement initial maxNodes = .ok index)
    (ids later : List NodeId) : index.seen ids <+: index.seen (ids ++ later) := by
  induction later using List.reverseRecOn with
  | nil => simp only [List.append_nil, List.prefix_rfl]
  | append_singleton later id ih =>
    rw [← List.append_assoc, seen_concat_eq hcreate]
    split
    · exact ih
    · exact ih.trans (List.prefix_append _ _)

/-- Whatever the placement, after every run the ids that were taken are numbered by the order of
their first appearance, a further id takes the next number while there is one, and no number is
ever given up. -/
theorem numbers_follow_first_appearance
    (hcreate : withPlacement placement initial maxNodes = .ok index) (ids : List NodeId) :
    (index.internAll ids).Bijects maxNodes (index.seen ids) ∧
      (∀ id, index.seen (ids ++ [id]) =
        if id ∈ index.seen ids ∨ maxNodes ≤ (index.seen ids).length then index.seen ids
        else index.seen ids ++ [id]) ∧
      ∀ later, index.seen ids <+: index.seen (ids ++ later) :=
  ⟨(run_knows hcreate ids).bijects, seen_concat_eq hcreate ids, seen_isPrefix hcreate ids⟩

/-- Every id goes home to the last of the 16 slots. -/
def colliding : NodeIndex where
  maxNodes := 10
  placement := fun _ _ => 15
  table := Table.sized 2
  ids := #[]
  growths := 0

theorem create_colliding : withPlacement (fun _ _ => 15) 1 10 = .ok colliding := rfl

/-- Ten ids that fill the index, one of them twice, and one that is refused. -/
def fillColliding : List NodeId := [70, 30, 70, 90, 10, 20, 50, 80, 60, 40, 11, 99]

/-- The ninth id makes the table grow, and all of them keep their numbers. -/
theorem colliding_numbers_follow_first_appearance :
    (colliding.internAll fillColliding).growths = 1 ∧
      (colliding.internAll fillColliding).Bijects 10 [70, 30, 90, 10, 20, 50, 80, 60, 40, 11] := by
  have hseen : colliding.seen fillColliding = [70, 30, 90, 10, 20, 50, 80, 60, 40, 11] := rfl
  obtain ⟨hbijects, -⟩ := numbers_follow_first_appearance create_colliding fillColliding
  rw [hseen] at hbijects
  exact ⟨rfl, hbijects⟩

end Slidewalk.NodeIndex
