import Mathlib.Data.List.Induction
import Mathlib.Data.List.Nodup
import Slidewalk.Limits

/-!
# What a segment stands for

A bucket is the list of edges a segment accepted, in that order. What can be read of a segment, and
whether it takes another edge, is determined by the bucket: the numbering of nodes, the packing of
entries and the layout of the pools do not show.
-/

namespace Slidewalk

/-- What an adjacency entry says of its own edge; the time is that of the segment. -/
def Neighbor.link (neighbor : Neighbor) : NodeId × EdgeType := (neighbor.node, neighbor.kind)

/-- First occurrences of the whole are those of the front, then the last item if it is new. -/
theorem eraseDups_concat {α : Type} [DecidableEq α] (front : List α) (last : α) :
    (front ++ [last]).eraseDups =
      if last ∈ front then front.eraseDups else front.eraseDups ++ [last] := by
  rw [List.eraseDups_append, List.removeAll]
  by_cases h : last ∈ front
  · rw [if_pos h, List.filter_eq_nil_iff.mpr (by simpa using h)]
    simp
  · rw [if_neg h, List.filter_eq_self.mpr (by simpa using h)]
    simp [List.eraseDups_cons]

theorem nodup_eraseDups {α : Type} [DecidableEq α] (items : List α) : items.eraseDups.Nodup := by
  induction items using List.reverseRecOn with
  | nil => exact List.nodup_nil
  | append_singleton front last ih =>
    rw [eraseDups_concat]
    split
    · exact ih
    · rename_i hnew
      rw [← List.concat_eq_append]
      exact ih.concat (List.mem_eraseDups.not.mpr hnew)

theorem filter_concat {α : Type} (keeps : α → Bool) (front : List α) (last : α) :
    (front ++ [last]).filter keeps =
      if keeps last then front.filter keeps ++ [last] else front.filter keeps := by
  rw [List.filter_append]
  by_cases h : keeps last
  · rw [if_pos h, List.filter_cons_of_pos h, List.filter_nil]
  · rw [if_neg h, List.filter_cons_of_neg h, List.filter_nil, List.append_nil]

theorem max?_concat (front : List Time) (last : Time) :
    (front ++ [last]).max? = some (front.max?.elim last (max · last)) := by
  cases front with
  | nil => rfl
  | cons first rest =>
    rw [List.cons_append, List.max?_cons', List.max?_cons', List.foldl_concat]
    rfl

abbrev Bucket := List Edge

namespace Bucket

def touching (bucket : Bucket) (side : Side) (node : NodeId) : List Edge :=
  bucket.filter fun edge => edge.endpoint side = node

/-- The distinct nodes on a side, in the order they were first touched. -/
def nodes (bucket : Bucket) (side : Side) : List NodeId :=
  (bucket.map (·.endpoint side)).eraseDups

def oldest (bucket : Bucket) : Option Time := (bucket.map (·.time)).min?

def newest (bucket : Bucket) : Option Time := (bucket.map (·.time)).max?

def timeRange (bucket : Bucket) : Option (Time × Time) :=
  bucket.oldest.bind fun oldest => bucket.newest.map fun newest => (oldest, newest)

/-- One neighbor for each edge that touches the node, engaged at the latest time of the bucket. -/
def neighbors (bucket : Bucket) (node : NodeId) (side : Side) : List Neighbor :=
  (bucket.touching side node).map fun edge => {
    node := edge.endpoint side.opposite
    kind := edge.kind
    engagedAt := bucket.newest.getD .minValue }

def degree (bucket : Bucket) (node : NodeId) (side : Side) : Nat :=
  (bucket.touching side node).length

/-- Whether the node of an edge is one too many on its side. -/
def lacksNode (limits : Limits) (bucket : Bucket) (side : Side) (edge : Edge) : Prop :=
  edge.endpoint side ∉ bucket.nodes side ∧ limits.maxNodesPerSegment ≤ (bucket.nodes side).length

/-- Whether the node of an edge has as many edges as it may. -/
def lacksDegree (limits : Limits) (bucket : Bucket) (side : Side) (edge : Edge) : Prop :=
  limits.maxDegree ≤ bucket.degree (edge.endpoint side) side

instance (limits : Limits) (bucket : Bucket) (side : Side) (edge : Edge) :
    Decidable (bucket.lacksNode limits side edge) :=
  inferInstanceAs (Decidable (_ ∧ _))

instance (limits : Limits) (bucket : Bucket) (side : Side) (edge : Edge) :
    Decidable (bucket.lacksDegree limits side edge) :=
  inferInstanceAs (Decidable (_ ≤ _))

def verdict (limits : Limits) (maxKind : EdgeType) (bucket : Bucket) (edge : Edge) :
    Except Fault Unit :=
  if maxKind < edge.kind then .error (.encoding .edgeType edge.kind.toNat maxKind.toNat)
  else if bucket.lacksNode limits .left edge ∨ bucket.lacksNode limits .right edge then
    .error (.capacity .nodes limits.maxNodesPerSegment)
  else if bucket.lacksDegree limits .left edge ∨ bucket.lacksDegree limits .right edge then
    .error (.capacity .degree limits.maxDegree)
  else .ok ()

/-! ## One more edge -/

variable (bucket : Bucket) (edge : Edge) (side : Side)

theorem touching_append (node : NodeId) :
    touching (bucket ++ [edge]) side node =
      if edge.endpoint side = node then bucket.touching side node ++ [edge]
      else bucket.touching side node := by
  unfold touching
  rw [filter_concat]
  simp only [decide_eq_true_eq]

theorem mem_nodes {bucket : Bucket} {side : Side} {node : NodeId} :
    node ∈ bucket.nodes side ↔ ∃ edge ∈ bucket, edge.endpoint side = node := by
  rw [nodes, List.mem_eraseDups, List.mem_map]

theorem nodes_append :
    nodes (bucket ++ [edge]) side =
      if edge.endpoint side ∈ bucket.nodes side then bucket.nodes side
      else bucket.nodes side ++ [edge.endpoint side] := by
  rw [nodes, List.map_append, List.map_singleton, eraseDups_concat]
  simp only [nodes, List.mem_eraseDups]

/-- Numbers that were given stay. -/
theorem getElem?_nodes_append {number : Nat} {node : NodeId}
    (h : (bucket.nodes side)[number]? = some node) :
    (nodes (bucket ++ [edge]) side)[number]? = some node := by
  have hlt := (List.getElem?_eq_some_iff.mp h).1
  rw [nodes_append]
  split
  · exact h
  · rw [List.getElem?_append_left hlt, h]

theorem length_nodes_le : (bucket.nodes side).length ≤ (nodes (bucket ++ [edge]) side).length := by
  rw [nodes_append]
  split
  · exact Nat.le_refl _
  · rw [List.length_append]
    omega

/-- A node that the added edge does not touch was numbered before. -/
theorem getElem?_nodes_of_ne {edge : Edge} {number : Nat} {node : NodeId}
    (hne : edge.endpoint side ≠ node)
    (h : (nodes (bucket ++ [edge]) side)[number]? = some node) :
    (bucket.nodes side)[number]? = some node := by
  rw [nodes_append] at h
  split at h
  · exact h
  · rw [List.getElem?_append] at h
    split at h
    · exact h
    · have hsame := List.mem_singleton.mp (List.mem_of_getElem? h)
      exact absurd hsame.symm hne

theorem touching_eq_nil {node : NodeId} (h : node ∉ bucket.nodes side) :
    bucket.touching side node = [] := by
  unfold touching
  rw [List.filter_eq_nil_iff]
  intro edge hedge heq
  exact h (mem_nodes.mpr ⟨edge, hedge, of_decide_eq_true heq⟩)

/-- A node is numbered exactly if an edge touches it. -/
theorem degree_pos_iff {node : NodeId} :
    0 < bucket.degree node side ↔ node ∈ bucket.nodes side := by
  rw [mem_nodes, degree, List.length_pos_iff_exists_mem]
  simp [touching]

theorem map_link_neighbors (node : NodeId) :
    (bucket.neighbors node side).map (·.link) =
      (bucket.touching side node).map fun edge => (edge.endpoint side.opposite, edge.kind) := by
  rw [neighbors, List.map_map]
  rfl

theorem oldest_append :
    oldest (bucket ++ [edge]) = some (min (bucket.oldest.getD .maxValue) edge.time) := by
  cases bucket with
  -- the bound that an empty segment starts from
  | nil =>
    have hmin : min Int64.maxValue edge.time = edge.time := by
      show (if Int64.maxValue ≤ edge.time then Int64.maxValue else edge.time) = edge.time
      split
      · rename_i hle
        exact Int64.le_antisymm hle (Int64.le_maxValue _)
      · rfl
    simp [oldest, hmin]
  | cons first rest =>
    rw [oldest, List.map_append, oldest, List.map_cons, List.cons_append, List.min?_cons',
      List.min?_cons', List.foldl_append]
    rfl

theorem newest_append :
    newest (bucket ++ [edge]) = some (max (bucket.newest.getD .minValue) edge.time) := by
  rw [newest, List.map_append, List.map_singleton, max?_concat, ← newest]
  cases bucket.newest with
  | some latest => rfl
  | none =>
    -- the bound that an empty segment starts from
    show _ = some (if Int64.minValue ≤ edge.time then edge.time else Int64.minValue)
    rw [if_pos (Int64.minValue_le _)]
    rfl

/-- The latest time is no earlier than it was, or than that of the last edge. -/
theorem le_newest_append :
    bucket.newest.getD .minValue ≤ (newest (bucket ++ [edge])).getD .minValue ∧
      edge.time ≤ (newest (bucket ++ [edge])).getD .minValue := by
  rw [newest_append, Option.getD_some]
  show _ ≤ (if _ ≤ edge.time then edge.time else _) ∧ _ ≤ (if _ ≤ edge.time then edge.time else _)
  split
  · rename_i hlater
    exact ⟨hlater, Int64.le_refl _⟩
  · rename_i hearlier
    exact ⟨Int64.le_refl _, (Int64.le_total _ _).resolve_left hearlier⟩

theorem timeRange_eq :
    bucket.timeRange = if bucket.length = 0 then none
      else some (bucket.oldest.getD .maxValue, bucket.newest.getD .minValue) := by
  cases bucket with
  | nil => rfl
  | cons first rest => rfl

end Bucket

end Slidewalk
