import Slidewalk.Proofs.HeldEdges

/-!
# Readings since a point in time

A reading since a point in time skips the segments whose newest edge is earlier. An entry bears the
time of the newest edge in its segment, so the entries that are left are those of a full reading
that bear the point in time or a later one. An edge is no newer than the newest of its segment, so
no edge of that time or later is missed.
-/

namespace Slidewalk

namespace Bucket

variable {bucket : Bucket} {edge : Edge} {time : Time}

/-- The edges at or after a point in time. -/
def since (bucket : Bucket) (time : Time) : Bucket := bucket.filter (time ≤ ·.time)

theorem time_le_newest (h : edge ∈ bucket) : edge.time ≤ bucket.newest.getD .minValue := by
  obtain ⟨front, back, rfl⟩ := List.append_of_mem h
  have hlater := newest_le_append (front ++ [edge]) back
  rw [List.append_assoc, List.singleton_append] at hlater
  exact Int64.le_trans (le_newest_append front edge).2 hlater

theorem reaches_timeRange (h : edge ∈ bucket) (time : Time) :
    Ledger.reaches time bucket.timeRange = decide (time ≤ bucket.newest.getD .minValue) := by
  have hlength : bucket.length ≠ 0 := Nat.ne_of_gt (List.length_pos_of_mem h)
  rw [timeRange_eq, if_neg hlength]
  rfl

/-- The entries of a segment bear one time, that of its newest edge. -/
theorem filter_neighbors (bucket : Bucket) (node : NodeId) (side : Side) (time : Time) :
    (bucket.neighbors node side).filter (time ≤ ·.engagedAt) =
      if Ledger.reaches time bucket.timeRange then bucket.neighbors node side else [] := by
  have hbears : ∀ neighbor ∈ bucket.neighbors node side,
      decide (time ≤ neighbor.engagedAt) = Ledger.reaches time bucket.timeRange := by
    intro neighbor hneighbor
    obtain ⟨edge, hedge, rfl⟩ := List.mem_map.mp hneighbor
    rw [reaches_timeRange (List.mem_of_mem_filter hedge)]
  rw [List.filter_congr hbears]
  cases Ledger.reaches time bucket.timeRange with
  | true => exact List.filter_true _
  | false => exact List.filter_false _

theorem since_sublist (bucket : Bucket) (time : Time) : (bucket.since time).Sublist bucket :=
  List.filter_sublist

/-- If the segment is too old, so is every edge in it. -/
theorem since_eq_nil (h : Ledger.reaches time bucket.timeRange = false) :
    bucket.since time = [] := by
  refine List.filter_eq_nil_iff.mpr fun edge hedge hrecent => ?_
  rw [reaches_timeRange hedge] at h
  have hnewest := Int64.le_trans (of_decide_eq_true hrecent) (time_le_newest hedge)
  exact of_decide_eq_false h hnewest

/-- The entry of a recent edge is recent. -/
theorem links_since_sublist (bucket : Bucket) (node : NodeId) (side : Side) (time : Time) :
    (((bucket.since time).neighbors node side).map (·.link)).Sublist
      (((bucket.neighbors node side).filter (time ≤ ·.engagedAt)).map (·.link)) := by
  rw [filter_neighbors]
  cases hreaches : Ledger.reaches time bucket.timeRange with
  | true =>
    rw [if_pos rfl, map_link_neighbors, map_link_neighbors]
    exact ((bucket.since_sublist time).filter _).map _
  | false =>
    rw [since_eq_nil hreaches]
    exact List.nil_sublist _

end Bucket

/-! ## Readings of a view -/

namespace View

variable {view : View} {buckets : List Bucket}

/-- What loading the neighbors since a point in time comes to in a view of the given edges. -/
structure SkipsTo (view : View) (edges : List Edge) (node : NodeId) (side : Side) (time : Time) :
    Prop where
  /-- The entries at or after that time of those that are loaded in full. -/
  filters : ∀ cursor whole, (view.loadSince node side time cursor).neighbors.toList =
    (view.load node side whole).neighbors.toList.filter (time ≤ ·.engagedAt)
  rewinds : ∀ cursor, (view.loadSince node side time cursor).position = 0 ∧
    (view.loadSince node side time cursor).side = some side
  /-- No edge at or after that time is missed. -/
  covers : ∀ cursor, (((Bucket.since edges time).neighbors node side).map (·.link)).Sublist
    ((view.loadSince node side time cursor).neighbors.toList.map (·.link))
  shrinks : ∀ cursor later again, time ≤ later →
    (view.loadSince node side later again).neighbors.toList.Sublist
      (view.loadSince node side time cursor).neighbors.toList

theorem neighborsSince_cons (segment : Segment) (rest : List Segment) (node : NodeId) (side : Side)
    (time : Time) :
    View.neighborsSince ⟨segment :: rest⟩ node side time =
      (if Ledger.reaches time segment.timeRange then segment.neighbors node side else []) ++
        View.neighborsSince ⟨rest⟩ node side time := by
  show ((segment :: rest).filter fun segment =>
    Ledger.reaches time segment.timeRange).flatMap (·.neighbors node side) = _
  rw [List.filter_cons]
  split
  · rfl
  · rfl

theorem neighborsSince_eq_filter (h : List.Forall₂ Segment.Reads view.segments buckets)
    (node : NodeId) (side : Side) (time : Time) :
    view.neighborsSince node side time =
      (view.neighbors node side).filter (time ≤ ·.engagedAt) := by
  obtain ⟨segments⟩ := view
  change List.Forall₂ Segment.Reads segments buckets at h
  induction h with
  | nil => rfl
  | @cons segment bucket rest _ hreads _ ih =>
    have hfirst : (segment.neighbors node side).filter (time ≤ ·.engagedAt) =
        if Ledger.reaches time segment.timeRange then segment.neighbors node side else [] := by
      rw [hreads.neighbors, hreads.timeRange, Bucket.filter_neighbors]
    rw [neighborsSince_cons, ih, ← hfirst]
    exact (List.filter_append ..).symm

end View

/-- Readings do not cross segments, so neither do the edges they miss. -/
theorem links_since_flatten_sublist (buckets : List Bucket) (node : NodeId) (side : Side)
    (time : Time) :
    (((Bucket.since buckets.flatten time).neighbors node side).map (·.link)).Sublist
      (((buckets.flatMap (·.neighbors node side)).filter (time ≤ ·.engagedAt)).map (·.link)) := by
  induction buckets with
  | nil => exact List.nil_sublist _
  | cons bucket rest ih =>
    have hfirst := bucket.links_since_sublist node side time
    rw [Bucket.map_link_neighbors] at ih hfirst ⊢
    simp only [List.flatten_cons, Bucket.since, Bucket.touching, List.filter_append,
      List.map_append, List.flatMap_cons] at ih hfirst ⊢
    exact hfirst.append ih

namespace Graph

variable {options : Options} {codec : EdgeCodec} {graph : Graph}

/-- Whatever happened before the snapshot was taken, and since then, a reading since a point in time
is a full reading filtered by what its entries bear. -/
theorem held_snapshot_skips (hcreate : Graph.create options = .ok graph)
    (hcodec : options.resolveCodec = .ok codec) (hround : codec.RoundTrips)
    (before meanwhile : List Operation) (node : NodeId) (side : Side) (time : Time) :
    (graph.heldView before meanwhile).SkipsTo (graph.heldBuckets before meanwhile).flatten
      node side time := by
  have hneighbors := heldView_neighbors hcreate hcodec hround before meanwhile node side
  have hsince (time : Time) := View.neighborsSince_eq_filter
    (heldView_reads hcreate hcodec hround before meanwhile) node side time
  have hloads (time : Time) (cursor : Cursor) :
      ((graph.heldView before meanwhile).loadSince node side time cursor).neighbors.toList =
        ((graph.heldView before meanwhile).neighbors node side).filter (time ≤ ·.engagedAt) := by
    rw [View.loadSince, Cursor.toList_load, hsince]
  refine ⟨fun cursor whole => ?_, fun cursor => ⟨rfl, rfl⟩, fun cursor => ?_,
    fun cursor later again hlater => ?_⟩
  · rw [hloads, View.load, Cursor.toList_load]
  · rw [hloads, hneighbors]
    exact links_since_flatten_sublist _ node side time
  · rw [hloads, hloads]
    refine List.monotone_filter_right _ fun neighbor hrecent => ?_
    exact decide_eq_true (Int64.le_trans hlater (of_decide_eq_true hrecent))

/-- The older segment was repacked when it was full, and has an edge of time 9. The newer one has
edges of times 4 and 6, and is skipped. -/
theorem sample_held_snapshot_skips :
    ((sample .powerLaw true).heldView
      [.add ⟨1, 2, 0, 5⟩, .add ⟨1, 3, 1, 9⟩, .add ⟨1, 2, 0, 4⟩] [.add ⟨1, 3, 1, 6⟩]).SkipsTo
      ((sample .powerLaw true).heldBuckets
        [.add ⟨1, 2, 0, 5⟩, .add ⟨1, 3, 1, 9⟩, .add ⟨1, 2, 0, 4⟩] [.add ⟨1, 3, 1, 6⟩]).flatten
      1 .left 8 :=
  held_snapshot_skips (create_sample .powerLaw true) (Options.resolveCodec_sample .powerLaw true)
    BitMask.sample.toCodec_roundTrips _ _ 1 .left 8

end Graph

end Slidewalk
