import Slidewalk.Proofs.HeldSnapshot
import Slidewalk.Proofs.Totals

/-!
# The edges of a held snapshot

A snapshot lists segments, and a segment holds the edges that the graph put into it. So the reads of
a held snapshot come from those edges, and each edge is read from both of its ends.
-/

namespace Slidewalk

/-- Every neighbor has the node as a neighbor in turn. -/
def Salsa.Adjacency.Mutual (adjacency : Salsa.Adjacency) : Prop :=
  ∀ node side, ∀ neighbor ∈ adjacency.neighbors node side,
    ∃ back ∈ adjacency.neighbors neighbor.node side.opposite, back.node = node

/-- The edges that a run put into the segments of a snapshot, segment by segment, where the snapshot
was taken after the first operations. -/
def Graph.heldBuckets (graph : Graph) (before meanwhile : List Operation) : List Bucket :=
  (graph.run before).1.snapshot.versions.map fun version =>
    graph.acceptedInto version.segment (before ++ meanwhile)

namespace Bucket

variable {bucket : Bucket} {node : NodeId} {side : Side}

theorem exists_edge_of_mem_neighbors {neighbor : Neighbor}
    (h : neighbor ∈ bucket.neighbors node side) :
    ∃ edge ∈ bucket, edge.endpoint side = node ∧ edge.endpoint side.opposite = neighbor.node ∧
      edge.kind = neighbor.kind := by
  obtain ⟨edge, hedge, rfl⟩ := List.mem_map.mp h
  obtain ⟨hmem, htouches⟩ := List.mem_filter.mp hedge
  exact ⟨edge, hmem, of_decide_eq_true htouches, rfl, rfl⟩

theorem exists_neighbor_of_mem {edge : Edge} (h : edge ∈ bucket) (side : Side) :
    ∃ neighbor ∈ bucket.neighbors (edge.endpoint side) side,
      neighbor.node = edge.endpoint side.opposite :=
  ⟨_, List.mem_map_of_mem (List.mem_filter.mpr ⟨h, decide_eq_true rfl⟩), rfl⟩

end Bucket

namespace Graph

variable {options : Options} {codec : EdgeCodec} {graph : Graph}

variable (hcreate : Graph.create options = .ok graph)
  (hcodec : options.resolveCodec = .ok codec) (hround : codec.RoundTrips)
  (before meanwhile : List Operation)

include hcreate hcodec hround

/-- The segments of a held snapshot show the edges that the run put into them. -/
theorem heldView_reads : List.Forall₂ Segment.Reads (graph.heldView before meanwhile).segments
    (graph.heldBuckets before meanwhile) := by
  unfold heldView heldBuckets
  rw [run_append, List.forall₂_map_right_iff]
  by_cases hsegment : ∃ segment, Segment.create 0 options = .ok segment
  · obtain ⟨hworks, hfollows⟩ := create_follows hcreate hcodec hround hsegment
    obtain ⟨hopens, horderly⟩ := create_orderly hcreate hsegment
    obtain ⟨htaken, -⟩ := horderly.run hopens before
    obtain ⟨-, hmeanwhile⟩ := htaken.run hopens meanwhile
    obtain ⟨final, hfinal, hbucket⟩ := hfollows.run_bucket hworks (before ++ meanwhile)
    rw [run_append] at hfinal
    refine (hfinal.viewOf (hmeanwhile.holds htaken.holds)).imp fun segment version hshows => ?_
    -- a new graph has no buckets, so the bucket is what the run put into the segment
    have hempty : Ledger.empty.bucket version.segment = [] := rfl
    have hreads := hshows.2
    rw [hbucket, hempty, List.nil_append] at hreads
    exact hreads
  · unfold viewOf snapshot
    rw [(run_barren hcreate hsegment before).window]
    exact .nil

theorem heldView_neighbors (node : NodeId) (side : Side) :
    (graph.heldView before meanwhile).neighbors node side =
      (graph.heldBuckets before meanwhile).flatMap (·.neighbors node side) := by
  rw [View.neighbors, List.flatMap_def, List.flatMap_def]
  refine congrArg List.flatten (map_eq_map_of_forall₂ ?_)
  exact (heldView_reads hcreate hcodec hround before meanwhile).imp fun _ _ hreads =>
    hreads.neighbors node side

/-- A degree is a number of neighbors. -/
theorem heldView_degree (node : NodeId) (side : Side) :
    (graph.heldView before meanwhile).degree node side =
      ((graph.heldView before meanwhile).neighbors node side).length := by
  have hsame : total (·.degree node side) (graph.heldView before meanwhile).segments =
      total (fun bucket => (bucket.neighbors node side).length)
        (graph.heldBuckets before meanwhile) := by
    apply total_eq_total_of_forall₂
    exact (heldView_reads hcreate hcodec hround before meanwhile).imp fun _ _ hreads =>
      hreads.degree node side
  rw [heldView_neighbors hcreate hcodec hround, List.length_flatMap, ← total_eq_sum]
  exact hsame

/-- What is read of a node goes back to an edge. -/
theorem exists_edge_of_heldView {node : NodeId} {side : Side} {neighbor : Neighbor}
    (h : neighbor ∈ (graph.heldView before meanwhile).neighbors node side) :
    ∃ bucket ∈ graph.heldBuckets before meanwhile, ∃ edge ∈ bucket, edge.endpoint side = node ∧
      edge.endpoint side.opposite = neighbor.node ∧ edge.kind = neighbor.kind := by
  rw [heldView_neighbors hcreate hcodec hround] at h
  obtain ⟨bucket, hbucket, hneighbor⟩ := List.mem_flatMap.mp h
  exact ⟨bucket, hbucket, Bucket.exists_edge_of_mem_neighbors hneighbor⟩

theorem heldView_mutual : (graph.heldView before meanwhile).adjacency.Mutual := by
  intro node side neighbor hneighbor
  obtain ⟨bucket, hbucket, edge, hedge, hnode, hother, -⟩ :=
    exists_edge_of_heldView hcreate hcodec hround before meanwhile hneighbor
  obtain ⟨back, hback, hsame⟩ := Bucket.exists_neighbor_of_mem hedge side.opposite
  rw [Side.opposite_opposite, hnode] at hsame
  refine ⟨back, ?_, hsame⟩
  show back ∈ View.neighbors _ _ _
  rw [heldView_neighbors hcreate hcodec hround, ← hother]
  exact List.mem_flatMap.mpr ⟨bucket, hbucket, hback⟩

end Graph

end Slidewalk
