import Slidewalk.Proofs.Reading
import Slidewalk.Proofs.Sample

/-!
# The window is a suffix of the accepted history

The edges that a run took can be cut into buckets, one for each segment that was opened, so that the
window shows the last of them and nothing else.
-/

namespace Slidewalk

/-- What is read of a segment is the bucket. -/
structure Segment.Reads (segment : Segment) (bucket : Bucket) : Prop where
  edgeCount : segment.edgeCount = bucket.length
  timeRange : segment.timeRange = bucket.timeRange
  neighbors : ∀ node side, segment.neighbors node side = bucket.neighbors node side
  degree : ∀ node side, segment.degree node side = (bucket.neighbors node side).length

/-- The opened segments are the buckets in order, and the window shows the last of them. -/
structure Graph.ShowsCut (graph : Graph) (buckets : List Bucket) : Prop where
  size : graph.holdings.size = buckets.length
  opened : ∀ (id : Nat) (holding : Holding) (bucket : Bucket), graph.holdings[id]? = some holding →
    buckets[id]? = some bucket → holding.written.id = id ∧ holding.written.Reads bucket
  ids : graph.view.segments.map (·.id) =
    List.range' (buckets.length - graph.window.length) graph.window.length
  segments : List.Forall₂ Segment.Reads graph.view.segments
    (buckets.drop (buckets.length - graph.window.length))
  neighbors : ∀ node side, graph.view.neighbors node side =
    (buckets.drop (buckets.length - graph.window.length)).flatMap (·.neighbors node side)
  degree : ∀ node side,
    graph.view.degree node side = (graph.view.neighbors node side).length

theorem Segment.Records.reads {limits : Limits} {codec : EdgeCodec} {bucket : Bucket}
    {segment : Segment} (h : segment.Records limits codec bucket) : segment.Reads bucket := by
  refine ⟨h.edgeCount, h.timeRange, h.neighbors, fun node side => ?_⟩
  rw [h.degree, Bucket.neighbors, List.length_map]
  rfl

theorem Ledger.degree_eq (ledger : Ledger) (node : NodeId) (side : Side) :
    ledger.degree node side = (ledger.neighbors node side).length := by
  unfold Ledger.degree Ledger.neighbors
  induction ledger.window with
  | nil => rfl
  | cons bucket rest ih =>
    rw [total_cons, ih, List.flatMap_cons, List.length_append, Bucket.neighbors, List.length_map]
    rfl

namespace Graph

variable {options : Options} {codec : EdgeCodec} {ledger : Ledger} {graph : Graph}

theorem Follows.showsCut (h : graph.Follows options codec ledger) :
    graph.ShowsCut ledger.buckets := by
  have hlength : ledger.buckets.length - graph.window.length = ledger.dropped.length := by
    rw [Ledger.buckets, List.length_append, h.length_window, Nat.add_sub_cancel]
  have hwindow : ledger.buckets.drop ledger.dropped.length = ledger.window :=
    List.drop_left
  refine ⟨h.size, ?_, ?_, ?_, ?_, ?_⟩
  · intro id holding bucket hholding hbucket
    have hrecords := h.holdings id holding bucket hholding hbucket
    exact ⟨hrecords.id_eq, hrecords.written.reads⟩
  · rw [h.ids, hlength, h.length_window]
  · rw [hlength, hwindow]
    exact h.records.imp fun _ _ hrecords => hrecords.reads
  · intro node side
    rw [hlength, hwindow]
    exact h.neighbors node side
  · intro node side
    rw [h.degree, h.neighbors, Ledger.degree_eq]

/-- After every run the accepted edges fall into buckets, one for each opened segment, of which the
window shows the last. -/
theorem window_shows_suffix (hcreate : Graph.create options = .ok graph)
    (hcodec : options.resolveCodec = .ok codec) (hround : codec.RoundTrips)
    (hsegment : ∃ segment, Segment.create 0 options = .ok segment) (operations : List Operation) :
    ∃ buckets : List Bucket, buckets.flatten = graph.accepted operations ∧
      (graph.run operations).1.ShowsCut buckets := by
  obtain ⟨hworks, hfollows⟩ := create_follows hcreate hcodec hround hsegment
  obtain ⟨final, hfinal, hhistory⟩ := hfollows.run hworks operations
  exact ⟨final.buckets, hhistory, hfinal.showsCut⟩

theorem sample_shows_suffix : ∃ buckets : List Bucket,
    buckets.flatten = (sample .powerLaw true).accepted
      [.add ⟨1, 2, 0, 5⟩, .add ⟨1, 3, 1, 4⟩, .add ⟨1, 2, 2, 7⟩, .sealCurrent, .add ⟨9, 2, 0, 8⟩] ∧
    ((sample .powerLaw true).run
      [.add ⟨1, 2, 0, 5⟩, .add ⟨1, 3, 1, 4⟩, .add ⟨1, 2, 2, 7⟩, .sealCurrent,
        .add ⟨9, 2, 0, 8⟩]).1.ShowsCut buckets :=
  window_shows_suffix (create_sample .powerLaw true) (Options.resolveCodec_sample .powerLaw true)
    BitMask.sample.toCodec_roundTrips (Segment.create_sample .powerLaw true) _

end Graph

end Slidewalk
