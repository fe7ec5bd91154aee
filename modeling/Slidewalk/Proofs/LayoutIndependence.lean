import Slidewalk.Proofs.Reading
import Slidewalk.Proofs.Sample

/-!
# The storage layout does not show

Graphs that differ in the layout of their pools, in what they reserve and in when they repack refuse
the same edges for the same reasons and are read alike, because they follow the same ledger.
-/

namespace Slidewalk

/-- The limits agree on everything that bounds what a segment and a window hold. -/
structure Limits.SameBounds (limits other : Limits) : Prop where
  capacity : limits.segmentEdgeCapacity = other.segmentEdgeCapacity
  segments : limits.maxSegments = other.maxSegments
  nodes : limits.maxNodesPerSegment = other.maxNodesPerSegment
  degree : limits.maxDegree = other.maxDegree

variable {limits other : Limits}

theorem Bucket.verdict_congr (h : limits.SameBounds other) (maxKind : EdgeType) (bucket : Bucket)
    (edge : Edge) : bucket.verdict limits maxKind edge = bucket.verdict other maxKind edge := by
  obtain ⟨-, -, hnodes, hdegree⟩ := h
  cases limits
  cases other
  subst hnodes hdegree
  rfl

namespace Ledger

theorem add_congr (h : limits.SameBounds other) (maxKind : EdgeType) (ledger : Ledger)
    (edge : Edge) : ledger.add limits maxKind edge = ledger.add other maxKind edge := by
  have hopened : ledger.opened limits = ledger.opened other := by
    unfold opened
    rw [h.segments]
  have hoffered (ledger : Ledger) (result : Except Fault Unit) :
      ledger.offered limits edge result = ledger.offered other edge result := by
    cases result with
    | error fault => rfl
    | ok _ =>
      show ledger.append limits edge = ledger.append other edge
      unfold append
      rw [h.capacity]
  unfold add
  dsimp only
  rw [hopened, Bucket.verdict_congr h, hoffered]

theorem run_congr (h : limits.SameBounds other) (maxKind : EdgeType) (ledger : Ledger)
    (operations : List Operation) :
    ledger.run limits maxKind operations = ledger.run other maxKind operations := by
  induction operations generalizing ledger with
  | nil => rfl
  | cons operation rest ih =>
    cases operation with
    | add edge => simp only [run, add_congr h, ih]
    | sealCurrent => simp only [run, ih]
    | optimizeSealed => exact ih ledger

end Ledger

namespace Graph

/-- No reader can tell the windows of the two graphs apart. -/
structure ReadsAlike (graph other : Graph) : Prop where
  neighbors : ∀ node side, graph.view.neighbors node side = other.view.neighbors node side
  neighborsSince : ∀ node side time,
    graph.view.neighborsSince node side time = other.view.neighborsSince node side time
  degree : ∀ node side, graph.view.degree node side = other.view.degree node side
  summaries :
    graph.view.segments.map (·.summary) = other.view.segments.map (·.summary)
  recommend : ∀ request, (graph.recommend request).2 = (other.recommend request).2

theorem Follows.readsAlike {options otherOptions : Options} {codec : EdgeCodec} {ledger : Ledger}
    {graph other : Graph} (h : graph.Follows options codec ledger)
    (hother : other.Follows otherOptions codec ledger) : graph.ReadsAlike other := by
  have hneighbors (node : NodeId) (side : Side) :
      graph.view.neighbors node side = other.view.neighbors node side := by
    rw [h.neighbors, hother.neighbors]
  have hdegree (node : NodeId) (side : Side) :
      graph.view.degree node side = other.view.degree node side := by
    rw [h.degree, hother.degree]
  refine ⟨hneighbors, fun node side time => ?_, hdegree, ?_, fun request => ?_⟩
  · rw [h.neighborsSince, hother.neighborsSince]
  · rw [h.summaries, hother.summaries]
  · -- a recommendation sees the window only through neighbors and degrees
    have hadjacency : graph.view.adjacency = other.view.adjacency := by
      unfold View.adjacency
      rw [funext fun node => funext (hneighbors node), funext fun node => funext (hdegree node)]
    rw [recommend_eq, recommend_eq, hadjacency]

variable {options otherOptions : Options} {codec : EdgeCodec} {graph other : Graph}
  {operations otherOperations : List Operation}

/-- Whatever their layouts, and whenever either of them repacks, two graphs with the same bounds and
the same packing answer alike and are read alike after the same additions and seals. -/
theorem layout_does_not_show (hbounds : options.limits.SameBounds otherOptions.limits)
    (hcapacity : options.limits.segmentEdgeCapacity < UInt32.size) (hround : codec.RoundTrips)
    (hcreate : Graph.create options = .ok graph) (hcodec : options.resolveCodec = .ok codec)
    (hsegment : ∃ segment, Segment.create 0 options = .ok segment)
    (hotherCreate : Graph.create otherOptions = .ok other)
    (hotherCodec : otherOptions.resolveCodec = .ok codec)
    (hotherSegment : ∃ segment, Segment.create 0 otherOptions = .ok segment)
    (hoperations : operations.filter (!·.isMaintenance) =
      otherOperations.filter (!·.isMaintenance)) :
    (graph.run operations).2.filter (!·.isMaintenance) =
        (other.run otherOperations).2.filter (!·.isMaintenance) ∧
      (graph.run operations).1.ReadsAlike (other.run otherOperations).1 := by
  obtain ⟨hworks, hfollows⟩ := create_follows hcreate hcodec hround hsegment
  obtain ⟨hotherWorks, hotherFollows⟩ :=
    create_follows hotherCreate hotherCodec hround hotherSegment
  -- maintenance leaves the ledger alone, so both runs have the same one
  have hsame : Ledger.empty.run options.limits codec.maxKind operations =
      Ledger.empty.run otherOptions.limits codec.maxKind otherOperations := by
    rw [Ledger.run_congr hbounds, ← Ledger.run_filter, hoperations, Ledger.run_filter]
  obtain ⟨hfinal, hanswers⟩ := hfollows.run_eq hworks hcapacity operations
  obtain ⟨hotherFinal, hotherAnswers⟩ :=
    hotherFollows.run_eq hotherWorks (hbounds.capacity ▸ hcapacity) otherOperations
  refine ⟨by rw [hanswers, hotherAnswers, hsame], ?_⟩
  rw [hsame] at hfinal
  exact hfinal.readsAlike hotherFinal

theorem sample_layout_does_not_show :
    ((sample .uniform false).run
        [.add ⟨1, 2, 0, 5⟩, .add ⟨1, 3, 1, 4⟩, .add ⟨1, 2, 2, 7⟩, .optimizeSealed]).2.filter
        (!·.isMaintenance) =
      ((sample .powerLaw true).run
        [.add ⟨1, 2, 0, 5⟩, .optimizeSealed, .add ⟨1, 3, 1, 4⟩, .add ⟨1, 2, 2, 7⟩]).2.filter
        (!·.isMaintenance) ∧
    ((sample .uniform false).run
      [.add ⟨1, 2, 0, 5⟩, .add ⟨1, 3, 1, 4⟩, .add ⟨1, 2, 2, 7⟩, .optimizeSealed]).1.ReadsAlike
      ((sample .powerLaw true).run
        [.add ⟨1, 2, 0, 5⟩, .optimizeSealed, .add ⟨1, 3, 1, 4⟩, .add ⟨1, 2, 2, 7⟩]).1 := by
  have hbounds : (Options.sample .uniform false).limits.SameBounds
      (Options.sample .powerLaw true).limits := ⟨rfl, rfl, rfl, rfl⟩
  exact layout_does_not_show hbounds (by decide) BitMask.sample.toCodec_roundTrips
    (create_sample .uniform false) (Options.resolveCodec_sample .uniform false)
    (Segment.create_sample .uniform false) (create_sample .powerLaw true)
    (Options.resolveCodec_sample .powerLaw true) (Segment.create_sample .powerLaw true) rfl

end Graph

end Slidewalk
