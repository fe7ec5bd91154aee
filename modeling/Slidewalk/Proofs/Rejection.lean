import Slidewalk.Proofs.Reading
import Slidewalk.Proofs.Sample

/-!
# What a rejected edge leaves behind

A segment is untouched by an edge it rejects. A graph is not: it makes room for the edge before it
looks at it. If the newest segment is sealed and the window is full, the oldest segment leaves the
window and its edges are gone, although nothing was added.
-/

namespace Slidewalk

namespace Ledger

variable {limits : Limits} {ledger : Ledger}

/-! ## An empty bucket is not seen -/

theorem window_opened_of_room (hclosed : ledger.isOpen = false)
    (hroom : ledger.window.length < limits.maxSegments) :
    (ledger.opened limits).window = ledger.window ++ [[]] := by
  rw [window_opened_eq hclosed (by omega), Nat.sub_eq_zero_of_le hroom, List.drop_zero]

variable {next : Ledger} (hwindow : next.window = ledger.window ++ [[]])

include hwindow

theorem neighbors_of_empty_bucket (node : NodeId) (side : Side) :
    next.neighbors node side = ledger.neighbors node side := by
  rw [neighbors, hwindow, List.flatMap_append]
  exact List.append_nil _

theorem neighborsSince_of_empty_bucket (node : NodeId) (side : Side) (time : Time) :
    next.neighborsSince node side time = ledger.neighborsSince node side time := by
  rw [neighborsSince, hwindow, List.filter_append, List.flatMap_append]
  exact List.append_nil _

theorem degree_of_empty_bucket (node : NodeId) (side : Side) :
    next.degree node side = ledger.degree node side := by
  rw [degree, hwindow, total_append]
  rfl

theorem edgeCount_of_empty_bucket : next.edgeCount = ledger.edgeCount := by
  rw [edgeCount, hwindow, total_append]
  rfl

theorem timeRange_of_empty_bucket : next.timeRange = ledger.timeRange := by
  rw [timeRange, hwindow, List.foldl_append]
  show View.joinRanges ledger.timeRange none = _
  cases ledger.timeRange with
  | none => rfl
  | some range => rfl

end Ledger

/-! ## A full window loses edges -/

theorem Ledger.edgeCount_opened_lt {limits : Limits} {ledger : Ledger} (h : ledger.Valid limits)
    (hclosed : ledger.isOpen = false) (hpos : 0 < limits.maxSegments)
    (hfull : limits.maxSegments ≤ ledger.window.length) :
    (ledger.opened limits).edgeCount < ledger.edgeCount := by
  have hlength := h.length_le
  have hexcess : ledger.window.length + 1 - limits.maxSegments = 1 := by omega
  have hsettled := h.settled_ne_nil
  rw [settled, hclosed, if_neg (by decide)] at hsettled
  unfold edgeCount
  rw [window_opened_eq hclosed hpos, hexcess, total_append]
  cases hwindow : ledger.window with
  | nil =>
    rw [hwindow, List.length_nil] at hfull
    omega
  | cons oldest rest =>
    -- the bucket that leaves is settled, and settled buckets hold edges
    have holdest : 0 < oldest.length := by
      apply List.length_pos_iff.mpr
      apply hsettled
      rw [hwindow]
      exact List.mem_cons_self
    show total List.length rest + 0 < oldest.length + total List.length rest
    omega

namespace Graph

/-- Nothing that can be read of the edges differs. -/
structure ObservedAlike (graph other : Graph) : Prop where
  neighbors : ∀ node side, graph.view.neighbors node side = other.view.neighbors node side
  neighborsSince : ∀ node side time,
    graph.view.neighborsSince node side time = other.view.neighborsSince node side time
  degree : ∀ node side, graph.view.degree node side = other.view.degree node side
  edges : graph.view.stats.edges = other.view.stats.edges
  timeRange : graph.view.stats.timeRange = other.view.stats.timeRange

/-- The next edge needs a new segment and the window has no room for another one. -/
def RollsOver (graph : Graph) : Prop :=
  graph.openVersion? = none ∧ graph.options.limits.maxSegments ≤ graph.window.length

variable {options : Options} {codec : EdgeCodec} {ledger next : Ledger} {graph other : Graph}
  {edge : Edge} {fault : Fault}

theorem ObservedAlike.refl (graph : Graph) : graph.ObservedAlike graph :=
  ⟨fun _ _ => rfl, fun _ _ _ => rfl, fun _ _ => rfl, rfl, rfl⟩

theorem Follows.observedAlike_of_same (h : graph.Follows options codec ledger)
    (hother : other.Follows options codec ledger) : graph.ObservedAlike other := by
  refine ⟨fun node side => ?_, fun node side time => ?_, fun node side => ?_, ?_, ?_⟩
  · rw [h.neighbors, hother.neighbors]
  · rw [h.neighborsSince, hother.neighborsSince]
  · rw [h.degree, hother.degree]
  · rw [h.edgeCount, hother.edgeCount]
  · rw [h.timeRange, hother.timeRange]

theorem Follows.observedAlike_of_empty_bucket (h : graph.Follows options codec ledger)
    (hother : other.Follows options codec next) (hwindow : next.window = ledger.window ++ [[]]) :
    graph.ObservedAlike other := by
  refine ⟨fun node side => ?_, fun node side time => ?_, fun node side => ?_, ?_, ?_⟩
  · rw [h.neighbors, hother.neighbors, Ledger.neighbors_of_empty_bucket hwindow]
  · rw [h.neighborsSince, hother.neighborsSince, Ledger.neighborsSince_of_empty_bucket hwindow]
  · rw [h.degree, hother.degree, Ledger.degree_of_empty_bucket hwindow]
  · rw [h.edgeCount, hother.edgeCount, Ledger.edgeCount_of_empty_bucket hwindow]
  · rw [h.timeRange, hother.timeRange, Ledger.timeRange_of_empty_bucket hwindow]

/-! ## Rejections -/

/-- What a rejected edge leaves: the ledger with a bucket opened for it. -/
theorem Follows.rejected (h : graph.Follows options codec ledger) (hworks : options.Works codec)
    (hreject : (graph.add edge).2 = .error fault) :
    (graph.add edge).1.Follows options codec (ledger.opened options.limits) := by
  obtain ⟨-, -, -, -, hnext⟩ := h.add hworks edge
  rw [hreject] at hnext
  exact hnext

theorem Follows.rejected_iff (h : graph.Follows options codec ledger)
    (hworks : options.Works codec) (hreject : (graph.add edge).2 = .error fault) :
    graph.ObservedAlike (graph.add edge).1 ↔ ¬graph.RollsOver := by
  have hnext := h.rejected hworks hreject
  unfold RollsOver
  rw [h.options_eq, h.length_window]
  cases hopen : ledger.isOpen with
  | true =>
    obtain ⟨-, -, -, -, -, -, hversion, -⟩ := h.exists_open hopen
    rw [Ledger.opened_of_open hopen] at hnext
    rw [hversion]
    refine ⟨fun _ hrolls => ?_, fun _ => h.observedAlike_of_same hnext⟩
    have := hrolls.1
    contradiction
  | false =>
    rw [h.openVersion?_of_closed hopen]
    -- the edge count gives the loss away
    constructor
    · intro hobserved hrolls
      have hless := Ledger.edgeCount_opened_lt h.valid hopen hworks.segments_pos hrolls.2
      have hedges := hobserved.edges
      rw [h.edgeCount, hnext.edgeCount] at hedges
      omega
    -- with room left the new bucket is the only difference, and it is empty
    · intro hroom
      have hroom : ledger.window.length < options.limits.maxSegments := by
        by_contra hfull
        exact hroom ⟨rfl, by omega⟩
      exact h.observedAlike_of_empty_bucket hnext (Ledger.window_opened_of_room hopen hroom)

/-! ## Without segments -/

/-- Options of which no segment can be made leave the window empty. -/
structure Barren (options : Options) (graph : Graph) : Prop where
  options_eq : graph.options = options
  window : graph.window = []

namespace Barren

theorem openVersion?_eq (h : graph.Barren options) : graph.openVersion? = none := by
  unfold openVersion?
  rw [h.window]
  rfl

theorem add (h : graph.Barren options)
    (hnone : ¬∃ segment, Segment.create 0 options = .ok segment) (edge : Edge) :
    (graph.add edge).1 = graph := by
  unfold Graph.add target openSegment
  rw [h.openVersion?_eq, h.options_eq]
  dsimp only
  cases hcreate : Segment.create graph.holdings.size options with
  | error fault => rfl
  | ok segment => exact absurd ⟨_, Segment.create_of_create hcreate⟩ hnone

theorem perform (h : graph.Barren options)
    (hnone : ¬∃ segment, Segment.create 0 options = .ok segment) (operation : Operation) :
    (graph.perform operation).1.Barren options := by
  cases operation with
  | add edge =>
    show (graph.add edge).1.Barren options
    rw [h.add hnone]
    exact h
  | sealCurrent =>
    show graph.sealCurrent.1.Barren options
    unfold sealCurrent
    rw [h.openVersion?_eq]
    exact h
  | optimizeSealed =>
    show graph.optimizeSealed.1.Barren options
    unfold optimizeSealed
    rw [h.window]
    exact ⟨h.options_eq, rfl⟩

theorem run (h : graph.Barren options)
    (hnone : ¬∃ segment, Segment.create 0 options = .ok segment) (operations : List Operation) :
    (graph.run operations).1.Barren options := by
  induction operations generalizing graph with
  | nil => exact h
  | cons operation rest ih => exact ih (h.perform hnone operation)

end Barren

theorem run_barren (hcreate : Graph.create options = .ok graph)
    (hnone : ¬∃ segment, Segment.create 0 options = .ok segment) (operations : List Operation) :
    (graph.run operations).1.Barren options := by
  obtain ⟨-, rfl⟩ := create_eq hcreate
  have hbarren : Barren options { options, holdings := #[], window := [], counters := .zero } :=
    ⟨rfl, rfl⟩
  exact hbarren.run hnone operations

/-! ## After every run -/

/-- A rejected edge goes unnoticed exactly if it did not roll the window over. -/
theorem rejected_unnoticed_iff (hcreate : Graph.create options = .ok graph)
    (hcodec : options.resolveCodec = .ok codec) (hround : codec.RoundTrips)
    (operations : List Operation)
    (hreject : ((graph.run operations).1.add edge).2 = .error fault) :
    (graph.run operations).1.ObservedAlike ((graph.run operations).1.add edge).1 ↔
      ¬(graph.run operations).1.RollsOver := by
  by_cases hsegment : ∃ segment, Segment.create 0 options = .ok segment
  · obtain ⟨hworks, hfollows⟩ := create_follows hcreate hcodec hround hsegment
    obtain ⟨final, hfinal, -⟩ := hfollows.run hworks operations
    exact hfinal.rejected_iff hworks hreject
  · obtain ⟨hvalid, rfl⟩ := create_eq hcreate
    -- an empty window never rolls over
    obtain ⟨-, hsegments, -⟩ := Options.validate_ok hvalid hcodec
    have hbarren : Barren options { options, holdings := #[], window := [], counters := .zero } :=
      ⟨rfl, rfl⟩
    have hfinal := hbarren.run hsegment operations
    rw [hfinal.add hsegment]
    refine ⟨fun _ hrolls => ?_, fun _ => .refl _⟩
    have hfull := hrolls.2
    rw [hfinal.options_eq, hfinal.window, List.length_nil] at hfull
    omega

theorem sample_follows (operations : List Operation) :
    (Options.sample .powerLaw false).Works BitMask.sample.toCodec ∧
      ((sample .powerLaw false).run operations).1.Follows (.sample .powerLaw false)
        BitMask.sample.toCodec
        (Ledger.empty.run (Options.sample .powerLaw false).limits 1 operations).1 := by
  obtain ⟨hworks, hfollows⟩ := create_follows (create_sample .powerLaw false)
    (Options.resolveCodec_sample .powerLaw false) BitMask.sample.toCodec_roundTrips
    (Segment.create_sample .powerLaw false)
  exact ⟨hworks, (hfollows.run_eq hworks (by decide) operations).1⟩

/-- An edge of a type out of range goes unnoticed by an open segment. -/
theorem sample_rejected_unnoticed :
    ((sample .powerLaw false).run [.add ⟨1, 2, 0, 1⟩]).1.ObservedAlike
      (((sample .powerLaw false).run [.add ⟨1, 2, 0, 1⟩]).1.add ⟨1, 3, 2, 2⟩).1 := by
  obtain ⟨hworks, hfollows⟩ := sample_follows [.add ⟨1, 2, 0, 1⟩]
  obtain ⟨-, hreject⟩ := hfollows.add_eq hworks (by decide) ⟨1, 3, 2, 2⟩
  apply (rejected_unnoticed_iff (create_sample .powerLaw false)
    (Options.resolveCodec_sample .powerLaw false) BitMask.sample.toCodec_roundTrips
    [.add ⟨1, 2, 0, 1⟩] (hreject.trans rfl)).mpr
  rintro ⟨hclosed, -⟩
  obtain ⟨-, -, -, -, -, -, hopen, -⟩ := hfollows.exists_open rfl
  rw [hopen] at hclosed
  contradiction

def fillSample : List Operation :=
  [.add ⟨1, 2, 0, 1⟩, .add ⟨1, 3, 1, 2⟩, .add ⟨4, 2, 0, 3⟩, .add ⟨4, 5, 0, 4⟩]

/-- The fifth edge has a type out of range, and the first two edges leave the window with it. -/
theorem sample_rejected_evicts :
    (((sample .powerLaw false).run fillSample).1.add ⟨1, 2, 2, 0⟩).2 =
        .error (.encoding .edgeType 2 1) ∧
      ((sample .powerLaw false).run fillSample).1.view.neighbors 1 .left =
        [⟨2, 0, 2⟩, ⟨3, 1, 2⟩] ∧
      (((sample .powerLaw false).run fillSample).1.add ⟨1, 2, 2, 0⟩).1.view.neighbors 1 .left =
        [] := by
  obtain ⟨hworks, hfollows⟩ := sample_follows fillSample
  obtain ⟨hnext, hreject⟩ := hfollows.add_eq hworks (by decide) ⟨1, 2, 2, 0⟩
  refine ⟨hreject, ?_, ?_⟩
  · rw [hfollows.neighbors]
    rfl
  · rw [hnext.neighbors]
    rfl

end Graph

end Slidewalk
