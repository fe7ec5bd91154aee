import Slidewalk.Proofs.Following
import Slidewalk.Salsa.Recommend

/-!
# A graph is read as its ledger

Everything a reader can ask of the window is answered from the buckets in it.
-/

namespace Slidewalk

/-! ## Summaries -/

structure SegmentSummary where
  id : Nat
  edgeCount : Nat
  isSealed : Bool
  timeRange : Option (Time × Time)
  leftNodes : Nat
  rightNodes : Nat
  deriving DecidableEq, Repr

def Segment.summary (segment : Segment) : SegmentSummary where
  id := segment.id
  edgeCount := segment.edgeCount
  isSealed := segment.isSealed
  timeRange := segment.timeRange
  leftNodes := segment.nodeCount .left
  rightNodes := segment.nodeCount .right

def Ledger.summaries (ledger : Ledger) : List SegmentSummary :=
  (ledger.window.zipIdx ledger.dropped.length).map fun (bucket, id) => {
    id
    edgeCount := bucket.length
    isSealed := ledger.isSealed id
    timeRange := bucket.timeRange
    leftNodes := (bucket.nodes .left).length
    rightNodes := (bucket.nodes .right).length }

namespace Graph

variable {options : Options} {codec : EdgeCodec} {ledger : Ledger} {graph : Graph}

theorem recommend_eq (graph : Graph) (request : Salsa.Request) :
    (graph.recommend request).2 = Salsa.recommend request graph.view.adjacency := by
  unfold recommend Salsa.recommend
  dsimp only
  cases Salsa.finishedWalk request graph.view.adjacency with
  | error fault => rfl
  | ok walk => rfl

namespace Follows

theorem records (h : graph.Follows options codec ledger) :
    List.Forall₂ (fun segment bucket => segment.Records options.limits codec bucket)
      graph.view.segments ledger.window := by
  rw [← List.zipIdx_map_fst ledger.dropped.length ledger.window, List.forall₂_map_right_iff]
  exact h.shows.imp fun _ _ hshows => hshows.records

theorem summaries (h : graph.Follows options codec ledger) :
    graph.view.segments.map (·.summary) = ledger.summaries := by
  apply map_eq_map_of_forall₂
  refine h.shows.imp fun segment entry hshows => ?_
  have hrecords := hshows.records
  rw [Segment.summary, hshows.id_eq, hshows.isSealed_eq, hrecords.edgeCount, hrecords.timeRange,
    hrecords.nodeCount, hrecords.nodeCount]

theorem ids (h : graph.Follows options codec ledger) :
    graph.view.segments.map (·.id) =
      List.range' ledger.dropped.length ledger.window.length := by
  rw [← List.zipIdx_map_snd ledger.dropped.length ledger.window]
  apply map_eq_map_of_forall₂
  exact h.shows.imp fun _ _ hshows => hshows.id_eq

theorem neighbors (h : graph.Follows options codec ledger) (node : NodeId) (side : Side) :
    graph.view.neighbors node side = ledger.neighbors node side := by
  rw [View.neighbors, Ledger.neighbors, List.flatMap_def, List.flatMap_def]
  apply congrArg List.flatten
  apply map_eq_map_of_forall₂
  exact h.records.imp fun _ _ hrecords => hrecords.neighbors node side

theorem neighborsSince (h : graph.Follows options codec ledger) (node : NodeId) (side : Side)
    (time : Time) :
    graph.view.neighborsSince node side time = ledger.neighborsSince node side time := by
  show ((graph.view.segments.filter fun segment => Ledger.reaches time segment.timeRange).flatMap
    (·.neighbors node side)) = _
  rw [Ledger.neighborsSince, List.flatMap_def, List.flatMap_def]
  apply congrArg List.flatten
  apply map_eq_map_of_forall₂
  have hrecent := List.rel_filter (p := fun segment => Ledger.reaches time segment.timeRange)
    (q := fun bucket => Ledger.reaches time bucket.timeRange)
    (fun _ _ hrecords => by simp only [hrecords.timeRange]) h.records
  exact hrecent.imp fun _ _ hrecords => hrecords.neighbors node side

theorem degree (h : graph.Follows options codec ledger) (node : NodeId) (side : Side) :
    graph.view.degree node side = ledger.degree node side :=
  total_eq_total_of_forall₂ (h.records.imp fun _ _ hrecords => hrecords.degree node side)

theorem edgeCount (h : graph.Follows options codec ledger) :
    graph.view.stats.edges = ledger.edgeCount :=
  total_eq_total_of_forall₂ (h.records.imp fun _ _ hrecords => hrecords.edgeCount)

theorem timeRange (h : graph.Follows options codec ledger) :
    graph.view.stats.timeRange = ledger.timeRange := by
  show List.foldl (fun range segment => View.joinRanges range segment.timeRange) none
    graph.view.segments = _
  have hranges := map_eq_map_of_forall₂ (h.records.imp fun _ _ hrecords => hrecords.timeRange)
  rw [Ledger.timeRange, ← List.foldl_map, hranges, List.foldl_map]

end Follows

end Graph

end Slidewalk
