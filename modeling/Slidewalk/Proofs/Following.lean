import Slidewalk.Proofs.Adding
import Slidewalk.Proofs.Limits

/-!
# Every run of a graph is a run of its ledger

A new graph follows the empty ledger, and each operation keeps graph and ledger together. The ledger
moves as the answers say; where 32 bits count the edges of a segment, the answers are determined by
the ledger itself.
-/

namespace Slidewalk

theorem Options.validate_ok {options : Options} {codec : EdgeCodec}
    (hvalid : options.validate = .ok ()) (hcodec : options.resolveCodec = .ok codec) :
    0 < options.limits.segmentEdgeCapacity ∧ 0 < options.limits.maxSegments ∧
      options.limits.maxNodesPerSegment ≤ codec.maxIndex + 1 := by
  have hchecked := Options.checked hvalid hcodec
  exact ⟨hchecked.capacity_pos, hchecked.segments_pos, hchecked.addressable⟩

namespace Ledger

variable {limits : Limits} {ledger : Ledger}

/-- Every edge that was taken, in order. -/
def history (ledger : Ledger) : List Edge := ledger.buckets.flatten

theorem history_opened : (ledger.opened limits).history = ledger.history := by
  cases hopen : ledger.isOpen with
  | true => rw [opened_of_open hopen]
  | false => rw [history, buckets_opened hopen, List.flatten_concat, List.append_nil, history]

theorem history_append (hwindow : ledger.window ≠ []) (edge : Edge) :
    (ledger.append limits edge).history = ledger.history ++ [edge] := by
  have hold : ledger.buckets = (ledger.dropped ++ ledger.window.dropLast) ++ [ledger.newest] := by
    rw [buckets, List.append_assoc, ← window_eq hwindow]
  have hnew : (ledger.append limits edge).buckets =
      (ledger.dropped ++ ledger.window.dropLast) ++ [ledger.newest ++ [edge]] := by
    rw [buckets, append, List.append_assoc]
  rw [history, history, hold, hnew, List.flatten_concat, List.flatten_concat, List.append_assoc]

theorem history_offered (hwindow : ledger.window ≠ []) (edge : Edge) (result : Except Fault Unit) :
    (ledger.offered limits edge result).history =
      ledger.history ++ (Operation.add edge).taken (.added result) := by
  cases result with
  | error fault => exact (List.append_nil _).symm
  | ok _ => exact history_append hwindow edge

theorem history_sealCurrent : ledger.sealCurrent.1.history = ledger.history := by
  unfold sealCurrent
  split
  · rfl
  · rfl

end Ledger

namespace Graph

variable {options : Options} {codec : EdgeCodec} {ledger : Ledger} {graph : Graph}

theorem create_eq (hcreate : Graph.create options = .ok graph) :
    options.validate = .ok () ∧
      graph = { options, holdings := #[], window := [], counters := .zero } := by
  unfold Graph.create at hcreate
  cases hvalid : options.validate with
  | error fault => simp [hvalid, bind, Except.bind] at hcreate
  | ok _ =>
    simp only [hvalid, bind, Except.bind, pure, Except.pure, Except.ok.injEq] at hcreate
    exact ⟨rfl, hcreate.symm⟩

theorem create_follows (hcreate : Graph.create options = .ok graph)
    (hcodec : options.resolveCodec = .ok codec) (hround : codec.RoundTrips)
    (hsegment : ∃ segment, Segment.create 0 options = .ok segment) :
    options.Works codec ∧ graph.Follows options codec .empty := by
  obtain ⟨hvalid, rfl⟩ := create_eq hcreate
  obtain ⟨hcapacity, hsegments, haddress⟩ := Options.validate_ok hvalid hcodec
  obtain ⟨segment, hsegment⟩ := hsegment
  -- whether a segment can be made does not depend on its id
  refine ⟨⟨hcodec, ⟨hround, haddress⟩, hcapacity, hsegments, fun id =>
    ⟨_, Segment.create_of_create hsegment⟩⟩, ?_⟩
  refine ⟨rfl, Ledger.empty_valid _, rfl, ?_, rfl, ?_⟩
  · intro id holding bucket hholding
    simp at hholding
  · intro version hversion
    simp at hversion

namespace Follows

theorem run (h : graph.Follows options codec ledger) (hworks : options.Works codec)
    (operations : List Operation) :
    ∃ final : Ledger, (graph.run operations).1.Follows options codec final ∧
      final.history = ledger.history ++ graph.accepted operations := by
  induction operations generalizing graph ledger with
  | nil => exact ⟨ledger, h, (List.append_nil _).symm⟩
  | cons operation rest ih =>
    cases operation with
    | add edge =>
      obtain ⟨-, -, -, -, hnext⟩ := h.add hworks edge
      obtain ⟨final, hfinal, hhistory⟩ := ih hnext
      -- an accepted edge is the last one of the history, whether or not a bucket was opened for it
      have hvalid := Ledger.opened_valid h.valid hworks.segments_pos hworks.capacity_pos
      have hwindow := hvalid.open_ne_nil (Ledger.isOpen_opened options.limits ledger)
      refine ⟨final, hfinal, ?_⟩
      rw [hhistory, Ledger.history_offered hwindow, Ledger.history_opened, List.append_assoc]
      rfl
    | sealCurrent =>
      obtain ⟨final, hfinal, hhistory⟩ := ih h.sealCurrent.1
      refine ⟨final, hfinal, ?_⟩
      rw [hhistory, Ledger.history_sealCurrent]
      rfl
    | optimizeSealed => exact ih h.optimizeSealed

/-- Where 32 bits count the edges of a segment, the ledger says what becomes of an edge. -/
theorem add_eq (h : graph.Follows options codec ledger) (hworks : options.Works codec)
    (hcapacity : options.limits.segmentEdgeCapacity < UInt32.size) (edge : Edge) :
    (graph.add edge).1.Follows options codec
        (ledger.add options.limits codec.maxKind edge).1 ∧
      (graph.add edge).2 = (ledger.add options.limits codec.maxKind edge).2 := by
  obtain ⟨written, hrecords, hopen, hanswer, hnext⟩ := h.add hworks edge
  have hvalid := Ledger.opened_valid h.valid hworks.segments_pos hworks.capacity_pos
  have hroom := hvalid.room (Ledger.isOpen_opened options.limits ledger)
  rw [hrecords.add_answer hworks.suits hopen hroom hcapacity] at hanswer
  rw [hanswer] at hnext
  exact ⟨hnext, hanswer⟩

theorem run_eq (h : graph.Follows options codec ledger) (hworks : options.Works codec)
    (hcapacity : options.limits.segmentEdgeCapacity < UInt32.size) (operations : List Operation) :
    (graph.run operations).1.Follows options codec
        (ledger.run options.limits codec.maxKind operations).1 ∧
      (graph.run operations).2.filter (!·.isMaintenance) =
        (ledger.run options.limits codec.maxKind operations).2 := by
  induction operations generalizing graph ledger with
  | nil => exact ⟨h, rfl⟩
  | cons operation rest ih =>
    cases operation with
    | add edge =>
      obtain ⟨hnext, hanswer⟩ := h.add_eq hworks hcapacity edge
      obtain ⟨hfinal, hanswers⟩ := ih hnext
      refine ⟨hfinal, ?_⟩
      show (Answer.added (graph.add edge).2 :: _).filter _ = _
      rw [hanswer]
      exact congrArg (_ :: ·) hanswers
    | sealCurrent =>
      obtain ⟨hnext, hanswer⟩ := h.sealCurrent
      obtain ⟨hfinal, hanswers⟩ := ih hnext
      refine ⟨hfinal, ?_⟩
      show (Answer.sealed graph.sealCurrent.2 :: _).filter _ = _
      rw [hanswer]
      exact congrArg (_ :: ·) hanswers
    | optimizeSealed => exact ih h.optimizeSealed

end Follows

end Graph

end Slidewalk
