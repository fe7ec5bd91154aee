import Slidewalk.Proofs.Opening

/-!
# Adding and sealing move the ledger

Adding an edge opens a bucket if none is open, and then puts the edge into the newest bucket or
refuses it. A refused edge does not undo the opening: the oldest bucket may have left the window.
-/

namespace Slidewalk

theorem Segment.Records.add_answer {limits : Limits} {codec : EdgeCodec} {bucket : Bucket}
    {segment : Segment} (h : segment.Records limits codec bucket) (hsuits : Suits limits codec)
    (hopen : segment.isSealed = false) (hroom : bucket.length < limits.segmentEdgeCapacity)
    (hcapacity : limits.segmentEdgeCapacity < UInt32.size) (edge : Edge) :
    (segment.add edge).2 = bucket.verdict limits codec.maxKind edge := by
  have hverdict := h.verdict hsuits.addressable hopen hroom hcapacity edge
  unfold Segment.add
  rw [hopen, h.edgeCapacity, h.edgeCount, if_neg (by decide), if_neg (by omega), ← hverdict]
  cases hanswer : segment.verdict edge with
  | error fault => rfl
  | ok _ =>
    obtain ⟨grown, hwrite, -⟩ :=
      h.write hsuits.roundTrips (h.addresses hsuits.addressable edge) hopen hanswer
    dsimp only
    rw [hwrite]

namespace Graph

variable {options : Options} {codec : EdgeCodec} {ledger next : Ledger} {graph : Graph}
  {version : Version} {edge : Edge}

theorem keeps_modifyWritten (h : graph.Keeps version) (id : Nat) (change : Segment → Segment) :
    (graph.modifyWritten id change).Keeps version := by
  intro hrepacked
  obtain ⟨holding, kept, hholding, hkept⟩ := h hrepacked
  unfold modifyWritten
  dsimp only
  rw [Array.getElem?_modify, hholding]
  split
  · exact ⟨_, kept, rfl, hkept⟩
  · exact ⟨holding, kept, rfl, hkept⟩

namespace Follows

/-- What is done to the newest segment while it is open, the ledger does to its newest bucket. -/
theorem modifyWritten (h : graph.Follows options codec ledger) (hopen : ledger.isOpen = true)
    (hvalid : next.Valid options.limits) {bucket : Bucket}
    (hdropped : next.dropped = ledger.dropped)
    (hwindow : next.window = ledger.window.dropLast ++ [bucket]) {holding : Holding}
    (hholding : graph.holdings[ledger.buckets.length - 1]? = some holding)
    {change : Segment → Segment}
    (hrecords : (change holding.written).Records options.limits codec bucket)
    (hid : (change holding.written).id = holding.written.id)
    (hsealed : (change holding.written).isSealed = !next.isOpen) :
    (graph.modifyWritten (ledger.buckets.length - 1) change).Follows options codec next := by
  have hne := h.valid.open_ne_nil hopen
  have hpos := Ledger.length_buckets_pos hne
  have hlength := (Ledger.getElem?_buckets_of_eq hne hdropped hwindow 0).1
  obtain ⟨last, hlast, -, hlastId, -, hnone, -⟩ := h.exists_open hopen
  obtain rfl := Option.some.inj (hholding.symm.trans hlast)
  refine ⟨h.options_eq, hvalid, ?_, ?_, ?_, fun version hversion =>
    keeps_modifyWritten (h.listed version hversion) _ _⟩
  · show (graph.holdings.modify _ _).size = _
    rw [Array.size_modify, h.size, hlength]
  · intro id changed found hchanged hfound
    have hchanged : (graph.holdings.modify _ _)[id]? = some changed := hchanged
    rw [Array.getElem?_modify] at hchanged
    rw [(Ledger.getElem?_buckets_of_eq hne hdropped hwindow id).2] at hfound
    -- only the newest segment was written to; the others are sealed before and after
    by_cases hsame : ledger.buckets.length - 1 = id
    · subst hsame
      rw [if_pos rfl, hholding] at hchanged
      rw [if_pos (by omega)] at hfound
      obtain rfl := Option.some.inj hchanged
      obtain rfl := Option.some.inj hfound
      refine ⟨hrecords, hid.trans hlastId, ?_, fun repacked hrepacked => ?_⟩
      · show (change holding.written).isSealed = _
        rw [hsealed, Ledger.isSealed, hlength, Nat.sub_add_cancel hpos, beq_self_eq_true,
          Bool.and_true]
      · have hrepacked : holding.repacked = some repacked := hrepacked
        rw [hnone] at hrepacked
        contradiction
    · rw [if_neg hsame] at hchanged
      rw [if_neg (by omega)] at hfound
      have hold := h.holdings id changed found hchanged hfound
      rw [Ledger.isSealed_of_ne (by omega)] at hold ⊢
      exact hold
  · show graph.window.map (·.segment) = _
    rw [h.window, hdropped, hwindow, List.length_append, List.length_dropLast,
      List.length_singleton, Nat.sub_add_cancel (List.length_pos_iff.mpr hne)]

/-! ## Adding -/

theorem target (h : graph.Follows options codec ledger) (hworks : options.Works codec) :
    ∃ next, graph.target =
        (next, .ok ⟨(ledger.opened options.limits).buckets.length - 1, false⟩) ∧
      next.Follows options codec (ledger.opened options.limits) := by
  unfold Graph.target
  cases hopen : ledger.isOpen with
  | true =>
    obtain ⟨-, -, -, -, -, -, hversion, -⟩ := h.exists_open hopen
    rw [hversion, Ledger.opened_of_open hopen]
    exact ⟨graph, rfl, h⟩
  | false =>
    rw [h.openVersion?_of_closed hopen, Ledger.buckets_opened hopen, List.length_append,
      List.length_singleton, Nat.add_sub_cancel]
    exact h.openSegment hworks hopen

theorem offer (h : graph.Follows options codec ledger) (hsuits : Suits options.limits codec)
    (hopen : ledger.isOpen = true) (edge : Edge) :
    ∃ written : Segment, written.Records options.limits codec ledger.newest ∧
      written.isSealed = false ∧
      (graph.offer (ledger.buckets.length - 1) edge).2 = (written.add edge).2 ∧
      (graph.offer (ledger.buckets.length - 1) edge).1.window = graph.window ∧
      (graph.offer (ledger.buckets.length - 1) edge).1.Follows options codec
        (ledger.offered options.limits edge (written.add edge).2) := by
  obtain ⟨holding, hholding, hrecords, -, hunsealed, -⟩ := h.exists_open hopen
  rw [offer_eq, hholding]
  refine ⟨holding.written, hrecords, hunsealed, rfl, rfl, ?_⟩
  dsimp only
  -- a refused edge leaves the bucket as it is, a taken one goes to its end
  have haddresses := hrecords.addresses hsuits.addressable edge
  rcases hrecords.add hsuits.roundTrips haddresses hunsealed (h.valid.room hopen) with
    ⟨fault, hadd⟩ | ⟨grown, hadd, hgrown, hsealed, hid⟩
  · have hsame : (holding.written.add edge).1 = holding.written := by rw [hadd]
    have hnext : ledger.offered options.limits edge (holding.written.add edge).2 = ledger := by
      rw [hadd]
      rfl
    rw [hnext]
    apply h.modifyWritten hopen h.valid rfl (Ledger.window_eq (h.valid.open_ne_nil hopen)) hholding
    · rw [hsame]
      exact hrecords
    · rw [hsame]
    · rw [hsame, hunsealed, hopen]
      rfl
  · have hgrew : (holding.written.add edge).1 = grown := by rw [hadd]
    have hnext : ledger.offered options.limits edge (holding.written.add edge).2 =
        ledger.append options.limits edge := by
      rw [hadd]
      rfl
    rw [hnext]
    apply h.modifyWritten hopen (Ledger.append_valid h.valid hopen edge) rfl rfl hholding
    · rw [hgrew]
      exact hgrown
    · rw [hgrew, hid]
    · rw [hgrew, hsealed]
      show _ = !(!_)
      rw [Bool.not_not]

/-- Adding an edge opens a bucket if none is open, and then offers the edge to it. -/
theorem add (h : graph.Follows options codec ledger) (hworks : options.Works codec)
    (edge : Edge) :
    ∃ written : Segment,
      written.Records options.limits codec (ledger.opened options.limits).newest ∧
      written.isSealed = false ∧ (graph.add edge).2 = (written.add edge).2 ∧
      (graph.add edge).1.Follows options codec
        ((ledger.opened options.limits).offered options.limits edge (graph.add edge).2) := by
  obtain ⟨opened, htarget, hopened⟩ := h.target hworks
  have hopen := Ledger.isOpen_opened options.limits ledger
  obtain ⟨-, -, -, -, -, -, -, hlisted⟩ := hopened.exists_open hopen
  obtain ⟨written, hrecords, hunsealed, hanswer, hwindow, hfollows⟩ :=
    hopened.offer hworks.suits hopen edge
  refine ⟨written, hrecords, hunsealed, ?_⟩
  rw [← hanswer] at hfollows ⊢
  unfold Graph.add
  rw [htarget]
  dsimp only
  rw [← hwindow] at hlisted
  generalize opened.offer ((ledger.opened options.limits).buckets.length - 1) edge = offered
    at hfollows hlisted
  obtain ⟨offered, result⟩ := offered
  cases result with
  | error fault => exact ⟨rfl, hfollows.recount _⟩
  | ok _ =>
    refine ⟨rfl, ?_⟩
    dsimp only
    have hcounted := hfollows.recount offered.counters.countAdded
    -- the segment may have filled up and be repacked at once
    split
    · exact hcounted.onSealed hlisted
    · exact hcounted

/-! ## Sealing -/

theorem sealCurrent (h : graph.Follows options codec ledger) :
    graph.sealCurrent.1.Follows options codec ledger.sealCurrent.1 ∧
      graph.sealCurrent.2 = ledger.sealCurrent.2 := by
  unfold Graph.sealCurrent Ledger.sealCurrent
  cases hopen : ledger.isOpen with
  | false =>
    rw [h.openVersion?_of_closed hopen, if_neg (by simp)]
    exact ⟨h, rfl⟩
  | true =>
    obtain ⟨holding, hholding, hrecords, hid, hunsealed, -, hversion, hlisted⟩ :=
      h.exists_open hopen
    have hfound : graph.segment? ⟨ledger.buckets.length - 1, false⟩ = some holding.written := by
      unfold segment?
      dsimp only
      rw [hholding]
      rfl
    rw [hversion]
    dsimp only
    rw [hfound]
    dsimp only
    rw [hrecords.edgeCount]
    -- an empty segment stays open
    by_cases hnewest : ledger.newest = []
    · have hempty : ledger.newest.length = 0 := List.length_eq_zero_iff.mpr hnewest
      rw [if_pos hempty, if_neg fun hchanges => hchanges.2 hnewest]
      exact ⟨h, rfl⟩
    · have hfilled : ledger.newest.length ≠ 0 := mt List.length_eq_zero_iff.mp hnewest
      rw [if_neg hfilled, if_pos ⟨rfl, hnewest⟩]
      refine ⟨?_, rfl⟩
      have hvalid := Ledger.close_valid h.valid hnewest
      have hclosed := h.modifyWritten hopen hvalid rfl
        (Ledger.window_eq (h.valid.open_ne_nil hopen)) hholding hrecords.sealed rfl rfl
      exact hclosed.onSealed hlisted

end Follows

end Graph

end Slidewalk
