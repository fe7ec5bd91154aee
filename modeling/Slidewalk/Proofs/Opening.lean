import Slidewalk.Proofs.Repacking

/-!
# Opening a segment opens a bucket

The newest segment is found open exactly if the newest bucket is. Opening another one drops what is
beyond the limit from the front of the window, and everything there is sealed.
-/

namespace Slidewalk

/-- The options give a working packing and let segments be opened. -/
structure Options.Works (options : Options) (codec : EdgeCodec) : Prop where
  resolves : options.resolveCodec = .ok codec
  suits : Suits options.limits codec
  capacity_pos : 0 < options.limits.segmentEdgeCapacity
  segments_pos : 0 < options.limits.maxSegments
  creates : ∀ id, ∃ segment, Segment.create id options = .ok segment

namespace Ledger

variable {ledger next : Ledger}

theorem length_buckets_pos (hwindow : ledger.window ≠ []) : 0 < ledger.buckets.length := by
  have := List.length_pos_iff.mpr hwindow
  rw [buckets, List.length_append]
  omega

theorem isSealed_last (hwindow : ledger.window ≠ []) :
    ledger.isSealed (ledger.buckets.length - 1) = !ledger.isOpen := by
  have := length_buckets_pos hwindow
  rw [isSealed, Nat.sub_add_cancel this, beq_self_eq_true, Bool.and_true]

theorem isSealed_of_ne {id : Nat} (hid : id + 1 ≠ ledger.buckets.length) :
    ledger.isSealed id = true := by
  rw [isSealed, beq_false_of_ne hid, Bool.and_false, Bool.not_false]

theorem isSealed_of_closed (hclosed : ledger.isOpen = false) (id : Nat) :
    ledger.isSealed id = true := by
  rw [isSealed, hclosed, Bool.false_and, Bool.not_false]

theorem getElem?_buckets_last (hwindow : ledger.window ≠ []) :
    ledger.buckets[ledger.buckets.length - 1]? = some ledger.newest := by
  rw [← List.getLast?_eq_getElem?, buckets, List.getLast?_append, newest,
    List.getLastD_eq_getLast?, List.getLast?_eq_some_getLast hwindow]
  rfl

/-- Ledgers that differ in the newest bucket agree on the others. -/
theorem getElem?_buckets_of_eq {bucket : Bucket} (hwindow : ledger.window ≠ [])
    (hdropped : next.dropped = ledger.dropped)
    (hnext : next.window = ledger.window.dropLast ++ [bucket]) (id : Nat) :
    next.buckets.length = ledger.buckets.length ∧
      next.buckets[id]? =
        if id + 1 = ledger.buckets.length then some bucket else ledger.buckets[id]? := by
  have hold : ledger.buckets = (ledger.dropped ++ ledger.window.dropLast) ++ [ledger.newest] := by
    rw [buckets, List.append_assoc, ← window_eq hwindow]
  have hnew : next.buckets = (ledger.dropped ++ ledger.window.dropLast) ++ [bucket] := by
    rw [buckets, hdropped, hnext, List.append_assoc]
  rw [hold, hnew]
  generalize ledger.dropped ++ ledger.window.dropLast = front
  refine ⟨by simp, ?_⟩
  rw [List.getElem?_append, List.getElem?_append, List.length_append, List.length_singleton]
  -- the place is the last one, in front of it or behind it
  by_cases hlast : id = front.length
  · subst hlast
    simp
  · rw [if_neg (by omega : ¬id + 1 = front.length + 1)]
    by_cases hlt : id < front.length
    · rw [if_pos hlt, if_pos hlt]
    · have hbeyond (last : Bucket) : [last][id - front.length]? = none :=
        List.getElem?_eq_none (by rw [List.length_singleton]; omega)
      rw [if_neg hlt, if_neg hlt, hbeyond, hbeyond]

end Ledger

namespace Segment

theorem create_of_create {id other : Nat} {options : Options} {segment : Segment}
    (h : create id options = .ok segment) :
    create other options = .ok { segment with id := other } := by
  obtain ⟨codec, index, pool, -, -, -, rfl, hcreates⟩ := exists_of_create h
  exact hcreates other

end Segment

namespace Graph

variable {options : Options} {codec : EdgeCodec} {ledger : Ledger} {graph : Graph}
  {version : Version} {edge : Edge}

/-! ## The newest segment -/

namespace Follows

theorem exists_last (h : graph.Follows options codec ledger) (hwindow : ledger.window ≠ []) :
    ∃ version, graph.window.getLast? = some version ∧ version ∈ graph.window ∧
      version.segment = ledger.buckets.length - 1 := by
  have hne : graph.window ≠ [] := by
    rw [← List.length_pos_iff, h.length_window]
    exact List.length_pos_iff.mpr hwindow
  have hpos := List.length_pos_iff.mpr hne
  refine ⟨_, List.getLast?_eq_some_getLast hne, List.getLast_mem hne, ?_⟩
  rw [List.getLast_eq_getElem, h.getElem_window (by omega), h.length_window, Ledger.buckets,
    List.length_append]
  rw [h.length_window] at hpos
  omega

/-- An open segment is listed as written and has not been repacked. -/
theorem exists_open (h : graph.Follows options codec ledger) (hopen : ledger.isOpen = true) :
    ∃ holding, graph.holdings[ledger.buckets.length - 1]? = some holding ∧
      holding.written.Records options.limits codec ledger.newest ∧
      holding.written.id = ledger.buckets.length - 1 ∧ holding.written.isSealed = false ∧
      holding.repacked = none ∧ graph.openVersion? = some ⟨ledger.buckets.length - 1, false⟩ ∧
      ⟨ledger.buckets.length - 1, false⟩ ∈ graph.window := by
  have hwindow := h.valid.open_ne_nil hopen
  have hpos := Ledger.length_buckets_pos hwindow
  obtain ⟨holding, hholding⟩ := h.exists_holding (Nat.sub_lt hpos Nat.one_pos)
  have hrecords := h.holdings _ _ _ hholding (Ledger.getElem?_buckets_last hwindow)
  have hsealed := hrecords.isSealed_eq
  rw [Ledger.isSealed_last hwindow, hopen, Bool.not_true] at hsealed
  -- repacking asks for a seal, and the newest bucket is still open
  have hnone : holding.repacked = none := by
    cases hrepacked : holding.repacked with
    | none => rfl
    | some segment =>
      obtain ⟨-, -, -, hclosed⟩ := hrecords.repacked segment hrepacked
      rw [Ledger.isSealed_last hwindow, hopen] at hclosed
      contradiction
  obtain ⟨version, hlast, hmem, hsegment⟩ := h.exists_last hwindow
  -- what has not been repacked is not listed as repacked
  have hversion : version = ⟨ledger.buckets.length - 1, false⟩ := by
    cases hrepacked : version.repacked with
    | false =>
      rw [← hsegment, ← hrepacked]
    | true =>
      obtain ⟨kept, segment, hkept, hsome⟩ := h.listed version hmem hrepacked
      rw [hsegment, hholding] at hkept
      obtain rfl := Option.some.inj hkept
      rw [hnone] at hsome
      contradiction
  refine ⟨holding, hholding, hrecords.written, hrecords.id_eq, hsealed, hnone, ?_, hversion ▸ hmem⟩
  unfold openVersion? segment?
  rw [hlast, hversion]
  dsimp only
  rw [hholding]
  dsimp only
  rw [if_neg (by decide)]
  dsimp only
  rw [hsealed]
  rfl

theorem openVersion?_of_closed (h : graph.Follows options codec ledger)
    (hclosed : ledger.isOpen = false) : graph.openVersion? = none := by
  unfold openVersion?
  by_cases hwindow : ledger.window = []
  · have hlength := h.length_window
    rw [hwindow, List.length_nil] at hlength
    rw [List.eq_nil_of_length_eq_zero hlength]
    rfl
  · obtain ⟨version, hlast, hmem, hsegment⟩ := h.exists_last hwindow
    have hbucket := Ledger.getElem?_buckets_last hwindow
    rw [← hsegment] at hbucket
    obtain ⟨segment, hfound, hshows⟩ := h.segment?_eq (h.listed version hmem) hbucket
    have hsealed := hshows.isSealed_eq.trans (Ledger.isSealed_of_closed hclosed _)
    rw [hlast]
    dsimp only
    rw [hfound]
    dsimp only
    rw [hsealed]
    rfl

end Follows

/-! ## Opening a segment -/

theorem evict_eq {isSealed : Version → Bool} {limit : Nat} (hpos : 0 < limit)
    (versions : List Version) (hsealed : ∀ version ∈ versions.dropLast, isSealed version = true) :
    evict isSealed limit versions =
      (versions.length - limit, some (versions.drop (versions.length - limit))) := by
  induction versions with
  | nil => simp [evict]
  | cons version rest ih =>
    unfold evict
    by_cases hshort : (version :: rest).length ≤ limit
    · rw [if_pos hshort, Nat.sub_eq_zero_of_le hshort, List.drop_zero]
    · rw [List.length_cons] at hshort
      -- the oldest version is not the last one, hence sealed, and it goes first
      have hrest : rest ≠ [] := List.length_pos_iff.mp (by omega)
      rw [List.dropLast_cons_of_ne_nil hrest] at hsealed
      rw [if_neg (by rw [List.length_cons]; exact hshort),
        if_pos (hsealed version List.mem_cons_self),
        ih fun other hother => hsealed other (List.mem_cons_of_mem _ hother)]
      have hexcess : (version :: rest).length - limit = rest.length - limit + 1 := by
        rw [List.length_cons]
        omega
      rw [hexcess, List.drop_succ_cons]

/-- The graph with another segment opened that is not listed yet. -/
def hold (graph : Graph) (segment : Segment) : Graph :=
  { graph with holdings := graph.holdings.push ⟨segment, none⟩ }

theorem getElem?_holdings_hold (segment : Segment) (id : Nat) :
    (graph.hold segment).holdings[id]? =
      if id = graph.holdings.size then some ⟨segment, none⟩ else graph.holdings[id]? :=
  Array.getElem?_push

theorem segment?_hold {segment : Segment} (hlt : version.segment < graph.holdings.size) :
    (graph.hold segment).segment? version = graph.segment? version := by
  unfold segment?
  rw [getElem?_holdings_hold, if_neg (by omega)]

/-- When all that is listed is sealed, nothing stops the eviction of the oldest segments. -/
theorem openSegment_of_sealed (hoptions : graph.options = options)
    (hpos : 0 < options.limits.maxSegments)
    (hlt : ∀ version ∈ graph.window, version.segment < graph.holdings.size)
    (hsealed : ∀ version ∈ graph.window, graph.isSealedVersion version = true) {segment : Segment}
    (hcreate : Segment.create graph.holdings.size options = .ok segment) :
    graph.openSegment = ({ graph.hold segment with
      window := (graph.window ++ [Version.mk graph.holdings.size false]).drop
        (graph.window.length + 1 - options.limits.maxSegments)
      counters := graph.counters.countEvicted
        (graph.window.length + 1 - options.limits.maxSegments) },
      .ok ⟨graph.holdings.size, false⟩) := by
  have hheld : ∀ version ∈ (graph.window ++ [Version.mk graph.holdings.size false]).dropLast,
      (graph.hold segment).isSealedVersion version = true := by
    intro version hversion
    rw [List.dropLast_concat] at hversion
    unfold isSealedVersion
    rw [segment?_hold (hlt version hversion)]
    exact hsealed version hversion
  have hevict := evict_eq hpos _ hheld
  rw [List.length_append, List.length_singleton] at hevict
  unfold hold at hevict
  rw [hoptions] at hevict
  unfold Graph.openSegment hold
  rw [hoptions, hcreate]
  dsimp only
  rw [hevict]

theorem keeps_hold {segment : Segment} (h : graph.Keeps version)
    (hlt : version.segment < graph.holdings.size) : (graph.hold segment).Keeps version := by
  intro hrepacked
  obtain ⟨holding, kept, hholding, hkept⟩ := h hrepacked
  refine ⟨holding, kept, ?_, hkept⟩
  rw [getElem?_holdings_hold, if_neg (by omega)]
  exact hholding

namespace Follows

theorem openSegment_eq (h : graph.Follows options codec ledger) (hclosed : ledger.isOpen = false)
    (hpos : 0 < options.limits.maxSegments) {segment : Segment}
    (hcreate : Segment.create ledger.buckets.length options = .ok segment) :
    graph.openSegment = ({ graph.hold segment with
      window := (graph.window ++ [Version.mk ledger.buckets.length false]).drop
        (ledger.window.length + 1 - options.limits.maxSegments)
      counters := graph.counters.countEvicted
        (ledger.window.length + 1 - options.limits.maxSegments) },
      .ok ⟨ledger.buckets.length, false⟩) := by
  -- the ledger is closed, so all that is listed is sealed
  have hsealed : ∀ version ∈ graph.window, graph.isSealedVersion version = true := by
    intro version hversion
    obtain ⟨found, hfound, hshows⟩ := h.segment?_eq (h.listed version hversion)
      (List.getElem?_eq_getElem (h.segment_lt hversion))
    unfold isSealedVersion
    rw [hfound]
    exact hshows.isSealed_eq.trans (Ledger.isSealed_of_closed hclosed _)
  rw [← h.size] at hcreate ⊢
  rw [← h.length_window]
  refine openSegment_of_sealed h.options_eq hpos (fun version hversion => ?_) hsealed hcreate
  rw [h.size]
  exact h.segment_lt hversion

theorem hold_records (h : graph.Follows options codec ledger) (hclosed : ledger.isOpen = false)
    {segment : Segment} (hrecords : segment.Records options.limits codec [])
    (hid : segment.id = ledger.buckets.length) (hopen : segment.isSealed = false)
    {id : Nat} {holding : Holding} {bucket : Bucket}
    (hholding : (graph.hold segment).holdings[id]? = some holding)
    (hbucket : (ledger.opened options.limits).buckets[id]? = some bucket) :
    holding.Records options.limits codec id ((ledger.opened options.limits).isSealed id)
      bucket := by
  have hbuckets : (ledger.opened options.limits).buckets = ledger.buckets ++ [[]] :=
    Ledger.buckets_opened hclosed
  rw [getElem?_holdings_hold, h.size] at hholding
  rw [hbuckets, List.getElem?_append] at hbucket
  have hlength : (ledger.opened options.limits).buckets.length = ledger.buckets.length + 1 := by
    rw [hbuckets, List.length_append, List.length_singleton]
  -- the id of the new segment, or one from before
  by_cases hnew : id = ledger.buckets.length
  · subst hnew
    rw [if_pos rfl] at hholding
    rw [if_neg (Nat.lt_irrefl _), Nat.sub_self] at hbucket
    obtain rfl := Option.some.inj hholding
    obtain rfl := Option.some.inj hbucket
    refine ⟨hrecords, hid, ?_, fun repacked hrepacked => by simp at hrepacked⟩
    rw [hopen, Ledger.isSealed, Ledger.isOpen_opened, hlength, beq_self_eq_true]
    rfl
  · rw [if_neg hnew] at hholding
    have hlt : id < ledger.buckets.length := by
      rw [← h.size]
      exact (Array.getElem?_eq_some_iff.mp hholding).1
    rw [if_pos hlt] at hbucket
    have hold := h.holdings id holding bucket hholding hbucket
    rw [Ledger.isSealed_of_closed hclosed] at hold
    rw [Ledger.isSealed_of_ne (by omega)]
    exact hold

theorem openSegment (h : graph.Follows options codec ledger) (hworks : options.Works codec)
    (hclosed : ledger.isOpen = false) :
    ∃ next, graph.openSegment = (next, .ok ⟨ledger.buckets.length, false⟩) ∧
      next.Follows options codec (ledger.opened options.limits) := by
  obtain ⟨segment, hcreate⟩ := hworks.creates ledger.buckets.length
  obtain ⟨hrecords, hopen, hid⟩ := Segment.create_records hcreate hworks.resolves
  have hpos := hworks.segments_pos
  refine ⟨_, h.openSegment_eq hclosed hpos hcreate, h.options_eq,
    Ledger.opened_valid h.valid hpos hworks.capacity_pos, ?_, ?_, ?_, ?_⟩
  · show (graph.holdings.push _).size = _
    rw [Array.size_push, h.size, Ledger.buckets_opened hclosed, List.length_append,
      List.length_singleton]
  · intro id holding bucket hholding hbucket
    exact h.hold_records hclosed hrecords hid hopen hholding hbucket
  -- ids are consecutive, and dropping from the front keeps them so
  · have hids : (graph.window ++ [Version.mk ledger.buckets.length false]).map (·.segment) =
        List.range' ledger.dropped.length (ledger.window.length + 1) := by
      rw [List.map_append, h.window, List.range'_concat, Ledger.buckets, List.length_append,
        Nat.one_mul]
      rfl
    show ((graph.window ++ [Version.mk ledger.buckets.length false]).drop _).map (·.segment) = _
    rw [List.map_drop, hids, List.drop_range', Nat.mul_one, Ledger.opened, hclosed,
      if_neg (by decide)]
    dsimp only
    rw [List.length_append, List.length_take, List.length_drop, List.length_append,
      List.length_singleton, Nat.min_eq_left (by omega)]
  · intro version hversion
    have hversion := List.mem_of_mem_drop hversion
    rcases List.mem_append.mp hversion with hold | hnew
    · exact keeps_hold (h.listed version hold) (by rw [h.size]; exact h.segment_lt hold)
    · rw [List.mem_singleton.mp hnew]
      intro hrepacked
      contradiction

end Follows

end Graph

end Slidewalk
