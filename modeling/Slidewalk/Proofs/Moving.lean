import Slidewalk.Proofs.Orderly

/-!
# Every operation keeps the window in order

Repacking changes copies only. A seal closes the newest segment, by capacity or by hand. An edge
goes to the newest segment, for which one more is opened if the newest is sealed; then at most one
is evicted, and nothing stops that.
-/

namespace Slidewalk.Graph

variable {options : Options} {byHand : List Nat} {opened evicted : Nat} {graph next : Graph}
  {version : Version} {edge : Edge} {fault : Fault} {holding : Holding}

namespace Orderly

/-! ## Repacking -/

theorem keepRepacked (h : graph.Orderly options byHand) {segment : Segment}
    (hfound : graph.holdings[version.segment]? = some holding)
    (hrepack : holding.written.repack = .ok segment) :
    Moves options byHand 0 0 graph (graph.keepRepacked version.segment segment) := by
  refine h.modify (List.Subset.refl _) fun found hother => ?_
  obtain rfl := Option.some.inj (hfound.symm.trans hother)
  have hold := h.holdings _ _ hfound
  refine ⟨⟨hold.id_eq, hold.lawful, hold.unpacked, fun copy hcopy => ?_⟩, fun _ => rfl,
    fun copy hcopy => ?_⟩
  · obtain rfl := Option.some.inj hcopy
    exact hrepack
  -- a copy that was kept before is the same one
  · have hsame := (hold.repacked copy hcopy).symm.trans hrepack
    rw [Except.ok.inj hsame]

theorem repackVersion (h : graph.Orderly options byHand) (hunpacked : version.repacked = false) :
    Moves options byHand 0 0 graph (graph.repackVersion version).1 ∧
      ∀ repacked, (graph.repackVersion version).2 = .ok repacked →
        repacked.segment = version.segment ∧ (graph.repackVersion version).1.Keeps repacked := by
  unfold Graph.repackVersion segment?
  cases hfound : graph.holdings[version.segment]? with
  | none =>
    refine ⟨.refl h, fun repacked hok => ?_⟩
    obtain rfl := Except.ok.inj hok
    exact ⟨rfl, fun hrepacked => by rw [hunpacked] at hrepacked; contradiction⟩
  | some holding =>
    dsimp only
    rw [hunpacked, if_neg (by decide)]
    dsimp only
    cases hrepack : holding.written.repack with
    | error fault => exact ⟨.refl h, fun repacked hok => by contradiction⟩
    | ok segment =>
      refine ⟨(h.keepRepacked hfound hrepack).recount rfl, fun repacked hok => ?_⟩
      obtain rfl := Except.ok.inj hok
      refine ⟨rfl, fun _ => ⟨{ holding with repacked := some segment }, segment, ?_, rfl⟩⟩
      show (graph.holdings.modify version.segment _)[version.segment]? = _
      rw [Array.getElem?_modify, if_pos rfl, hfound]
      rfl

theorem unpacked_of_isRepackable (h : graph.Orderly options byHand)
    (hkeeps : graph.Keeps version) (hlt : version.segment < graph.holdings.size)
    (hrepackable : graph.isRepackable version = true) : version.repacked = false := by
  obtain ⟨segment, -, hsegment, -, -, -, -, hrepacked, -⟩ := h.segment?_spec hkeeps hlt
  unfold isRepackable at hrepackable
  rw [hsegment] at hrepackable
  dsimp only at hrepackable
  rw [← hrepacked]
  simpa using (Bool.and_eq_true_iff.mp hrepackable).2

theorem moves_stepwise (options : Options) (byHand : List Nat) :
    RepacksStepwise (Moves options byHand 0 0) fun graph version =>
      graph.Keeps version ∧ version.segment < graph.holdings.size where
  after h := .refl h.orderly
  trans := .trans
  keeps h := h.1
  remains h hreadable := ⟨h.evolves.keeps hreadable.1, h.size.symm ▸ hreadable.2⟩
  repackVersion h hreadable hrepackable := by
    have hunpacked := h.orderly.unpacked_of_isRepackable hreadable.1 hreadable.2 hrepackable
    obtain ⟨hnext, hlisted⟩ := h.orderly.repackVersion hunpacked
    refine ⟨hnext, fun repacked hok => ?_⟩
    obtain ⟨hsegment, hkeeps⟩ := hlisted repacked hok
    rw [hsegment, hnext.size]
    exact ⟨rfl, hkeeps, hreadable.2⟩

theorem optimizeSealed (h : graph.Orderly options byHand) :
    Moves options byHand 0 0 graph graph.optimizeSealed.1 := by
  have hspec := (moves_stepwise options byHand).repackAll (.refl h) graph.window
    fun version hversion => ⟨h.listed version hversion, h.segment_lt hversion⟩
  unfold Graph.optimizeSealed
  generalize graph.repackAll graph.window = answer at hspec
  obtain ⟨next, result⟩ := answer
  obtain ⟨hnext, hlisted⟩ := hspec
  cases result with
  | error fault => exact hnext
  | ok answer =>
    have hall := hlisted answer.1 answer.2 rfl
    refine hnext.relist ?_ hall.keeps
    rw [hall.segments, hnext.ids, List.range'_zero, List.append_nil, List.drop_zero]
    rfl

theorem onSealed (h : graph.Orderly options byHand) (hunpacked : version.repacked = false) :
    Moves options byHand 0 0 graph (graph.onSealed version) := by
  have hcounted : Moves options byHand 0 0 graph
      { graph with counters := graph.counters.countSealed } := (Moves.refl h).recount rfl
  have hspec := hcounted.orderly.repackVersion hunpacked
  unfold Graph.onSealed
  dsimp only
  split
  · generalize Graph.repackVersion _ version = answer at hspec
    obtain ⟨next, result⟩ := answer
    obtain ⟨hnext, hlisted⟩ := hspec
    have hnext := hcounted.trans hnext
    cases result with
    | error fault => exact hnext
    | ok repacked =>
      obtain ⟨hsegment, hkeeps⟩ := hlisted repacked rfl
      have hall := Relists.replace hnext.orderly.listed hsegment hkeeps
      exact hnext.relist hall.segments hall.keeps
  · exact hcounted

/-! ## Opening -/

/-- The ids that stay listed once another segment is listed behind them. -/
theorem suffix_concat (h : graph.Orderly options byHand) (excess : Nat) :
    (graph.ids ++ [graph.holdings.size]).drop excess <:+
      List.range (graph.holdings.size + 1) := by
  obtain ⟨front, hfront⟩ := h.ids
  refine (List.drop_suffix _ _).trans ⟨front, ?_⟩
  rw [← List.append_assoc, hfront, List.range_succ]

theorem openSegment_eq (h : graph.Orderly options byHand) (hpos : 0 < options.limits.maxSegments)
    (hnone : graph.openVersion? = none) {segment : Segment}
    (hcreate : Segment.create graph.holdings.size options = .ok segment) :
    graph.openSegment = ({ graph.hold segment with
      window := (graph.window ++ [Version.mk graph.holdings.size false]).drop
        (graph.window.length + 1 - options.limits.maxSegments)
      counters := graph.counters.countEvicted
        (graph.window.length + 1 - options.limits.maxSegments) },
      .ok ⟨graph.holdings.size, false⟩) := by
  refine openSegment_of_sealed h.options_eq hpos (fun version hversion => h.segment_lt hversion)
    (fun version hversion => ?_) hcreate
  obtain ⟨found, holding, hfound, hholding, -, -, hseal, -⟩ :=
    h.segment?_spec (h.listed version hversion) (h.segment_lt hversion)
  unfold isSealedVersion
  rw [hfound]
  exact hseal.trans (h.sealed_of_openVersion? hnone hholding)

theorem openSegment (h : graph.Orderly options byHand) (hopens : options.Opens)
    (hnone : graph.openVersion? = none) :
    ∃ evicted next holding, evicted ≤ 1 ∧
      graph.openSegment = (next, .ok ⟨graph.holdings.size, false⟩) ∧
      Moves options byHand 1 evicted graph next ∧
      next.Receives ⟨graph.holdings.size, false⟩ holding := by
  obtain ⟨segment, hcreate⟩ := hopens.creates graph.holdings.size
  obtain ⟨hlawful, hid, hopen, hunpacked⟩ :=
    Segment.outline_lawful_of_create hcreate hopens.capacity_pos byHand
  have hpos := hopens.segments_pos
  have hlength := h.length_le
  have hsize : (graph.hold segment).holdings.size = graph.holdings.size + 1 := Array.size_push _
  have hnew : (graph.hold segment).holdings[graph.holdings.size]? = some ⟨segment, none⟩ := by
    rw [getElem?_holdings_hold, if_pos rfl]
  generalize hexcess : graph.window.length + 1 - options.limits.maxSegments = excess
  have hids : ((graph.window ++ [Version.mk graph.holdings.size false]).drop excess).map
      (·.segment) = (graph.ids ++ [graph.holdings.size]).drop excess := by
    rw [List.map_drop, List.map_append]
    rfl
  refine ⟨excess, _, ⟨segment, none⟩, by omega, h.openSegment_eq hpos hnone hcreate, ?_, ?_⟩
  · rw [hexcess]
    refine ⟨⟨h.options_eq, fun id holding hholding => ?_, fun id holding hholding hlt => ?_, ?_,
      ?_, fun _ => ?_, fun version hversion => ?_⟩, ⟨fun id holding hholding => ?_⟩, hsize, hids,
      rfl⟩
    · have hholding := (getElem?_holdings_hold segment id).symm.trans hholding
      split at hholding
      · rename_i hlast
        obtain rfl := Option.some.inj hholding
        exact ⟨hid.trans hlast.symm, hlawful, hunpacked, fun copy hcopy => by contradiction⟩
      · exact h.holdings id holding hholding
    · have hlt : id + 1 < (graph.hold segment).holdings.size := hlt
      have hholding := (getElem?_holdings_hold segment id).symm.trans hholding
      rw [if_neg (by omega)] at hholding
      exact h.sealed_of_openVersion? hnone hholding
    · show List.length (List.drop _ _) ≤ _
      rw [List.length_drop, List.length_append, List.length_singleton]
      omega
    · show List.map _ _ <:+ List.range (graph.hold segment).holdings.size
      rw [hids, hsize]
      exact h.suffix_concat excess
    -- the new segment stays listed
    · show List.map _ _ ≠ []
      rw [hids, List.drop_append_of_le_length]
      · simp
      · rw [Graph.ids, List.length_map]
        omega
    · rcases List.mem_append.mp (List.mem_of_mem_drop hversion) with hold | hnew
      · exact keeps_hold (h.listed version hold) (h.segment_lt hold)
      · rw [List.mem_singleton.mp hnew]
        intro hrepacked
        contradiction
    · have hlt := (Array.getElem?_eq_some_iff.mp hholding).1
      refine ⟨holding, ?_, fun _ => rfl, fun _ hsome => hsome⟩
      exact (getElem?_holdings_hold segment id).trans (by rw [if_neg (by omega), hholding])
  · refine ⟨?_, hsize.symm, rfl, hnew, hopen⟩
    show (List.drop _ _).getLast? = _
    rw [List.drop_append_of_le_length (by omega), List.getLast?_concat]

/-! ## Adding -/

theorem target (h : graph.Orderly options byHand) (hopens : options.Opens) :
    ∃ opened evicted next version holding, evicted ≤ opened ∧ opened ≤ 1 ∧
      graph.target = (next, .ok version) ∧ Moves options byHand opened evicted graph next ∧
      next.Receives version holding := by
  unfold Graph.target
  cases hversion : graph.openVersion? with
  | some version =>
    obtain ⟨holding, hreceives⟩ := h.receives hversion
    exact ⟨0, 0, graph, version, holding, Nat.le_refl _, Nat.zero_le _, rfl, .refl h, hreceives⟩
  | none =>
    obtain ⟨evicted, next, holding, hevicted, hopened, hmoves, hreceives⟩ :=
      h.openSegment hopens hversion
    exact ⟨1, evicted, next, _, holding, hevicted, Nat.le_refl _, hopened, hmoves, hreceives⟩

theorem offer (h : graph.Orderly options byHand) (hreceives : graph.Receives version holding)
    (edge : Edge) :
    (graph.offer version.segment edge).2 = (holding.written.add edge).2 ∧
      Moves options byHand 0 0 graph (graph.offer version.segment edge).1 := by
  have hlawful := (h.holdings _ _ hreceives.found).lawful
  have houtline := Segment.outline_add hreceives.isOpen (hlawful.lt_capacity hreceives.isOpen) edge
  rw [offer_eq, hreceives.found]
  dsimp only
  refine ⟨rfl, h.modifyWritten (List.Subset.refl _) hreceives ?_ ?_ ?_⟩
  · rw [houtline, Outline.id_offered]
  · rw [houtline]
    exact hlawful.offered hreceives.isOpen _
  · rw [houtline, Outline.isRepacked_offered]

/-- An edge is refused for a reason of its own, or of the packing. -/
theorem exists_encode_of_offer (h : graph.Orderly options byHand)
    (hreceives : graph.Receives version holding)
    (hfault : (graph.offer version.segment edge).2 = .error fault)
    (hlocal : fault.isLocal = false) :
    ∃ codec number, options.resolveCodec = .ok codec ∧
      codec.encode number edge.kind = .error fault := by
  have hlawful := (h.holdings _ _ hreceives.found).lawful
  rw [(h.offer hreceives edge).1] at hfault
  obtain ⟨number, hencode⟩ := Segment.exists_encode_of_add hreceives.isOpen
    (hlawful.lt_capacity hreceives.isOpen) hfault hlocal
  exact ⟨_, number, hlawful.codec, hencode⟩

theorem add (h : graph.Orderly options byHand) (hopens : options.Opens) (edge : Edge) :
    ∃ opened evicted, evicted ≤ opened ∧ opened ≤ 1 ∧
      Moves options byHand opened evicted graph (graph.add edge).1 ∧
      ∀ fault, (graph.add edge).2 = .error fault → fault.isLocal = false →
        ∃ codec number, options.resolveCodec = .ok codec ∧
          codec.encode number edge.kind = .error fault := by
  obtain ⟨opened, evicted, next, version, holding, hevicted, hopened, htarget, hmoves, hreceives⟩ :=
    h.target hopens
  refine ⟨opened, evicted, hevicted, hopened, ?_⟩
  obtain ⟨-, hoffered⟩ := hmoves.orderly.offer hreceives edge
  have hfault (fault : Fault)
      (hrefused : (next.offer version.segment edge).2 = .error fault) :=
    hmoves.orderly.exists_encode_of_offer hreceives hrefused
  have hoffered := hmoves.trans hoffered
  unfold Graph.add
  rw [htarget]
  dsimp only
  generalize next.offer version.segment edge = answer at hoffered hfault
  obtain ⟨offered, result⟩ := answer
  cases result with
  | error refusal =>
    refine ⟨hoffered.recount rfl, fun fault hrefused => ?_⟩
    exact hfault fault hrefused
  | ok _ =>
    refine ⟨?_, fun fault hrefused => by contradiction⟩
    dsimp only
    have hcounted : Moves options byHand opened evicted graph
        { offered with counters := offered.counters.countAdded } := hoffered.recount rfl
    -- the segment may have filled up and be repacked at once
    split
    · exact hcounted.trans (hcounted.orderly.onSealed hreceives.unpacked)
    · exact hcounted

/-! ## Sealing -/

theorem sealCurrent (h : graph.Orderly options byHand) :
    Moves options (byHand ++ (Answer.sealed graph.sealCurrent.2).closed graph.snapshot.newest?) 0 0
      graph graph.sealCurrent.1 := by
  unfold Graph.sealCurrent
  cases hversion : graph.openVersion? with
  | none => exact .refl (h.mono (List.subset_append_left _ _))
  | some version =>
    obtain ⟨holding, hreceives⟩ := h.receives hversion
    dsimp only
    rw [hreceives.segment?_eq]
    dsimp only
    by_cases hempty : holding.written.edgeCount = 0
    · rw [if_pos hempty]
      exact .refl (h.mono (List.subset_append_left _ _))
    · rw [if_neg hempty]
      have hnewest : graph.snapshot.newest? = some version.segment := by
        unfold Snapshot.newest? snapshot
        rw [hreceives.last]
        rfl
      have hold := h.holdings _ _ hreceives.found
      have hlisted : holding.written.outline.id ∈ byHand ++ [version.segment] :=
        List.mem_append_right _ (List.mem_singleton.mpr hold.id_eq)
      rw [hnewest]
      have hclosed : Moves options (byHand ++ [version.segment]) 0 0 graph
          (graph.modifyWritten version.segment (·.sealed)) :=
        h.modifyWritten (List.subset_append_left _ _) hreceives rfl
          ((hold.lawful.mono (List.subset_append_left _ _)).closed hempty hlisted) rfl
      exact hclosed.trans (hclosed.orderly.onSealed hreceives.unpacked)

/-! ## Runs -/

theorem perform (h : graph.Orderly options byHand) (hopens : options.Opens)
    (operation : Operation) :
    ∃ opened evicted, evicted ≤ opened ∧ opened ≤ 1 ∧
      Moves options (byHand ++ (graph.perform operation).2.closed graph.snapshot.newest?) opened
        evicted graph (graph.perform operation).1 := by
  cases operation with
  | add edge =>
    obtain ⟨opened, evicted, hevicted, hopened, hmoves, -⟩ := h.add hopens edge
    refine ⟨opened, evicted, hevicted, hopened, ?_⟩
    show Moves options (byHand ++ []) _ _ _ _
    rw [List.append_nil]
    exact hmoves
  | sealCurrent => exact ⟨0, 0, Nat.le_refl _, Nat.zero_le _, h.sealCurrent⟩
  | optimizeSealed =>
    refine ⟨0, 0, Nat.le_refl _, Nat.zero_le _, ?_⟩
    show Moves options (byHand ++ []) _ _ _ _
    rw [List.append_nil]
    exact h.optimizeSealed

theorem run (h : graph.Orderly options byHand) (hopens : options.Opens)
    (operations : List Operation) :
    (graph.run operations).1.Orderly options (byHand ++ graph.closedByHand operations) ∧
      graph.Evolves (graph.run operations).1 := by
  induction operations generalizing graph byHand with
  | nil =>
    refine ⟨?_, .refl graph⟩
    show graph.Orderly options (byHand ++ [])
    rw [List.append_nil]
    exact h
  | cons operation rest ih =>
    obtain ⟨opened, evicted, -, -, hmoves⟩ := h.perform hopens operation
    obtain ⟨hfinal, hevolves⟩ := ih hmoves.orderly
    rw [List.append_assoc] at hfinal
    exact ⟨hfinal, hmoves.evolves.trans hevolves⟩

end Orderly

end Slidewalk.Graph
