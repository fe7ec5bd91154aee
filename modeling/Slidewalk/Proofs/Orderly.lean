import Slidewalk.Proofs.Opening
import Slidewalk.Proofs.Outline

/-!
# A window in order

`Orderly` is what every operation keeps, whatever the packing of entries does: the window lists the
last of the segments that were opened, and all but the newest are sealed. `Evolves` is what becomes
of the segments meanwhile: a sealed one stays as it is, and so does a repacked copy.
-/

namespace Slidewalk

/-- The options let segments be opened. -/
structure Options.Opens (options : Options) : Prop where
  capacity_pos : 0 < options.limits.segmentEdgeCapacity
  segments_pos : 0 < options.limits.maxSegments
  creates : ∀ id, ∃ segment, Segment.create id options = .ok segment

/-- A segment takes edges until it is full; only one that was closed by hand is sealed before. -/
structure Outline.Lawful (options : Options) (byHand : List Nat) (outline : Outline) : Prop where
  edgeCapacity : outline.edgeCapacity = options.limits.segmentEdgeCapacity
  codec : options.resolveCodec = .ok outline.codec
  edgeCount_le : outline.edgeCount ≤ options.limits.segmentEdgeCapacity
  room : outline.isSealed = false → outline.edgeCount < options.limits.segmentEdgeCapacity
  filled : outline.isSealed = true → 0 < outline.edgeCount
  full : outline.isSealed = true → outline.id ∉ byHand →
    outline.edgeCount = options.limits.segmentEdgeCapacity

namespace Outline.Lawful

variable {options : Options} {byHand : List Nat} {outline : Outline}

theorem mono (h : outline.Lawful options byHand) {more : List Nat} (hmore : byHand ⊆ more) :
    outline.Lawful options more :=
  ⟨h.edgeCapacity, h.codec, h.edgeCount_le, h.room, h.filled, fun hsealed hid =>
    h.full hsealed fun hmem => hid (hmore hmem)⟩

theorem lt_capacity (h : outline.Lawful options byHand) (hopen : outline.isSealed = false) :
    outline.edgeCount < outline.edgeCapacity :=
  h.edgeCapacity.symm ▸ h.room hopen

theorem repacked (h : outline.Lawful options byHand) : outline.repacked.Lawful options byHand :=
  ⟨h.edgeCapacity, h.codec, h.edgeCount_le, h.room, h.filled, h.full⟩

theorem closed (h : outline.Lawful options byHand) (hfilled : outline.edgeCount ≠ 0)
    (hclosed : outline.id ∈ byHand) : outline.closed.Lawful options byHand :=
  ⟨h.edgeCapacity, h.codec, h.edgeCount_le, fun hopen => by simp [Outline.closed] at hopen,
    fun _ => Nat.pos_of_ne_zero hfilled, fun _ hid => absurd hclosed hid⟩

theorem counted (h : outline.Lawful options byHand) (hopen : outline.isSealed = false) :
    outline.counted.Lawful options byHand := by
  have hroom := h.room hopen
  have hcapacity := h.edgeCapacity
  -- the seal tells whether that was the last edge
  have hseal : outline.counted.isSealed = true ↔
      options.limits.segmentEdgeCapacity ≤ outline.edgeCount + 1 := by
    simp [Outline.counted, hopen, hcapacity]
  refine ⟨hcapacity, h.codec, hroom, fun hstill => ?_, fun _ => Nat.succ_pos _, fun hsealed _ => ?_⟩
  · show outline.edgeCount + 1 < _
    have hless := mt hseal.mpr (by rw [hstill]; decide)
    omega
  · show outline.edgeCount + 1 = _
    have hmore := hseal.mp hsealed
    omega

theorem offered (h : outline.Lawful options byHand) (hopen : outline.isSealed = false)
    (result : Except Fault Unit) : (outline.offered result).Lawful options byHand := by
  cases result with
  | error fault => exact h
  | ok _ => exact h.counted hopen

end Outline.Lawful

namespace Segment

theorem outline_lawful_of_create {id : Nat} {options : Options} {segment : Segment}
    (hcreate : create id options = .ok segment) (hpos : 0 < options.limits.segmentEdgeCapacity)
    (byHand : List Nat) :
    segment.outline.Lawful options byHand ∧ segment.id = id ∧ segment.isSealed = false ∧
      segment.isRepacked = false := by
  obtain ⟨codec, index, pool, hcodec, -, -, rfl, -⟩ := exists_of_create hcreate
  exact ⟨⟨rfl, hcodec, Nat.zero_le _, fun _ => hpos, fun hsealed => Bool.noConfusion hsealed,
    fun hsealed => Bool.noConfusion hsealed⟩, rfl, rfl, rfl⟩

end Segment

/-- What is kept of a segment: its copy is what repacking it gives. -/
structure Holding.Orderly (options : Options) (byHand : List Nat) (id : Nat) (holding : Holding) :
    Prop where
  id_eq : holding.written.id = id
  lawful : holding.written.outline.Lawful options byHand
  unpacked : holding.written.isRepacked = false
  repacked : ∀ segment, holding.repacked = some segment → holding.written.repack = .ok segment

/-- A sealed segment stays as it is, and so does a repacked copy. -/
structure Holding.Evolves (holding later : Holding) : Prop where
  written : holding.written.isSealed = true → later.written = holding.written
  repacked : ∀ segment, holding.repacked = some segment → later.repacked = some segment

namespace Graph

/-- The ids that the window lists. -/
def ids (graph : Graph) : List Nat := graph.window.map (·.segment)

structure Orderly (options : Options) (byHand : List Nat) (graph : Graph) : Prop where
  options_eq : graph.options = options
  holdings : ∀ (id : Nat) (holding : Holding), graph.holdings[id]? = some holding →
    holding.Orderly options byHand id
  settled : ∀ (id : Nat) (holding : Holding), graph.holdings[id]? = some holding →
    id + 1 < graph.holdings.size → holding.written.isSealed = true
  length_le : graph.window.length ≤ options.limits.maxSegments
  ids : graph.ids <:+ List.range graph.holdings.size
  ids_ne_nil : graph.holdings.size ≠ 0 → graph.ids ≠ []
  listed : ∀ version ∈ graph.window, graph.Keeps version

/-- Every segment that was opened is still there. -/
structure Evolves (graph later : Graph) : Prop where
  holdings : ∀ (id : Nat) (holding : Holding), graph.holdings[id]? = some holding →
    ∃ evolved, later.holdings[id]? = some evolved ∧ holding.Evolves evolved

/-- The second graph is the first after segments were opened at the end of the window and evicted
in front of it. -/
structure Moves (options : Options) (byHand : List Nat) (opened evicted : Nat)
    (graph next : Graph) : Prop where
  orderly : next.Orderly options byHand
  evolves : graph.Evolves next
  size : next.holdings.size = graph.holdings.size + opened
  ids : next.ids = (graph.ids ++ List.range' graph.holdings.size opened).drop evicted
  counted : next.counters.segmentsEvicted = graph.counters.segmentsEvicted + evicted

/-- The newest segment takes edges; it is listed as it was written. -/
structure Receives (graph : Graph) (version : Version) (holding : Holding) : Prop where
  last : graph.window.getLast? = some version
  newest : version.segment + 1 = graph.holdings.size
  unpacked : version.repacked = false
  found : graph.holdings[version.segment]? = some holding
  isOpen : holding.written.isSealed = false

variable {options : Options} {byHand more : List Nat} {opened evicted : Nat}
  {graph next last : Graph} {version : Version} {edge : Edge} {fault : Fault}

theorem Receives.mem_ids {holding : Holding} (h : graph.Receives version holding) :
    version.segment ∈ graph.ids :=
  List.mem_map_of_mem (List.mem_of_getLast? h.last)

theorem Receives.getElem?_modifyWritten {holding : Holding} (h : graph.Receives version holding)
    (change : Segment → Segment) :
    (graph.modifyWritten version.segment change).holdings[version.segment]? =
      some { holding with written := change holding.written } := by
  show (graph.holdings.modify version.segment _)[version.segment]? = _
  rw [Array.getElem?_modify, if_pos rfl, h.found]
  rfl

theorem Receives.segment?_eq {holding : Holding} (h : graph.Receives version holding) :
    graph.segment? version = some holding.written := by
  unfold segment?
  rw [h.found, h.unpacked]
  rfl

/-! ## Evolution -/

namespace Evolves

theorem refl (graph : Graph) : graph.Evolves graph :=
  ⟨fun _ holding hholding => ⟨holding, hholding, fun _ => rfl, fun _ hsome => hsome⟩⟩

theorem trans (h : graph.Evolves next) (h' : next.Evolves last) : graph.Evolves last := by
  refine ⟨fun id holding hholding => ?_⟩
  obtain ⟨evolved, hevolved, hwritten, hrepacked⟩ := h.holdings id holding hholding
  obtain ⟨final, hfinal, hwritten', hrepacked'⟩ := h'.holdings id evolved hevolved
  refine ⟨final, hfinal, fun hsealed => ?_, fun segment hsome =>
    hrepacked' segment (hrepacked segment hsome)⟩
  have hsame := hwritten hsealed
  rw [hwritten' (by rw [hsame]; exact hsealed), hsame]

theorem keeps (h : graph.Evolves next) (hkeeps : graph.Keeps version) : next.Keeps version := by
  intro hversion
  obtain ⟨holding, segment, hholding, hsegment⟩ := hkeeps hversion
  obtain ⟨evolved, hevolved, hevolves⟩ := h.holdings _ _ hholding
  exact ⟨evolved, segment, hevolved, hevolves.repacked segment hsegment⟩

/-- A segment that is found sealed is found unchanged ever after. -/
theorem segment?_eq (h : graph.Evolves next) {segment : Segment}
    (hfound : graph.segment? version = some segment) (hsealed : segment.isSealed = true) :
    next.segment? version = some segment := by
  unfold segment? at hfound ⊢
  cases hholding : graph.holdings[version.segment]? with
  | none => simp [hholding] at hfound
  | some holding =>
    obtain ⟨evolved, hevolved, hevolves⟩ := h.holdings _ _ hholding
    rw [hholding] at hfound
    rw [hevolved]
    dsimp only at hfound ⊢
    cases hversion : version.repacked with
    | false =>
      rw [hversion, if_neg (by decide)] at hfound
      obtain rfl := Option.some.inj hfound
      rw [if_neg (by decide), hevolves.written hsealed]
    | true =>
      rw [hversion, if_pos rfl] at hfound
      rw [if_pos rfl]
      exact hevolves.repacked segment hfound

end Evolves

/-- Order does not depend on the counters. -/
theorem Orderly.recount (h : graph.Orderly options byHand) (counters : Counters) :
    Graph.Orderly options byHand { graph with counters } :=
  ⟨h.options_eq, h.holdings, h.settled, h.length_le, h.ids, h.ids_ne_nil, h.listed⟩

/-! ## Moves -/

namespace Moves

theorem refl (h : graph.Orderly options byHand) : Moves options byHand 0 0 graph graph :=
  ⟨h, .refl graph, rfl, (List.append_nil _).symm, rfl⟩

theorem ids_eq (h : Moves options byHand 0 0 graph next) : next.ids = graph.ids := by
  rw [h.ids, List.range'_zero, List.append_nil, List.drop_zero]

/-- What follows without opening a segment. -/
theorem trans (h : Moves options more opened evicted graph next)
    (h' : Moves options byHand 0 0 next last) :
    Moves options byHand opened evicted graph last :=
  ⟨h'.orderly, h.evolves.trans h'.evolves, h'.size.trans h.size, h'.ids_eq.trans h.ids,
    h'.counted.trans h.counted⟩

/-- The counters of evictions apart, what is counted does not matter. -/
theorem recount (h : Moves options byHand opened evicted graph next) {counters : Counters}
    (hcounters : counters.segmentsEvicted = next.counters.segmentsEvicted) :
    Moves options byHand opened evicted graph { next with counters } :=
  ⟨h.orderly.recount counters, ⟨h.evolves.holdings⟩, h.size, h.ids, hcounters.trans h.counted⟩

/-- The window may list other versions of the same segments. -/
theorem relist (h : Moves options byHand opened evicted graph next) {window : List Version}
    (hids : window.map (·.segment) = next.ids)
    (hlisted : ∀ version ∈ window, next.Keeps version) :
    Moves options byHand opened evicted graph { next with window } := by
  have hlength : window.length = next.window.length := by
    rw [← List.length_map (·.segment), hids, Graph.ids, List.length_map]
  refine ⟨⟨h.orderly.options_eq, h.orderly.holdings, h.orderly.settled, ?_, ?_, ?_, hlisted⟩,
    ⟨h.evolves.holdings⟩, h.size, hids.trans h.ids, h.counted⟩
  · show window.length ≤ _
    rw [hlength]
    exact h.orderly.length_le
  · show window.map (·.segment) <:+ _
    rw [hids]
    exact h.orderly.ids
  · intro hsize
    show window.map (·.segment) ≠ []
    rw [hids]
    exact h.orderly.ids_ne_nil hsize

end Moves

/-! ## What is listed -/

namespace Orderly

theorem mono (h : graph.Orderly options byHand) (hmore : byHand ⊆ more) :
    graph.Orderly options more :=
  ⟨h.options_eq, fun id holding hholding =>
    have hold := h.holdings id holding hholding
    ⟨hold.id_eq, hold.lawful.mono hmore, hold.unpacked, hold.repacked⟩,
    h.settled, h.length_le, h.ids, h.ids_ne_nil, h.listed⟩

theorem segment_lt (h : graph.Orderly options byHand) (hversion : version ∈ graph.window) :
    version.segment < graph.holdings.size :=
  List.mem_range.mp (h.ids.subset (List.mem_map_of_mem hversion))

/-- A version that can be read shows the segment under its id, sealed like it. -/
theorem segment?_spec (h : graph.Orderly options byHand) (hkeeps : graph.Keeps version)
    (hlt : version.segment < graph.holdings.size) :
    ∃ segment holding, graph.segment? version = some segment ∧
      graph.holdings[version.segment]? = some holding ∧ segment.id = version.segment ∧
      segment.outline.Lawful options byHand ∧ segment.isSealed = holding.written.isSealed ∧
      segment.isRepacked = version.repacked ∧
      (segment.isRepacked = true → segment.isSealed = true) := by
  have hholding := Array.getElem?_eq_getElem hlt
  have hold := h.holdings _ _ hholding
  unfold segment?
  rw [hholding]
  cases hversion : version.repacked with
  | false =>
    refine ⟨_, _, rfl, rfl, hold.id_eq, hold.lawful, rfl, hold.unpacked, fun hrepacked => ?_⟩
    rw [hold.unpacked] at hrepacked
    contradiction
  | true =>
    obtain ⟨kept, segment, hkept, hsegment⟩ := hkeeps hversion
    obtain rfl := Option.some.inj (hholding.symm.trans hkept)
    obtain ⟨hsealed, houtline⟩ := Segment.repack_outline (hold.repacked segment hsegment)
    have hseal : segment.isSealed = true :=
      (congrArg Outline.isSealed houtline).trans hsealed
    refine ⟨segment, _, hsegment, rfl, (congrArg Outline.id houtline).trans hold.id_eq, ?_,
      hseal.trans hsealed.symm, congrArg Outline.isRepacked houtline, fun _ => hseal⟩
    rw [houtline]
    exact hold.lawful.repacked

/-- The last listed segment is the one that was opened last. -/
theorem newest_eq (h : graph.Orderly options byHand)
    (hlast : graph.window.getLast? = some version) : version.segment + 1 = graph.holdings.size := by
  obtain ⟨front, hfront⟩ := h.ids
  have hids : graph.ids.getLast? = some version.segment := by
    rw [Graph.ids, List.getLast?_map, hlast, Option.map_some]
  have hrange := congrArg List.getLast? hfront
  rw [List.getLast?_append, hids, Option.some_or, List.getLast?_range] at hrange
  split at hrange
  · contradiction
  · have := Option.some.inj hrange
    omega

theorem receives (h : graph.Orderly options byHand) (hopen : graph.openVersion? = some version) :
    ∃ holding, graph.Receives version holding := by
  unfold openVersion? at hopen
  cases hlast : graph.window.getLast? with
  | none => simp [hlast] at hopen
  | some last =>
    have hmem := List.mem_of_getLast? hlast
    obtain ⟨segment, holding, hsegment, hholding, -, -, hseal, hrepacked, hcopy⟩ :=
      h.segment?_spec (h.listed last hmem) (h.segment_lt hmem)
    rw [hlast] at hopen
    dsimp only at hopen
    rw [hsegment] at hopen
    dsimp only at hopen
    cases hsealed : segment.isSealed with
    | true => simp [hsealed] at hopen
    | false =>
      rw [hsealed, if_neg (by decide)] at hopen
      obtain rfl := Option.some.inj hopen
      -- a copy would be sealed
      have hunpacked : last.repacked = false := by
        rw [← hrepacked]
        cases hcopied : segment.isRepacked with
        | false => rfl
        | true => rw [hcopy hcopied] at hsealed; contradiction
      exact ⟨holding, hlast, h.newest_eq hlast, hunpacked, hholding, hseal.symm.trans hsealed⟩

theorem sealed_of_openVersion? (h : graph.Orderly options byHand)
    (hnone : graph.openVersion? = none) {id : Nat} {holding : Holding}
    (hholding : graph.holdings[id]? = some holding) : holding.written.isSealed = true := by
  have hlt : id < graph.holdings.size := (Array.getElem?_eq_some_iff.mp hholding).1
  by_cases holder : id + 1 < graph.holdings.size
  · exact h.settled id holding hholding holder
  -- the newest segment is listed, and it would be found open
  · have hne : graph.window ≠ [] := fun hnil =>
      h.ids_ne_nil (by omega) (by rw [Graph.ids, hnil]; rfl)
    have hlast := List.getLast?_eq_some_getLast hne
    have hnewest := h.newest_eq hlast
    have hmem := List.getLast_mem hne
    obtain ⟨segment, found, hsegment, hfound, -, -, hseal, -⟩ :=
      h.segment?_spec (h.listed _ hmem) (h.segment_lt hmem)
    have hid : (graph.window.getLast hne).segment = id := by omega
    rw [hid, hholding] at hfound
    obtain rfl := Option.some.inj hfound
    unfold openVersion? at hnone
    rw [hlast] at hnone
    dsimp only at hnone
    rw [hsegment] at hnone
    dsimp only at hnone
    rw [← hseal]
    cases hsealed : segment.isSealed with
    | true => rfl
    | false => simp [hsealed] at hnone

/-! ## Changing one segment -/

/-- One segment may change as segments evolve. -/
theorem modify (h : graph.Orderly options byHand) (hmore : byHand ⊆ more) {id : Nat}
    {change : Holding → Holding}
    (hchange : ∀ holding, graph.holdings[id]? = some holding →
      (change holding).Orderly options more id ∧ holding.Evolves (change holding)) :
    Moves options more 0 0 graph { graph with holdings := graph.holdings.modify id change } := by
  have hsize : (graph.holdings.modify id change).size = graph.holdings.size := Array.size_modify
  have hfound (other : Nat) (changed : Holding)
      (hchanged : (graph.holdings.modify id change)[other]? = some changed) :
      ∃ holding, graph.holdings[other]? = some holding ∧ changed.Orderly options more other ∧
        holding.Evolves changed := by
    rw [Array.getElem?_modify] at hchanged
    split at hchanged
    · rename_i hsame
      subst hsame
      obtain ⟨holding, hholding, rfl⟩ := Option.map_eq_some_iff.mp hchanged
      exact ⟨holding, hholding, hchange holding hholding⟩
    · have hold := (h.mono hmore).holdings other changed hchanged
      exact ⟨changed, hchanged, hold, fun _ => rfl, fun _ hsome => hsome⟩
  have hevolves : graph.Evolves { graph with holdings := graph.holdings.modify id change } := by
    refine ⟨fun other holding hholding => ?_⟩
    have hlt : other < (graph.holdings.modify id change).size := by
      rw [hsize]
      exact (Array.getElem?_eq_some_iff.mp hholding).1
    have hchanged := Array.getElem?_eq_getElem hlt
    obtain ⟨before, hbefore, -, hevolves⟩ := hfound other _ hchanged
    obtain rfl := Option.some.inj (hholding.symm.trans hbefore)
    exact ⟨_, hchanged, hevolves⟩
  refine ⟨⟨h.options_eq, fun other changed hchanged => ?_, fun other changed hchanged hlt => ?_,
    h.length_le, ?_, ?_, fun version hversion => hevolves.keeps (h.listed version hversion)⟩,
    hevolves, hsize, (List.append_nil _).symm, rfl⟩
  · obtain ⟨-, -, hchanged, -⟩ := hfound other changed hchanged
    exact hchanged
  · obtain ⟨holding, hholding, -, hevolves⟩ := hfound other changed hchanged
    dsimp only at hlt
    rw [hsize] at hlt
    have hsealed := h.settled other holding hholding hlt
    rw [hevolves.written hsealed]
    exact hsealed
  · dsimp only
    rw [hsize]
    exact h.ids
  · dsimp only
    rw [hsize]
    exact h.ids_ne_nil

/-- What is written to a segment that takes edges. -/
theorem modifyWritten (h : graph.Orderly options byHand) (hmore : byHand ⊆ more)
    {holding : Holding} (hreceives : graph.Receives version holding) {change : Segment → Segment}
    (hid : (change holding.written).outline.id = holding.written.outline.id)
    (hlawful : (change holding.written).outline.Lawful options more)
    (hunpacked : (change holding.written).outline.isRepacked = holding.written.outline.isRepacked) :
    Moves options more 0 0 graph (graph.modifyWritten version.segment change) := by
  refine h.modify hmore fun found hfound => ?_
  obtain rfl := Option.some.inj (hreceives.found.symm.trans hfound)
  have hold := h.holdings _ _ hfound
  have hopen := hreceives.isOpen
  -- what is open has not been repacked
  have hnone : holding.repacked = none := by
    cases hrepacked : holding.repacked with
    | none => rfl
    | some segment =>
      obtain ⟨hsealed, -⟩ := Segment.repack_outline (hold.repacked segment hrepacked)
      rw [hsealed] at hopen
      contradiction
  refine ⟨⟨hid.trans hold.id_eq, hlawful, hunpacked.trans hold.unpacked, fun segment hsome => ?_⟩,
    fun hsealed => ?_, fun segment hsome => ?_⟩
  · rw [hnone] at hsome
    contradiction
  · rw [hopen] at hsealed
    contradiction
  · rw [hnone] at hsome
    contradiction

end Orderly

end Graph

end Slidewalk
