import Slidewalk.Proofs.Balance
import Slidewalk.Proofs.Totals
import Slidewalk.Proofs.WindowInvariant

/-!
# Graphs whose counters and window agree with their segments

`Stocked` relates the counters to the segments that were opened, each of them in balance; `Tidy`
adds that the window lists every segment in its latest version. As long as 32 bits count the edges
of a segment, repacking cannot fail, and every operation keeps both.
-/

namespace Slidewalk

/-- The entries that a repacked segment wasted as it was written. -/
def Holding.reclaimed (holding : Holding) : Nat :=
  if holding.repacked.isSome then holding.written.stats.wasted else 0

/-- The latest version. -/
def Holding.current (holding : Holding) : Segment := holding.repacked.getD holding.written

/-- What is counted is what the segments show. -/
structure Accounts (holdings : List Holding) (counters : Counters) : Prop where
  added : counters.edgesAdded = total (·.written.edgeCount) holdings
  sealed : counters.segmentsSealed = total (·.written.isSealed.toNat) holdings
  optimized : counters.segmentsOptimized = total (·.repacked.isSome.toNat) holdings
  reclaimed : counters.reclaimedEntries = total Holding.reclaimed holdings

theorem Accounts.modify {holdings : List Holding} {counters later : Counters} {id : Nat}
    {holding : Holding} {change : Holding → Holding} (h : Accounts holdings counters)
    (hfound : holdings[id]? = some holding)
    (hadded : later.edgesAdded + holding.written.edgeCount =
      counters.edgesAdded + (change holding).written.edgeCount)
    (hsealed : later.segmentsSealed + holding.written.isSealed.toNat =
      counters.segmentsSealed + (change holding).written.isSealed.toNat)
    (hoptimized : later.segmentsOptimized + holding.repacked.isSome.toNat =
      counters.segmentsOptimized + (change holding).repacked.isSome.toNat)
    (hreclaimed : later.reclaimedEntries + holding.reclaimed =
      counters.reclaimedEntries + (change holding).reclaimed) :
    Accounts (holdings.modify id change) later := by
  have htotal (quantity : Holding → Nat) := total_modify quantity change hfound
  constructor
  case added =>
    have hmodified := htotal fun holding => holding.written.edgeCount
    have hold := h.added
    omega
  case sealed =>
    have hmodified := htotal fun holding => holding.written.isSealed.toNat
    have hold := h.sealed
    omega
  case optimized =>
    have hmodified := htotal fun holding => holding.repacked.isSome.toNat
    have hold := h.optimized
    omega
  case reclaimed =>
    have hmodified := htotal Holding.reclaimed
    have hold := h.reclaimed
    omega

/-- A new segment has nothing to count yet. -/
theorem Accounts.push {holdings : List Holding} {counters : Counters} {segment : Segment}
    (h : Accounts holdings counters) (hempty : segment.edgeCount = 0)
    (hopen : segment.isSealed = false) : Accounts (holdings ++ [⟨segment, none⟩]) counters := by
  obtain ⟨hadded, hsealed, hoptimized, hreclaimed⟩ := h
  constructor
  all_goals rw [total_append, total_cons, total_nil]
  · rw [hempty]
    exact hadded
  · rw [hopen]
    exact hsealed
  · exact hoptimized
  · exact hreclaimed

namespace Graph

/-- Every segment is in balance and every event was counted. -/
structure Stocked (options : Options) (codec : EdgeCodec) (byHand : List Nat) (graph : Graph) :
    Prop where
  orderly : graph.Orderly options byHand
  balanced : ∀ (id : Nat) (holding : Holding), graph.holdings[id]? = some holding →
    holding.written.Balanced options.limits codec
  accounts : Accounts graph.holdings.toList graph.counters

/-- The version is the repacked one if there is a repacked one. -/
def Latest (graph : Graph) (version : Version) : Prop :=
  ∀ holding, graph.holdings[version.segment]? = some holding →
    version.repacked = holding.repacked.isSome

structure Tidy (options : Options) (codec : EdgeCodec) (byHand : List Nat) (graph : Graph) :
    Prop where
  stocked : graph.Stocked options codec byHand
  latest : ∀ version ∈ graph.window, graph.Latest version

/-- The segments under other ids are as they were. -/
def Untouched (ids : List Nat) (graph next : Graph) : Prop :=
  ∀ (id : Nat) (holding : Holding), id ∉ ids → graph.holdings[id]? = some holding →
    next.holdings[id]? = some holding

/-- There is nothing left to repack of the segment. -/
def Settled (graph : Graph) (version : Version) : Prop :=
  ∀ holding, graph.holdings[version.segment]? = some holding →
    version.repacked = holding.written.isSealed

variable {options : Options} {codec : EdgeCodec} {byHand more ids : List Nat}
  {graph next last : Graph} {version : Version} {holding : Holding} {edge : Edge}

theorem Untouched.refl (ids : List Nat) (graph : Graph) : Untouched ids graph graph :=
  fun _ _ _ hfound => hfound

theorem Untouched.trans (h : Untouched ids graph next) (h' : Untouched ids next last) :
    Untouched ids graph last :=
  fun id holding hid hfound => h' id holding hid (h id holding hid hfound)

theorem Untouched.mono {others : List Nat} (h : Untouched ids graph next) (hids : ids ⊆ others) :
    Untouched others graph next :=
  fun id holding hid hfound => h id holding (fun hmem => hid (hids hmem)) hfound

theorem untouched_modify (graph : Graph) (id : Nat) (change : Holding → Holding) :
    Untouched [id] graph { graph with holdings := graph.holdings.modify id change } := by
  intro other holding hother hfound
  show (graph.holdings.modify id change)[other]? = some holding
  rw [Array.getElem?_modify, if_neg (fun hsame => hother (by simp [hsame])), hfound]

theorem untouched_hold (graph : Graph) (segment : Segment) :
    Untouched [] graph (graph.hold segment) := by
  intro id holding _ hfound
  have hlt := (Array.getElem?_eq_some_iff.mp hfound).1
  rw [getElem?_holdings_hold, if_neg (by omega), hfound]

theorem Latest.of_found (hfound : graph.holdings[version.segment]? = some holding)
    (hversion : version.repacked = holding.repacked.isSome) : graph.Latest version := by
  intro other hother
  obtain rfl := Option.some.inj (hfound.symm.trans hother)
  exact hversion

theorem Settled.of_found (hfound : graph.holdings[version.segment]? = some holding)
    (hversion : version.repacked = holding.written.isSealed) : graph.Settled version := by
  intro other hother
  obtain rfl := Option.some.inj (hfound.symm.trans hother)
  exact hversion

/-- Segments that were not touched are found as before. -/
theorem Latest.of_untouched (h : graph.Latest version) (huntouched : Untouched ids graph next)
    (hid : version.segment ∉ ids) (hlt : version.segment < graph.holdings.size) :
    next.Latest version := by
  have hfound := Array.getElem?_eq_getElem hlt
  exact .of_found (huntouched _ _ hid hfound) (h _ hfound)

namespace Stocked

variable (h : graph.Stocked options codec byHand)

include h

/-- An open segment has no copy. -/
theorem repacked_eq_none {id : Nat} (hfound : graph.holdings[id]? = some holding)
    (hopen : holding.written.isSealed = false) : holding.repacked = none := by
  cases hrepacked : holding.repacked with
  | none => rfl
  | some copy =>
    obtain ⟨hsealed, -⟩ :=
      Segment.repack_outline ((h.orderly.holdings _ _ hfound).repacked copy hrepacked)
    rw [hsealed] at hopen
    contradiction

theorem isRepackable_eq (hlatest : graph.Latest version)
    (hfound : graph.holdings[version.segment]? = some holding) :
    graph.isRepackable version = (holding.written.isSealed && !version.repacked) := by
  have hold := h.orderly.holdings _ _ hfound
  have hversion := hlatest holding hfound
  unfold isRepackable segment?
  rw [hfound]
  cases hrepacked : holding.repacked with
  | none =>
    rw [hrepacked] at hversion
    rw [hversion, Option.isSome_none]
    dsimp only
    rw [if_neg (by decide)]
    dsimp only
    rw [hold.unpacked]
  | some copy =>
    obtain ⟨-, houtline⟩ := Segment.repack_outline (hold.repacked copy hrepacked)
    have hcopy : copy.isRepacked = true := congrArg Outline.isRepacked houtline
    rw [hrepacked] at hversion
    rw [hversion, Option.isSome_some]
    dsimp only
    rw [if_pos rfl, hrepacked]
    dsimp only
    rw [hcopy, Bool.not_true, Bool.and_false, Bool.and_false]

/-- Unless the latest version of a segment is settled, the segment is sealed and has no copy. -/
theorem settled_or (hlatest : graph.Latest version)
    (hfound : graph.holdings[version.segment]? = some holding) :
    version.repacked = holding.written.isSealed ∨
      version.repacked = false ∧ holding.repacked = none ∧ holding.written.isSealed = true := by
  have hversion := hlatest holding hfound
  cases hsealed : holding.written.isSealed with
  | false =>
    rw [h.repacked_eq_none hfound hsealed] at hversion
    exact .inl hversion
  | true =>
    cases hrepacked : holding.repacked with
    | none =>
      rw [hrepacked] at hversion
      exact .inr ⟨hversion, rfl, rfl⟩
    | some copy =>
      rw [hrepacked] at hversion
      exact .inl hversion

/-! ## Repacking -/

/-- A sealed segment without a copy gets one, and that is counted. -/
theorem repackVersion (hcapacity : options.limits.segmentEdgeCapacity < UInt32.size)
    (hunpacked : version.repacked = false)
    (hfound : graph.holdings[version.segment]? = some holding) (hnone : holding.repacked = none)
    (hsealed : holding.written.isSealed = true) :
    ∃ next copy, graph.repackVersion version = (next, .ok ⟨version.segment, true⟩) ∧
      next.Stocked options codec byHand ∧ Untouched [version.segment] graph next ∧
      next.window = graph.window ∧ next.options = graph.options ∧
      next.holdings.size = graph.holdings.size ∧
      next.holdings[version.segment]? = some ⟨holding.written, some copy⟩ := by
  have hlawful := (h.orderly.holdings _ _ hfound).lawful
  have hedges : holding.written.edgeCount < UInt32.size :=
    Nat.lt_of_le_of_lt hlawful.edgeCount_le hcapacity
  obtain ⟨copy, hcopy⟩ := (h.balanced _ _ hfound).exists_repack hsealed hedges
  have heq : graph.repackVersion version = ({ graph.keepRepacked version.segment copy with
      counters := graph.counters.countOptimized holding.written.stats.wasted },
      .ok ⟨version.segment, true⟩) := by
    unfold Graph.repackVersion segment?
    rw [hfound, hunpacked]
    dsimp only
    rw [if_neg (by decide)]
    dsimp only
    rw [hcopy]
    rfl
  have horderly := (h.orderly.repackVersion hunpacked).1.orderly
  rw [heq] at horderly
  have hmodified : (graph.holdings.modify version.segment fun holding =>
      { holding with repacked := some copy })[version.segment]? =
      some ⟨holding.written, some copy⟩ := by
    rw [Array.getElem?_modify, if_pos rfl, hfound]
    rfl
  refine ⟨_, copy, heq, ⟨horderly, fun id found hid => ?_, ?_⟩, untouched_modify _ _ _, rfl, rfl,
    Array.size_modify, hmodified⟩
  · change (graph.holdings.modify version.segment _)[id]? = some found at hid
    by_cases hsame : version.segment = id
    · subst hsame
      rw [hmodified] at hid
      obtain rfl := Option.some.inj hid
      exact h.balanced _ holding hfound
    · rw [Array.getElem?_modify, if_neg hsame] at hid
      exact h.balanced _ _ hid
  · show Accounts (graph.holdings.modify version.segment _).toList _
    rw [Array.toList_modify]
    apply h.accounts.modify (by rw [Array.getElem?_toList, hfound])
    · rfl
    · rfl
    · rw [hnone]
      rfl
    · unfold Holding.reclaimed
      rw [hnone]
      rfl

theorem repackAll (hcapacity : options.limits.segmentEdgeCapacity < UInt32.size)
    (versions : List Version) (hnodup : (versions.map (·.segment)).Nodup)
    (hversions : ∀ version ∈ versions,
      version.segment < graph.holdings.size ∧ graph.Latest version) :
    ∃ next listed count, graph.repackAll versions = (next, .ok (listed, count)) ∧
      next.Stocked options codec byHand ∧ Untouched (versions.map (·.segment)) graph next ∧
      ∀ version ∈ listed, next.Latest version ∧ next.Settled version := by
  induction versions generalizing graph with
  | nil =>
    exact ⟨graph, [], 0, rfl, h, .refl _ _, fun version hversion => by contradiction⟩
  | cons version rest ih =>
    obtain ⟨hlt, hlatest⟩ := hversions version List.mem_cons_self
    obtain ⟨hnew, hnodup⟩ := List.nodup_cons.mp hnodup
    have hfound := Array.getElem?_eq_getElem hlt
    have hrepackable := h.isRepackable_eq hlatest hfound
    have hcases := h.settled_or hlatest hfound
    generalize graph.holdings[version.segment] = holding at hfound hrepackable hcases
    unfold Graph.repackAll
    rw [hrepackable]
    obtain hsettled | ⟨hunpacked, hnone, hsealed⟩ := hcases
    · obtain ⟨last, listed, count, hall, hlast, hafter, hlisted⟩ := ih h hnodup fun other hother =>
        hversions other (List.mem_cons_of_mem _ hother)
      rw [hsettled, Bool.and_not_self, if_neg Bool.false_ne_true, hall]
      refine ⟨last, _, _, rfl, hlast, hafter.mono (List.subset_cons_self _ _), ?_⟩
      intro other hother
      obtain rfl | hother := List.mem_cons.mp hother
      · have hkept := hafter _ _ hnew hfound
        exact ⟨.of_found hkept (hlatest _ hfound), .of_found hkept hsettled⟩
      · exact hlisted other hother
    · obtain ⟨next, copy, heq, hnext, huntouched, -, -, hsize, hcopied⟩ :=
        h.repackVersion hcapacity hunpacked hfound hnone hsealed
      have hrest : ∀ other ∈ rest,
          other.segment < next.holdings.size ∧ next.Latest other := by
        intro other hother
        obtain ⟨hbelow, hlatest⟩ := hversions other (List.mem_cons_of_mem _ hother)
        have hne : other.segment ≠ version.segment := fun hsame =>
          hnew (List.mem_map.mpr ⟨other, hother, hsame⟩)
        exact ⟨hsize ▸ hbelow,
          hlatest.of_untouched huntouched (by simpa using hne) hbelow⟩
      obtain ⟨last, listed, count, hall, hlast, hafter, hlisted⟩ := ih hnext hnodup hrest
      rw [hsealed, hunpacked, Bool.not_false, Bool.and_self, if_pos rfl, heq]
      dsimp only
      rw [hall]
      refine ⟨last, _, _, rfl, hlast, ?_, ?_⟩
      · refine (huntouched.mono ?_).trans (hafter.mono (List.subset_cons_self _ _))
        exact List.cons_subset_cons _ (List.nil_subset _)
      · intro other hother
        obtain rfl | hother := List.mem_cons.mp hother
        -- the copy is still there after the rest
        · have hkept := hafter _ _ hnew hcopied
          exact ⟨.of_found hkept rfl, .of_found hkept hsealed.symm⟩
        · exact hlisted other hother

end Stocked

namespace Tidy

theorem nodup_ids (h : graph.Tidy options codec byHand) : graph.ids.Nodup :=
  h.stocked.orderly.ids.sublist.nodup List.nodup_range

theorem optimizeSealed (h : graph.Tidy options codec byHand)
    (hcapacity : options.limits.segmentEdgeCapacity < UInt32.size) :
    ∃ count, graph.optimizeSealed.2 = .ok count ∧
      graph.optimizeSealed.1.Tidy options codec byHand ∧
      Untouched graph.ids graph graph.optimizeSealed.1 ∧
      ∀ version ∈ graph.optimizeSealed.1.window, graph.optimizeSealed.1.Settled version := by
  obtain ⟨next, listed, count, hall, hnext, huntouched, hlisted⟩ :=
    h.stocked.repackAll hcapacity graph.window h.nodup_ids fun version hversion =>
      ⟨h.stocked.orderly.segment_lt hversion, h.latest version hversion⟩
  have heq : graph.optimizeSealed = ({ next with window := listed }, .ok count) := by
    unfold Graph.optimizeSealed
    rw [hall]
  have horderly := h.stocked.orderly.optimizeSealed.orderly
  rw [heq] at horderly ⊢
  exact ⟨count, rfl, ⟨⟨horderly, hnext.balanced, hnext.accounts⟩, fun version hversion =>
    (hlisted version hversion).1⟩, huntouched, fun version hversion => (hlisted version hversion).2⟩

/-! ## Sealing -/

/-- The graph a seal was counted in, once the segment is repacked if the limits ask for that. -/
theorem onSealed (h : Tidy options codec byHand
      { graph with counters := graph.counters.countSealed })
    (hcapacity : options.limits.segmentEdgeCapacity < UInt32.size)
    (hunpacked : version.repacked = false)
    (hfound : graph.holdings[version.segment]? = some holding) (hnone : holding.repacked = none)
    (hsealed : holding.written.isSealed = true) :
    (graph.onSealed version).Tidy options codec byHand ∧
      Untouched [version.segment] graph (graph.onSealed version) ∧
      (graph.onSealed version).ids = graph.ids := by
  obtain ⟨next, copy, heq, hnext, huntouched, hwindow, hoptions, -, hcopied⟩ :=
    h.stocked.repackVersion hcapacity hunpacked hfound hnone hsealed
  have hmoves := (h.stocked.orderly.recount graph.counters).onSealed hunpacked
  have hids := hmoves.ids_eq
  have horderly := hmoves.orderly
  unfold Graph.onSealed at horderly hids ⊢
  dsimp only at horderly hids ⊢
  rw [heq] at horderly hids ⊢
  split at horderly
  · rename_i hoptimize
    rw [if_pos hoptimize] at hids ⊢
    refine ⟨⟨⟨horderly, hnext.balanced, hnext.accounts⟩, fun listed hlisted => ?_⟩, huntouched,
      hids⟩
    obtain ⟨old, hold, rfl⟩ := List.mem_map.mp hlisted
    rw [hwindow] at hold
    have hlatest := h.latest old hold
    by_cases hsame : old = version
    · rw [if_pos hsame]
      exact .of_found hcopied rfl
    -- another version of the same segment would be out of date
    · have hne : old.segment ≠ version.segment := by
        intro hsegment
        have hrepacked := hlatest holding (hsegment ▸ hfound)
        rw [hnone, Option.isSome_none, ← hunpacked] at hrepacked
        obtain ⟨oldSegment, oldRepacked⟩ := old
        obtain rfl : oldSegment = version.segment := hsegment
        obtain rfl : oldRepacked = version.repacked := hrepacked
        exact hsame rfl
      rw [if_neg hsame]
      exact hlatest.of_untouched huntouched (by simpa using hne)
        (h.stocked.orderly.segment_lt hold)
  · rename_i hoptimize
    rw [if_neg hoptimize] at hids ⊢
    exact ⟨h, .refl _ _, hids⟩

/-- What is written to the segment that takes edges, once it is counted. -/
theorem modifyWritten (h : graph.Tidy options codec byHand) (hmore : byHand ⊆ more)
    (hreceives : graph.Receives version holding) {change : Segment → Segment}
    (counters : Counters)
    (hid : (change holding.written).outline.id = holding.written.outline.id)
    (hlawful : (change holding.written).outline.Lawful options more)
    (hunpacked : (change holding.written).outline.isRepacked = holding.written.outline.isRepacked)
    (hbalanced : (change holding.written).Balanced options.limits codec)
    (hadded : counters.edgesAdded + holding.written.edgeCount =
      graph.counters.edgesAdded + (change holding.written).edgeCount)
    (hsealed : counters.segmentsSealed =
      graph.counters.segmentsSealed + (change holding.written).isSealed.toNat)
    (hoptimized : counters.segmentsOptimized = graph.counters.segmentsOptimized)
    (hreclaimed : counters.reclaimedEntries = graph.counters.reclaimedEntries) :
    Tidy options codec more { graph.modifyWritten version.segment change with counters } := by
  have hopen := hreceives.isOpen
  have hnone := h.stocked.repacked_eq_none hreceives.found hopen
  have hmoves := h.stocked.orderly.modifyWritten hmore hreceives hid hlawful hunpacked
  have hmodified := hreceives.getElem?_modifyWritten change
  have hfound (id : Nat) (found : Holding)
      (hid : (graph.modifyWritten version.segment change).holdings[id]? = some found) :
      version.segment = id ∧ found = { holding with written := change holding.written } ∨
        graph.holdings[id]? = some found := by
    by_cases hsame : version.segment = id
    · subst hsame
      exact .inl ⟨rfl, (Option.some.inj (hmodified.symm.trans hid)).symm⟩
    · change (graph.holdings.modify version.segment _)[id]? = some found at hid
      rw [Array.getElem?_modify, if_neg hsame] at hid
      exact .inr hid
  refine ⟨⟨hmoves.orderly.recount counters, fun id found hid => ?_, ?_⟩, fun listed hlisted found
    hid => ?_⟩
  · rcases hfound id found hid with ⟨-, rfl⟩ | hold
    · exact hbalanced
    · exact h.stocked.balanced _ _ hold
  · show Accounts (graph.holdings.modify version.segment _).toList _
    rw [Array.toList_modify]
    apply h.stocked.accounts.modify (by rw [Array.getElem?_toList, hreceives.found])
    · exact hadded
    · rw [hopen]
      exact hsealed
    · rw [hoptimized]
    · unfold Holding.reclaimed
      rw [hnone, hreclaimed]
      rfl
  · rcases hfound listed.segment found hid with ⟨hsame, rfl⟩ | hold
    · exact h.latest listed hlisted holding (hsame ▸ hreceives.found)
    · exact h.latest listed hlisted found hold

theorem mono (h : graph.Tidy options codec byHand) (hmore : byHand ⊆ more) :
    graph.Tidy options codec more :=
  ⟨⟨h.stocked.orderly.mono hmore, h.stocked.balanced, h.stocked.accounts⟩, h.latest⟩

theorem sealCurrent (h : graph.Tidy options codec byHand)
    (hcapacity : options.limits.segmentEdgeCapacity < UInt32.size) :
    graph.sealCurrent.1.Tidy options codec
        (byHand ++ (Answer.sealed graph.sealCurrent.2).closed graph.snapshot.newest?) ∧
      Untouched graph.sealCurrent.1.ids graph graph.sealCurrent.1 := by
  have hmore (closed : List Nat) := List.subset_append_left byHand closed
  unfold Graph.sealCurrent
  cases hversion : graph.openVersion? with
  | none => exact ⟨h.mono (hmore _), .refl _ _⟩
  | some version =>
    obtain ⟨holding, hreceives⟩ := h.stocked.orderly.receives hversion
    dsimp only
    rw [hreceives.segment?_eq]
    dsimp only
    by_cases hempty : holding.written.edgeCount = 0
    · rw [if_pos hempty]
      exact ⟨h.mono (hmore _), .refl _ _⟩
    · rw [if_neg hempty]
      have hnewest : graph.snapshot.newest? = some version.segment := by
        unfold Snapshot.newest? snapshot
        rw [hreceives.last]
        rfl
      have hold := h.stocked.orderly.holdings _ _ hreceives.found
      have hlisted : holding.written.outline.id ∈ byHand ++ [version.segment] :=
        List.mem_append_right _ (List.mem_singleton.mpr hold.id_eq)
      rw [hnewest]
      have hsealed : Tidy options codec (byHand ++ [version.segment])
          { graph.modifyWritten version.segment (·.sealed) with
            counters := graph.counters.countSealed } :=
        h.modifyWritten (hmore _) hreceives _ rfl
          ((hold.lawful.mono (hmore _)).closed hempty hlisted) rfl
          (h.stocked.balanced _ _ hreceives.found).sealed rfl rfl rfl rfl
      have hnone := h.stocked.repacked_eq_none hreceives.found hreceives.isOpen
      obtain ⟨htidy, huntouched, hids⟩ := hsealed.onSealed hcapacity hreceives.unpacked
        (hreceives.getElem?_modifyWritten _) hnone rfl
      refine ⟨htidy, ?_⟩
      rw [hids]
      exact ((untouched_modify _ _ _).trans huntouched).mono
        (List.cons_subset.mpr ⟨hreceives.mem_ids, List.nil_subset _⟩)

/-! ## Adding -/

/-- A new segment is listed as written, whatever leaves the window in front of it. -/
theorem opened (h : graph.Tidy options codec byHand) {segment : Segment} {count : Nat}
    (hnext : next = { graph.hold segment with
      window := (graph.window ++ [Version.mk graph.holdings.size false]).drop count
      counters := graph.counters.countEvicted count })
    (horderly : next.Orderly options byHand) (hbalanced : segment.Balanced options.limits codec)
    (hempty : segment.edgeCount = 0) (hopen : segment.isSealed = false) :
    next.Tidy options codec byHand ∧ Untouched [] graph next := by
  have haccounts := h.stocked.accounts.push hempty hopen
  rw [← Array.toList_push] at haccounts
  have hlookup (id : Nat) : (graph.hold segment).holdings[id]? = _ :=
    getElem?_holdings_hold segment id
  have huntouched := untouched_hold graph segment
  subst hnext
  refine ⟨⟨⟨horderly, fun id holding hfound => ?_, ⟨haccounts.added, haccounts.sealed,
    haccounts.optimized, haccounts.reclaimed⟩⟩, fun version hversion => ?_⟩, huntouched⟩
  · change (graph.hold segment).holdings[id]? = some holding at hfound
    rw [hlookup] at hfound
    split at hfound
    · obtain rfl := Option.some.inj hfound
      exact hbalanced
    · exact h.stocked.balanced id holding hfound
  · obtain hold | hlast := List.mem_append.mp (List.mem_of_mem_drop hversion)
    · exact (h.latest version hold).of_untouched huntouched List.not_mem_nil
        (h.stocked.orderly.segment_lt hold)
    · obtain rfl := List.mem_singleton.mp hlast
      exact .of_found ((hlookup _).trans (if_pos rfl)) rfl

theorem target (h : graph.Tidy options codec byHand) (hopens : options.Opens)
    (hcodec : options.resolveCodec = .ok codec) :
    graph.target.1.Tidy options codec byHand ∧ Untouched [] graph graph.target.1 := by
  unfold Graph.target
  cases hversion : graph.openVersion? with
  | some version => exact ⟨h, .refl _ _⟩
  | none =>
    obtain ⟨segment, hcreate⟩ := hopens.creates graph.holdings.size
    obtain ⟨_, next, -, -, hopened, hmoves, -⟩ := h.stocked.orderly.openSegment hopens hversion
    have heq := h.stocked.orderly.openSegment_eq hopens.segments_pos hversion hcreate
    obtain rfl := congrArg Prod.fst (heq.symm.trans hopened)
    obtain ⟨-, -, hopen, -⟩ :=
      Segment.outline_lawful_of_create hcreate hopens.capacity_pos byHand
    have hempty : segment.edgeCount = 0 := by
      obtain ⟨-, -, -, -, -, -, rfl, -⟩ := Segment.exists_of_create hcreate
      rfl
    dsimp only
    rw [heq]
    exact h.opened rfl hmoves.orderly (Segment.create_balanced hcreate hcodec) hempty hopen

/-- The graph once the newest segment was offered an edge, and what came of that was counted. -/
theorem offered (h : graph.Tidy options codec byHand) (hreceives : graph.Receives version holding)
    (edge : Edge) (counters : Counters)
    (hadded : counters.edgesAdded + holding.written.edgeCount =
      graph.counters.edgesAdded + (holding.written.add edge).1.edgeCount)
    (hsealed : counters.segmentsSealed =
      graph.counters.segmentsSealed + (holding.written.add edge).1.isSealed.toNat)
    (hoptimized : counters.segmentsOptimized = graph.counters.segmentsOptimized)
    (hreclaimed : counters.reclaimedEntries = graph.counters.reclaimedEntries) :
    Tidy options codec byHand
      { graph.modifyWritten version.segment (fun written => (written.add edge).1) with
        counters } := by
  have hlawful := (h.stocked.orderly.holdings _ _ hreceives.found).lawful
  have houtline := Segment.outline_add hreceives.isOpen (hlawful.lt_capacity hreceives.isOpen) edge
  have hbalanced := (h.stocked.balanced _ _ hreceives.found).add edge
  refine h.modifyWritten (List.Subset.refl _) hreceives counters ?_ ?_ ?_ hbalanced hadded hsealed
    hoptimized hreclaimed
  · rw [houtline, Outline.id_offered]
  · rw [houtline]
    exact hlawful.offered hreceives.isOpen _
  · rw [houtline, Outline.isRepacked_offered]

theorem refused (h : graph.Tidy options codec byHand) (hreceives : graph.Receives version holding)
    {fault : Fault} (hrefused : (holding.written.add edge).2 = .error fault) :
    Tidy options codec byHand
      { graph.modifyWritten version.segment (fun written => (written.add edge).1) with
        counters := graph.counters.countRejected } := by
  have hlawful := (h.stocked.orderly.holdings _ _ hreceives.found).lawful
  have houtline := Segment.outline_add hreceives.isOpen (hlawful.lt_capacity hreceives.isOpen) edge
  rw [hrefused] at houtline
  have hcount : (holding.written.add edge).1.edgeCount = holding.written.edgeCount :=
    congrArg Outline.edgeCount houtline
  have hopen : (holding.written.add edge).1.isSealed = false :=
    (congrArg Outline.isSealed houtline).trans hreceives.isOpen
  exact h.offered hreceives edge _ (by rw [hcount]; rfl) (by rw [hopen]; rfl) rfl rfl

/-- An edge that was taken may have filled the segment, which is then sealed. -/
theorem taken (h : graph.Tidy options codec byHand)
    (hcapacity : options.limits.segmentEdgeCapacity < UInt32.size)
    (hreceives : graph.Receives version holding) {result : Unit}
    (htaken : (holding.written.add edge).2 = .ok result)
    (hnext : next = { graph.modifyWritten version.segment (fun written => (written.add edge).1) with
      counters := graph.counters.countAdded })
    (hlast : last = if next.isSealedVersion version then next.onSealed version else next) :
    last.Tidy options codec byHand ∧ Untouched [version.segment] graph last ∧
      last.ids = graph.ids := by
  have hlawful := (h.stocked.orderly.holdings _ _ hreceives.found).lawful
  have houtline := Segment.outline_add hreceives.isOpen (hlawful.lt_capacity hreceives.isOpen) edge
  rw [htaken] at houtline
  have hcount : (holding.written.add edge).1.edgeCount = holding.written.edgeCount + 1 :=
    congrArg Outline.edgeCount houtline
  have hadded : graph.counters.edgesAdded + 1 + holding.written.edgeCount =
      graph.counters.edgesAdded + (holding.written.add edge).1.edgeCount := by
    rw [hcount]
    omega
  have hfound : next.holdings[version.segment]? =
      some { holding with written := (holding.written.add edge).1 } := by
    rw [hnext]
    exact hreceives.getElem?_modifyWritten fun written => (written.add edge).1
  have huntouched : Untouched [version.segment] graph next := by
    rw [hnext]
    exact untouched_modify _ _ _
  have hids : next.ids = graph.ids := by
    rw [hnext]
    rfl
  have hfull : next.isSealedVersion version = (holding.written.add edge).1.isSealed := by
    unfold isSealedVersion segment?
    rw [hfound, hreceives.unpacked]
    rfl
  rw [hfull] at hlast
  cases hsealed : (holding.written.add edge).1.isSealed with
  | true =>
    rw [hsealed, if_pos rfl] at hlast
    have htidy := h.offered hreceives edge graph.counters.countAdded.countSealed hadded
      (by rw [hsealed]; rfl) rfl rfl
    have hnone := h.stocked.repacked_eq_none hreceives.found hreceives.isOpen
    rw [hlast]
    subst hnext
    obtain ⟨hrepacked, hafter, hkept⟩ :=
      onSealed htidy hcapacity hreceives.unpacked hfound hnone hsealed
    exact ⟨hrepacked, huntouched.trans hafter, hkept.trans hids⟩
  | false =>
    rw [hsealed, if_neg Bool.false_ne_true] at hlast
    rw [hlast]
    refine ⟨?_, huntouched, hids⟩
    rw [hnext]
    exact h.offered hreceives edge _ hadded (by rw [hsealed]; rfl) rfl rfl

theorem add (h : graph.Tidy options codec byHand) (hopens : options.Opens)
    (hcodec : options.resolveCodec = .ok codec)
    (hcapacity : options.limits.segmentEdgeCapacity < UInt32.size) (edge : Edge) :
    (graph.add edge).1.Tidy options codec byHand ∧
      Untouched (graph.add edge).1.ids graph (graph.add edge).1 := by
  obtain ⟨-, -, next, version, holding, -, -, htarget, -, hreceives⟩ :=
    h.stocked.orderly.target hopens
  obtain ⟨hnext, hopened⟩ := h.target hopens hcodec
  rw [htarget] at hnext hopened
  have hlisted : [version.segment] ⊆ next.ids :=
    List.cons_subset.mpr ⟨hreceives.mem_ids, List.nil_subset _⟩
  have hopened : Untouched [version.segment] graph next := hopened.mono (List.nil_subset _)
  unfold Graph.add
  rw [htarget]
  dsimp only
  rw [offer_eq, hreceives.found]
  dsimp only
  cases hanswer : (holding.written.add edge).2 with
  | error fault =>
    exact ⟨hnext.refused hreceives hanswer,
      (hopened.trans (untouched_modify _ _ _)).mono hlisted⟩
  | ok _ =>
    obtain ⟨htidy, huntouched, hids⟩ := hnext.taken hcapacity hreceives hanswer rfl rfl
    exact ⟨htidy, (hopened.trans huntouched).mono (hids.symm ▸ hlisted)⟩

/-! ## Runs -/

theorem perform (h : graph.Tidy options codec byHand) (hopens : options.Opens)
    (hcodec : options.resolveCodec = .ok codec)
    (hcapacity : options.limits.segmentEdgeCapacity < UInt32.size) (operation : Operation) :
    (graph.perform operation).1.Tidy options codec
        (byHand ++ (graph.perform operation).2.closed graph.snapshot.newest?) ∧
      Untouched (graph.perform operation).1.ids graph (graph.perform operation).1 := by
  cases operation with
  | add edge =>
    obtain ⟨htidy, huntouched⟩ := h.add hopens hcodec hcapacity edge
    exact ⟨htidy.mono (List.subset_append_left _ _), huntouched⟩
  | sealCurrent => exact h.sealCurrent hcapacity
  | optimizeSealed =>
    obtain ⟨-, -, htidy, huntouched, -⟩ := h.optimizeSealed hcapacity
    have hids := h.stocked.orderly.optimizeSealed.ids_eq
    exact ⟨htidy.mono (List.subset_append_left _ _), hids ▸ huntouched⟩

theorem run (h : graph.Tidy options codec byHand) (hopens : options.Opens)
    (hcodec : options.resolveCodec = .ok codec)
    (hcapacity : options.limits.segmentEdgeCapacity < UInt32.size) (operations : List Operation) :
    (graph.run operations).1.Tidy options codec (byHand ++ graph.closedByHand operations) := by
  induction operations generalizing graph byHand with
  | nil => exact h.mono (List.subset_append_left _ _)
  | cons operation rest ih =>
    have hfinal := ih (h.perform hopens hcodec hcapacity operation).1
    rw [List.append_assoc] at hfinal
    exact hfinal

/-! ## What the window shows -/

theorem segment?_eq (h : graph.Tidy options codec byHand) (hversion : version ∈ graph.window)
    (hfound : graph.holdings[version.segment]? = some holding) :
    graph.segment? version = some holding.current := by
  have hrepacked := h.latest version hversion holding hfound
  unfold segment? Holding.current
  rw [hfound]
  dsimp only
  cases hcopy : holding.repacked with
  | none =>
    rw [hcopy] at hrepacked
    rw [if_neg (by rw [hrepacked]; decide), Option.getD_none]
  | some copy =>
    rw [hcopy, Option.isSome_some] at hrepacked
    rw [if_pos hrepacked, Option.getD_some]

/-- The window shows the last segments, each in its latest version. -/
theorem segments_eq (h : graph.Tidy options codec byHand) :
    graph.view.segments = (graph.holdings.toList.drop
      (graph.holdings.size - graph.window.length)).map Holding.current := by
  obtain ⟨first, hsize, hids⟩ := h.stocked.orderly.exists_range'
  have hlength : graph.ids.length = graph.window.length := List.length_map _
  have hfirst : graph.holdings.size - graph.window.length = first := by omega
  rw [hfirst]
  have hshown : List.Forall₂ (fun version holding =>
      graph.segment? version = some holding.current) graph.window
      (graph.holdings.toList.drop first) := by
    rw [List.forall₂_iff_get]
    refine ⟨by rw [List.length_drop, Array.length_toList]; omega, fun place hplace hbelow => ?_⟩
    have hlisted : graph.ids[place]? = some (first + place) := by
      rw [hids, List.getElem?_range' (by omega), Nat.one_mul]
    rw [Graph.ids, List.getElem?_map, List.getElem?_eq_getElem hplace, Option.map_some] at hlisted
    have hsegment : (graph.window.get ⟨place, hplace⟩).segment = first + place :=
      Option.some.inj hlisted
    apply h.segment?_eq (List.get_mem _ _)
    rw [hsegment, ← Array.getElem?_toList, ← List.getElem?_drop, List.getElem?_eq_getElem hbelow]
    rfl
  exact filterMap_eq_map_of_forall₂ hshown

end Tidy

theorem create_tidy (hcreate : Graph.create options = .ok graph)
    (hsegment : ∃ segment, Segment.create 0 options = .ok segment) :
    options.Opens ∧ ∃ codec, options.resolveCodec = .ok codec ∧
      graph.Tidy options codec [] := by
  obtain ⟨hopens, horderly⟩ := create_orderly hcreate hsegment
  obtain ⟨-, rfl⟩ := create_eq hcreate
  obtain ⟨segment, hsegment⟩ := hsegment
  obtain ⟨codec, -, -, hcodec, -⟩ := Segment.exists_of_create hsegment
  refine ⟨hopens, codec, hcodec, ⟨horderly, fun id holding hholding => ?_, ⟨rfl, rfl, rfl, rfl⟩⟩,
    fun version hversion => by contradiction⟩
  simp at hholding

end Graph

end Slidewalk
