import Slidewalk.Proofs.Maintenance
import Slidewalk.Proofs.Rejection

/-!
# Statistics that add up

The statistics of a graph are added up from counters that are kept apart: in the indexes, the pools
and the segments of the window. After every run they agree with each other and with the degrees of
the nodes, and maintenance gives back what the pools waste without changing what is stored.
-/

namespace Slidewalk

/-- How much is stored, however it is packed. -/
structure Contents where
  edges : Nat
  leftNodes : Nat
  rightNodes : Nat
  timeRange : Option (Time × Time)

def GraphStats.contents (stats : GraphStats) : Contents where
  edges := stats.edges
  leftNodes := stats.leftNodes
  rightNodes := stats.rightNodes
  timeRange := stats.timeRange

/-- If the options bring a packing of their own, it has room for all it declares. -/
def Options.Packs (options : Options) : Prop :=
  ∀ own, options.codec = some own → own.Packs

theorem Options.Packs.resolved {options : Options} {codec : EdgeCodec} (h : options.Packs)
    (hcodec : options.resolveCodec = .ok codec) : codec.Packs :=
  of_resolveCodec (fun mask => mask.toCodec_roundTrips.packs) h hcodec

/-! ## Segments -/

namespace Segment

variable {limits : Limits} {codec : EdgeCodec} {segment repacked : Segment}

def contents (segment : Segment) : Contents where
  edges := segment.edgeCount
  leftNodes := segment.nodeCount .left
  rightNodes := segment.nodeCount .right
  timeRange := segment.timeRange

@[simp] theorem contents_sealed (segment : Segment) :
    segment.sealed.contents = segment.contents := rfl

theorem contents_repack (hrepack : segment.repack = .ok repacked) :
    repacked.contents = segment.contents := by
  obtain ⟨-, leftPool, rightPool, -, -, rfl⟩ := repack_cases hrepack
  rfl

/-- The ids of the nodes that were seen on a side. -/
def nodes (segment : Segment) (side : Side) : List NodeId :=
  (segment.shore side).index.ids.toList

/-- The degrees add up to the edges, on both sides and over any nodes that have all the known
ones. -/
theorem Balanced.total_degree (h : segment.Balanced limits codec) (side : Side)
    {nodes : List NodeId} (hnodup : nodes.Nodup) (hknown : segment.nodes side ⊆ nodes) :
    total (segment.degree · side) nodes = segment.edgeCount := by
  have hshore := h.shore side
  rw [← hshore.total_degree]
  exact total_of_subset hshore.index.nodup hnodup hknown fun node _ hunknown =>
    hshore.degree_of_unknown hunknown

end Segment

/-! ## Views -/

namespace View

variable {limits : Limits} {codec : EdgeCodec} {view other : View}

/-- The distinct nodes that the segments have seen on a side. -/
def nodes (view : View) (side : Side) : List NodeId :=
  (view.segments.flatMap (·.nodes side)).dedup

theorem contents_congr
    (h : view.segments.map Segment.contents = other.segments.map Segment.contents) :
    view.stats.contents = other.stats.contents := by
  have hread (view : View) : view.stats.contents =
      let all := view.segments.map Segment.contents
      ⟨total (·.edges) all, total (·.leftNodes) all, total (·.rightNodes) all,
        all.foldl (fun range contents => joinRanges range contents.timeRange) none⟩ := by
    dsimp only
    rw [total_map, total_map, total_map, List.foldl_map]
    rfl
  rw [hread, hread, h]

/-- What merging adds up is added up over the segments. -/
theorem poolStats_eq_total (read : PoolStats → Nat) (hempty : read .empty = 0)
    (hmerge : ∀ a b, read (a.merge b) = read a + read b) (view : View) :
    read view.poolStats = total (fun segment => read segment.stats) view.segments := by
  have hfold (segments : List Segment) (stats : PoolStats) :
      read (segments.foldl (fun stats segment => stats.merge segment.stats) stats) =
        read stats + total (fun segment => read segment.stats) segments := by
    induction segments generalizing stats with
    | nil => rfl
    | cons segment rest ih =>
      rw [List.foldl_cons, ih, hmerge, total_cons, Nat.add_assoc]
  rw [poolStats, hfold, hempty, Nat.zero_add]

variable (h : ∀ segment ∈ view.segments, segment.Balanced limits codec)

include h

theorem total_degree (side : Side) :
    total (view.degree · side) (view.nodes side) = view.stats.edges := by
  -- within one segment, the nodes that only other segments know have degree 0
  have hswap := total_comm (fun node segment => Segment.degree segment node side)
    (view.nodes side) view.segments
  refine hswap.trans (total_congr fun segment hsegment => ?_)
  exact (h segment hsegment).total_degree side (List.nodup_dedup _) fun node hnode =>
    List.mem_dedup.mpr (List.mem_flatMap.mpr ⟨segment, hsegment, hnode⟩)

/-- Each edge has an entry on either side. -/
theorem edges_poolStats : view.poolStats.edges = 2 * view.stats.edges := by
  rw [poolStats_eq_total PoolStats.edges rfl fun _ _ => rfl,
    total_congr fun segment hsegment => ((h segment hsegment).stats_edges.trans (Nat.two_mul _)),
    total_add, Nat.two_mul]
  rfl

theorem nodes_poolStats (hpacks : codec.Packs) :
    view.poolStats.nodes = view.stats.leftNodes + view.stats.rightNodes := by
  rw [poolStats_eq_total PoolStats.nodes rfl fun _ _ => rfl,
    total_congr fun segment hsegment => (h segment hsegment).stats_nodes hpacks, total_add]
  rfl

theorem edges_le_reserved : view.poolStats.edges ≤ view.poolStats.reserved := by
  rw [poolStats_eq_total PoolStats.edges rfl fun _ _ => rfl,
    poolStats_eq_total PoolStats.reserved rfl fun _ _ => rfl]
  exact total_mono fun segment hsegment => (h segment hsegment).edges_le_reserved

omit h

theorem wasted_eq_zero
    (hnone : ∀ segment ∈ view.segments, segment.stats.reserved = segment.stats.edges) :
    view.poolStats.wasted = 0 := by
  unfold PoolStats.wasted
  rw [poolStats_eq_total PoolStats.edges rfl fun _ _ => rfl,
    poolStats_eq_total PoolStats.reserved rfl fun _ _ => rfl, total_congr hnone, Nat.sub_self]

end View

/-! ## Graphs -/

namespace Graph

/-- The graph once its newest segment was sealed and all segments were repacked. -/
def compacted (graph : Graph) : Graph := graph.sealCurrent.1.optimizeSealed.1

/-- The statistics agree with each other, and compacting a graph gives back what it wastes. -/
structure Balances (options : Options) (graph : Graph) : Prop where
  degrees : ∀ side, total (graph.view.degree · side) (graph.view.nodes side) =
    graph.view.stats.edges
  poolEdges : graph.view.stats.pools.edges = 2 * graph.view.stats.edges
  poolNodes : options.Packs → graph.view.stats.pools.nodes =
    graph.view.stats.leftNodes + graph.view.stats.rightNodes
  reserved : graph.view.stats.pools.edges ≤ graph.view.stats.pools.reserved
  compacts : ∃ count, graph.sealCurrent.1.optimizeSealed = (graph.compacted, .ok count)
  wasted : graph.compacted.view.stats.pools.wasted = 0
  settles : graph.compacted.optimizeSealed = (graph.compacted, .ok 0)
  contents : graph.compacted.view.stats.contents = graph.view.stats.contents

variable {options : Options} {codec : EdgeCodec} {byHand : List Nat} {graph next : Graph}

namespace Tidy

theorem current_cases (h : graph.Tidy options codec byHand) {holding : Holding}
    (hmem : holding ∈ graph.holdings.toList) :
    holding.written.Balanced options.limits codec ∧ (holding.current = holding.written ∨
      holding.written.repack = .ok holding.current) := by
  obtain ⟨id, hid⟩ := List.mem_iff_getElem?.mp hmem
  rw [Array.getElem?_toList] at hid
  refine ⟨h.stocked.balanced id holding hid, ?_⟩
  unfold Holding.current
  cases hrepacked : holding.repacked with
  | none => exact .inl rfl
  | some copy => exact .inr ((h.stocked.orderly.holdings id holding hid).repacked copy hrepacked)

/-- Every segment of the window is in balance, in whichever version it is listed. -/
theorem balanced (h : graph.Tidy options codec byHand) :
    ∀ segment ∈ graph.view.segments, segment.Balanced options.limits codec := by
  rw [h.segments_eq]
  intro segment hsegment
  obtain ⟨holding, hholding, rfl⟩ := List.mem_map.mp hsegment
  obtain ⟨hbalanced, hsame | hrepack⟩ := h.current_cases (List.mem_of_mem_drop hholding)
  · rw [hsame]
    exact hbalanced
  · exact hbalanced.repack hrepack

/-- The window shows what the last segments hold as they were written. -/
theorem map_contents (h : graph.Tidy options codec byHand) :
    graph.view.segments.map Segment.contents =
      (graph.written.map Segment.contents).drop (graph.written.length - graph.ids.length) := by
  have hwritten : graph.holdings.toList.map (Segment.contents ∘ Holding.current) =
      graph.holdings.toList.map (Segment.contents ∘ Holding.written) := by
    refine List.map_congr_left fun holding hholding => ?_
    obtain ⟨-, hsame | hrepack⟩ := h.current_cases hholding
    · exact congrArg Segment.contents hsame
    · exact Segment.contents_repack hrepack
  rw [h.segments_eq, List.map_map, List.map_drop, hwritten, written, List.map_map, List.length_map,
    Graph.ids, List.length_map]
  rfl

/-- Graphs that list the same segments show the same if the same was written to them. -/
theorem contents_congr (h : graph.Tidy options codec byHand) {more : List Nat}
    (hnext : next.Tidy options codec more) (hids : next.ids = graph.ids)
    (hwritten : next.written.map Segment.contents = graph.written.map Segment.contents) :
    next.view.stats.contents = graph.view.stats.contents := by
  apply View.contents_congr
  have hlength := congrArg List.length hwritten
  rw [List.length_map, List.length_map] at hlength
  rw [h.map_contents, hnext.map_contents, hids, hwritten, hlength]

/-- Nothing is wasted where every segment is repacked or empty. -/
theorem wasted_of_settled (h : graph.Tidy options codec byHand)
    (hsettled : ∀ version ∈ graph.window, graph.Settled version) (hdrained : graph.Drained) :
    graph.view.poolStats.wasted = 0 := by
  refine View.wasted_eq_zero fun segment hsegment => ?_
  obtain ⟨version, hversion, hshown⟩ := List.mem_filterMap.mp hsegment
  have hlt := h.stocked.orderly.segment_lt hversion
  have hfound := Array.getElem?_eq_getElem hlt
  generalize graph.holdings[version.segment] = holding at hfound
  obtain rfl := Option.some.inj ((h.segment?_eq hversion hfound).symm.trans hshown)
  -- a segment that takes edges is empty, and any other is listed as its copy
  have hmem : holding ∈ graph.holdings.toList :=
    List.mem_of_getElem? (Array.getElem?_toList.trans hfound)
  obtain ⟨hbalanced, hcurrent⟩ := h.current_cases hmem
  cases hsealed : holding.written.isSealed with
  | false =>
    have hempty := hdrained holding.written (List.mem_map_of_mem hmem) hsealed
    have hnone := h.stocked.repacked_eq_none hfound hsealed
    rw [Holding.current, hnone]
    exact hbalanced.reserved_of_unused hempty
  | true =>
    have hrepacked := (hsettled version hversion holding hfound).trans hsealed
    rw [h.latest version hversion holding hfound] at hrepacked
    obtain ⟨copy, hcopy⟩ := Option.isSome_iff_exists.mp hrepacked
    rw [Holding.current, hcopy]
    exact Segment.reserved_of_repack
      ((h.stocked.orderly.holdings _ _ hfound).repacked copy hcopy)

theorem balances (h : graph.Tidy options codec byHand)
    (hcodec : options.resolveCodec = .ok codec)
    (hcapacity : options.limits.segmentEdgeCapacity < UInt32.size) : graph.Balances options := by
  obtain ⟨hsealed, -⟩ := h.sealCurrent hcapacity
  obtain ⟨count, hcount, hcompacted, -, hsettled⟩ := hsealed.optimizeSealed hcapacity
  have hdrained := h.stocked.orderly.drained_sealCurrent.optimizeSealed
  -- compacting shows neither in the ids nor in what was written
  have hids : graph.compacted.ids = graph.ids :=
    hsealed.stocked.orderly.optimizeSealed.ids_eq.trans h.stocked.orderly.sealCurrent.ids_eq
  have hwritten : graph.compacted.written.map Segment.contents =
      graph.written.map Segment.contents := by
    have hignores := ignores_written.map (List.map Segment.contents)
    have hcontents (graph : Graph) (id : Nat) :=
      map_written_modifyWritten Segment.contents_sealed graph id
    exact (hignores.optimizeSealed _).trans (hignores.sealCurrent hcontents graph)
  exact {
    degrees := View.total_degree h.balanced
    poolEdges := View.edges_poolStats h.balanced
    poolNodes := fun hpacks => View.nodes_poolStats h.balanced (hpacks.resolved hcodec)
    reserved := View.edges_le_reserved h.balanced
    compacts := ⟨count, Prod.ext rfl hcount⟩
    wasted := hcompacted.wasted_of_settled hsettled hdrained
    settles := hcompacted.optimizeSealed_of_settled hsettled
    contents := h.contents_congr hcompacted hids hwritten }

end Tidy

/-- An empty window has nothing to add up, and nothing happens to it. -/
theorem Barren.balances (h : graph.Barren options) : graph.Balances options := by
  have hview : graph.view = .empty := by
    unfold view viewOf snapshot
    rw [h.window]
    rfl
  have hsealed : graph.sealCurrent = (graph, false) := by
    unfold sealCurrent
    rw [h.openVersion?_eq]
  have hoptimized : graph.optimizeSealed = (graph, .ok 0) :=
    optimizeSealed_of_none_repackable (by simp [h.window])
  have hcompacted : graph.compacted = graph := by
    rw [compacted, hsealed, hoptimized]
  constructor
  case degrees =>
    intro side
    rw [hview]
    exact total_zero fun node _ => rfl
  case compacts => exact ⟨0, by rw [hcompacted, hsealed, hoptimized]⟩
  case settles => rw [hcompacted, hoptimized]
  case contents => rw [hcompacted]
  all_goals simp [hview, hcompacted, View.stats, View.empty, View.poolStats, PoolStats.empty,
    PoolStats.wasted]

/-- After every run the statistics of a graph agree with each other, and compacting the graph
changes them only by what is wasted. -/
theorem statistics_balance (hcreate : Graph.create options = .ok graph)
    (hcapacity : options.limits.segmentEdgeCapacity < UInt32.size) (operations : List Operation) :
    (graph.run operations).1.Balances options := by
  by_cases hsegment : ∃ segment, Segment.create 0 options = .ok segment
  · obtain ⟨hopens, codec, hcodec, hnew⟩ := create_tidy hcreate hsegment
    exact (hnew.run hopens hcodec hcapacity operations).balances hcodec hcapacity
  · exact (run_barren hcreate hsegment operations).balances

/-- A full segment is repacked, and an edge of a type out of range leaves an empty one behind it. -/
theorem sample_statistics_balance : (Options.sample .uniform false).Packs ∧
    ((sample .uniform false).run
      [.add ⟨1, 2, 0, 5⟩, .add ⟨1, 3, 1, 4⟩, .optimizeSealed, .add ⟨1, 2, 2, 7⟩]).1.Balances
        (.sample .uniform false) := by
  refine ⟨fun own hown => ?_, statistics_balance (create_sample .uniform false) (by decide) _⟩
  contradiction

end Graph

end Slidewalk
