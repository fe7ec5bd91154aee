import Slidewalk.Proofs.AcceptedHistory
import Slidewalk.Proofs.Rejection
import Slidewalk.Proofs.WindowInvariant

/-!
# Held snapshots

A snapshot shares its segments with the graph it was taken from. The newest of them goes on growing
under the snapshot. The others are sealed, and neither repacking nor eviction shows in them.
-/

namespace Slidewalk

/-- How a view of the same segments differs later: the newest one has more edges. -/
structure View.GrowsBy (earlier later : View) (added : List Edge) : Prop where
  ids : later.segments.map (·.id) = earlier.segments.map (·.id)
  older : later.segments.dropLast = earlier.segments.dropLast
  links : ∀ node side, (later.neighbors node side).map (·.link) =
    (earlier.neighbors node side).map (·.link) ++
      (Bucket.touching added side node).map fun edge => (edge.endpoint side.opposite, edge.kind)
  engagedAt : ∀ node side (place : Nat) before now,
    (earlier.neighbors node side)[place]? = some before →
    (later.neighbors node side)[place]? = some now → before.engagedAt ≤ now.engagedAt
  settled : (∀ segment, earlier.segments.getLast? = some segment → segment.isSealed = true) →
    later = earlier

theorem View.GrowsBy.of_empty : View.empty.GrowsBy .empty [] :=
  ⟨rfl, rfl, fun _ _ => rfl, fun _ _ _ _ _ hbefore => by simp at hbefore, fun _ => rfl⟩

/-- What a snapshot that was taken after some operations shows after more of them. -/
def Graph.heldView (graph : Graph) (before meanwhile : List Operation) : View :=
  (graph.run (before ++ meanwhile)).1.viewOf (graph.run before).1.snapshot

namespace Bucket

variable (bucket more : Bucket)

theorem engagedAt_eq {bucket : Bucket} {node : NodeId} {side : Side} {place : Nat}
    {neighbor : Neighbor} (h : (bucket.neighbors node side)[place]? = some neighbor) :
    neighbor.engagedAt = bucket.newest.getD .minValue := by
  obtain ⟨edge, -, rfl⟩ := List.mem_map.mp (List.mem_of_getElem? h)
  rfl

theorem newest_le_append :
    bucket.newest.getD .minValue ≤ (newest (bucket ++ more)).getD .minValue := by
  induction more generalizing bucket with
  | nil => rw [List.append_nil]; exact Int64.le_refl _
  | cons edge rest ih =>
    have hlater := ih (bucket ++ [edge])
    rw [List.append_assoc, List.singleton_append] at hlater
    exact Int64.le_trans (bucket.le_newest_append edge).1 hlater

end Bucket

theorem View.neighbors_singleton (segment : Segment) (node : NodeId) (side : Side) :
    View.neighbors ⟨[segment]⟩ node side = segment.neighbors node side :=
  List.append_nil _

/-- Entries of the newest segment get later, those of older segments do not change. -/
theorem Segment.Reads.engagedAt_le {segment grown : Segment} {bucket more : Bucket}
    (h : segment.Reads bucket) (hgrown : grown.Reads (bucket ++ more)) (older : List Segment)
    {node : NodeId} {side : Side} {place : Nat} {before now : Neighbor}
    (hbefore : (View.neighbors ⟨older ++ [segment]⟩ node side)[place]? = some before)
    (hnow : (View.neighbors ⟨older ++ [grown]⟩ node side)[place]? = some now) :
    before.engagedAt ≤ now.engagedAt := by
  rw [View.neighbors_append, View.neighbors_singleton, List.getElem?_append] at hbefore hnow
  split at hbefore
  · rename_i hlt
    rw [if_pos hlt, hbefore] at hnow
    obtain rfl := Option.some.inj hnow
    exact Int64.le_refl _
  · rename_i hge
    rw [if_neg hge, hgrown.neighbors] at hnow
    rw [h.neighbors] at hbefore
    rw [Bucket.engagedAt_eq hbefore, Bucket.engagedAt_eq hnow]
    exact Bucket.newest_le_append bucket more

/-- A view grows as its newest segment does. -/
theorem Segment.Reads.growsBy {segment grown : Segment} {bucket more : Bucket}
    (h : segment.Reads bucket) (hgrown : grown.Reads (bucket ++ more)) (hid : grown.id = segment.id)
    (hsettled : segment.isSealed = true → grown = segment) (older : List Segment) :
    View.GrowsBy ⟨older ++ [segment]⟩ ⟨older ++ [grown]⟩ more := by
  constructor
  case ids =>
    show (older ++ [grown]).map (·.id) = (older ++ [segment]).map (·.id)
    rw [List.map_append, List.map_append, List.map_singleton, List.map_singleton, hid]
  case older =>
    show (older ++ [grown]).dropLast = (older ++ [segment]).dropLast
    rw [List.dropLast_concat, List.dropLast_concat]
  case links =>
    intro node side
    rw [View.neighbors_append, View.neighbors_append, View.neighbors_singleton,
      View.neighbors_singleton, hgrown.neighbors, h.neighbors, List.map_append, List.map_append,
      List.append_assoc, Bucket.map_link_neighbors, Bucket.map_link_neighbors, Bucket.touching,
      List.filter_append, List.map_append]
    rfl
  case engagedAt => exact fun node side place before now => h.engagedAt_le hgrown older
  case settled =>
    intro hsealed
    rw [hsettled (hsealed segment List.getLast?_concat)]

/-! ## Buckets only grow -/

namespace Ledger

variable {limits : Limits} {ledger : Ledger}

/-- The bucket under an id, empty if there is none yet. -/
def bucket (ledger : Ledger) (id : Nat) : Bucket := ledger.buckets.getD id []

theorem bucket_opened (id : Nat) : (ledger.opened limits).bucket id = ledger.bucket id := by
  cases hopen : ledger.isOpen with
  | true => rw [opened_of_open hopen]
  | false =>
    rw [bucket, bucket, buckets_opened hopen, List.getD_eq_getElem?_getD,
      List.getD_eq_getElem?_getD, List.getElem?_append]
    split
    · rfl
    -- the new bucket is as empty as none
    · rename_i hbeyond
      rw [List.getElem?_eq_none (l := ledger.buckets) (by omega)]
      cases id - ledger.buckets.length <;> rfl

theorem bucket_offered (hwindow : ledger.window ≠ []) (edge : Edge) (result : Except Fault Unit)
    (id : Nat) :
    (ledger.offered limits edge result).bucket id = ledger.bucket id ++
      if some (ledger.buckets.length - 1) = some id then (Operation.add edge).taken (.added result)
      else [] := by
  cases result with
  | error fault =>
    show ledger.bucket id = _ ++ if _ then [] else []
    rw [ite_self, List.append_nil]
  | ok _ =>
    show (ledger.append limits edge).bucket id = _ ++ if _ then [edge] else []
    have hpos := length_buckets_pos hwindow
    have hnewest := getElem?_buckets_last hwindow
    have hdropped : (ledger.append limits edge).dropped = ledger.dropped := rfl
    rw [bucket, bucket, List.getD_eq_getElem?_getD, List.getD_eq_getElem?_getD,
      (getElem?_buckets_of_eq hwindow hdropped rfl id).2]
    by_cases hlast : ledger.buckets.length - 1 = id
    · subst hlast
      rw [if_pos (by omega), if_pos rfl, hnewest]
      rfl
    · rw [if_neg (by omega), if_neg (mt Option.some.inj hlast), List.append_nil]

theorem bucket_sealCurrent (id : Nat) : ledger.sealCurrent.1.bucket id = ledger.bucket id := by
  unfold sealCurrent
  split
  · rfl
  · rfl

end Ledger

namespace Graph

variable {options : Options} {codec : EdgeCodec} {ledger later : Ledger} {graph next : Graph}
  {snapshot : Snapshot} {byHand : List Nat}

/-- What a run puts into a segment goes to the end of its bucket. -/
theorem Follows.run_bucket (h : graph.Follows options codec ledger) (hworks : options.Works codec)
    (operations : List Operation) :
    ∃ final : Ledger, (graph.run operations).1.Follows options codec final ∧
      ∀ id, final.bucket id = ledger.bucket id ++ graph.acceptedInto id operations := by
  induction operations generalizing graph ledger with
  | nil => exact ⟨ledger, h, fun id => (List.append_nil _).symm⟩
  | cons operation rest ih =>
    cases operation with
    | add edge =>
      obtain ⟨-, -, -, -, hnext⟩ := h.add hworks edge
      obtain ⟨final, hfinal, hbucket⟩ := ih hnext
      have hvalid := Ledger.opened_valid h.valid hworks.segments_pos hworks.capacity_pos
      have hwindow := hvalid.open_ne_nil (Ledger.isOpen_opened options.limits ledger)
      have hreceiver : graph.receiver? =
          some ((ledger.opened options.limits).buckets.length - 1) := by
        obtain ⟨next, htarget, -⟩ := h.target hworks
        unfold receiver?
        rw [htarget]
      refine ⟨final, hfinal, fun id => ?_⟩
      rw [hbucket, Ledger.bucket_offered hwindow, Ledger.bucket_opened, ← hreceiver,
        List.append_assoc]
      rfl
    | sealCurrent =>
      obtain ⟨final, hfinal, hbucket⟩ := ih h.sealCurrent.1
      refine ⟨final, hfinal, fun id => ?_⟩
      rw [hbucket, Ledger.bucket_sealCurrent]
      show _ = _ ++ ((if _ then [] else []) ++ _)
      rw [ite_self]
      rfl
    | optimizeSealed =>
      obtain ⟨final, hfinal, hbucket⟩ := ih h.optimizeSealed
      refine ⟨final, hfinal, fun id => ?_⟩
      rw [hbucket]
      show _ = _ ++ ((if _ then [] else []) ++ _)
      rw [ite_self]
      rfl

/-! ## What is held -/

/-- The versions of a snapshot can be read, and all but the newest show sealed segments. -/
structure Holds (graph : Graph) (snapshot : Snapshot) : Prop where
  keeps : ∀ version ∈ snapshot.versions, graph.Keeps version
  opened : ∀ version ∈ snapshot.versions, version.segment < graph.holdings.size
  older : ∀ version ∈ snapshot.versions.dropLast, ∃ segment,
    graph.segment? version = some segment ∧ segment.isSealed = true

theorem Orderly.holds (h : graph.Orderly options byHand) : graph.Holds graph.snapshot := by
  refine ⟨h.listed, fun version hversion => h.segment_lt hversion, fun version hversion => ?_⟩
  have hmem := List.dropLast_subset _ hversion
  obtain ⟨segment, holding, hsegment, hholding, -, -, hseal, -⟩ :=
    h.segment?_spec (h.listed version hmem) (h.segment_lt hmem)
  have hid : version.segment ∈ graph.ids.dropLast := by
    rw [Graph.ids, ← List.map_dropLast]
    exact List.mem_map_of_mem hversion
  exact ⟨segment, hsegment, hseal.trans (h.settled _ _ hholding (h.lt_of_mem_dropLast hid))⟩

theorem Evolves.holds (h : graph.Evolves next) (hholds : graph.Holds snapshot) :
    next.Holds snapshot := by
  refine ⟨fun version hversion => h.keeps (hholds.keeps version hversion),
    fun version hversion => ?_, fun version hversion => ?_⟩
  · have hholding := Array.getElem?_eq_getElem (hholds.opened version hversion)
    obtain ⟨evolved, hevolved, -⟩ := h.holdings _ _ hholding
    exact (Array.getElem?_eq_some_iff.mp hevolved).1
  · obtain ⟨segment, hsegment, hsealed⟩ := hholds.older version hversion
    exact ⟨segment, h.segment?_eq hsegment hsealed, hsealed⟩

/-- A held version shows the bucket under its id. -/
theorem Follows.held (h : graph.Follows options codec ledger) (hholds : graph.Holds snapshot)
    {version : Version} (hversion : version ∈ snapshot.versions) :
    ∃ segment, graph.segment? version = some segment ∧ segment.id = version.segment ∧
      segment.Reads (ledger.bucket version.segment) := by
  have hlt := hholds.opened version hversion
  rw [h.size] at hlt
  have hbucket : ledger.buckets[version.segment]? = some (ledger.bucket version.segment) := by
    rw [Ledger.bucket, List.getD_eq_getElem?_getD, List.getElem?_eq_getElem hlt]
    rfl
  obtain ⟨segment, hsegment, hshows⟩ := h.segment?_eq (hholds.keeps version hversion) hbucket
  exact ⟨segment, hsegment, hshows.id_eq, hshows.records.reads⟩

/-- The segments that a snapshot shows, one for each version. -/
theorem Follows.viewOf (h : graph.Follows options codec ledger) (hholds : graph.Holds snapshot) :
    List.Forall₂ (fun segment version =>
        segment.id = version.segment ∧ segment.Reads (ledger.bucket version.segment))
      (graph.viewOf snapshot).segments snapshot.versions := by
  apply forall₂_filterMap
  rw [List.forall₂_same]
  intro version hversion
  exact h.held hholds hversion

/-- The older segments of a snapshot are sealed, so they are found unchanged. -/
theorem Evolves.filterMap_segment? (h : graph.Evolves next) {older : List Version}
    {newest : Version} (hholds : graph.Holds ⟨older ++ [newest]⟩) :
    older.filterMap next.segment? = older.filterMap graph.segment? := by
  apply List.filterMap_congr
  intro version hversion
  obtain ⟨segment, hfound, hsealed⟩ :=
    hholds.older version (by rw [List.dropLast_concat]; exact hversion)
  rw [hfound]
  exact h.segment?_eq hfound hsealed

theorem viewOf_concat (older : List Version) {newest : Version} {segment : Segment}
    (h : graph.segment? newest = some segment) :
    graph.viewOf ⟨older ++ [newest]⟩ = ⟨older.filterMap graph.segment? ++ [segment]⟩ := by
  rw [Graph.viewOf, List.filterMap_append, List.filterMap_cons, h]
  rfl

theorem Follows.growsBy (h : graph.Follows options codec ledger)
    (hnext : next.Follows options codec later) (hholds : graph.Holds snapshot)
    (hevolves : graph.Evolves next) {added : Nat → List Edge}
    (hadded : ∀ id, later.bucket id = ledger.bucket id ++ added id) :
    (graph.viewOf snapshot).GrowsBy (next.viewOf snapshot) (snapshot.newest?.elim [] added) := by
  obtain ⟨versions⟩ := snapshot
  rcases List.eq_nil_or_concat' versions with rfl | ⟨older, newest, rfl⟩
  · exact .of_empty
  · have hmem : newest ∈ older ++ [newest] := List.mem_append_right _ (List.mem_singleton_self _)
    obtain ⟨segment, hsegment, hid, hreads⟩ := h.held hholds hmem
    obtain ⟨grown, hgrown, hgrownId, hreadsGrown⟩ := hnext.held (hevolves.holds hholds) hmem
    have hsettled (hsealed : segment.isSealed = true) : grown = segment :=
      Option.some.inj (hgrown.symm.trans (hevolves.segment?_eq hsegment hsealed))
    have hnewest : Snapshot.newest? ⟨older ++ [newest]⟩ = some newest.segment := by
      rw [Snapshot.newest?, List.getLast?_concat]
      rfl
    rw [hadded] at hreadsGrown
    rw [viewOf_concat older hsegment, viewOf_concat older hgrown,
      hevolves.filterMap_segment? hholds, hnewest, Option.elim_some]
    exact hreads.growsBy hreadsGrown (hgrownId.trans hid.symm) hsettled _

/-! ## After every run -/

/-- Whatever happens to the graph, a held snapshot gains the edges that its newest segment takes,
and nothing else. -/
theorem held_snapshot_grows (hcreate : Graph.create options = .ok graph)
    (hcodec : options.resolveCodec = .ok codec) (hround : codec.RoundTrips)
    (before meanwhile after : List Operation) :
    (graph.heldView before meanwhile).GrowsBy (graph.heldView before (meanwhile ++ after))
      ((graph.run before).1.snapshot.newest?.elim [] fun id =>
        (graph.run (before ++ meanwhile)).1.acceptedInto id after) := by
  unfold heldView
  rw [← List.append_assoc, run_append graph (before ++ meanwhile), run_append graph before]
  by_cases hsegment : ∃ segment, Segment.create 0 options = .ok segment
  · obtain ⟨hworks, hfollows⟩ := create_follows hcreate hcodec hround hsegment
    obtain ⟨hopens, horderly⟩ := create_orderly hcreate hsegment
    obtain ⟨htaken, -⟩ := horderly.run hopens before
    obtain ⟨hearlier, hmeanwhile⟩ := htaken.run hopens meanwhile
    obtain ⟨-, hafter⟩ := hearlier.run hopens after
    obtain ⟨ledger, hledger, -⟩ := hfollows.run hworks before
    obtain ⟨held, hheld, -⟩ := hledger.run hworks meanwhile
    obtain ⟨final, hfinal, hbucket⟩ := hheld.run_bucket hworks after
    exact hheld.growsBy hfinal (hmeanwhile.holds htaken.holds) hafter hbucket
  -- without segments nothing is ever listed
  · obtain ⟨-, rfl⟩ := create_eq hcreate
    have hbarren : Barren options { options, holdings := #[], window := [], counters := .zero } :=
      ⟨rfl, rfl⟩
    have hempty := (hbarren.run hsegment before).window
    unfold snapshot
    rw [hempty]
    exact .of_empty

/-- The snapshot is taken with one segment half full; that segment is repacked when it is full, and
evicted in the end. -/
theorem sample_held_snapshot_grows :
    ((sample .powerLaw true).heldView [.add ⟨1, 2, 0, 5⟩] []).GrowsBy
      ((sample .powerLaw true).heldView [.add ⟨1, 2, 0, 5⟩]
        ([] ++ [.add ⟨1, 3, 1, 9⟩, .add ⟨1, 2, 0, 7⟩, .sealCurrent, .add ⟨9, 2, 0, 8⟩]))
      (((sample .powerLaw true).run [.add ⟨1, 2, 0, 5⟩]).1.snapshot.newest?.elim [] fun id =>
        ((sample .powerLaw true).run ([.add ⟨1, 2, 0, 5⟩] ++ [])).1.acceptedInto id
          [.add ⟨1, 3, 1, 9⟩, .add ⟨1, 2, 0, 7⟩, .sealCurrent, .add ⟨9, 2, 0, 8⟩]) :=
  held_snapshot_grows (create_sample .powerLaw true) (Options.resolveCodec_sample .powerLaw true)
    BitMask.sample.toCodec_roundTrips _ _ _

end Graph

end Slidewalk
