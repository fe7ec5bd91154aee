import Mathlib.Algebra.BigOperators.Group.List.Basic
import Slidewalk.Proofs.Sorting
import Slidewalk.Proofs.Statistics

/-!
# Statistics are added up in any order

Merging lists the classes of two pools by search and sorts them afterwards. What is counted of a
slot length adds up whatever the lists look like, and ascending lists are determined by what is
counted: so ascending statistics form a commutative monoid, and what a view adds up is a sum in it.
-/

namespace Slidewalk

/-! ## Size classes -/

namespace ClassStats

/-- What a class counts of a slot length: nothing if it is not its own. -/
def countAt (read : ClassStats → Nat) (slotLen : Nat) (sizeClass : ClassStats) : Nat :=
  if sizeClass.slotLen = slotLen then read sizeClass else 0

/-- A quantity that is added up when two classes are. -/
def IsCount (read : ClassStats → Nat) : Prop :=
  ∀ old new, read (old.add new) = read old + read new

theorem isCount_inUse : IsCount (·.inUse) := fun _ _ => rfl

theorem isCount_released : IsCount (·.released) := fun _ _ => rfl

theorem ranks : Ranks (·.slotLen) precedes (fun a b => a.slotLen < b.slotLen) where
  trans a b c hab hbc := by
    unfold precedes at *
    rw [decide_eq_true_eq] at *
    omega
  total a b := by
    unfold precedes
    rw [Bool.or_eq_true, decide_eq_true_eq, decide_eq_true_eq]
    omega
  strict a b h hne := by
    unfold precedes at h
    rw [decide_eq_true_eq] at h
    omega

variable (new : ClassStats) (classes : List ClassStats)

theorem map_slotLen_record :
    (record new classes).map (·.slotLen) =
      if new.slotLen ∈ classes.map (·.slotLen) then classes.map (·.slotLen)
      else classes.map (·.slotLen) ++ [new.slotLen] := by
  apply map_key_upsert
  · exact fun _ => rfl
  · rfl

theorem mem_slotLen_record {slotLen : Nat} :
    slotLen ∈ (record new classes).map (·.slotLen) ↔
      slotLen ∈ classes.map (·.slotLen) ∨ slotLen = new.slotLen := by
  rw [map_slotLen_record]
  split
  · rename_i hlisted
    exact ⟨.inl, fun h => h.elim id fun hsame => hsame ▸ hlisted⟩
  · rw [List.mem_append, List.mem_singleton]

theorem nodup_slotLen_record {classes : List ClassStats} (h : (classes.map (·.slotLen)).Nodup) :
    ((record new classes).map (·.slotLen)).Nodup := by
  rw [map_slotLen_record]
  split
  · exact h
  · rename_i hnew
    rw [← List.concat_eq_append]
    exact h.concat hnew

theorem total_countAt_record {read : ClassStats → Nat} (hread : IsCount read) (slotLen : Nat) :
    total (countAt read slotLen) (record new classes) =
      total (countAt read slotLen) classes + new.countAt read slotLen := by
  unfold record
  induction classes with
  | nil => exact Nat.add_comm _ 0
  | cons first rest ih =>
    unfold upsert
    split
    · -- the class keeps its slot length, and counts what is added to it
      rename_i hsame
      have hfirst : (first.add new).countAt read slotLen =
          first.countAt read slotLen + new.countAt read slotLen := by
        unfold countAt
        rw [hread, hsame, show (first.add new).slotLen = new.slotLen from hsame]
        split <;> rfl
      rw [total_cons, total_cons, hfirst]
      omega
    · rw [total_cons, total_cons, ih]
      omega

end ClassStats

/-! ## Merging -/

namespace PoolStats

open ClassStats (IsCount isCount_inUse isCount_released)

/-- The slot lengths that are listed, whether slots of them were handed out or not. -/
def lengths (stats : PoolStats) : List Nat := stats.classes.map (·.slotLen)

def countAt (read : ClassStats → Nat) (stats : PoolStats) (slotLen : Nat) : Nat :=
  total (ClassStats.countAt read slotLen) stats.classes

/-- Each slot length is listed once, in ascending order. -/
def Ascending (stats : PoolStats) : Prop :=
  stats.classes.Pairwise fun a b => a.slotLen < b.slotLen

instance (stats : PoolStats) : Decidable stats.Ascending :=
  inferInstanceAs (Decidable (List.Pairwise _ _))

variable {a b c : PoolStats} {read : ClassStats → Nat}

theorem mem_lengths_merge (a b : PoolStats) (slotLen : Nat) :
    slotLen ∈ (a.merge b).lengths ↔ slotLen ∈ a.lengths ∨ slotLen ∈ b.lengths := by
  have hfold (added classes : List ClassStats) :
      slotLen ∈ (added.foldl (fun classes new => new.record classes) classes).map (·.slotLen) ↔
        slotLen ∈ classes.map (·.slotLen) ∨ slotLen ∈ added.map (·.slotLen) := by
    induction added generalizing classes with
    | nil => simp
    | cons new rest ih =>
      rw [List.foldl_cons, ih, ClassStats.mem_slotLen_record, List.map_cons, List.mem_cons,
        or_assoc]
  unfold lengths merge
  rw [((List.mergeSort_perm _ _).map _).mem_iff]
  exact hfold b.classes a.classes

theorem countAt_merge (hread : IsCount read) (a b : PoolStats) (slotLen : Nat) :
    (a.merge b).countAt read slotLen = a.countAt read slotLen + b.countAt read slotLen := by
  have hfold (added classes : List ClassStats) :
      total (ClassStats.countAt read slotLen)
          (added.foldl (fun classes new => new.record classes) classes) =
        total (ClassStats.countAt read slotLen) classes +
          total (ClassStats.countAt read slotLen) added := by
    induction added generalizing classes with
    | nil => rfl
    | cons new rest ih =>
      rw [List.foldl_cons, ih, ClassStats.total_countAt_record new classes hread, total_cons]
      omega
  unfold countAt merge
  rw [total_perm _ (List.mergeSort_perm _ _)]
  exact hfold b.classes a.classes

theorem ascending_empty : empty.Ascending := List.Pairwise.nil

theorem Ascending.nodup_lengths (h : a.Ascending) : a.lengths.Nodup := by
  unfold lengths
  rw [List.Nodup, List.pairwise_map]
  exact h.imp Nat.ne_of_lt

/-- What is listed first was ascending, and what is added keeps the slot lengths apart. -/
theorem Ascending.merge (h : a.Ascending) (b : PoolStats) : (a.merge b).Ascending := by
  have hfold (added : List ClassStats) {classes : List ClassStats}
      (hnodup : (classes.map (·.slotLen)).Nodup) :
      ((added.foldl (fun classes new => new.record classes) classes).map (·.slotLen)).Nodup := by
    induction added generalizing classes with
    | nil => exact hnodup
    | cons new rest ih => exact ih (ClassStats.nodup_slotLen_record new hnodup)
  exact ClassStats.ranks.pairwise_mergeSort (hfold b.classes h.nodup_lengths)

/-- Of ascending statistics, what is counted of a listed slot length is what its class says. -/
theorem Ascending.countAt_eq (h : a.Ascending) {sizeClass : ClassStats}
    (hmem : sizeClass ∈ a.classes) : a.countAt read sizeClass.slotLen = read sizeClass := by
  have hnodup := h.nodup_lengths
  unfold countAt
  rw [total_of_subset (List.nodup_singleton sizeClass) hnodup.of_map (by simpa using hmem)]
  · simp [ClassStats.countAt]
  · intro other hother hdiffer
    -- no other class has the slot length
    apply if_neg
    intro hsame
    apply hdiffer
    rw [List.mem_singleton]
    exact List.inj_on_of_nodup_map hnodup hother hmem hsame

theorem Ascending.mem_of_mem (ha : a.Ascending) (hb : b.Ascending)
    (hlengths : ∀ slotLen, slotLen ∈ a.lengths → slotLen ∈ b.lengths)
    (hinUse : ∀ slotLen, a.countAt (·.inUse) slotLen = b.countAt (·.inUse) slotLen)
    (hreleased : ∀ slotLen, a.countAt (·.released) slotLen = b.countAt (·.released) slotLen)
    {sizeClass : ClassStats} (hmem : sizeClass ∈ a.classes) : sizeClass ∈ b.classes := by
  obtain ⟨other, hother, hlen⟩ :=
    List.mem_map.mp (hlengths sizeClass.slotLen (List.mem_map_of_mem hmem))
  have hlen : other.slotLen = sizeClass.slotLen := hlen
  have hused := hinUse sizeClass.slotLen
  have hfreed := hreleased sizeClass.slotLen
  rw [ha.countAt_eq hmem, ← hlen, hb.countAt_eq hother] at hused hfreed
  have hsame : sizeClass = other := by
    cases sizeClass
    cases other
    simp_all
  rw [hsame]
  exact hother

/-- Ascending statistics are determined by what they count. -/
theorem Ascending.ext (ha : a.Ascending) (hb : b.Ascending) (hnodes : a.nodes = b.nodes)
    (hedges : a.edges = b.edges) (hreserved : a.reserved = b.reserved)
    (hlengths : ∀ slotLen, slotLen ∈ a.lengths ↔ slotLen ∈ b.lengths)
    (hinUse : ∀ slotLen, a.countAt (·.inUse) slotLen = b.countAt (·.inUse) slotLen)
    (hreleased : ∀ slotLen, a.countAt (·.released) slotLen = b.countAt (·.released) slotLen) :
    a = b := by
  -- the same classes in ascending order are the same list
  have hperm : a.classes.Perm b.classes := by
    apply (List.perm_ext_iff_of_nodup ha.nodup_lengths.of_map hb.nodup_lengths.of_map).mpr
    intro sizeClass
    constructor
    · exact ha.mem_of_mem hb (fun slotLen => (hlengths slotLen).mp) hinUse hreleased
    · exact hb.mem_of_mem ha (fun slotLen => (hlengths slotLen).mpr) (fun slotLen =>
        (hinUse slotLen).symm) fun slotLen => (hreleased slotLen).symm
  have hclasses : a.classes = b.classes :=
    hperm.eq_of_pairwise (fun x y _ _ hxy hyx => absurd hxy (Nat.lt_asymm hyx)) ha hb
  cases a
  cases b
  simp_all

theorem Ascending.merge_comm (ha : a.Ascending) (hb : b.Ascending) : a.merge b = b.merge a := by
  apply (ha.merge b).ext (hb.merge a)
  · exact Nat.add_comm _ _
  · exact Nat.add_comm _ _
  · exact Nat.add_comm _ _
  · intro slotLen
    rw [mem_lengths_merge, mem_lengths_merge, or_comm]
  · intro slotLen
    simp only [countAt_merge isCount_inUse, Nat.add_comm]
  · intro slotLen
    simp only [countAt_merge isCount_released, Nat.add_comm]

theorem Ascending.merge_assoc (ha : a.Ascending) (b c : PoolStats) :
    (a.merge b).merge c = a.merge (b.merge c) := by
  apply ((ha.merge b).merge c).ext (ha.merge (b.merge c))
  · exact Nat.add_assoc _ _ _
  · exact Nat.add_assoc _ _ _
  · exact Nat.add_assoc _ _ _
  · intro slotLen
    simp only [mem_lengths_merge, or_assoc]
  · intro slotLen
    simp only [countAt_merge isCount_inUse, Nat.add_assoc]
  · intro slotLen
    simp only [countAt_merge isCount_released, Nat.add_assoc]

theorem Ascending.merge_empty (ha : a.Ascending) : a.merge .empty = a := by
  apply (ha.merge .empty).ext ha rfl rfl rfl
  · intro slotLen
    rw [mem_lengths_merge]
    exact or_iff_left List.not_mem_nil
  · exact countAt_merge isCount_inUse a .empty
  · exact countAt_merge isCount_released a .empty

theorem Ascending.empty_merge (ha : a.Ascending) : empty.merge a = a := by
  rw [ascending_empty.merge_comm ha, ha.merge_empty]

/-- Ascending statistics are added up by merging. -/
structure Merges (a b c : PoolStats) : Prop where
  ascending : (a.merge b).Ascending
  assoc : (a.merge b).merge c = a.merge (b.merge c)
  comm : a.merge b = b.merge a
  merge_empty : a.merge .empty = a
  empty_merge : empty.merge a = a
  lengths : ∀ slotLen, slotLen ∈ (a.merge b).lengths ↔ slotLen ∈ a.lengths ∨ slotLen ∈ b.lengths
  inUse : ∀ slotLen, (a.merge b).countAt (·.inUse) slotLen =
    a.countAt (·.inUse) slotLen + b.countAt (·.inUse) slotLen
  released : ∀ slotLen, (a.merge b).countAt (·.released) slotLen =
    a.countAt (·.released) slotLen + b.countAt (·.released) slotLen

theorem Ascending.merges (ha : a.Ascending) (hb : b.Ascending) (c : PoolStats) :
    a.Merges b c where
  ascending := ha.merge b
  assoc := ha.merge_assoc b c
  comm := ha.merge_comm hb
  merge_empty := ha.merge_empty
  empty_merge := ha.empty_merge
  lengths := mem_lengths_merge a b
  inUse := countAt_merge isCount_inUse a b
  released := countAt_merge isCount_released a b

end PoolStats

/-! ## The monoid of occupancies -/

/-- Statistics that are known to list each slot length once, in ascending order. -/
@[ext] structure Occupancy where
  stats : PoolStats
  ascending : stats.Ascending

namespace Occupancy

instance : Zero Occupancy := ⟨⟨.empty, PoolStats.ascending_empty⟩⟩

instance : Add Occupancy := ⟨fun a b => ⟨a.stats.merge b.stats, a.ascending.merge b.stats⟩⟩

@[simp] theorem stats_zero : (0 : Occupancy).stats = .empty := rfl

@[simp] theorem stats_add (a b : Occupancy) : (a + b).stats = a.stats.merge b.stats := rfl

instance : AddCommMonoid Occupancy where
  add_assoc a b c := Occupancy.ext (a.ascending.merge_assoc b.stats c.stats)
  add_comm a b := Occupancy.ext (a.ascending.merge_comm b.ascending)
  add_zero a := Occupancy.ext a.ascending.merge_empty
  zero_add a := Occupancy.ext a.ascending.empty_merge
  nsmul := nsmulRec

end Occupancy

/-! ## Pools -/

/-- The classes of a pool are listed from the shortest slots to the longest. -/
theorem PowerLawPool.ascending_stats (pool : PowerLawPool) : pool.stats.Ascending := by
  show (pool.classes.toList.zipIdx.map _).Pairwise _
  rw [List.pairwise_map]
  have hplaces : (pool.classes.toList.zipIdx.map (·.2)).Pairwise (· < ·) := by
    rw [List.zipIdx_map_snd]
    exact List.pairwise_lt_range'
  apply (List.pairwise_map.mp hplaces).imp
  intro entry other hless
  exact pool.bounds.slotLen_lt_slotLen.mpr hless

theorem Pool.ascending_stats (pool : Pool) : pool.stats.Ascending := by
  cases pool with
  | uniform pool => exact List.Pairwise.nil
  | powerLaw pool => exact pool.ascending_stats
  | exactFit pool => exact List.Pairwise.nil

def Pool.occupancy (pool : Pool) : Occupancy := ⟨pool.stats, pool.ascending_stats⟩

namespace Segment

def pools (segment : Segment) : List Pool := [segment.left.pool, segment.right.pool]

/-- The segment with its sides exchanged. -/
def turned (segment : Segment) : Segment :=
  { segment with left := segment.right, right := segment.left }

theorem pools_turned (segment : Segment) : segment.turned.pools.Perm segment.pools :=
  List.Perm.swap _ _ _

end Segment

namespace View

/-- The pools of all segments, two for each of them. -/
def pools (view : View) : List Pool := view.segments.flatMap (·.pools)

variable {view other : View}

/-- What a view adds up, segment by segment, is a sum over its pools. -/
theorem poolStats_eq_sum (view : View) :
    view.poolStats = (view.pools.map Pool.occupancy).sum.stats := by
  -- a segment merges its sides first, which is one more way to bracket the sum
  have hfold (segments : List Segment) (start : Occupancy) :
      segments.foldl (fun stats segment => stats.merge segment.stats) start.stats =
        (start + ((segments.flatMap (·.pools)).map Pool.occupancy).sum).stats := by
    induction segments generalizing start with
    | nil => simp
    | cons segment rest ih =>
      have hsegment : start.stats.merge segment.stats =
          (start + (segment.left.pool.occupancy + segment.right.pool.occupancy)).stats := rfl
      rw [List.foldl_cons, hsegment, ih]
      simp [Segment.pools, add_assoc]
  rw [poolStats, ← Occupancy.stats_zero, hfold, zero_add]
  rfl

theorem poolStats_eq_total_pools (read : PoolStats → Nat) (hempty : read .empty = 0)
    (hmerge : ∀ a b, read (a.merge b) = read a + read b) (view : View) :
    read view.poolStats = total (fun pool => read pool.stats) view.pools := by
  rw [poolStats_eq_total read hempty hmerge, pools, total_flatMap]
  apply total_congr
  intro segment _
  exact hmerge _ _

theorem mem_lengths_poolStats (view : View) (slotLen : Nat) :
    slotLen ∈ view.poolStats.lengths ↔ ∃ pool ∈ view.pools, slotLen ∈ pool.stats.lengths := by
  rw [poolStats_eq_sum]
  induction view.pools with
  | nil => simp [PoolStats.lengths, PoolStats.empty]
  | cons pool rest ih =>
    rw [List.map_cons, List.sum_cons, Occupancy.stats_add, PoolStats.mem_lengths_merge, ih,
      List.exists_mem_cons_iff]
    rfl

theorem poolStats_perm (h : (other.pools.map Pool.stats).Perm (view.pools.map Pool.stats)) :
    other.poolStats = view.poolStats := by
  have hstats (pools : List Pool) :
      (pools.map Pool.occupancy).map Occupancy.stats = pools.map Pool.stats := by
    rw [List.map_map]
    rfl
  -- an occupancy is no more than its statistics
  rw [← hstats, ← hstats, List.map_perm_map_iff fun _ _ => Occupancy.ext] at h
  rw [poolStats_eq_sum, poolStats_eq_sum, h.sum_eq]

/-- Segments read together, some of them with their sides exchanged. -/
def turned (segments : List Segment) (turns : Segment → Bool) : View where
  segments := segments.map fun segment => if turns segment then segment.turned else segment

theorem pools_turned {segments : List Segment} (h : segments.Perm view.segments)
    (turns : Segment → Bool) : (turned segments turns).pools.Perm view.pools := by
  unfold pools turned
  rw [List.flatMap_map]
  apply List.Perm.trans _ (h.flatMap_right _)
  apply List.Perm.flatMap_left
  intro segment _
  split
  · exact segment.pools_turned
  · exact List.Perm.refl _

/-- What the statistics of a view say of its pools does not depend on their order. -/
structure SumsPools (view : View) : Prop where
  ascending : view.stats.pools.Ascending
  nodes : view.stats.pools.nodes = total (·.stats.nodes) view.pools
  edges : view.stats.pools.edges = total (·.stats.edges) view.pools
  reserved : view.stats.pools.reserved = total (·.stats.reserved) view.pools
  wasted : view.stats.pools.wasted =
    total (·.stats.reserved) view.pools - total (·.stats.edges) view.pools
  lengths : ∀ slotLen, slotLen ∈ view.stats.pools.lengths ↔
    ∃ pool ∈ view.pools, slotLen ∈ pool.stats.lengths
  inUse : ∀ slotLen, view.stats.pools.countAt (·.inUse) slotLen =
    total (·.stats.countAt (·.inUse) slotLen) view.pools
  released : ∀ slotLen, view.stats.pools.countAt (·.released) slotLen =
    total (·.stats.countAt (·.released) slotLen) view.pools
  /-- Pools may be listed under other segments and sides, if all of them are listed. -/
  reordered : ∀ other : View, (other.pools.map Pool.stats).Perm (view.pools.map Pool.stats) →
    other.stats.pools = view.stats.pools
  /-- The segments may come in another order, and some of them with their sides exchanged. -/
  rearranged : ∀ (segments : List Segment) (turns : Segment → Bool),
    segments.Perm view.segments → (turned segments turns).stats.pools = view.stats.pools

theorem sumsPools (view : View) : view.SumsPools := by
  have hcount (read : ClassStats → Nat) (hread : ClassStats.IsCount read) (slotLen : Nat) :=
    view.poolStats_eq_total_pools (·.countAt read slotLen) rfl fun a b =>
      PoolStats.countAt_merge hread a b slotLen
  have hedges := view.poolStats_eq_total_pools PoolStats.edges rfl fun _ _ => rfl
  have hreserved := view.poolStats_eq_total_pools PoolStats.reserved rfl fun _ _ => rfl
  constructor
  case ascending =>
    show view.poolStats.Ascending
    rw [poolStats_eq_sum]
    exact Occupancy.ascending _
  case nodes => exact view.poolStats_eq_total_pools PoolStats.nodes rfl fun _ _ => rfl
  case edges => exact hedges
  case reserved => exact hreserved
  case wasted =>
    show view.poolStats.reserved - view.poolStats.edges = _
    rw [hreserved, hedges]
  case lengths => exact view.mem_lengths_poolStats
  case inUse => exact hcount _ ClassStats.isCount_inUse
  case released => exact hcount _ ClassStats.isCount_released
  case reordered => exact fun other h => poolStats_perm h
  case rearranged =>
    exact fun segments turns h => poolStats_perm ((pools_turned h turns).map Pool.stats)

end View

/-- The statistics of pools list their classes in ascending order, merging is addition on such
statistics, and what a view adds up is the same in whichever order it does. -/
theorem pool_statistics_add_up :
    (∀ pool : Pool, pool.stats.Ascending) ∧
    (∀ a b c : PoolStats, a.Ascending → b.Ascending → c.Ascending → a.Merges b c) ∧
    ∀ view : View, view.SumsPools :=
  ⟨Pool.ascending_stats, fun _ _ c ha hb _ => ha.merges hb c, View.sumsPools⟩

/-- A list of three entries, which was promoted twice. -/
def PoolStats.sampleHigh : PoolStats :=
  { nodes := 1, edges := 3, reserved := 4, classes := [⟨1, 0, 1⟩, ⟨2, 0, 1⟩, ⟨4, 1, 0⟩] }

/-- A list of one entry, and one of two. -/
def PoolStats.sampleLow : PoolStats :=
  { nodes := 2, edges := 3, reserved := 3, classes := [⟨1, 1, 1⟩, ⟨2, 1, 0⟩] }

/-- Two lists of a pool that was repacked. -/
def PoolStats.samplePacked : PoolStats := { nodes := 2, edges := 3, reserved := 3, classes := [] }

/-- Some classes are listed in both pools, some in one and some in none, and a window with a
repacked segment in it is read from its newest right side to its oldest left one. -/
theorem sample_pool_statistics_add_up :
    PoolStats.sampleHigh.Ascending ∧ PoolStats.sampleLow.Ascending ∧
      PoolStats.samplePacked.Ascending ∧
      PoolStats.Merges .sampleHigh .sampleLow .samplePacked ∧
    let view := ((Graph.sample .powerLaw false).run
      [.add ⟨1, 2, 0, 5⟩, .add ⟨1, 3, 1, 4⟩, .optimizeSealed, .add ⟨1, 2, 0, 7⟩]).1.view
    (View.turned view.segments.reverse fun _ => true).stats.pools = view.stats.pools := by
  have hhigh : PoolStats.sampleHigh.Ascending := by decide
  have hlow : PoolStats.sampleLow.Ascending := by decide
  have hpacked : PoolStats.samplePacked.Ascending := by decide
  obtain ⟨-, hmerges, hviews⟩ := pool_statistics_add_up
  refine ⟨hhigh, hlow, hpacked, hmerges _ _ _ hhigh hlow hpacked, ?_⟩
  intro view
  apply (hviews view).rearranged
  exact view.segments.reverse_perm

end Slidewalk
