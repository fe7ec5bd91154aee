import Mathlib.Data.List.MinMax
import Slidewalk.Proofs.Binary64.Powers
import Slidewalk.Proofs.Requests
import Slidewalk.Proofs.Walk.Apportionment

/-!
# The weights a walk starts with

A validated request has a node to start from, with a positive weight, unless the query node takes no
part of the mass and the weights of the seeds add up to infinity: then each seed has an infinitely
small part of them. No weight is above two, as a node takes one part as the query node and one as a
seed.
-/

namespace Slidewalk.Salsa

open Binary64

variable {request : Request}

/-! ## What validation finds -/

/-- The query node takes a part of one, and the seeds have finite weights. -/
structure Request.IsUsable (request : Request) : Prop where
  fraction : IsPart request.settings.queryNodeWeightFraction
  seeds : ∀ entry ∈ request.leftSeeds.toList, ∃ n, Measures entry.2 n

theorem RequestDraft.isUsable_of_build {draft : RequestDraft} (h : draft.build = .ok request) :
    request.IsUsable := by
  have hbecomes := becomes_of_build h
  have hseeds : request.leftSeeds = draft.leftSeeds := by rw [hbecomes.same]
  refine ⟨?_, fun entry hentry => ?_⟩
  · obtain ⟨hlow, hhigh⟩ := Bool.and_eq_true_iff.mp hbecomes.checked_request.fraction
    exact isPart_of_le (of_decide_eq_true hlow) (of_decide_eq_true hhigh)
  · rw [hseeds] at hentry
    have hgood := List.find?_eq_none.mp hbecomes.seeds entry hentry
    rw [Bool.or_eq_true, not_or, Bool.not_eq_true', Bool.not_eq_false, decide_eq_true_eq] at hgood
    exact exists_measures_of_not_lt hgood.1 hgood.2

/-! ## Masses -/

namespace Mass

def HasPositive (mass : Mass) : Prop :=
  ∃ (node : NodeId) (weight : Binary64), mass[node]? = some weight ∧ 0.0 < weight

/-- The mass once each of some nodes got its share. -/
def shareOut (mass : Mass) (share : Binary64 → Binary64) (entries : List (NodeId × Binary64)) :
    Mass :=
  entries.foldl (fun mass entry => mass.add entry.1 (share entry.2)) mass

variable {mass : Mass} {node other : NodeId} {amount weight : Binary64}
variable {share : Binary64 → Binary64} {entries : List (NodeId × Binary64)}

/-- What is shared out among distinct nodes is added once to each. -/
theorem getElem?_shareOut (hdistinct : (entries.map (·.1)).Nodup) :
    (mass.shareOut share entries)[node]? = some weight ↔
      node ∉ entries.map (·.1) ∧ mass[node]? = some weight ∨
        ∃ entry ∈ entries, entry.1 = node ∧ mass[node]?.getD 0.0 + share entry.2 = weight := by
  induction entries generalizing mass with
  | nil => simp [shareOut]
  | cons entry rest ih =>
    rw [List.map_cons, List.nodup_cons] at hdistinct
    have hrest : (mass.add entry.1 (share entry.2)).shareOut share rest =
        mass.shareOut share (entry :: rest) := rfl
    rw [← hrest, ih hdistinct.2, getElem?_add, List.exists_mem_cons_iff, List.map_cons,
      List.mem_cons]
    by_cases hhere : entry.1 = node
    · subst hhere
      -- the node does not come again
      have honce (P : NodeId × Binary64 → Prop) : ¬∃ other ∈ rest, other.1 = entry.1 ∧ P other := by
        rintro ⟨other, hother, hsame, -⟩
        exact hdistinct.1 (hsame ▸ List.mem_map_of_mem hother)
      simp [honce, hdistinct.1]
    · simp [hhere, Ne.symm hhere]

theorem getElem?_single (node other : NodeId) (amount : Binary64) :
    (empty.insert node amount)[other]? = if node = other then some amount else none := by
  simp [Std.TreeMap.getElem?_insert, empty]

theorem held_single (hamount : IsPart amount) (node other : NodeId) :
    IsPart ((empty.insert node amount)[other]?.getD 0.0) ∧
      (0.0 < (empty.insert node amount)[other]?.getD 0.0 ↔ node = other ∧ 0.0 < amount) := by
  rw [getElem?_single]
  split
  · rename_i hsame
    exact ⟨hamount, (and_iff_right hsame).symm⟩
  · rename_i hdiffer
    refine ⟨⟨0, Nat.zero_le _, measures_zero false⟩, iff_of_false (Binary64.lt_irrefl 0.0) ?_⟩
    exact fun h => hdiffer h.1

section Parts

variable (hdistinct : (entries.map (·.1)).Nodup) (hamount : IsPart amount)
variable (hshare : ∀ entry ∈ entries, IsPart (share entry.2))

include hdistinct hamount hshare

/-- A part of one on a node, and parts shared out among distinct nodes, are weights up to two on
these nodes. -/
theorem isUpTo_shareOut
    (hweight : (shareOut (empty.insert node amount) share entries)[other]? = some weight) :
    IsUpTo 1 weight ∧ (other = node ∨ other ∈ entries.map (·.1)) := by
  obtain ⟨-, halone⟩ | ⟨entry, hentry, rfl, rfl⟩ := (getElem?_shareOut hdistinct).mp hweight
  · rw [getElem?_single, Option.ite_none_right_eq_some] at halone
    obtain ⟨hsame, hheld⟩ := halone
    exact ⟨Option.some.inj hheld ▸ hamount.isUpTo 1, .inl hsame.symm⟩
  · exact ⟨(held_single hamount node entry.1).1.add (hshare entry hentry),
      .inr (List.mem_map_of_mem hentry)⟩

/-- One of these weights is positive if one of the parts is. -/
theorem hasPositive_shareOut_iff :
    HasPositive (shareOut (empty.insert node amount) share entries) ↔
      0.0 < amount ∨ ∃ entry ∈ entries, 0.0 < share entry.2 := by
  have hsum (entry : NodeId × Binary64) (hentry : entry ∈ entries) :
      0.0 < (empty.insert node amount)[entry.1]?.getD 0.0 + share entry.2 ↔
        node = entry.1 ∧ 0.0 < amount ∨ 0.0 < share entry.2 := by
    obtain ⟨hheld, hpos⟩ := held_single hamount node entry.1
    rw [(hheld.isNonneg.add (hshare entry hentry).isNonneg).2, hpos]
  constructor
  · rintro ⟨other, weight, hweight, hpos⟩
    obtain ⟨-, halone⟩ | ⟨entry, hentry, rfl, rfl⟩ := (getElem?_shareOut hdistinct).mp hweight
    · rw [getElem?_single, Option.ite_none_right_eq_some] at halone
      exact .inl (Option.some.inj halone.2 ▸ hpos)
    · exact ((hsum entry hentry).mp hpos).imp (·.2) fun hshare => ⟨entry, hentry, hshare⟩
  · have hlisted (entry : NodeId × Binary64) (hentry : entry ∈ entries)
        (hterm : node = entry.1 ∧ 0.0 < amount ∨ 0.0 < share entry.2) :
        HasPositive (shareOut (empty.insert node amount) share entries) :=
      ⟨entry.1, _, (getElem?_shareOut hdistinct).mpr (.inr ⟨entry, hentry, rfl, rfl⟩),
        (hsum entry hentry).mpr hterm⟩
    rintro (hpos | ⟨entry, hentry, hpos⟩)
    · by_cases hmem : node ∈ entries.map (·.1)
      · obtain ⟨entry, hentry, rfl⟩ := List.mem_map.mp hmem
        exact hlisted entry hentry (.inl ⟨rfl, hpos⟩)
      · refine ⟨node, amount, (getElem?_shareOut hdistinct).mpr (.inl ⟨hmem, ?_⟩), hpos⟩
        rw [getElem?_single, if_pos rfl]
    · exact hlisted entry hentry (.inr hpos)

end Parts

/-! ## Totals -/

theorem foldl_zero_lt {entries : List (NodeId × Binary64)} {sum : Binary64}
    (hentries : ∀ entry ∈ entries, IsNonneg entry.2) (hsum : IsNonneg sum) :
    IsNonneg (entries.foldl (fun sum entry => sum + entry.2) sum) ∧
      (0.0 < entries.foldl (fun sum entry => sum + entry.2) sum ↔
        0.0 < sum ∨ ∃ entry ∈ entries, 0.0 < entry.2) := by
  induction entries generalizing sum with
  | nil => exact ⟨hsum, by simp⟩
  | cons entry rest ih =>
    have hfirst := hsum.add (hentries entry List.mem_cons_self)
    have hrest := ih (fun other hother => hentries other (List.mem_cons_of_mem _ hother)) hfirst.1
    refine ⟨hrest.1, ?_⟩
    rw [List.foldl_cons, hrest.2, hfirst.2, List.exists_mem_cons_iff, or_assoc]

/-- A sum is not below where it starts, nor below what is added. -/
theorem magnitude_le_foldl {entries : List (NodeId × Binary64)} {sum : Binary64}
    (hentries : ∀ entry ∈ entries, IsNonneg entry.2) (hsum : IsNonneg sum) :
    sum.magnitude ≤ (entries.foldl (fun sum entry => sum + entry.2) sum).magnitude ∧
      ∀ entry ∈ entries,
        entry.2.magnitude ≤ (entries.foldl (fun sum entry => sum + entry.2) sum).magnitude := by
  induction entries generalizing sum with
  | nil => simp
  | cons entry rest ih =>
    have hentry := hentries entry List.mem_cons_self
    have hnext := hsum.magnitude_le_add hentry
    have hrest := ih (fun other hother => hentries other (List.mem_cons_of_mem _ hother))
      (hsum.add hentry).1
    rw [List.foldl_cons, List.forall_mem_cons]
    exact ⟨Nat.le_trans hnext.1 hrest.1, Nat.le_trans hnext.2 hrest.1, hrest.2⟩

theorem foldl_settles {entries : List (NodeId × Binary64)} {sum : Binary64} {q : Nat}
    (hentries : ∀ entry ∈ entries, ∃ k ≤ 2 ^ q, Measures entry.2 k) (hsum : Settles q sum) :
    Settles q (entries.foldl (fun sum entry => sum + entry.2) sum) := by
  induction entries generalizing sum with
  | nil => exact hsum
  | cons entry rest ih =>
    obtain ⟨k, hk, hentry⟩ := hentries entry List.mem_cons_self
    exact ih (fun other hother => hentries other (List.mem_cons_of_mem _ hother))
      (hsum.add hentry hk)

theorem total_eq (mass : Mass) :
    mass.total = mass.toList.foldl (fun sum entry => sum + entry.2) 0.0 :=
  Std.TreeMap.foldl_eq_foldl_toList

/-- Of nonempty weights one is the largest. -/
theorem exists_largest {entries : List (NodeId × Binary64)} (hne : entries ≠ []) :
    ∃ entry ∈ entries, ∀ other ∈ entries, other.2.magnitude ≤ entry.2.magnitude := by
  obtain ⟨entry, hentry⟩ := Option.ne_none_iff_exists'.mp
    fun hnone => hne (List.argmax_eq_none (f := fun entry => entry.2.magnitude).mp hnone)
  exact ⟨entry, List.argmax_mem hentry, fun other hother =>
    List.le_of_mem_argmax (f := fun entry => entry.2.magnitude) hother hentry⟩

theorem total_zero_lt {mass : Mass} (h : ∀ entry ∈ mass.toList, ∃ n, Measures entry.2 n) :
    IsNonneg mass.total ∧ (0.0 < mass.total ↔ ∃ entry ∈ mass.toList, 0.0 < entry.2) ∧
      ∀ entry ∈ mass.toList, entry.2.magnitude ≤ mass.total.magnitude := by
  have hzero : ¬(0.0 : Binary64) < 0.0 := Binary64.lt_irrefl 0.0
  have hstart : IsNonneg 0.0 := (measures_zero false).isNonneg
  have hnonneg (entry : NodeId × Binary64) (hentry : entry ∈ mass.toList) : IsNonneg entry.2 :=
    (h entry hentry).elim fun _ hn => hn.isNonneg
  have hsum := foldl_zero_lt hnonneg hstart
  rw [total_eq]
  exact ⟨hsum.1, hsum.2.trans (or_iff_right hzero), (magnitude_le_foldl hnonneg hstart).2⟩

/-- The largest weight has a positive part of a finite total. -/
theorem exists_zero_lt_div {mass : Mass} (h : ∀ entry ∈ mass.toList, ∃ n, Measures entry.2 n)
    (hpos : 0.0 < mass.total) (hfinite : mass.total ≠ infinity false) :
    ∃ entry ∈ mass.toList, 0.0 < entry.2 / mass.total := by
  obtain ⟨positive, hmem, hpositive⟩ := (total_zero_lt h).2.1.mp hpos
  obtain ⟨largest, hlargest, hmost⟩ := exists_largest (List.ne_nil_of_mem hmem)
  obtain ⟨n, hn⟩ := h largest hlargest
  have hle (entry : NodeId × Binary64) (hentry : entry ∈ mass.toList) :
      ∃ k ≤ n, Measures entry.2 k := by
    obtain ⟨k, hk⟩ := h entry hentry
    exact ⟨k, hk.le_of_magnitude_le hn (hmost entry hentry), hk⟩
  have hn0 : n ≠ 0 := by
    obtain ⟨k, hk, hmeasures⟩ := hle positive hmem
    have hk0 := hmeasures.zero_lt_iff.mp hpositive
    omega
  have hsettles : Settles (n.log2 + 1) mass.total := by
    rw [total_eq]
    refine foldl_settles (fun entry hentry => ?_) (.inr ⟨0, Nat.zero_le _, measures_zero false⟩)
    obtain ⟨k, hk, hmeasures⟩ := hle entry hentry
    exact ⟨k, Nat.le_trans hk (Nat.le_of_lt Nat.lt_log2_self), hmeasures⟩
  obtain ⟨t, ht, htotal⟩ := hsettles.resolve_left hfinite
  refine ⟨largest, hlargest, hn.zero_lt_div htotal hn0 (htotal.zero_lt_iff.mp hpos) ?_⟩
  calc t ≤ 2 ^ (n.log2 + 1 + 53) := ht
    _ ≤ 2 ^ (n.log2 + 200) := Nat.pow_le_pow_right (by decide) (by omega)
    _ ≤ n * 2 ^ 200 := by
      rw [Nat.pow_add]
      exact Nat.mul_le_mul_right _ (Nat.log2_self_le hn0)

end Mass

/-! ## The distribution -/

/-- The query node takes no part of the mass, and no seed a finite one of the total. -/
structure Request.Overflows (request : Request) : Prop where
  fraction : request.settings.queryNodeWeightFraction.isZero = true
  total : request.leftSeeds.total = infinity false

/-- What a seed of some weight starts with. -/
def Request.share (request : Request) (weight : Binary64) : Binary64 :=
  (1.0 - request.settings.queryNodeWeightFraction) * weight / request.leftSeeds.total

/-- Where the query node takes nothing, the seeds share the whole mass. -/
theorem Request.IsUsable.share_eq (h : request.IsUsable)
    (hzero : Measures request.settings.queryNodeWeightFraction 0) {entry : NodeId × Binary64}
    (hentry : entry ∈ request.leftSeeds.toList) :
    request.share entry.2 = entry.2 / request.leftSeeds.total := by
  obtain ⟨k, hk⟩ := h.seeds entry hentry
  rw [share, hzero.one_sub_zero, hk.one_mul]

theorem Request.IsUsable.zero_lt_share_iff (h : request.IsUsable)
    (hzero : Measures request.settings.queryNodeWeightFraction 0)
    (hpos : 0.0 < request.leftSeeds.total) :
    (∃ entry ∈ request.leftSeeds.toList, 0.0 < request.share entry.2) ↔
      request.leftSeeds.total ≠ infinity false := by
  constructor
  · rintro ⟨entry, hentry, hpositive⟩ hinfinite
    obtain ⟨k, hk⟩ := h.seeds entry hentry
    obtain ⟨s, hnothing⟩ := hk.div_infinity
    rw [h.share_eq hzero hentry, hinfinite, hnothing] at hpositive
    exact (measures_zero s).zero_lt_iff.mp hpositive rfl
  · intro hfinite
    obtain ⟨entry, hentry, hpositive⟩ := Mass.exists_zero_lt_div h.seeds hpos hfinite
    exact ⟨entry, hentry, h.share_eq hzero hentry ▸ hpositive⟩

/-- A weight is not above the total, and only a part of it is shared. -/
theorem Request.IsUsable.isPart_share (h : request.IsUsable)
    (hpos : 0.0 < request.leftSeeds.total) {entry : NodeId × Binary64}
    (hentry : entry ∈ request.leftSeeds.toList) : IsPart (request.share entry.2) := by
  obtain ⟨hnonneg, -, hle⟩ := Mass.total_zero_lt h.seeds
  obtain ⟨k, hk⟩ := h.seeds entry hentry
  obtain ⟨j, hj, hmeasures⟩ := h.fraction.one_sub.mul hk
  exact hmeasures.div hnonneg hpos (Nat.le_trans (hmeasures.magnitude_le hk hj) (hle entry hentry))

theorem seedWeights_of_pos (hpos : 0.0 < request.leftSeeds.total) :
    seedWeights request =
      Mass.shareOut (Mass.empty.insert request.queryNode request.settings.queryNodeWeightFraction)
        request.share request.leftSeeds.toList := by
  unfold seedWeights
  dsimp only
  rw [if_pos hpos, Std.TreeMap.foldl_eq_foldl_toList]
  rfl

theorem seedWeights_of_not_pos (hzero : ¬0.0 < request.leftSeeds.total) :
    seedWeights request = Mass.empty.insert request.queryNode 1.0 :=
  if_neg hzero

/-- No weight is above two, and only the query node and the seeds have one. -/
theorem isUpTo_seedWeights (h : request.IsUsable) {node : NodeId} {weight : Binary64}
    (hweight : (seedWeights request)[node]? = some weight) :
    IsUpTo 1 weight ∧ (node = request.queryNode ∨ node ∈ request.leftSeeds.toList.map (·.1)) := by
  by_cases hpos : 0.0 < request.leftSeeds.total
  · rw [seedWeights_of_pos hpos] at hweight
    exact Mass.isUpTo_shareOut request.leftSeeds.nodup_nodes h.fraction
      (fun entry => h.isPart_share hpos) hweight
  · rw [seedWeights_of_not_pos hpos, Mass.getElem?_single, Option.ite_none_right_eq_some] at hweight
    exact ⟨Option.some.inj hweight.2 ▸ isPart_one.isUpTo 1, .inl hweight.1.symm⟩

theorem hasPositive_seedWeights_iff (h : request.IsUsable) :
    (seedWeights request).HasPositive ↔ ¬request.Overflows := by
  by_cases hpos : 0.0 < request.leftSeeds.total
  · obtain ⟨n, -, hfraction⟩ := h.fraction
    have hzero : n = 0 ↔ request.settings.queryNodeWeightFraction.isZero = true := by
      rw [hfraction.eq_zero_iff, isZero, decide_eq_true_eq]
    rw [seedWeights_of_pos hpos, Mass.hasPositive_shareOut_iff request.leftSeeds.nodup_nodes
      h.fraction fun entry => h.isPart_share hpos, hfraction.zero_lt_iff]
    by_cases hn : n = 0
    · subst hn
      rw [h.zero_lt_share_iff hfraction hpos]
      refine ⟨fun hholds hoverflows => ?_, fun hholds => .inr fun hinfinite => ?_⟩
      · exact hholds.elim (fun hself => hself rfl) fun hfinite => hfinite hoverflows.total
      · exact hholds ⟨hzero.mp rfl, hinfinite⟩
    · exact iff_of_true (.inl hn) fun hoverflows => hn (hzero.mpr hoverflows.fraction)
  · refine iff_of_true ?_ fun hoverflows => hpos (hoverflows.total ▸ zero_lt_infinity)
    rw [seedWeights_of_not_pos hpos]
    exact ⟨request.queryNode, 1.0, by rw [Mass.getElem?_single, if_pos rfl], by decide⟩

theorem seedDistribution_eq_nil_iff :
    seedDistribution request = [] ↔ ¬(seedWeights request).HasPositive := by
  unfold seedDistribution Mass.HasPositive
  rw [List.filter_eq_nil_iff]
  simp only [Prod.forall, Std.TreeMap.mem_toList_iff_getElem?_eq_some, decide_eq_true_eq,
    not_exists, not_and]

/-- What a validated request starts with: some of its nodes, with positive weights up to two. -/
structure Request.StartsFrom (request : Request) (distribution : Distribution) : Prop where
  positive : ∀ entry ∈ distribution, 0.0 < entry.2
  isUpTo : ∀ entry ∈ distribution, IsUpTo 1 entry.2
  length_le : distribution.length ≤ request.leftSeeds.size + 1
  eq_nil_iff : distribution = [] ↔ request.Overflows

theorem Request.IsUsable.startsFrom (h : request.IsUsable) :
    request.StartsFrom (seedDistribution request) := by
  have hmem (entry : NodeId × Binary64) (hentry : entry ∈ seedDistribution request) :
      (seedWeights request)[entry.1]? = some entry.2 ∧ 0.0 < entry.2 :=
    (List.mem_filter.mp hentry).imp Std.TreeMap.mem_toList_iff_getElem?_eq_some.mp
      of_decide_eq_true
  refine ⟨fun entry hentry => (hmem entry hentry).2,
    fun entry hentry => (isUpTo_seedWeights h (hmem entry hentry).1).1, ?_, ?_⟩
  · -- its nodes are distinct ones among the query node and the seeds
    have hsubset : (seedDistribution request).map (·.1) ⊆
        request.queryNode :: request.leftSeeds.toList.map (·.1) := by
      intro node hnode
      obtain ⟨entry, hentry, rfl⟩ := List.mem_map.mp hnode
      exact List.mem_cons.mpr (isUpTo_seedWeights h (hmem entry hentry).1).2
    have hle := (nodup_seedDistribution request).length_le_of_subset hsubset
    rwa [List.length_map, List.length_cons, List.length_map, Std.TreeMap.length_toList] at hle
  · rw [seedDistribution_eq_nil_iff, hasPositive_seedWeights_iff h, not_not]

end Slidewalk.Salsa
