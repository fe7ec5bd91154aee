import Slidewalk.Proofs.Walk.Locality
import Slidewalk.Proofs.Walk.ProofContent
import Slidewalk.Proofs.Walk.SeedMass

/-!
# Where a validated request runs

A walk by expected shares always runs. A walk of walkers needs a node to start from, and the whole
parts of the walkers have to add up in 64 bits, which they do unless there are very many walkers.
-/

namespace Slidewalk.Salsa

open Binary64

variable {request : Request}

/-- The whole parts of the walkers add up in 64 bits. -/
def Request.WalkersFit (request : Request) : Prop :=
  assignedWalkers (seedDistribution request) request.settings.numRandomWalks < UInt64.size

/-! ## Few walkers -/

theorem WalkerShare.whole_of_le {entry : NodeId × Binary64} {walkers p q : Nat}
    (hentry : IsUpTo q entry.2) (hwalkers : walkers ≤ 2 ^ p) (hfit : q + p < 1024) :
    (of walkers entry).whole ≤ 2 ^ (q + p) := by
  have hcount : IsUpTo p (ofNat walkers) := isUpTo_ofNat hwalkers (by omega)
  exact ((hentry.mul hcount hfit).floor hfit).toUInt64_le

/-- Weights are two at most, so no node gets more than twice the walkers. -/
theorem Request.IsUsable.walkersFit (h : request.IsUsable) {p : Nat}
    (hwalkers : request.settings.numRandomWalks ≤ 2 ^ p)
    (hroom : (request.leftSeeds.size + 1) * 2 ^ (p + 1) < UInt64.size) : request.WalkersFit := by
  rw [Nat.add_comm p] at hroom
  have hfit : 1 + p < 64 := by
    apply (Nat.pow_lt_pow_iff_right (a := 2) (by decide)).mp
    exact Nat.lt_of_le_of_lt (Nat.le_mul_of_pos_left _ (Nat.succ_pos _)) hroom
  have hstarts := h.startsFrom
  unfold WalkersFit assignedWalkers
  calc total (·.whole) (sharesOf (seedDistribution request) request.settings.numRandomWalks)
    _ ≤ (sharesOf (seedDistribution request) request.settings.numRandomWalks).length *
          2 ^ (1 + p) := by
      apply total_le_mul
      intro share hshare
      obtain ⟨entry, hentry, rfl⟩ := List.mem_map.mp hshare
      exact WalkerShare.whole_of_le (hstarts.isUpTo entry hentry) hwalkers (by omega)
    _ ≤ (request.leftSeeds.size + 1) * 2 ^ (1 + p) := by
      rw [length_sharesOf]
      exact Nat.mul_le_mul_right _ hstarts.length_le
    _ < UInt64.size := hroom

/-! ## Running -/

theorem ofList?_eq_none_iff {α : Type} {items : List (α × Binary64)} :
    Random.Weighted.ofList? items = none ↔ items = [] := by
  cases items <;> simp [Random.Weighted.ofList?]

theorem recommend_of_error (adjacency : Adjacency) {fault : RequestFault}
    (hstart : Walk.start request = .error fault) : recommend request adjacency = .error fault := by
  unfold recommend finishedWalk
  rw [hstart]
  rfl

/-- A walk starts by expected shares, or from somewhere and with walkers that can be counted. -/
inductive Request.RunsAs (request : Request) (adjacency : Adjacency) : Prop
  | ok {results : List Recommendation} (hresults : recommend request adjacency = .ok results)
      (hstarts : request.settings.walkMode = .expected ∨
        seedDistribution request ≠ [] ∧ request.WalkersFit)
  | empty (hfault : recommend request adjacency = .error .emptySeedDistribution)
      (hmode : request.settings.walkMode ≠ .expected) (hnil : seedDistribution request = [])
  | overflow (hfault : recommend request adjacency = .error .walkerOverflow)
      (hmode : request.settings.walkMode ≠ .expected) (hsome : seedDistribution request ≠ [])
      (hlarge : ¬request.WalkersFit)

theorem Request.runsAs (request : Request) (adjacency : Adjacency) : request.RunsAs adjacency := by
  cases hmode : request.settings.walkMode with
  | expected =>
    exact .ok (recommend_of_start adjacency (Walk.start_expected hmode)) (.inl hmode)
  | sampled seed =>
    have hsampled : request.settings.walkMode ≠ .expected := by simp [hmode]
    cases hresets : Random.Weighted.ofList? (seedDistribution request) with
    | none =>
      have hstart : Walk.start request = .error .emptySeedDistribution := by
        simp only [Walk.start, hmode, hresets]
      exact .empty (recommend_of_error adjacency hstart) hsampled (ofList?_eq_none_iff.mp hresets)
    | some resets =>
      have hsome : seedDistribution request ≠ [] := fun hnil => by
        rw [ofList?_eq_none_iff.mpr hnil] at hresets
        contradiction
      cases hcounts : apportion? (seedDistribution request) request.settings.numRandomWalks with
      | none =>
        have hstart : Walk.start request = .error .walkerOverflow := by
          simp only [Walk.start, Walk.seedWalkers?, hmode, hresets, hcounts, Option.map_none]
        have hlarge := (apportion?_eq_none_iff _).mp hcounts
        exact .overflow (recommend_of_error adjacency hstart) hsampled hsome
          (Nat.not_lt_of_le hlarge)
      | some counts =>
        have hstart := Walk.start_eq_ok_iff.mpr (.sampled hmode hresets hcounts)
        refine .ok (recommend_of_start adjacency hstart) (.inr ⟨hsome, Nat.lt_of_not_le ?_⟩)
        rw [← apportion?_eq_none_iff, hcounts]
        exact Option.some_ne_none counts

/-- Each of the three ways comes up under a condition of its own. -/
theorem Request.recommend_iff (request : Request) (adjacency : Adjacency) :
    ((∃ results, recommend request adjacency = .ok results) ↔
      request.settings.walkMode = .expected ∨
        seedDistribution request ≠ [] ∧ request.WalkersFit) ∧
    (recommend request adjacency = .error .emptySeedDistribution ↔
      request.settings.walkMode ≠ .expected ∧ seedDistribution request = []) ∧
    (recommend request adjacency = .error .walkerOverflow ↔
      request.settings.walkMode ≠ .expected ∧ seedDistribution request ≠ [] ∧
        ¬request.WalkersFit) := by
  cases request.runsAs adjacency with
  | ok hresults hstarts =>
    rcases hstarts with hmode | ⟨hsome, hfits⟩
    · simp [hresults, hmode]
    · simp [hresults, hsome, hfits]
  | empty hfault hmode hnil => simp [hfault, hmode, hnil]
  | overflow hfault hmode hsome hlarge => simp [hfault, hmode, hsome, hlarge]

/-- When a request has where to start from, and when it runs. -/
structure Request.Runs (request : Request) : Prop where
  positive : ∀ entry ∈ seedDistribution request, 0.0 < entry.2 ∧ entry.2.isFinite = true
  startsAnywhere : seedDistribution request ≠ [] ↔ ¬request.Overflows
  /-- Walkers fit if there is room for twice as many, rounded up to a power of two, on each node they
  may start from. -/
  fits : ∀ p, request.settings.numRandomWalks ≤ 2 ^ p →
    (request.leftSeeds.size + 1) * 2 ^ (p + 1) < UInt64.size → request.WalkersFit
  gives : ∀ adjacency, (∃ results, recommend request adjacency = .ok results) ↔
    request.settings.walkMode = .expected ∨ ¬request.Overflows ∧ request.WalkersFit
  lacksSeeds : ∀ adjacency, recommend request adjacency = .error .emptySeedDistribution ↔
    request.settings.walkMode ≠ .expected ∧ request.Overflows
  /-- This is no answer: the sum that does not fit stops what is running. -/
  stops : ∀ adjacency, recommend request adjacency = .error .walkerOverflow ↔
    request.settings.walkMode ≠ .expected ∧ ¬request.Overflows ∧ ¬request.WalkersFit
  fails : ∀ adjacency fault, recommend request adjacency = .error fault →
    fault = .emptySeedDistribution ∨ fault = .walkerOverflow

/-- A validated request gives results over everything, but for walkers where the weights of the
seeds overflow and the query node takes no part, or where the walkers cannot be counted. -/
theorem validated_request_runs_iff {draft : RequestDraft} (hbuild : draft.build = .ok request) :
    request.Runs := by
  have husable := RequestDraft.isUsable_of_build hbuild
  have hstarts := husable.startsFrom
  have hnil := hstarts.eq_nil_iff
  constructor
  case positive =>
    intro entry hentry
    obtain ⟨n, -, hn⟩ := hstarts.isUpTo entry hentry
    exact ⟨hstarts.positive entry hentry, hn.isFinite⟩
  case startsAnywhere => exact not_congr hnil
  case fits => exact fun p hwalkers hroom => husable.walkersFit hwalkers hroom
  case gives =>
    intro adjacency
    rw [← hnil]
    exact (request.recommend_iff adjacency).1
  case lacksSeeds =>
    intro adjacency
    rw [← hnil]
    exact (request.recommend_iff adjacency).2.1
  case stops =>
    intro adjacency
    rw [← hnil]
    exact (request.recommend_iff adjacency).2.2
  case fails =>
    intro adjacency fault hfault
    cases request.runsAs adjacency with
    | ok hresults => simp [hresults] at hfault
    | empty hempty => exact .inl (Except.error.inj (hempty.symm.trans hfault)).symm
    | overflow hlarge => exact .inr (Except.error.inj (hlarge.symm.trans hfault)).symm

/-- Walkers from the query node 1 and the nodes 4 and 6. -/
def walkersDraft (fraction weight : Binary64) : RequestDraft where
  queryNode := 1
  settings := { Settings.standard with
    queryNodeWeightFraction := fraction
    maxRandomWalkLength := some 1
    walkMode := .sampled 7 }
  leftSeeds := (Mass.empty.add 4 weight).add 6 weight
  excluded := ∅
  filters := []

/-- Two to the power of 1023, half of what is beyond the doubles. -/
def halfOfOverflow : Binary64 := ⟨0x7fe0000000000000⟩

theorem sample_validated_request_runs :
    (walkersDraft 0.0 1.0).build = .ok { walkersDraft 0.0 1.0 with walkLength := 1 } ∧
      Request.Runs { walkersDraft 0.0 1.0 with walkLength := 1 } ∧
        ∀ adjacency, ∃ results,
          recommend { walkersDraft 0.0 1.0 with walkLength := 1 } adjacency = .ok results := by
  have hbuild : (walkersDraft 0.0 1.0).build =
      .ok { walkersDraft 0.0 1.0 with walkLength := 1 } := rfl
  have hruns := validated_request_runs_iff hbuild
  have hfits := hruns.fits 0 (by decide) (by decide)
  exact ⟨hbuild, hruns, fun adjacency =>
    (hruns.gives adjacency).mpr (.inr ⟨fun h => absurd h.total (by decide), hfits⟩)⟩

/-- Two seeds of this weight overflow, and nothing is left to start from. -/
theorem overflowing_sample_fails :
    halfOfOverflow.isFinite = true ∧
      (walkersDraft 0.0 halfOfOverflow).build =
        .ok { walkersDraft 0.0 halfOfOverflow with walkLength := 1 } ∧
      ∀ adjacency, recommend { walkersDraft 0.0 halfOfOverflow with walkLength := 1 } adjacency =
        .error .emptySeedDistribution :=
  ⟨by decide, rfl, fun _ => rfl⟩

/-- The most walkers a word can count, half of them from the query node 1 and half from the node
4. -/
def crowdedDraft : RequestDraft where
  queryNode := 1
  settings := { Settings.standard with
    numRandomWalks := UInt64.size - 1
    queryNodeWeightFraction := 0.5
    maxRandomWalkLength := some 1
    walkMode := .sampled 7 }
  leftSeeds := Mass.empty.add 4 1.0
  excluded := ∅
  filters := []

/-- Both halves are rounded up to `2 ^ 63` walkers, which do not add up in 64 bits. -/
example : crowdedDraft.build = .ok { crowdedDraft with walkLength := 1 } ∧
    ∀ adjacency, recommend { crowdedDraft with walkLength := 1 } adjacency =
      .error .walkerOverflow :=
  ⟨rfl, fun _ => rfl⟩

end Slidewalk.Salsa
