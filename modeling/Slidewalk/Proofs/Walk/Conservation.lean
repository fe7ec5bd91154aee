import Slidewalk.Proofs.Rejection
import Slidewalk.Proofs.Walk.Connected
import Slidewalk.Proofs.Walk.Tally

/-!
# Walkers are conserved

Every walker of a frontier moves on with a half-step, unless its node has no neighbors. So walkers
can only be lost on seeds without edges, and without such seeds their number never changes.
-/

namespace Slidewalk.Salsa

open Binary64 (countLimit)
open Slidewalk.Random (Chance Stream Weighted)

variable {request : Request} {adjacency : Adjacency}

/-- Where every entry of a frontier moves its walkers, all walkers are moved. -/
theorem foldl_walkersIn {σ : Type} {frontier : Mass} {move : σ → NodeId → Binary64 → σ}
    {P : Nat → σ → Prop} {start : σ} (hstart : P 0 start)
    (hmove : ∀ node ∈ frontier, ∀ (mass : Binary64) (number : Nat) (state : σ),
      P number state → P (number + walkersOf mass) (move state node mass)) :
    P (walkersIn id frontier) (frontier.foldl move start) := by
  have hentries (entries : List (NodeId × Binary64))
      (hentries : ∀ entry ∈ entries, entry.1 ∈ frontier) (state : σ) (number : Nat)
      (hstate : P number state) :
      P (number + total (fun entry => walkersOf entry.2) entries)
        (entries.foldl (fun state entry => move state entry.1 entry.2) state) := by
    induction entries generalizing state number with
    | nil => exact hstate
    | cons entry rest ih =>
      rw [total_cons, ← Nat.add_assoc, List.foldl_cons]
      apply ih fun other hother => hentries other (List.mem_cons_of_mem _ hother)
      exact hmove entry.1 (hentries entry List.mem_cons_self) entry.2 number state hstate
  rw [Std.TreeMap.foldl_eq_foldl_toList, ← Nat.zero_add (walkersIn id frontier)]
  refine hentries frontier.toList (fun entry hentry => ?_) start 0 hstart
  rw [← Std.TreeMap.isSome_getElem?_iff_mem,
    Std.TreeMap.mem_toList_iff_getElem?_eq_some.mp hentry]
  rfl

/-! ## Moving right -/

namespace Arrivals

/-- So many walkers have arrived, in a walk that had counted others before. -/
structure Tallied (before number : Nat) (arrivals : Arrivals) : Prop where
  frontier : Tallies id arrivals.frontier number
  visits : Tallies (·.mass) arrivals.visits (before + number)

variable {arrivals : Arrivals} {before number : Nat}

theorem Tallied.arrive (h : arrivals.Tallied before number) (left : NodeId)
    (neighbor : Neighbor) :
    (arrivals.arrive request left neighbor 1.0).Tallied before (number + 1) :=
  ⟨h.frontier.addOne, h.visits.arrive _⟩

theorem Tallied.send (h : arrivals.Tallied before number) {left : NodeId}
    {neighbors : Array Neighbor} (hne : 0 < neighbors.size) (walkers : Nat) (stream : Stream) :
    (Arrivals.send request left neighbors walkers arrivals stream).1.Tallied before
      (number + walkers) := by
  induction walkers generalizing arrivals number stream with
  | zero => exact h
  | succ walkers ih =>
    have hless := Random.below_lt neighbors.size stream hne
    unfold Arrivals.send
    dsimp only
    rw [Array.getElem?_eq_getElem hless, Nat.add_comm walkers, ← Nat.add_assoc]
    exact ih (h.arrive left _) _

end Arrivals

namespace Walk

variable {walk : Walk} {before : Nat}

theorem rightSampled_tallied (dice : Dice)
    (hedges : ∀ node ∈ walk.leftFrontier, adjacency.neighbors node .left ≠ [])
    (hvisits : Tallies (·.mass) walk.visits before) :
    Arrivals.Tallied before (walkersIn id walk.leftFrontier)
      ⟨(walk.rightSampled dice request adjacency).rightFrontier,
        (walk.rightSampled dice request adjacency).visits⟩ := by
  apply foldl_walkersIn
    (P := fun number (state : Arrivals × Stream) => state.1.Tallied before number)
  · exact ⟨tallies_empty, hvisits⟩
  · intro node hnode mass number state hstate
    have hne := hedges node hnode
    dsimp only
    rw [if_neg (by rw [List.isEmpty_iff]; exact hne)]
    exact hstate.send (List.length_pos_iff.mpr hne) _ _

/-! ## Moving left -/

theorem sendBack_tallies {reset : Chance} {resets : Weighted NodeId} {neighbors : Array Neighbor}
    (hne : 0 < neighbors.size) (walkers : Nat) {frontier : Mass} {number : Nat}
    (h : Tallies id frontier number) (stream : Stream) :
    Tallies id (sendBack reset resets neighbors walkers frontier stream).1 (number + walkers) := by
  induction walkers generalizing frontier number stream with
  | zero => exact h
  | succ walkers ih =>
    unfold sendBack
    dsimp only
    rw [Nat.add_comm walkers, ← Nat.add_assoc]
    split
    · exact ih h.addOne _
    have hfull : neighbors.isEmpty = false := by
      rw [Array.isEmpty_eq_false_iff]
      exact fun hnil => by simp [hnil] at hne
    rw [hfull, if_neg Bool.false_ne_true, Array.getElem?_eq_getElem (Random.below_lt _ _ hne)]
    exact ih h.addOne _

theorem leftSampled_tallies (dice : Dice)
    (hedges : ∀ node ∈ walk.rightFrontier, adjacency.neighbors node .right ≠ []) :
    Tallies id (walk.leftSampled dice request adjacency).leftFrontier
      (walkersIn id walk.rightFrontier) := by
  apply foldl_walkersIn (P := fun number (state : Mass × Stream) => Tallies id state.1 number)
  · exact tallies_empty
  · intro node hnode mass number state hstate
    exact sendBack_tallies (List.length_pos_iff.mpr (hedges node hnode)) _ hstate _

/-! ## Runs -/

/-- The frontier that a half-step takes up. -/
def frontier : HalfStep → Walk → Mass
  | .right, walk => walk.leftFrontier
  | .left, walk => walk.rightFrontier

/-- A sampled walk before a half-step that takes up all walkers. -/
structure Placed (placed visited : Nat) (half : HalfStep) (walk : Walk) : Prop where
  sampled : ∃ dice, walk.dice = some dice
  ahead : Tallies id (walk.frontier half) placed
  behind : Tallies id (walk.frontier half.other) 0
  visits : Tallies (·.mass) walk.visits visited

end Walk

/-- How many half-steps of a run go right. -/
def rightSteps : (steps : Nat) → HalfStep → Nat
  | 0, _ => 0
  | steps + 1, .right => rightSteps steps .left + 1
  | steps + 1, .left => rightSteps steps .right

theorem rightSteps_eq (steps : Nat) :
    rightSteps steps .right = (steps + 1) / 2 ∧ rightSteps steps .left = steps / 2 := by
  induction steps with
  | zero => exact ⟨rfl, rfl⟩
  | succ steps ih =>
    have hright : rightSteps (steps + 1) .right = rightSteps steps .left + 1 := rfl
    have hleft : rightSteps (steps + 1) .left = rightSteps steps .right := rfl
    omega

namespace Walk

variable {walk : Walk} {placed visited : Nat}

/-- Where seeds have edges there is no dead end on the left. -/
theorem Connected.neighbors_ne_nil (h : walk.Connected request adjacency)
    (hseeds : ∀ seed ∈ seedNodes request, adjacency.neighbors seed .left ≠ []) :
    ∀ node ∈ walk.leftFrontier, adjacency.neighbors node .left ≠ [] := by
  intro node hnode
  rcases h.left node hnode with hseed | hedges
  · exact hseeds node hseed
  · exact hedges

theorem Placed.step_right (h : walk.Placed placed visited .right) (hlimit : placed ≤ countLimit)
    (hedges : ∀ node ∈ walk.leftFrontier, adjacency.neighbors node .left ≠ []) :
    (walk.step .right request adjacency).Placed placed (visited + placed) .left := by
  obtain ⟨dice, hdice⟩ := h.sampled
  have hall : walkersIn id walk.leftFrontier = placed := h.ahead.walkersIn_eq (.inl hlimit)
  have hstep : walk.step .right request adjacency =
      (walk.rightSampled dice request adjacency).countStep := by
    unfold step
    rw [hdice]
  have harrived : Arrivals.Tallied visited (walkersIn id walk.leftFrontier)
      ⟨(walk.rightSampled dice request adjacency).rightFrontier, _⟩ :=
    rightSampled_tallied dice hedges h.visits
  rw [hall] at harrived
  rw [hstep]
  exact ⟨⟨_, rfl⟩, harrived.frontier, tallies_empty, harrived.visits⟩

theorem Placed.step_left (h : walk.Placed placed visited .left) (hlimit : placed ≤ countLimit)
    (hedges : ∀ node ∈ walk.rightFrontier, adjacency.neighbors node .right ≠ []) :
    (walk.step .left request adjacency).Placed placed visited .right := by
  obtain ⟨dice, hdice⟩ := h.sampled
  have hall : walkersIn id walk.rightFrontier = placed := h.ahead.walkersIn_eq (.inl hlimit)
  have hstep : walk.step .left request adjacency =
      (walk.leftSampled dice request adjacency).countStep := by
    unfold step
    rw [hdice]
  have harrived : Tallies id (walk.leftSampled dice request adjacency).leftFrontier _ :=
    leftSampled_tallies dice hedges
  rw [hall] at harrived
  rw [hstep]
  exact ⟨⟨_, rfl⟩, harrived, tallies_empty, h.visits⟩

theorem Placed.alternate {half : HalfStep} (h : walk.Placed placed visited half)
    (hconnected : walk.Connected request adjacency) (hmutual : adjacency.Mutual)
    (hdice : ∀ dice, walk.dice = some dice → dice.ReturnsTo (seedNodes request))
    (hseeds : ∀ seed ∈ seedNodes request, adjacency.neighbors seed .left ≠ [])
    (hlimit : placed ≤ countLimit) (steps : Nat) :
    ∃ next, (walk.alternate request adjacency steps half).Placed placed
      (visited + placed * rightSteps steps half) next := by
  induction steps generalizing walk visited half with
  | zero => exact ⟨half, h⟩
  | succ steps ih =>
    have hnext := hconnected.step hmutual hdice half
    have hsame : ∀ dice, (walk.step half request adjacency).dice = some dice → _ :=
      step_dice half hdice
    cases half with
    | right =>
      have hedges := hconnected.neighbors_ne_nil hseeds
      obtain ⟨next, hrun⟩ := ih (h.step_right hlimit hedges) hnext hsame
      rw [Nat.add_assoc, Nat.add_comm placed, ← Nat.mul_succ] at hrun
      exact ⟨next, hrun⟩
    | left => exact ih (h.step_left hlimit hconnected.right) hnext hsame

end Walk

/-- The walkers that a sampled walk starts with, if it starts. -/
def placedWalkers (request : Request) : Nat :=
  total (·.2)
    ((apportion? (seedDistribution request) request.settings.numRandomWalks).getD [])

theorem foldl_add_tallies {entries : List (NodeId × Nat)} (hpos : ∀ entry ∈ entries, 0 < entry.2)
    {frontier : Mass} {number : Nat} (h : Tallies id frontier number)
    (hlimit : number + total (·.2) entries ≤ countLimit) :
    Tallies id (entries.foldl
        (fun (frontier : Mass) entry => frontier.add entry.1 (Binary64.ofNat entry.2)) frontier)
      (number + total (·.2) entries) := by
  induction entries generalizing frontier number with
  | nil => exact h
  | cons entry rest ih =>
    rw [total_cons, ← Nat.add_assoc] at hlimit ⊢
    exact ih (fun other hother => hpos other (List.mem_cons_of_mem _ hother))
      (h.add (hpos entry List.mem_cons_self) (by omega)) hlimit

namespace Walk

variable {walk : Walk}

theorem start_placed (h : Walk.start request = .ok walk) {seed : UInt64}
    (hmode : request.settings.walkMode = .sampled seed)
    (hlimit : placedWalkers request ≤ countLimit) :
    walk.Placed (placedWalkers request) 0 .right := by
  cases start_eq_ok_iff.mp h with
  | expected hexpected => simp only [hexpected, reduceCtorEq] at hmode
  | sampled _ _ hcounts =>
    unfold placedWalkers at hlimit ⊢
    rw [hcounts, Option.getD_some] at hlimit ⊢
    have hplaced := foldl_add_tallies (fun entry hentry => (mem_apportioned hcounts hentry).2)
      tallies_empty ((Nat.zero_add _).symm ▸ hlimit)
    rw [Nat.zero_add] at hplaced
    constructor
    case sampled => exact ⟨_, rfl⟩
    case ahead => exact hplaced
    case behind => exact tallies_empty
    case visits => exact Counted.empty fun _ => rfl

def visitedMass (walk : Walk) : Binary64 :=
  walk.visits.foldl (fun sum _ visit => sum + visit.mass) 0.0

/-- No walker is lost, and every arrival was counted. Arrivals add up over the run, so doubles may
stop to count them even where they count the walkers. -/
structure Conserves (placed visited : Nat) (walk : Walk) : Prop where
  inFlight : walkersIn id walk.leftFrontier + walkersIn id walk.rightFrontier = placed
  mass : walk.frontierMass = Binary64.ofNat placed
  visits : (visited ≤ countLimit ∨ ∀ (node : NodeId) (visit : Visit),
    walk.visits[node]? = some visit → walkersOf visit.mass < countLimit) →
    walkersIn (·.mass) walk.visits = visited
  visitedMass : visited ≤ countLimit → walk.visitedMass = Binary64.ofNat visited

theorem Placed.conserves {placed visited : Nat} {half : HalfStep}
    (h : walk.Placed placed visited half) (hlimit : placed ≤ countLimit) :
    walk.Conserves placed visited := by
  obtain ⟨left, right, hleft, hright, hsum⟩ : ∃ left right, Tallies id walk.leftFrontier left ∧
      Tallies id walk.rightFrontier right ∧ left + right = placed := by
    cases half with
    | right => exact ⟨placed, 0, h.ahead, h.behind, Nat.add_zero _⟩
    | left => exact ⟨0, placed, h.behind, h.ahead, Nat.zero_add _⟩
  subst hsum
  have hbounds : left ≤ countLimit ∧ right ≤ countLimit := by omega
  constructor
  case inFlight => rw [hleft.walkersIn_eq (.inl hbounds.1), hright.walkersIn_eq (.inl hbounds.2)]
  case mass =>
    rw [← Binary64.ofNat_add hlimit, ← hleft.foldl_eq hbounds.1, ← hright.foldl_eq hbounds.2]
    rfl
  case visits => exact h.visits.walkersIn_eq
  case visitedMass => exact h.visits.foldl_eq

end Walk

end Slidewalk.Salsa

namespace Slidewalk.Graph

open Binary64 (countLimit)

variable {options : Options} {codec : EdgeCodec} {graph : Graph}

/-- Walkers are lost at most on seeds that have no edges. -/
theorem walkers_are_conserved (hcreate : Graph.create options = .ok graph)
    (hcodec : options.resolveCodec = .ok codec) (hround : codec.RoundTrips)
    (before meanwhile : List Operation) {request : Salsa.Request} {walk : Salsa.Walk}
    (hstart : Salsa.Walk.start request = .ok walk) (steps : Nat) :
    let adjacency := (graph.heldView before meanwhile).adjacency
    let walked := walk.alternate request adjacency steps .right
    walked.Connected request adjacency ∧
      ∀ seed, request.settings.walkMode = .sampled seed →
        (∀ node ∈ Salsa.seedNodes request, adjacency.neighbors node .left ≠ []) →
        Salsa.placedWalkers request ≤ countLimit →
        walked.Conserves (Salsa.placedWalkers request)
          (Salsa.placedWalkers request * ((steps + 1) / 2)) := by
  intro adjacency walked
  have hmutual : adjacency.Mutual := heldView_mutual hcreate hcodec hround before meanwhile
  obtain ⟨hconnected, hdice⟩ : walk.Connected request adjacency ∧ _ :=
    Salsa.Walk.start_connected hstart
  refine ⟨hconnected.alternate hmutual hdice steps .right, fun seed hmode hseeds hlimit => ?_⟩
  have hplaced := Salsa.Walk.start_placed hstart hmode hlimit
  obtain ⟨next, hrun⟩ := hplaced.alternate hconnected hmutual hdice hseeds hlimit steps
  rw [Nat.zero_add, (Salsa.rightSteps_eq steps).1] at hrun
  exact hrun.conserves hlimit

/-- Eight walkers from nodes 1 and 4. -/
def walkersSample : Salsa.Request where
  queryNode := 1
  settings := { Salsa.Settings.standard with
    walkMode := .sampled 7
    numRandomWalks := 8
    queryNodeWeightFraction := 0.5 }
  leftSeeds := Salsa.Mass.empty.add 4 1.0
  excluded := ∅
  filters := []
  walkLength := 3

theorem sample_walkers_are_conserved : ∃ walk, Salsa.Walk.start walkersSample = .ok walk ∧
    (walk.alternate walkersSample ((sample .powerLaw false).heldView
      [.add ⟨1, 2, 0, 5⟩, .add ⟨4, 2, 1, 9⟩] []).adjacency 3 .right).Conserves 8 16 := by
  obtain ⟨walk, hstart⟩ : ∃ walk, Salsa.Walk.start walkersSample = .ok walk := ⟨_, rfl⟩
  have hplaced : Salsa.placedWalkers walkersSample = 8 := rfl
  have hseeds : Salsa.seedNodes walkersSample = [1, 4] := rfl
  obtain ⟨-, hfollows⟩ := sample_follows [.add ⟨1, 2, 0, 5⟩, .add ⟨4, 2, 1, 9⟩]
  have hread (node : NodeId) : ((sample .powerLaw false).heldView
      [.add ⟨1, 2, 0, 5⟩, .add ⟨4, 2, 1, 9⟩] []).adjacency.neighbors node .left = _ :=
    hfollows.neighbors node .left
  obtain ⟨-, hconserves⟩ := walkers_are_conserved (create_sample .powerLaw false)
    (Options.resolveCodec_sample .powerLaw false) BitMask.sample.toCodec_roundTrips
    [.add ⟨1, 2, 0, 5⟩, .add ⟨4, 2, 1, 9⟩] [] hstart 3
  rw [hplaced] at hconserves
  refine ⟨walk, hstart, hconserves 7 rfl (fun node hnode => ?_) (by decide)⟩
  rw [hread]
  rw [hseeds, List.mem_cons, List.mem_singleton] at hnode
  rcases hnode with rfl | rfl
  · exact List.cons_ne_nil _ _
  · exact List.cons_ne_nil _ _

end Slidewalk.Graph
