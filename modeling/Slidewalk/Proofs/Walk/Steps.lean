import Mathlib.Data.List.Basic
import Slidewalk.Salsa.Walk

/-!
# Half-steps go along edges

A walk starts idle, with mass or walkers on the left. However mass is split or drawn, a right step
is a series of arrivals, each along an edge from a left node to one of its neighbors. A left step
visits nothing.
-/

namespace Slidewalk.Salsa

open Slidewalk.Random (Stream Weighted)

/-- A property that every entry of a table keeps holds after a fold. -/
theorem foldl_induction {α σ : Type} {table : Std.TreeMap NodeId α} {step : σ → NodeId → α → σ}
    {P : σ → Prop} {start : σ} (hstart : P start)
    (hstep : ∀ state node value, table[node]? = some value → P state → P (step state node value)) :
    P (table.foldl step start) := by
  rw [Std.TreeMap.foldl_eq_foldl_toList]
  refine List.foldlRecOn _ _ hstart fun state hstate entry hentry => ?_
  exact hstep state _ _ (Std.TreeMap.mem_toList_iff_getElem?_eq_some.mp hentry) hstate

/-- What holds after a fold held before it or was brought in by an item, if that is so for every
item. -/
theorem foldl_iff {α σ : Type} {items : List α} {move : σ → α → σ} {P : σ → Prop}
    {brings : α → Prop} (hmove : ∀ state item, P (move state item) ↔ P state ∨ brings item)
    {start : σ} : P (items.foldl move start) ↔ P start ∨ ∃ item ∈ items, brings item := by
  induction items generalizing start with
  | nil => simp
  | cons item rest ih => rw [List.foldl_cons, ih, hmove, List.exists_mem_cons_iff, or_assoc]

variable {request : Request} {adjacency : Adjacency}

namespace Arrivals

/-- What arrivals along edges make of a frontier and visits. -/
inductive Reached (request : Request) (adjacency : Adjacency) (start : Arrivals) : Arrivals → Prop
  | refl : Reached request adjacency start start
  | arrive {arrivals : Arrivals} {left : NodeId} {neighbor : Neighbor} {amount : Binary64} :
      Reached request adjacency start arrivals → neighbor ∈ adjacency.neighbors left .left →
      Reached request adjacency start (arrivals.arrive request left neighbor amount)

variable {start arrivals : Arrivals}

theorem Reached.split (h : Reached request adjacency start arrivals) (left : NodeId)
    (mass : Binary64) :
    Reached request adjacency start (arrivals.split request adjacency left mass) := by
  unfold Arrivals.split
  dsimp only
  split
  · exact h
  · refine List.foldlRecOn (adjacency.neighbors left .left) _ h fun arrivals hreached => ?_
    exact fun neighbor hneighbor => hreached.arrive hneighbor

theorem Reached.send (h : Reached request adjacency start arrivals) (left : NodeId)
    (walkers : Nat) (stream : Stream) :
    Reached request adjacency start
      (Arrivals.send request left (adjacency.neighbors left .left).toArray walkers arrivals
        stream).1 := by
  induction walkers generalizing arrivals stream with
  | zero => exact h
  | succ walkers ih =>
    unfold Arrivals.send
    dsimp only
    split
    · exact ih h _
    · rename_i neighbor hchoice
      exact ih (h.arrive (List.mem_of_getElem? (List.getElem?_toArray ▸ hchoice))) _

end Arrivals

namespace Walk

variable {walk : Walk}

/-- The ways a walk starts. -/
inductive Starts (request : Request) : Walk → Prop
  | expected (hmode : request.settings.walkMode = .expected) :
      Starts request (idle.seedExpected (seedDistribution request)
        (Binary64.ofNat request.settings.numRandomWalks))
  | sampled {seed : UInt64} {resets : Weighted NodeId} {counts : List (NodeId × Nat)}
      (hmode : request.settings.walkMode = .sampled seed)
      (hresets : Weighted.ofList? (seedDistribution request) = some resets)
      (hcounts : apportion? (seedDistribution request) request.settings.numRandomWalks =
        some counts) :
      Starts request { idle.place counts with dice := some { stream := .ofSeed seed, resets } }

theorem start_eq_ok_iff : Walk.start request = .ok walk ↔ Starts request walk := by
  constructor
  · intro h
    unfold Walk.start at h
    dsimp only at h
    split at h
    · rename_i hmode
      obtain rfl := Except.ok.inj h
      exact .expected hmode
    · rename_i seed hmode
      cases hresets : Weighted.ofList? (seedDistribution request) with
      | none => simp only [hresets, reduceCtorEq] at h
      | some resets =>
        unfold seedWalkers? at h
        cases hcounts :
            apportion? (seedDistribution request) request.settings.numRandomWalks with
        | none => simp only [hresets, hcounts, Option.map_none, reduceCtorEq] at h
        | some counts =>
          simp only [hresets, hcounts, Option.map_some] at h
          obtain rfl := Except.ok.inj h
          exact .sampled hmode hresets hcounts
  · intro h
    cases h with
    | expected hmode => simp only [Walk.start, hmode]
    | sampled hmode hresets hcounts =>
      simp only [Walk.start, seedWalkers?, hmode, hresets, hcounts, Option.map_some]

theorem start_halfSteps (h : Walk.start request = .ok walk) : walk.halfSteps = 0 := by
  cases start_eq_ok_iff.mp h with
  | expected => rfl
  | sampled => rfl

theorem start_visits (h : Walk.start request = .ok walk) : walk.visits = ∅ := by
  cases start_eq_ok_iff.mp h with
  | expected => rfl
  | sampled => rfl

/-- What a right step does: the left frontier arrives on the right. -/
structure MovesRight (request : Request) (adjacency : Adjacency) (walk next : Walk) : Prop where
  leftFrontier : next.leftFrontier = .empty
  reached : ∃ start, start.visits = walk.visits ∧
    (start.frontier = walk.rightFrontier ∨ start.frontier = .empty) ∧
    Arrivals.Reached request adjacency start ⟨next.rightFrontier, next.visits⟩

theorem rightExpected_moves (walk : Walk) :
    walk.MovesRight request adjacency (walk.rightExpected request adjacency) := by
  refine ⟨rfl, ⟨walk.rightFrontier, walk.visits⟩, rfl, .inl rfl, ?_⟩
  have hreached : Arrivals.Reached request adjacency ⟨walk.rightFrontier, walk.visits⟩
      (walk.leftFrontier.foldl
        (fun (arrivals : Arrivals) left mass => arrivals.split request adjacency left mass)
        { frontier := walk.rightFrontier, visits := walk.visits }) :=
    foldl_induction .refl fun arrivals left mass _ hreached => hreached.split left mass
  exact hreached

theorem rightSampled_moves (walk : Walk) (dice : Dice) :
    walk.MovesRight request adjacency (walk.rightSampled dice request adjacency) := by
  refine ⟨rfl, ⟨.empty, walk.visits⟩, rfl, .inr rfl, ?_⟩
  have hreached : Arrivals.Reached request adjacency ⟨.empty, walk.visits⟩
      (walk.leftFrontier.foldl
        (fun (state : Arrivals × Stream) left mass =>
          let neighbors := adjacency.neighbors left .left
          if neighbors.isEmpty then state
          else Arrivals.send request left neighbors.toArray (walkersOf mass) state.1 state.2)
        ({ frontier := .empty, visits := walk.visits }, dice.stream)).1 := by
    apply foldl_induction (P := fun state : Arrivals × Stream =>
      Arrivals.Reached request adjacency ⟨.empty, walk.visits⟩ state.1) .refl
    intro state left mass _ hreached
    dsimp only
    split
    · exact hreached
    · exact hreached.send left _ _
  exact hreached

theorem MovesRight.countStep {next : Walk} (h : walk.MovesRight request adjacency next) :
    walk.MovesRight request adjacency next.countStep :=
  ⟨h.leftFrontier, h.reached⟩

theorem step_right_moves (walk : Walk) :
    walk.MovesRight request adjacency (walk.step .right request adjacency) := by
  unfold step
  cases walk.dice with
  | none => exact walk.rightExpected_moves.countStep
  | some dice => exact (walk.rightSampled_moves dice).countStep

theorem step_left_visits (walk : Walk) :
    (walk.step .left request adjacency).visits = walk.visits := by
  unfold step
  cases walk.dice with
  | none => rfl
  | some dice => rfl

end Walk

end Slidewalk.Salsa
