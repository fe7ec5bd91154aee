import Slidewalk.Proofs.Renaming.Seeding
import Slidewalk.Proofs.Renaming.Storage
import Slidewalk.Salsa.Walk

/-!
# Walks under renamed ids

Frontiers are worked through by ascending node, which takes paired walks through paired nodes in the
same order: amounts are added up in the same order, and the n-th word drawn decides the same thing.
-/

namespace Slidewalk.Salsa

open Slidewalk.Random (Chance Stream Weighted)
open Slidewalk.Renaming (PairsMass PairsTables)

variable {names : Renaming} {request request' : Request} {adjacency adjacency' : Adjacency}
  {left left' right right' : NodeId}

structure Adjacency.Pairs (names : Renaming) (adjacency adjacency' : Adjacency) : Prop where
  neighbors : ∀ (side : Side) (node node' : NodeId), names.Pairs side node node' →
    List.Forall₂ (Neighbor.Pairs names side.opposite) (adjacency.neighbors node side)
      (adjacency'.neighbors node' side)
  degree : ∀ (side : Side) (node node' : NodeId), names.Pairs side node node' →
    adjacency.degree node side = adjacency'.degree node' side

/-! ## Visits -/

namespace Visit

structure Credit.Pairs (names : Renaming) (credit credit' : Credit) : Prop where
  kind : credit.kind = credit'.kind
  seed : names.Pairs .left credit.seed credit'.seed
  engagedAt : credit.engagedAt = credit'.engagedAt
  maxTypes : credit.maxTypes = credit'.maxTypes

structure Pairs (names : Renaming) (visit visit' : Visit) : Prop where
  mass : visit.mass = visit'.mass
  proof : visit.proof.Pairs names visit'.proof

variable {visit visit' : Visit} {credit credit' : Option Credit}

theorem none_pairs : Visit.none.Pairs names Visit.none := ⟨rfl, ProofAccumulator.Pairs.empty⟩

theorem Pairs.arrive (h : visit.Pairs names visit') (amount : Binary64)
    (hcredit : Option.Rel (Credit.Pairs names) credit credit') :
    (visit.arrive amount credit).Pairs names (visit'.arrive amount credit') := by
  refine ⟨congrArg (· + amount) h.mass, ?_⟩
  unfold Visit.arrive
  cases hcredit with
  | none => exact h.proof
  | some hpair =>
    dsimp only
    rw [hpair.kind, hpair.engagedAt, hpair.maxTypes]
    exact h.proof.record hpair.seed _ _ _ _

end Visit

/-- Paired dice have the same words to draw from. -/
structure Dice.Pairs (names : Renaming) (dice dice' : Dice) : Prop where
  stream : dice.stream = dice'.stream
  resets : dice.resets.Pairs (names.Pairs .left) dice'.resets

abbrev Visits.Pairs (names : Renaming) (visits visits' : Visits) : Prop :=
  names.PairsTables .right (Visit.Pairs names) visits visits'

theorem Visits.Pairs.arrive {visits visits' : Visits} {credit credit' : Option Visit.Credit}
    (h : Visits.Pairs names visits visits') (hright : names.Pairs .right right right')
    (amount : Binary64) (hcredit : Option.Rel (Visit.Credit.Pairs names) credit credit') :
    Visits.Pairs names (visits.arrive right amount credit)
      (visits'.arrive right' amount credit') := by
  have hfound := PairsTables.getElem? h hright
  have hheld : (visits[right]?.getD .none).Pairs names (visits'[right']?.getD .none) := by
    generalize visits[right]? = found at hfound
    generalize visits'[right']? = found' at hfound
    cases hfound with
    | none => exact Visit.none_pairs
    | some hpair => exact hpair
  exact PairsTables.update h hright (hheld.arrive amount hcredit)
    (getElem?_arrive visits right amount credit) (getElem?_arrive visits' right' amount credit')

theorem creditFor_pairs (hrequest : request.Pairs names request')
    (hleft : names.Pairs .left left left') {neighbor neighbor' : Neighbor}
    (hneighbor : neighbor.Pairs names .right neighbor') :
    Option.Rel (Visit.Credit.Pairs names) (creditFor request left neighbor)
      (creditFor request' left' neighbor') := by
  unfold creditFor
  rw [hrequest.isSeed hleft, hrequest.countsAsProof, hneighbor.kind, hneighbor.engagedAt,
    hrequest.settings]
  split
  · exact .some ⟨rfl, hleft, rfl, rfl⟩
  · exact .none

/-! ## Mass that arrives on the right -/

namespace Arrivals

structure Pairs (names : Renaming) (arrivals arrivals' : Arrivals) : Prop where
  frontier : names.PairsMass .right arrivals.frontier arrivals'.frontier
  visits : Visits.Pairs names arrivals.visits arrivals'.visits

variable {arrivals arrivals' : Arrivals} {neighbors neighbors' : List Neighbor}

theorem Pairs.arrive (h : arrivals.Pairs names arrivals') (hrequest : request.Pairs names request')
    (hleft : names.Pairs .left left left') {neighbor neighbor' : Neighbor}
    (hneighbor : neighbor.Pairs names .right neighbor') (amount : Binary64) :
    (arrivals.arrive request left neighbor amount).Pairs names
      (arrivals'.arrive request' left' neighbor' amount) := by
  have hcredit := creditFor_pairs hrequest hleft hneighbor
  exact ⟨PairsMass.add h.frontier hneighbor.node amount,
    Visits.Pairs.arrive h.visits hneighbor.node amount hcredit⟩

theorem Pairs.split (h : arrivals.Pairs names arrivals') (hrequest : request.Pairs names request')
    (hadjacency : adjacency.Pairs names adjacency') (hleft : names.Pairs .left left left')
    (mass : Binary64) :
    (arrivals.split request adjacency left mass).Pairs names
      (arrivals'.split request' adjacency' left' mass) := by
  have hneighbors := hadjacency.neighbors .left left left' hleft
  unfold Arrivals.split
  dsimp only
  rw [isEmpty_eq_of_forall₂ hneighbors, hneighbors.length_eq]
  split
  · exact h
  · apply List.rel_foldl _ h hneighbors
    intro _ _ hstate _ _ hneighbor
    exact hstate.arrive hrequest hleft hneighbor _

/-- Walkers draw the same choices, and a choice is a position among the neighbors. -/
theorem Pairs.send (h : arrivals.Pairs names arrivals') (hrequest : request.Pairs names request')
    (hleft : names.Pairs .left left left')
    (hneighbors : List.Forall₂ (Neighbor.Pairs names .right) neighbors neighbors') (walkers : Nat)
    (stream : Stream) :
    Lockstep (Pairs names) (send request left neighbors.toArray walkers arrivals stream)
      (send request' left' neighbors'.toArray walkers arrivals' stream) := by
  induction walkers generalizing arrivals arrivals' stream with
  | zero => exact ⟨h, rfl⟩
  | succ walkers ih =>
    unfold Arrivals.send
    rw [List.size_toArray, List.size_toArray, hneighbors.length_eq]
    -- one word of the stream, and the same choice of a position on both sides
    generalize Random.below neighbors'.length stream = answer
    obtain ⟨choice, stream⟩ := answer
    have hchosen := rel_getElem?_of_forall₂ hneighbors choice
    dsimp only
    rw [List.getElem?_toArray, List.getElem?_toArray]
    generalize neighbors[choice]? = chosen at hchosen
    generalize neighbors'[choice]? = chosen' at hchosen
    cases hchosen with
    | none => exact ih h stream
    | some hneighbor => exact ih (h.arrive hrequest hleft hneighbor 1.0) stream

end Arrivals

namespace Walk

/-! ## Mass that goes back to the left -/

theorem splitBack_pairs {frontier frontier' : Mass} (h : names.PairsMass .left frontier frontier')
    (reset : Binary64) (hadjacency : adjacency.Pairs names adjacency')
    (hright : names.Pairs .right right right') (mass : Binary64) :
    names.PairsMass .left (splitBack reset adjacency frontier right mass)
      (splitBack reset adjacency' frontier' right' mass) := by
  have hneighbors := hadjacency.neighbors .right right right' hright
  unfold splitBack
  dsimp only
  rw [isEmpty_eq_of_forall₂ hneighbors, hneighbors.length_eq]
  split
  · exact h
  split
  · exact h
  · apply List.rel_foldl _ h hneighbors
    intro _ _ hstate _ _ hneighbor
    exact PairsMass.add hstate hneighbor.node _

theorem sendBack_pairs {frontier frontier' : Mass} (h : names.PairsMass .left frontier frontier')
    (reset : Chance) {resets resets' : Weighted NodeId}
    (hresets : resets.Pairs (names.Pairs .left) resets') {neighbors neighbors' : List Neighbor}
    (hneighbors : List.Forall₂ (Neighbor.Pairs names .left) neighbors neighbors') (walkers : Nat)
    (stream : Stream) :
    Lockstep (names.PairsMass .left)
      (sendBack reset resets neighbors.toArray walkers frontier stream)
      (sendBack reset resets' neighbors'.toArray walkers frontier' stream) := by
  induction walkers generalizing frontier frontier' stream with
  | zero => exact ⟨h, rfl⟩
  | succ walkers ih =>
    unfold sendBack
    generalize reset.draw stream = answer
    obtain ⟨returns, stream⟩ := answer
    dsimp only
    split
    -- a walker that returns draws a seed, and the streams stay together
    · have hseed := hresets.draw stream
      generalize resets.draw stream = answer at hseed
      generalize resets'.draw stream = answer' at hseed
      obtain ⟨seed, _⟩ := answer
      obtain ⟨seed', stream⟩ := answer'
      obtain ⟨hseed, rfl⟩ := hseed
      exact ih (PairsMass.add h hseed 1.0) stream
    · rw [List.isEmpty_toArray, List.isEmpty_toArray, isEmpty_eq_of_forall₂ hneighbors]
      split
      · exact ih h stream
      · rw [List.size_toArray, List.size_toArray, hneighbors.length_eq]
        generalize Random.below neighbors'.length stream = answer
        obtain ⟨choice, stream⟩ := answer
        have hchosen := rel_getElem?_of_forall₂ hneighbors choice
        dsimp only
        rw [List.getElem?_toArray, List.getElem?_toArray]
        generalize neighbors[choice]? = chosen at hchosen
        generalize neighbors'[choice]? = chosen' at hchosen
        cases hchosen with
        | none => exact ih h stream
        | some hneighbor => exact ih (PairsMass.add h hneighbor.node 1.0) stream

/-! ## Steps -/

/-- What one right node does to the frontier and to the mass that returns. -/
theorem splitBack_lockstep (reset : Binary64) (hadjacency : adjacency.Pairs names adjacency')
    (state state' : Mass × Binary64) (right right' : NodeId) (mass mass' : Binary64)
    (h : Lockstep (names.PairsMass .left) state state') (hright : names.Pairs .right right right')
    (hmass : mass = mass') :
    Lockstep (names.PairsMass .left)
      (splitBack reset adjacency state.1 right mass, state.2 + reset * mass)
      (splitBack reset adjacency' state'.1 right' mass', state'.2 + reset * mass') := by
  subst hmass
  exact ⟨splitBack_pairs h.1 reset hadjacency hright mass, congrArg (· + reset * mass) h.2⟩

theorem send_lockstep (hrequest : request.Pairs names request')
    (hadjacency : adjacency.Pairs names adjacency') (state state' : Arrivals × Stream)
    (left left' : NodeId) (mass mass' : Binary64)
    (h : Lockstep (Arrivals.Pairs names) state state') (hleft : names.Pairs .left left left')
    (hmass : mass = mass') :
    Lockstep (Arrivals.Pairs names)
      (if (adjacency.neighbors left .left).isEmpty then state
        else Arrivals.send request left (adjacency.neighbors left .left).toArray (walkersOf mass)
          state.1 state.2)
      (if (adjacency'.neighbors left' .left).isEmpty then state'
        else Arrivals.send request' left' (adjacency'.neighbors left' .left).toArray
          (walkersOf mass') state'.1 state'.2) := by
  subst hmass
  have hneighbors := hadjacency.neighbors .left left left' hleft
  rw [isEmpty_eq_of_forall₂ hneighbors, h.2]
  split
  · exact h
  · exact h.1.send hrequest hleft hneighbors _ _

theorem sendBack_lockstep (reset : Chance) {resets resets' : Weighted NodeId}
    (hresets : resets.Pairs (names.Pairs .left) resets')
    (hadjacency : adjacency.Pairs names adjacency') (state state' : Mass × Stream)
    (right right' : NodeId) (mass mass' : Binary64)
    (h : Lockstep (names.PairsMass .left) state state') (hright : names.Pairs .right right right')
    (hmass : mass = mass') :
    Lockstep (names.PairsMass .left)
      (sendBack reset resets (adjacency.neighbors right .right).toArray (walkersOf mass)
        state.1 state.2)
      (sendBack reset resets' (adjacency'.neighbors right' .right).toArray (walkersOf mass')
        state'.1 state'.2) := by
  subst hmass
  rw [h.2]
  exact sendBack_pairs h.1 reset hresets (hadjacency.neighbors .right right right' hright) _ _

structure Pairs (names : Renaming) (walk walk' : Walk) : Prop where
  leftFrontier : names.PairsMass .left walk.leftFrontier walk'.leftFrontier
  rightFrontier : names.PairsMass .right walk.rightFrontier walk'.rightFrontier
  visits : Visits.Pairs names walk.visits walk'.visits
  halfSteps : walk.halfSteps = walk'.halfSteps
  dice : Option.Rel (Dice.Pairs names) walk.dice walk'.dice

variable {walk walk' : Walk} {dice dice' : Dice}

theorem idle_pairs : idle.Pairs names idle :=
  ⟨PairsMass.empty, PairsMass.empty, PairsTables.empty, rfl, .none⟩

namespace Pairs

theorem seedExpected (h : walk.Pairs names walk') {distribution distribution' : Distribution}
    (hdistribution : distribution.Pairs names distribution') (total : Binary64) :
    (walk.seedExpected distribution total).Pairs names
      (walk'.seedExpected distribution' total) := by
  refine ⟨?_, h.rightFrontier, h.visits, h.halfSteps, h.dice⟩
  apply List.rel_foldl _ h.leftFrontier hdistribution
  rintro frontier frontier' hfrontier ⟨node, weight⟩ ⟨node', _⟩ ⟨hnode, rfl⟩
  exact PairsMass.add hfrontier hnode _

theorem seedWalkers? (h : walk.Pairs names walk') {distribution distribution' : Distribution}
    (hdistribution : distribution.Pairs names distribution') (walkers : Nat) :
    Option.Rel (Pairs names) (walk.seedWalkers? distribution walkers)
      (walk'.seedWalkers? distribution' walkers) := by
  have hcounts := apportion?_pairs hdistribution walkers
  unfold Walk.seedWalkers?
  generalize apportion? distribution walkers = counts at hcounts
  generalize apportion? distribution' walkers = counts' at hcounts
  cases hcounts with
  | none => exact .none
  | some hcounts =>
    refine .some ⟨?_, h.rightFrontier, h.visits, h.halfSteps, h.dice⟩
    apply List.rel_foldl _ h.leftFrontier hcounts
    rintro frontier frontier' hfrontier ⟨node, count⟩ ⟨node', _⟩ ⟨hnode, rfl⟩
    exact PairsMass.add hfrontier hnode _

theorem withDice (h : walk.Pairs names walk') {dice dice' : Option Dice}
    (hdice : Option.Rel (Dice.Pairs names) dice dice') :
    { walk with dice }.Pairs names { walk' with dice := dice' } :=
  ⟨h.leftFrontier, h.rightFrontier, h.visits, h.halfSteps, hdice⟩

theorem rightExpected (h : walk.Pairs names walk') (hrequest : request.Pairs names request')
    (hadjacency : adjacency.Pairs names adjacency') :
    (walk.rightExpected request adjacency).Pairs names
      (walk'.rightExpected request' adjacency') := by
  obtain ⟨leftFrontier, rightFrontier, visits, halfSteps, dice⟩ := walk
  obtain ⟨leftFrontier', rightFrontier', visits', halfSteps', dice'⟩ := walk'
  obtain ⟨hleft, hright, hvisits, hhalfSteps, hdice⟩ := h
  have harrivals : Arrivals.Pairs names
      (leftFrontier.foldl
        (fun (arrivals : Arrivals) left mass => arrivals.split request adjacency left mass)
        { frontier := rightFrontier, visits })
      (leftFrontier'.foldl
        (fun (arrivals : Arrivals) left mass => arrivals.split request' adjacency' left mass)
        { frontier := rightFrontier', visits := visits' }) := by
    apply PairsTables.foldl hleft
    · rintro arrivals arrivals' node node' mass _ harrivals hnode rfl
      exact harrivals.split hrequest hadjacency hnode mass
    · exact ⟨hright, hvisits⟩
  exact ⟨PairsMass.empty, harrivals.frontier, harrivals.visits, hhalfSteps, hdice⟩

theorem leftExpected (h : walk.Pairs names walk') (hrequest : request.Pairs names request')
    (hadjacency : adjacency.Pairs names adjacency') :
    (walk.leftExpected request adjacency).Pairs names
      (walk'.leftExpected request' adjacency') := by
  obtain ⟨leftFrontier, rightFrontier, visits, halfSteps, dice⟩ := walk
  obtain ⟨leftFrontier', rightFrontier', visits', halfSteps', dice'⟩ := walk'
  obtain ⟨hleft, hright, hvisits, hhalfSteps, hdice⟩ := h
  unfold Walk.leftExpected
  dsimp only
  rw [hrequest.settings]
  generalize request'.settings.resetProbability = reset
  have hstart : Lockstep (names.PairsMass .left) (leftFrontier, (0.0 : Binary64))
      (leftFrontier', 0.0) := ⟨hleft, rfl⟩
  have hsplit := PairsTables.foldl hright (splitBack_lockstep reset hadjacency) hstart
  generalize rightFrontier.foldl _ (leftFrontier, (0.0 : Binary64)) = state at hsplit
  generalize rightFrontier'.foldl _ (leftFrontier', (0.0 : Binary64)) = state' at hsplit
  obtain ⟨frontier, _⟩ := state
  obtain ⟨frontier', returned⟩ := state'
  obtain ⟨hfrontier, rfl⟩ := hsplit
  refine ⟨?_, PairsMass.empty, hvisits, hhalfSteps, hdice⟩
  dsimp only
  split
  · apply List.rel_foldl _ hfrontier hrequest.seedDistribution
    rintro frontier frontier' hfrontier ⟨seed, weight⟩ ⟨seed', _⟩ ⟨hseed, rfl⟩
    exact PairsMass.add hfrontier hseed _
  · exact hfrontier

theorem rightSampled (h : walk.Pairs names walk') (hdice : dice.Pairs names dice')
    (hrequest : request.Pairs names request') (hadjacency : adjacency.Pairs names adjacency') :
    (walk.rightSampled dice request adjacency).Pairs names
      (walk'.rightSampled dice' request' adjacency') := by
  have hstart : Lockstep (Arrivals.Pairs names)
      ({ frontier := .empty, visits := walk.visits }, dice.stream)
      ({ frontier := .empty, visits := walk'.visits }, dice'.stream) :=
    ⟨⟨PairsMass.empty, h.visits⟩, hdice.stream.symm⟩
  have hsent := PairsTables.foldl h.leftFrontier (send_lockstep hrequest hadjacency) hstart
  exact ⟨PairsMass.empty, hsent.1.frontier, hsent.1.visits, h.halfSteps,
    .some ⟨hsent.2.symm, hdice.resets⟩⟩

theorem leftSampled (h : walk.Pairs names walk') (hdice : dice.Pairs names dice')
    (hrequest : request.Pairs names request') (hadjacency : adjacency.Pairs names adjacency') :
    (walk.leftSampled dice request adjacency).Pairs names
      (walk'.leftSampled dice' request' adjacency') := by
  unfold Walk.leftSampled
  dsimp only
  rw [hrequest.settings]
  generalize Chance.ofProbability _ = reset
  have hstart : Lockstep (names.PairsMass .left) (.empty, dice.stream) (.empty, dice'.stream) :=
    ⟨PairsMass.empty, hdice.stream.symm⟩
  have hsent := PairsTables.foldl h.rightFrontier
    (sendBack_lockstep reset hdice.resets hadjacency) hstart
  exact ⟨hsent.1, PairsMass.empty, h.visits, h.halfSteps, .some ⟨hsent.2.symm, hdice.resets⟩⟩

/-! ## Runs -/

theorem step (h : walk.Pairs names walk') (half : HalfStep)
    (hrequest : request.Pairs names request') (hadjacency : adjacency.Pairs names adjacency') :
    (walk.step half request adjacency).Pairs names (walk'.step half request' adjacency') := by
  -- every half step is counted, whichever mass it moves
  have hcount {walk walk' : Walk} (h : walk.Pairs names walk') :
      walk.countStep.Pairs names walk'.countStep :=
    ⟨h.leftFrontier, h.rightFrontier, h.visits, congrArg (· + 1) h.halfSteps, h.dice⟩
  have hdice := h.dice
  unfold Walk.step
  apply hcount
  generalize walk.dice = dice at hdice
  generalize walk'.dice = dice' at hdice
  cases hdice with
  | none =>
    cases half with
    | right => exact h.rightExpected hrequest hadjacency
    | left => exact h.leftExpected hrequest hadjacency
  | some hdice =>
    cases half with
    | right => exact h.rightSampled hdice hrequest hadjacency
    | left => exact h.leftSampled hdice hrequest hadjacency

theorem isExhausted (h : walk.Pairs names walk') : walk'.isExhausted = walk.isExhausted := by
  unfold Walk.isExhausted
  rw [PairsTables.isEmpty h.leftFrontier, PairsTables.isEmpty h.rightFrontier]

theorem run (h : walk.Pairs names walk') (hrequest : request.Pairs names request')
    (hadjacency : adjacency.Pairs names adjacency') (steps : Nat) (half : HalfStep) :
    (walk.run request adjacency steps half).Pairs names
      (walk'.run request' adjacency' steps half) := by
  induction steps generalizing walk walk' half with
  | zero => exact h
  | succ steps ih =>
    unfold Walk.run
    rw [h.isExhausted]
    split
    · exact h
    · exact ih (h.step half hrequest hadjacency) half.other

end Pairs

theorem start_pairs (hrequest : request.Pairs names request') :
    (∃ fault, start request = .error fault ∧ start request' = .error fault) ∨
    ∃ walk walk', start request = .ok walk ∧ start request' = .ok walk' ∧
      walk.Pairs names walk' := by
  have hdistribution := hrequest.seedDistribution
  have hitems := Weighted.ofList?_pairs hdistribution
  unfold start
  dsimp only
  rw [hrequest.settings]
  cases request'.settings.walkMode with
  | expected => exact .inr ⟨_, _, rfl, rfl, idle_pairs.seedExpected hdistribution _⟩
  | sampled seed =>
    dsimp only
    generalize Weighted.ofList? (seedDistribution request) = resets at hitems
    generalize Weighted.ofList? (seedDistribution request') = resets' at hitems
    cases hitems with
    | none => exact .inl ⟨_, rfl, rfl⟩
    | some hresets =>
      have hseeded := idle_pairs.seedWalkers? hdistribution request'.settings.numRandomWalks
      dsimp only
      generalize idle.seedWalkers? (seedDistribution request) _ = walk at hseeded
      generalize idle.seedWalkers? (seedDistribution request') _ = walk' at hseeded
      cases hseeded with
      | none => exact .inl ⟨_, rfl, rfl⟩
      | some hwalk => exact .inr ⟨_, _, rfl, rfl, hwalk.withDice (.some ⟨rfl, hresets⟩)⟩

end Walk

end Slidewalk.Salsa
