import Slidewalk.Cursor
import Slidewalk.Random.Draw
import Slidewalk.Salsa.Seeding

/-!
# The walk

Mass starts on left nodes and alternates between the sides. A right step sends it to right
neighbors, which count as visited; a left step sends it back, except for a share that returns to the
seeds. In expected mode mass is split evenly; in sampled mode it is a number of walkers, and each
draws its way. Frontiers are worked through by ascending node.
-/

namespace Slidewalk.Salsa

open Slidewalk.Random (Chance Stream Weighted)

structure Adjacency where
  neighbors : NodeId → Side → List Neighbor
  degree : NodeId → Side → Nat

/-- The mass that passed through a right node, and the seeds it came from directly. -/
structure Visit where
  mass : Binary64
  proof : ProofAccumulator
  deriving DecidableEq, Repr

abbrev Visits := Std.TreeMap NodeId Visit

inductive HalfStep where
  | right
  | left
  deriving DecidableEq, Repr

def HalfStep.other : HalfStep → HalfStep
  | right => left
  | left => right

/-- What the walkers draw from: the random words, and the seed distribution they return to. -/
structure Dice where
  stream : Stream
  resets : Weighted NodeId

structure Walk where
  leftFrontier : Mass
  rightFrontier : Mass
  visits : Visits
  halfSteps : Nat
  /-- Present in sampled mode. -/
  dice : Option Dice

namespace Visit

def none : Visit := { mass := 0.0, proof := .empty }

/-- Whom a visit credits: a seed that reached the node through an edge that counts as proof. -/
structure Credit where
  kind : EdgeType
  seed : NodeId
  engagedAt : Time
  maxTypes : Nat
  deriving DecidableEq, Repr

/-- Mass arrives and its origin is credited. -/
def arrive (visit : Visit) (amount : Binary64) (credit : Option Credit) : Visit where
  mass := visit.mass + amount
  proof := match credit with
    | .none => visit.proof
    | .some credit =>
        (visit.proof.record credit.kind credit.seed amount credit.engagedAt credit.maxTypes).1

end Visit

namespace Visits

def arrive (visits : Visits) (node : NodeId) (amount : Binary64) (credit : Option Visit.Credit) :
    Visits :=
  visits.alter node fun visit => some ((visit.getD .none).arrive amount credit)

theorem getElem?_arrive (visits : Visits) (node : NodeId) (amount : Binary64)
    (credit : Option Visit.Credit) (other : NodeId) :
    (visits.arrive node amount credit)[other]? =
      if node = other then some ((visits[node]?.getD .none).arrive amount credit)
      else visits[other]? := by
  simp only [arrive, Std.TreeMap.getElem?_alter, Std.LawfulEqCmp.compare_eq_iff_eq]

end Visits

/-- Whom mass credits that goes from a left node to a neighbor. -/
def creditFor (request : Request) (left : NodeId) (neighbor : Neighbor) : Option Visit.Credit :=
  if request.isSeed left && request.countsAsProof neighbor.kind then
    some {
      kind := neighbor.kind
      seed := left
      engagedAt := neighbor.engagedAt
      maxTypes := request.settings.maxSocialProofTypeSize }
  else none

/-! ## Mass that arrives on the right -/

/-- The right frontier and the visits while a right step runs. -/
structure Arrivals where
  frontier : Mass
  visits : Visits

namespace Arrivals

def arrive (arrivals : Arrivals) (request : Request) (left : NodeId) (neighbor : Neighbor)
    (amount : Binary64) : Arrivals :=
  let ⟨frontier, visits⟩ := arrivals
  { frontier := frontier.add neighbor.node amount
    visits := visits.arrive neighbor.node amount (creditFor request left neighbor) }

/-- Splits the mass of a left node evenly among its neighbors. -/
def split (arrivals : Arrivals) (request : Request) (adjacency : Adjacency) (left : NodeId)
    (mass : Binary64) : Arrivals :=
  let neighbors := adjacency.neighbors left .left
  if neighbors.isEmpty then arrivals
  else
    let share := mass / Binary64.ofNat neighbors.length
    neighbors.foldl (fun arrivals neighbor => arrivals.arrive request left neighbor share) arrivals

/-- Sends walkers from a left node to neighbors they draw. -/
def send (request : Request) (left : NodeId) (neighbors : Array Neighbor) :
    (walkers : Nat) → Arrivals → Stream → Arrivals × Stream
  | 0, arrivals, stream => (arrivals, stream)
  | walkers + 1, arrivals, stream =>
      let (choice, stream) := Random.below neighbors.size stream
      match neighbors[choice]? with
      -- not reached: a draw is below the number of neighbors
      | none => send request left neighbors walkers arrivals stream
      | some neighbor =>
          send request left neighbors walkers (arrivals.arrive request left neighbor 1.0) stream

end Arrivals

def walkersOf (mass : Binary64) : Nat := mass.toUInt64.toNat

namespace Walk

def idle : Walk where
  leftFrontier := .empty
  rightFrontier := .empty
  visits := ∅
  halfSteps := 0
  dice := none

def seedExpected (walk : Walk) (distribution : Distribution) (total : Binary64) : Walk :=
  { walk with
    leftFrontier := distribution.foldl
      (fun frontier (node, weight) => frontier.add node (total * weight)) walk.leftFrontier }

/-- Places a number of walkers on each left node. -/
def place (walk : Walk) (counts : List (NodeId × Nat)) : Walk :=
  { walk with
    leftFrontier := counts.foldl
      (fun frontier (node, count) => frontier.add node (Binary64.ofNat count)) walk.leftFrontier }

/-- Places walkers on the left side, if they can be apportioned. -/
def seedWalkers? (walk : Walk) (distribution : Distribution) (walkers : Nat) : Option Walk :=
  (apportion? distribution walkers).map walk.place

/-- The walk with walkers placed; it is left as it is if they cannot be apportioned. -/
def seedWalkers (walk : Walk) (distribution : Distribution) (walkers : Nat) : Walk :=
  (walk.seedWalkers? distribution walkers).getD walk

def start (request : Request) : Except RequestFault Walk :=
  let distribution := seedDistribution request
  let walks := request.settings.numRandomWalks
  match request.settings.walkMode with
  | .expected => .ok (idle.seedExpected distribution (Binary64.ofNat walks))
  | .sampled seed =>
      match Weighted.ofList? distribution with
      | none => .error .emptySeedDistribution
      | some resets =>
          match idle.seedWalkers? distribution walks with
          | none => .error .walkerOverflow
          | some walk => .ok { walk with dice := some { stream := .ofSeed seed, resets } }

def frontierMass (walk : Walk) : Binary64 := walk.leftFrontier.total + walk.rightFrontier.total

def visitedRight (walk : Walk) : Nat := walk.visits.size

def isExhausted (walk : Walk) : Bool :=
  walk.leftFrontier.isEmpty && walk.rightFrontier.isEmpty

/-! ## Expected steps -/

def rightExpected (walk : Walk) (request : Request) (adjacency : Adjacency) : Walk :=
  let ⟨leftFrontier, rightFrontier, visits, halfSteps, dice⟩ := walk
  let arrivals := leftFrontier.foldl
    (fun (arrivals : Arrivals) left mass => arrivals.split request adjacency left mass)
    { frontier := rightFrontier, visits }
  { leftFrontier := .empty
    rightFrontier := arrivals.frontier
    visits := arrivals.visits
    halfSteps, dice }

/-- Splits what does not return to the seeds of a right node's mass among its neighbors. -/
def splitBack (reset : Binary64) (adjacency : Adjacency) (frontier : Mass) (right : NodeId)
    (mass : Binary64) : Mass :=
  let neighbors := adjacency.neighbors right .right
  if neighbors.isEmpty then frontier
  else
    let share := (1.0 - reset) * mass / Binary64.ofNat neighbors.length
    if share.isZero then frontier
    else neighbors.foldl (fun frontier neighbor => frontier.add neighbor.node share) frontier

def leftExpected (walk : Walk) (request : Request) (adjacency : Adjacency) : Walk :=
  let ⟨leftFrontier, rightFrontier, visits, halfSteps, dice⟩ := walk
  let reset := request.settings.resetProbability
  let (leftFrontier, returned) := rightFrontier.foldl
    (fun (state : Mass × Binary64) right mass =>
      (splitBack reset adjacency state.1 right mass, state.2 + reset * mass))
    (leftFrontier, 0.0)
  -- what returns is added behind all that was split, seed by seed
  let leftFrontier :=
    if 0.0 < returned then
      (seedDistribution request).foldl
        (fun frontier (seed, weight) => frontier.add seed (returned * weight)) leftFrontier
    else leftFrontier
  { leftFrontier, rightFrontier := .empty, visits, halfSteps, dice }

/-! ## Sampled steps -/

def rightSampled (walk : Walk) (dice : Dice) (request : Request) (adjacency : Adjacency) : Walk :=
  let (arrivals, stream) := walk.leftFrontier.foldl
    (fun (state : Arrivals × Stream) left mass =>
      let neighbors := adjacency.neighbors left .left
      if neighbors.isEmpty then state
      else Arrivals.send request left neighbors.toArray (walkersOf mass) state.1 state.2)
    -- a right frontier from before is not kept
    ({ frontier := .empty, visits := walk.visits }, dice.stream)
  { leftFrontier := .empty
    rightFrontier := arrivals.frontier
    visits := arrivals.visits
    halfSteps := walk.halfSteps
    dice := some { dice with stream } }

/-- Sends walkers back from a right node: to a seed they draw, or else to a neighbor they draw. A
walker that stays without a neighbor is lost. -/
def sendBack (reset : Chance) (resets : Weighted NodeId) (neighbors : Array Neighbor) :
    (walkers : Nat) → Mass → Stream → Mass × Stream
  | 0, frontier, stream => (frontier, stream)
  | walkers + 1, frontier, stream =>
      let (returns, stream) := reset.draw stream
      if returns then
        let (seed, stream) := resets.draw stream
        sendBack reset resets neighbors walkers (frontier.add seed 1.0) stream
      else if neighbors.isEmpty then sendBack reset resets neighbors walkers frontier stream
      else
        let (choice, stream) := Random.below neighbors.size stream
        match neighbors[choice]? with
        -- not reached: a draw is below the number of neighbors
        | none => sendBack reset resets neighbors walkers frontier stream
        | some neighbor =>
            sendBack reset resets neighbors walkers (frontier.add neighbor.node 1.0) stream

def leftSampled (walk : Walk) (dice : Dice) (request : Request) (adjacency : Adjacency) : Walk :=
  let reset := Chance.ofProbability request.settings.resetProbability
  let (frontier, stream) := walk.rightFrontier.foldl
    (fun (state : Mass × Stream) right mass =>
      let neighbors := (adjacency.neighbors right .right).toArray
      sendBack reset dice.resets neighbors (walkersOf mass) state.1 state.2)
    -- a left frontier from before is not kept
    (.empty, dice.stream)
  { leftFrontier := frontier
    rightFrontier := .empty
    visits := walk.visits
    halfSteps := walk.halfSteps
    dice := some { dice with stream } }

/-! ## Runs -/

def countStep (walk : Walk) : Walk := { walk with halfSteps := walk.halfSteps + 1 }

def step (walk : Walk) (half : HalfStep) (request : Request) (adjacency : Adjacency) : Walk :=
  let moved := match half, walk.dice with
    | .right, none => walk.rightExpected request adjacency
    | .left, none => walk.leftExpected request adjacency
    | .right, some dice => walk.rightSampled dice request adjacency
    | .left, some dice => walk.leftSampled dice request adjacency
  moved.countStep

/-- Alternates half-steps until their number is reached or no mass is left. -/
def run (request : Request) (adjacency : Adjacency) : (steps : Nat) → HalfStep → Walk → Walk
  | 0, _, walk => walk
  | steps + 1, half, walk =>
      if walk.isExhausted then walk
      else run request adjacency steps half.other (walk.step half request adjacency)

end Walk

end Slidewalk.Salsa
