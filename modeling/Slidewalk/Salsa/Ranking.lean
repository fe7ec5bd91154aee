import Slidewalk.Salsa.Walk

/-!
# Ranking

Visited nodes become candidates, are filtered, sorted and cut.
-/

namespace Slidewalk.Salsa

structure Recommendation where
  node : NodeId
  score : Binary64
  proof : SocialProof
  deriving DecidableEq, Repr

/-- Mass over the geometric mean of two degrees. -/
def cooccurrenceScore (mass : Binary64) (degree otherDegree : Nat) : Binary64 :=
  let denominator := (Binary64.ofNat degree * Binary64.ofNat otherDegree).sqrt
  if denominator.isZero then .infinity true else mass / denominator

namespace Recommendation

/-- Whether one result is listed no later than another: the higher score first, then the one with
more seeds, then the smaller node. -/
def precedes (a b : Recommendation) : Bool :=
  let x := a.score.totalKey
  let y := b.score.totalKey
  if x ≠ y then y < x
  else
    let m := a.proof.distinctSeeds
    let n := b.proof.distinctSeeds
    if m ≠ n then n < m else a.node ≤ b.node

end Recommendation

def scoreOf (request : Request) (adjacency : Adjacency) (queryDegree : Nat) (node : NodeId)
    (visit : Visit) : Binary64 :=
  match request.settings.normalization with
  | .raw => visit.mass
  | .cosine => cooccurrenceScore visit.mass queryDegree (adjacency.degree node .right)

/-- A visited node as a result, unless it is excluded or dropped by a filter. -/
def candidate? (request : Request) (adjacency : Adjacency) (queryDegree : Nat) (node : NodeId)
    (visit : Visit) : Option Recommendation :=
  if request.excluded.contains node then none
  else
    let proof := visit.proof.finalize request.settings.maxSocialProofTypeSize
      request.settings.maxSocialProofSize
    if request.filters.excludes node proof then none
    else some { node, score := scoreOf request adjacency queryDegree node visit, proof }

/-- The degree that scores are normalized by. -/
def queryDegree (request : Request) (adjacency : Adjacency) : Nat :=
  match request.settings.normalization with
  | .raw => 0
  | .cosine => adjacency.degree request.queryNode .left

/-- The best results among visited nodes. -/
def rankVisits (request : Request) (adjacency : Adjacency) (visits : List (NodeId × Visit)) :
    List Recommendation :=
  let degree := queryDegree request adjacency
  let candidates := visits.filterMap fun (node, visit) =>
    candidate? request adjacency degree node visit
  (candidates.mergeSort Recommendation.precedes).take request.settings.maxNumResults

def rank (walk : Walk) (request : Request) (adjacency : Adjacency) : List Recommendation :=
  rankVisits request adjacency walk.visits.toList

end Slidewalk.Salsa
