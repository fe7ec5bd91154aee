import Slidewalk.Binary64
import Slidewalk.Edge
import Slidewalk.Upsert

/-!
# Social proof

A result is explained by the seeds that led to it, grouped by the type of edge. While the walk runs,
an accumulator adds up what each seed contributed; at the end the largest contributions are listed.
-/

namespace Slidewalk.Salsa

/-- The seeds that explain a result, by ascending edge type. -/
abbrev SocialProof := List (EdgeType × List NodeId)

namespace SocialProof

/-- Every seed listed, once for each type it is listed under. -/
def seeds (proof : SocialProof) : List NodeId := proof.flatMap (·.2)

def distinctSeeds (proof : SocialProof) : Nat := proof.seeds.eraseDups.length

end SocialProof

/-- What a seed contributed through edges of one type. -/
structure Contribution where
  seed : NodeId
  weight : Binary64
  /-- The latest time of an edge it came through. -/
  engagedAt : Time
  deriving DecidableEq, Repr

/-- What the seeds contributed through edges of one type, in the order they first did. -/
structure TypeProof where
  kind : EdgeType
  total : Binary64
  seeds : List Contribution
  deriving DecidableEq, Repr

namespace Contribution

/-- Adds to the contribution of a seed, at the end of the list if it is new. -/
def credit (seed : NodeId) (weight : Binary64) (engagedAt : Time) :
    List Contribution → List Contribution
  | [] => [{ seed, weight, engagedAt }]
  | held :: rest =>
      if held.seed = seed then
        { held with
          weight := held.weight + weight
          engagedAt := max held.engagedAt engagedAt } :: rest
      else held :: credit seed weight engagedAt rest

/-- Whether one contribution is listed no later than another: the larger one first, then the more
recent one, then the smaller seed. -/
def precedes (a b : Contribution) : Bool :=
  let x := a.weight.totalKey
  let y := b.weight.totalKey
  if x ≠ y then y < x
  else if a.engagedAt ≠ b.engagedAt then b.engagedAt < a.engagedAt
  else a.seed ≤ b.seed

theorem credit_eq_upsert (seed : NodeId) (weight : Binary64) (engagedAt : Time)
    (held : List Contribution) :
    credit seed weight engagedAt held = upsert (·.seed) seed
      (fun before => { before with
        weight := before.weight + weight, engagedAt := max before.engagedAt engagedAt })
      { seed, weight, engagedAt } held := by
  induction held with
  | nil => rfl
  | cons first rest ih => rw [credit, upsert, ih]

theorem map_seed_credit (seed : NodeId) (weight : Binary64) (engagedAt : Time)
    (held : List Contribution) :
    (credit seed weight engagedAt held).map (·.seed) =
      if seed ∈ held.map (·.seed) then held.map (·.seed) else held.map (·.seed) ++ [seed] := by
  rw [credit_eq_upsert]
  apply map_key_upsert
  · exact fun _ => rfl
  · rfl

end Contribution

namespace TypeProof

def credit (proof : TypeProof) (seed : NodeId) (weight : Binary64) (engagedAt : Time) : TypeProof :=
  { proof with
    total := proof.total + weight
    seeds := Contribution.credit seed weight engagedAt proof.seeds }

def fresh (kind : EdgeType) : TypeProof := { kind, total := 0.0, seeds := [] }

/-- Whether one type is listed no later than another: the larger total first, then the smaller
type. -/
def precedes (a b : TypeProof) : Bool :=
  let x := a.total.totalKey
  let y := b.total.totalKey
  if x ≠ y then y < x else a.kind ≤ b.kind

/-- The largest contributions, at most `maxSeeds`. -/
def topSeeds (proof : TypeProof) (maxSeeds : Nat) : List NodeId :=
  ((proof.seeds.mergeSort Contribution.precedes).take maxSeeds).map (·.seed)

end TypeProof

/-- The types contributed through so far, in the order they first were. -/
structure ProofAccumulator where
  types : List TypeProof
  deriving DecidableEq, Repr

namespace ProofAccumulator

def empty : ProofAccumulator := { types := [] }

def isEmpty (proof : ProofAccumulator) : Bool := proof.types.isEmpty

def tracks (proof : ProofAccumulator) (kind : EdgeType) : Bool :=
  proof.types.any (·.kind == kind)

/-- Credits a seed under a type, at the end of the list if the type is new. -/
def creditType (kind : EdgeType) (seed : NodeId) (weight : Binary64) (engagedAt : Time) :
    List TypeProof → List TypeProof
  | [] => [(TypeProof.fresh kind).credit seed weight engagedAt]
  | held :: rest =>
      if held.kind = kind then held.credit seed weight engagedAt :: rest
      else held :: creditType kind seed weight engagedAt rest

/-- Credits a seed under a type. A new type is refused once `maxTypes` are tracked; the answer says
whether the seed was credited. -/
def record (proof : ProofAccumulator) (kind : EdgeType) (seed : NodeId) (weight : Binary64)
    (engagedAt : Time) (maxTypes : Nat) : ProofAccumulator × Bool :=
  if proof.tracks kind || proof.types.length < maxTypes then
    ({ types := creditType kind seed weight engagedAt proof.types }, true)
  else (proof, false)

/-- The types that come first, at most `maxTypes`. -/
def topTypes (proof : ProofAccumulator) (maxTypes : Nat) : List TypeProof :=
  (proof.types.mergeSort TypeProof.precedes).take maxTypes

/-- The largest contributions under the largest types, listed by ascending type. -/
def finalize (proof : ProofAccumulator) (maxTypes maxSeeds : Nat) : SocialProof :=
  ((proof.topTypes maxTypes).map fun type => (type.kind, type.topSeeds maxSeeds)).mergeSort
    fun a b => a.1 ≤ b.1

theorem creditType_eq_upsert (kind : EdgeType) (seed : NodeId) (weight : Binary64)
    (engagedAt : Time) (held : List TypeProof) :
    creditType kind seed weight engagedAt held = upsert (·.kind) kind
      (·.credit seed weight engagedAt) ((TypeProof.fresh kind).credit seed weight engagedAt)
      held := by
  induction held with
  | nil => rfl
  | cons first rest ih => rw [creditType, upsert, ih]

theorem map_kind_creditType (kind : EdgeType) (seed : NodeId) (weight : Binary64) (engagedAt : Time)
    (held : List TypeProof) :
    (creditType kind seed weight engagedAt held).map (·.kind) =
      if kind ∈ held.map (·.kind) then held.map (·.kind) else held.map (·.kind) ++ [kind] := by
  rw [creditType_eq_upsert]
  apply map_key_upsert
  · exact fun _ => rfl
  · rfl

end ProofAccumulator

end Slidewalk.Salsa
