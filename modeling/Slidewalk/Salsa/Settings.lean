import Slidewalk.Decimal.Layout
import Slidewalk.Edge

/-!
# Settings of a walk

What a configuration can set about walks, and the reasons for refusing a request.
-/

namespace Slidewalk.Salsa

/-- How mass moves: by its expected share, or as walkers that draw their way. -/
inductive WalkMode where
  | expected
  | sampled (seed : UInt64)
  deriving DecidableEq, Repr

inductive Normalization where
  | raw
  | cosine
  deriving DecidableEq, Repr

structure Settings where
  /-- The share of mass that returns to the seeds on a left step. -/
  resetProbability : Binary64
  /-- The share of the mass that the query node starts with when there are other seeds. -/
  queryNodeWeightFraction : Binary64
  /-- The mass, or the number of walkers, at the start. -/
  numRandomWalks : Nat
  /-- The number of half-steps; it has no default. -/
  maxRandomWalkLength : Option Nat
  maxSocialProofTypeSize : Nat
  maxSocialProofSize : Nat
  /-- The types of edge that count as social proof; all of them if empty. -/
  socialProofTypeMask : List EdgeType
  maxNumResults : Nat
  walkMode : WalkMode
  normalization : Normalization
  deriving DecidableEq, Repr

inductive ProbabilitySetting where
  | resetProbability
  | queryNodeWeightFraction
  deriving DecidableEq, Repr

inductive PositiveSetting where
  | numRandomWalks
  | maxRandomWalkLength
  | maxSocialProofTypeSize
  | maxSocialProofSize
  | maxNumResults
  deriving DecidableEq, Repr

/-- Why a request is refused, or stops when it is run. -/
inductive RequestFault where
  | notProbability (setting : ProbabilitySetting) (value : Binary64)
  | zeroSetting (setting : PositiveSetting)
  | unsetWalkLength
  | seedWeight (seed : NodeId) (weight : Binary64)
  | weightlessSeeds
  | emptySeedDistribution
  /-- The whole parts of the walkers do not add up in 64 bits. This is no refusal: it stops what is
  running. -/
  | walkerOverflow
  deriving DecidableEq, Repr

def ProbabilitySetting.label : ProbabilitySetting → String
  | resetProbability => "reset_probability"
  | queryNodeWeightFraction => "query_node_weight_fraction"

def PositiveSetting.label : PositiveSetting → String
  | numRandomWalks => "num_random_walks"
  | maxRandomWalkLength => "max_random_walk_length"
  | maxSocialProofTypeSize => "max_social_proof_type_size"
  | maxSocialProofSize => "max_social_proof_size"
  | maxNumResults => "max_num_results"

namespace RequestFault

def cause : RequestFault → String
  | notProbability setting value =>
      s!"{setting.label} must be in [0, 1], got {Decimal.positional value}"
  | zeroSetting setting => s!"{setting.label} must be positive"
  | unsetWalkLength => "max_random_walk_length must be set"
  | seedWeight seed weight => s!"seed {seed} has invalid weight {Decimal.positional weight}"
  | weightlessSeeds => "seed weights must not all be zero"
  | emptySeedDistribution => "seed distribution: No weights provided in distribution"
  | walkerOverflow => "attempt to add with overflow"

def message (fault : RequestFault) : String :=
  match fault with
  | walkerOverflow => fault.cause
  | _ => s!"invalid configuration: {fault.cause}"

end RequestFault

namespace Settings

def standard : Settings where
  resetProbability := 0.3
  queryNodeWeightFraction := 0.9
  numRandomWalks := 1
  maxRandomWalkLength := none
  maxSocialProofTypeSize := 4
  maxSocialProofSize := 10
  socialProofTypeMask := []
  maxNumResults := 10
  walkMode := .expected
  normalization := .raw

def isProbability (x : Binary64) : Bool := 0.0 ≤ x && x ≤ 1.0

/-- The walk length of usable settings; the first thing wrong with them otherwise. -/
def validate (settings : Settings) : Except RequestFault Nat := do
  if !isProbability settings.resetProbability then
    throw (.notProbability .resetProbability settings.resetProbability)
  if !isProbability settings.queryNodeWeightFraction then
    throw (.notProbability .queryNodeWeightFraction settings.queryNodeWeightFraction)
  if settings.numRandomWalks = 0 then
    throw (.zeroSetting .numRandomWalks)
  let length ← match settings.maxRandomWalkLength with
    | none => throw .unsetWalkLength
    | some 0 => throw (.zeroSetting .maxRandomWalkLength)
    | some length => pure length
  if settings.maxSocialProofTypeSize = 0 then
    throw (.zeroSetting .maxSocialProofTypeSize)
  if settings.maxSocialProofSize = 0 then
    throw (.zeroSetting .maxSocialProofSize)
  if settings.maxNumResults = 0 then
    throw (.zeroSetting .maxNumResults)
  return length

end Settings

end Slidewalk.Salsa
