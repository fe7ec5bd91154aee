import Slidewalk.Config.Field
import Slidewalk.Limits
import Slidewalk.Salsa.Settings

/-!
# What a configuration sets

Limits and settings as records. Sizes are 64-bit numbers.
-/

namespace Slidewalk.Config

open Salsa (Settings WalkMode Normalization)

def size? : Value → Option Nat := Value.nat? (UInt64.size - 1)

/-! ## Limits -/

def poolKind? (dialect : Dialect) : Value → Option PoolKind :=
  Value.choice? dialect [("uniform", .uniform), ("power_law", .powerLaw)]

def limitFields (dialect : Dialect) : List (Field Limits) := [
  .of "pool" (poolKind? dialect) fun pool limits => { limits with pool },
  .of "segment_edge_capacity" size? fun segmentEdgeCapacity limits =>
    { limits with segmentEdgeCapacity },
  .of "max_segments" size? fun maxSegments limits => { limits with maxSegments },
  .of "max_nodes_per_segment" size? fun maxNodesPerSegment limits =>
    { limits with maxNodesPerSegment },
  .of "max_degree" size? fun maxDegree limits => { limits with maxDegree },
  .of "initial_node_capacity" size? fun initialNodeCapacity limits =>
    { limits with initialNodeCapacity },
  .of "min_size_class_bits" (Value.nat? (UInt32.size - 1)) fun minSizeClassBits limits =>
    { limits with minSizeClassBits },
  .of "edge_type_bits" (Value.nat? (UInt8.size - 1)) fun edgeTypeBits limits =>
    { limits with edgeTypeBits },
  .of "optimize_on_seal" Value.boolean? fun optimizeOnSeal limits =>
    { limits with optimizeOnSeal }]

def limits? (dialect : Dialect) : Value → Option Limits :=
  Field.readRecord? dialect (limitFields dialect) .standard

/-! ## Settings -/

/-- A walk mode is a table that names its kind, with a seed for the sampled kind; other entries do
not matter. It is also written as a list of the kind and the seed. -/
def walkMode? : Value → Option WalkMode
  | .table entries =>
      match entries.lookup "kind" with
      | some (.text "expected") => some .expected
      | some (.text "sampled") => (entries.lookup "seed").bind fun seed => seed.uint64?.map .sampled
      | _ => none
  | .list [.text "expected"] => some .expected
  | .list [.text "sampled", seed] => seed.uint64?.map .sampled
  | _ => none

def normalization? (dialect : Dialect) : Value → Option Normalization :=
  Value.choice? dialect [("raw", .raw), ("cosine", .cosine)]

/-- A size that may be left open. -/
def openSize? : Value → Option (Option Nat)
  | .null => some none
  | value => (size? value).map some

def kinds? (value : Value) : Option (List EdgeType) :=
  value.list?.bind fun items => items.mapM (·.uint8?)

def settingFields (dialect : Dialect) : List (Field Settings) := [
  .of "reset_probability" Value.number? fun resetProbability settings =>
    { settings with resetProbability },
  .of "query_node_weight_fraction" Value.number? fun queryNodeWeightFraction settings =>
    { settings with queryNodeWeightFraction },
  .of "num_random_walks" size? fun numRandomWalks settings => { settings with numRandomWalks },
  .of "max_random_walk_length" openSize? fun maxRandomWalkLength settings =>
    { settings with maxRandomWalkLength },
  .of "max_social_proof_type_size" size? fun maxSocialProofTypeSize settings =>
    { settings with maxSocialProofTypeSize },
  .of "max_social_proof_size" size? fun maxSocialProofSize settings =>
    { settings with maxSocialProofSize },
  .of "social_proof_type_mask" kinds? fun socialProofTypeMask settings =>
    { settings with socialProofTypeMask },
  .of "max_num_results" size? fun maxNumResults settings => { settings with maxNumResults },
  .of "walk_mode" walkMode? fun walkMode settings => { settings with walkMode },
  .of "normalization" (normalization? dialect) fun normalization settings =>
    { settings with normalization }]

def settings? (dialect : Dialect) : Value → Option Settings :=
  Field.readRecord? dialect (settingFields dialect) .standard

end Slidewalk.Config
