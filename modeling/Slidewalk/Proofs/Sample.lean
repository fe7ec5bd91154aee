import Slidewalk.Proofs.EdgeCodec
import Slidewalk.Proofs.Run

/-!
# A small graph

Options that a run of a few edges takes to every limit: two edges fill a segment, and two segments
fill the window.
-/

namespace Slidewalk

def Options.sample (pool : PoolKind) (optimizeOnSeal : Bool) : Options :=
  .ofLimits {
    pool
    segmentEdgeCapacity := 2
    maxSegments := 2
    maxNodesPerSegment := 3
    maxDegree := 2
    initialNodeCapacity := 1
    minSizeClassBits := 0
    edgeTypeBits := 1
    optimizeOnSeal }

def BitMask.sample : BitMask := { typeBits := 1 }

def Graph.sample (pool : PoolKind) (optimizeOnSeal : Bool) : Graph where
  options := .sample pool optimizeOnSeal
  holdings := #[]
  window := []
  counters := .zero

variable (pool : PoolKind) (optimizeOnSeal : Bool)

theorem Options.resolveCodec_sample :
    (sample pool optimizeOnSeal).resolveCodec = .ok BitMask.sample.toCodec := rfl

theorem Graph.create_sample :
    create (.sample pool optimizeOnSeal) = .ok (.sample pool optimizeOnSeal) := by
  cases pool <;> rfl

theorem Segment.create_sample :
    ∃ segment, create 0 (.sample pool optimizeOnSeal) = .ok segment := by
  cases pool <;> exact ⟨_, rfl⟩

end Slidewalk
