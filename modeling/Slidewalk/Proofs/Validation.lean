import Slidewalk.Proofs.Limits
import Slidewalk.Proofs.Rejection
import Slidewalk.Proofs.WindowInvariant

/-!
# Valid options are usable, but for one

Whatever options are valid with the usual packing, segments can be made of them and no edge is ever
refused for the configuration. The one exception are entries without a type and as many nodes as
they can tell apart: validation lets them pass, but an index takes one node fewer.
-/

namespace Slidewalk

/-- As many nodes as there are numbers of 32 bits, all of which entries without a type can hold. -/
def Limits.ExceedsIndex (limits : Limits) : Prop :=
  limits.edgeTypeBits = 0 ∧ limits.maxNodesPerSegment = UInt32.size

/-- Segments can be made, and no edge is refused for the configuration in any graph. -/
structure Options.Usable (options : Options) : Prop where
  creates : ∀ id, ∃ segment, Segment.create id options = .ok segment
  configured : ∀ graph, Graph.create options = .ok graph →
    ∀ (operations : List Operation) edge fault,
      ((graph.run operations).1.add edge).2 = .error fault → fault.isConfiguration = false

variable {options : Options} {limits : Limits} {codec : EdgeCodec} {mask : BitMask}

/-! ## Making segments -/

theorem NodeIndex.create_of_le (initial : Nat) {maxNodes : Nat} (hpos : 0 < maxNodes)
    (hle : maxNodes ≤ maxBound) : ∃ index, NodeIndex.create initial maxNodes = .ok index := by
  unfold create withPlacement
  rw [if_neg (by omega)]
  exact ⟨_, rfl⟩

theorem NodeIndex.create_of_lt (initial : Nat) {maxNodes : Nat} (hlt : maxBound < maxNodes) :
    NodeIndex.create initial maxNodes = .error (.configuration (.nodeBound maxNodes)) :=
  if_pos (.inr hlt)

namespace Limits.Checked

/-- Validation makes sure that the pools can be made. -/
theorem exists_pool (h : limits.Checked codec) : ∃ pool, Segment.createPool limits = .ok pool := by
  have hnodes := h.nodes_pos
  have hdegree := h.degree_pos
  have hcapacity := h.capacity_pos
  unfold Segment.createPool
  cases hpool : limits.pool with
  | uniform =>
    dsimp only
    unfold UniformPool.create
    rw [if_neg (by omega), if_neg (Nat.not_le.mpr (h.uniform_lt hpool))]
    exact ⟨_, rfl⟩
  | powerLaw =>
    dsimp only
    unfold PowerLawPool.create
    rw [if_neg (by dsimp only; omega), if_neg (Nat.not_lt.mpr h.classBits_le)]
    exact ⟨_, rfl⟩

/-- A bit mask has at most as many indices as there are numbers of 32 bits, and fewer if it has room
for types. -/
theorem exceedsIndex_iff (h : limits.Checked mask.toCodec)
    (hbits : mask.typeBits = limits.edgeTypeBits) :
    limits.maxNodesPerSegment ≤ UInt32.size ∧
      (NodeIndex.maxBound < limits.maxNodesPerSegment ↔ limits.ExceedsIndex) := by
  have hsplit : mask.typeSize * mask.indexSize = 4294967296 := mask.typeSize_mul_indexSize
  have hpos := mask.indexSize_pos
  have hnodes : limits.maxNodesPerSegment ≤ mask.indexSize := by
    have haddressed : limits.maxNodesPerSegment ≤ mask.indexSize - 1 + 1 := h.addressable
    omega
  have hsize : UInt32.size = 4294967296 := rfl
  have hbound : NodeIndex.maxBound = 4294967295 := rfl
  unfold ExceedsIndex
  rw [← hbits, hsize, hbound]
  -- a single bit for types halves the indices, which is well below the bound
  by_cases hzero : mask.typeBits = 0
  · have hone : mask.typeSize = 1 := by
      unfold BitMask.typeSize
      rw [hzero]
    rw [hone, Nat.one_mul] at hsplit
    omega
  · have htwo : 2 ≤ mask.typeSize :=
      Nat.pow_le_pow_right (show 0 < 2 by decide) (Nat.one_le_iff_ne_zero.mpr hzero)
    have hhalf := Nat.mul_le_mul_right mask.indexSize htwo
    omega

end Limits.Checked

namespace Segment

theorem exists_create (hcodec : options.resolveCodec = .ok codec)
    (hchecked : options.limits.Checked codec)
    (hnodes : options.limits.maxNodesPerSegment ≤ NodeIndex.maxBound) (id : Nat) :
    ∃ segment, create id options = .ok segment := by
  obtain ⟨index, hindex⟩ := NodeIndex.create_of_le options.limits.initialNodeCapacity
    hchecked.nodes_pos hnodes
  obtain ⟨pool, hpool⟩ := hchecked.exists_pool
  unfold create
  dsimp only
  rw [hcodec, hindex, hpool]
  exact ⟨_, rfl⟩

theorem create_of_exceeding (hcodec : options.resolveCodec = .ok codec)
    (hnodes : NodeIndex.maxBound < options.limits.maxNodesPerSegment) (id : Nat) :
    create id options =
      .error (.configuration (.nodeBound options.limits.maxNodesPerSegment)) := by
  unfold create
  dsimp only
  rw [hcodec, NodeIndex.create_of_lt _ hnodes]
  rfl

end Segment

namespace Graph

variable {graph : Graph}

/-! ## Adding edges -/

/-- Without segments every edge is refused as a new segment is. -/
theorem Barren.add_eq (h : graph.Barren options) {fault : Fault}
    (hcreate : ∀ id, Segment.create id options = .error fault) (edge : Edge) :
    (graph.add edge).2 = .error fault := by
  unfold Graph.add target openSegment
  rw [h.openVersion?_eq, h.options_eq, hcreate]

/-- Valid options with the usual packing are usable unless there are more nodes than an index takes,
and then no edge is ever added. Sizes are counted in 64 bits unless a power-law pool has to round up
a degree beyond that. -/
theorem valid_options_usable_iff (husual : options.codec = none)
    (hvalid : options.validate = .ok ()) :
    (options.Usable ↔ ¬options.limits.ExceedsIndex) ∧
      (options.limits.ExceedsIndex → ∀ graph, Graph.create options = .ok graph →
        ∀ (operations : List Operation) edge, ((graph.run operations).1.add edge).2 =
          .error (.configuration (.nodeBound UInt32.size))) ∧
      (options.limits.FitWords ↔
        (options.limits.pool = .powerLaw → options.limits.maxDegree ≤ Nat.pow 2 63)) := by
  obtain ⟨codec, hcodec, hchecked⟩ := Options.validate_iff.mp hvalid
  obtain ⟨mask, hbits, rfl⟩ := Options.exists_mask_of_usual husual hcodec
  obtain ⟨hnodes, hexceeds⟩ := hchecked.exceedsIndex_iff hbits
  have hfails (h : options.limits.ExceedsIndex) (id : Nat) : Segment.create id options =
      .error (.configuration (.nodeBound UInt32.size)) := by
    rw [Segment.create_of_exceeding hcodec (hexceeds.mpr h), h.2]
  refine ⟨⟨fun husable hexceeding => ?_, fun hwithin => ?_⟩, fun hexceeding graph hcreate operations
    edge => ?_, hchecked.fitWords_iff hnodes⟩
  · obtain ⟨segment, hsegment⟩ := husable.creates 0
    rw [hfails hexceeding] at hsegment
    contradiction
  · have hcreates := Segment.exists_create hcodec hchecked
      (Nat.le_of_not_lt (mt hexceeds.mp hwithin))
    refine ⟨hcreates, fun graph hcreate operations edge fault hrefused => ?_⟩
    obtain ⟨hopens, horderly⟩ := create_orderly hcreate (hcreates 0)
    obtain ⟨hfinal, -⟩ := horderly.run hopens operations
    -- with the usual packing only the parts of a segment refuse an edge
    have hlocal := hfinal.isLocal_of_add hopens husual hrefused
    by_contra hconfiguration
    rw [Fault.not_isLocal_of_isConfiguration (Bool.not_eq_false _ ▸ hconfiguration)] at hlocal
    contradiction
  · have hnone : ¬∃ segment, Segment.create 0 options = .ok segment := by
      rintro ⟨segment, hsegment⟩
      rw [hfails hexceeding] at hsegment
      contradiction
    exact (run_barren hcreate hnone operations).add_eq (hfails hexceeding) edge

theorem sample_options_usable : (Options.sample .powerLaw false).Usable ∧
    (Options.sample .powerLaw false).limits.FitWords := by
  have hvalid : (Options.sample .powerLaw false).validate = .ok () := rfl
  obtain ⟨husable, -, hwords⟩ := valid_options_usable_iff rfl hvalid
  refine ⟨husable.mpr fun hexceeding => ?_, hwords.mpr fun _ => by decide⟩
  have hbits : (1 : Nat) = 0 := hexceeding.1
  contradiction

/-- Entries without a type, and as many nodes as they tell apart. -/
def exceedingSample : Options :=
  .ofLimits { (Options.sample .powerLaw false).limits with
    maxNodesPerSegment := 4294967296
    edgeTypeBits := 0 }

/-- Validation lets the options pass, but nothing can be stored. -/
theorem exceeding_sample_unusable : exceedingSample.validate = .ok () ∧
    Segment.create 0 exceedingSample = .error (.configuration (.nodeBound 4294967296)) ∧
    (Graph.create exceedingSample).map (fun graph => (graph.add ⟨1, 2, 0, 1⟩).2) =
      .ok (.error (.configuration (.nodeBound 4294967296))) :=
  ⟨rfl, rfl, rfl⟩

end Graph

end Slidewalk
