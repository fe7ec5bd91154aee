import Mathlib.Data.List.Nodup
import Slidewalk.Salsa.SocialProof

/-!
# Earned social proof

An accumulator lists a type once, and a seed once under a type, and only what was credited. The
social proof of a result is cut from that.
-/

namespace Slidewalk.Salsa

variable {earns : EdgeType → NodeId → Prop} {kind : EdgeType} {seed : NodeId}
  {weight : Binary64} {engagedAt : Time} {maxTypes maxSeeds : Nat}

/-- Crediting a seed leaves other contributions as they were. -/
theorem Contribution.mem_credit {held : Contribution} {seeds : List Contribution}
    (hnodup : (seeds.map (·.seed)).Nodup) (h : held ∈ credit seed weight engagedAt seeds) :
    (held ∈ seeds ∧ held.seed ≠ seed) ∨
      (∃ before ∈ seeds, before.seed = seed ∧ held = { before with
        weight := before.weight + weight, engagedAt := max before.engagedAt engagedAt }) ∨
      (seed ∉ seeds.map (·.seed) ∧ held = { seed, weight, engagedAt }) := by
  rw [credit_eq_upsert] at h
  exact mem_upsert hnodup h

/-! ## What has been earned -/

/-- There are seeds, each listed once, that have earned to be listed under a type. -/
structure SeedsEarned (earns : EdgeType → NodeId → Prop) (kind : EdgeType) (seeds : List NodeId) :
    Prop where
  ne_nil : seeds ≠ []
  nodup : seeds.Nodup
  earned : ∀ seed ∈ seeds, earns kind seed

/-- The social proof of a result, within the limits on types and seeds. -/
structure SocialProof.Earned (earns : EdgeType → NodeId → Prop) (maxTypes maxSeeds : Nat)
    (proof : SocialProof) : Prop where
  length_le : proof.length ≤ maxTypes
  nodup : (proof.map (·.1)).Nodup
  seeds_le : ∀ group ∈ proof, group.2.length ≤ maxSeeds
  seeds : ∀ group ∈ proof, SeedsEarned earns group.1 group.2

namespace TypeProof

variable {held : TypeProof}

def Earned (earns : EdgeType → NodeId → Prop) (held : TypeProof) : Prop :=
  SeedsEarned earns held.kind (held.seeds.map (·.seed))

theorem map_seed_seeds_credit (held : TypeProof) :
    (held.credit seed weight engagedAt).seeds.map (·.seed) =
      if seed ∈ held.seeds.map (·.seed) then held.seeds.map (·.seed)
      else held.seeds.map (·.seed) ++ [seed] :=
  Contribution.map_seed_credit seed weight engagedAt held.seeds

theorem earned_credit_fresh (h : earns kind seed) :
    ((fresh kind).credit seed weight engagedAt).Earned earns := by
  refine ⟨List.cons_ne_nil _ _, List.nodup_singleton _, fun other hother => ?_⟩
  rw [List.mem_singleton.mp hother]
  exact h

theorem Earned.credit (h : held.Earned earns) (hseed : earns held.kind seed) :
    (held.credit seed weight engagedAt).Earned earns := by
  unfold Earned
  rw [map_seed_seeds_credit]
  split
  · exact h
  · rename_i hnew
    refine ⟨by simp, ?_, fun other hother => ?_⟩
    · rw [← List.concat_eq_append]
      exact h.nodup.concat hnew
    · rcases List.mem_append.mp hother with hold | hadded
      · exact h.earned other hold
      · rw [List.mem_singleton.mp hadded]
        exact hseed

/-- The seeds that come first are taken from the listed ones, in another order. -/
theorem exists_perm_topSeeds (held : TypeProof) (maxSeeds : Nat) :
    ∃ seeds : List NodeId, seeds.Perm (held.seeds.map (·.seed)) ∧
      held.topSeeds maxSeeds = seeds.take maxSeeds :=
  ⟨(held.seeds.mergeSort Contribution.precedes).map (·.seed), (List.mergeSort_perm _ _).map _,
    by rw [topSeeds, List.map_take]⟩

theorem Earned.topSeeds (h : held.Earned earns) (hpos : 0 < maxSeeds) :
    (held.topSeeds maxSeeds).length ≤ maxSeeds ∧
      SeedsEarned earns held.kind (held.topSeeds maxSeeds) := by
  obtain ⟨seeds, hperm, htake⟩ := held.exists_perm_topSeeds maxSeeds
  rw [htake]
  refine ⟨List.length_take_le _ _, ?_,
    (List.take_sublist _ _).nodup (hperm.nodup_iff.mpr h.nodup), fun seed hseed => ?_⟩
  · have hne : seeds ≠ [] := fun hnil => h.ne_nil (hnil ▸ hperm).nil_eq.symm
    rw [Ne, List.take_eq_nil_iff, not_or]
    exact ⟨by omega, hne⟩
  · exact h.earned seed (hperm.mem_iff.mp (List.mem_of_mem_take hseed))

end TypeProof

namespace ProofAccumulator

/-- Each type is listed once, with seeds that have earned it. -/
structure Earned (earns : EdgeType → NodeId → Prop) (proof : ProofAccumulator) : Prop where
  nodup : (proof.types.map (·.kind)).Nodup
  types : ∀ held ∈ proof.types, held.Earned earns

variable {proof : ProofAccumulator}

theorem tracks_iff : proof.tracks kind = true ↔ kind ∈ proof.types.map (·.kind) := by
  simp [tracks]

/-- Crediting a seed leaves other types as they were. -/
theorem mem_creditType {types : List TypeProof} (hnodup : (types.map (·.kind)).Nodup)
    {held : TypeProof} (h : held ∈ creditType kind seed weight engagedAt types) :
    (held ∈ types ∧ held.kind ≠ kind) ∨
      (∃ before ∈ types, before.kind = kind ∧ held = before.credit seed weight engagedAt) ∨
      (kind ∉ types.map (·.kind) ∧ held = (TypeProof.fresh kind).credit seed weight engagedAt) := by
  rw [creditType_eq_upsert] at h
  exact mem_upsert hnodup h

theorem empty_earned : empty.Earned earns :=
  ⟨List.nodup_nil, fun held hheld => by contradiction⟩

theorem creditType_earned {types : List TypeProof} (h : ∀ held ∈ types, held.Earned earns)
    (hseed : earns kind seed) :
    ∀ held ∈ creditType kind seed weight engagedAt types, held.Earned earns := by
  induction types with
  | nil =>
    intro held hheld
    rw [List.mem_singleton.mp hheld]
    exact TypeProof.earned_credit_fresh hseed
  | cons first rest ih =>
    have hfirst := h first List.mem_cons_self
    have hrest := fun held hheld => h held (List.mem_cons_of_mem first hheld)
    intro held hheld
    unfold creditType at hheld
    split at hheld
    · rename_i hsame
      rcases List.mem_cons.mp hheld with rfl | hheld
      · exact hfirst.credit (hsame ▸ hseed)
      · exact hrest held hheld
    · rcases List.mem_cons.mp hheld with rfl | hheld
      · exact hfirst
      · exact ih hrest held hheld

theorem Earned.record (h : proof.Earned earns) (hseed : earns kind seed) :
    (proof.record kind seed weight engagedAt maxTypes).1.Earned earns := by
  unfold ProofAccumulator.record
  split
  · refine ⟨?_, creditType_earned h.types hseed⟩
    dsimp only
    rw [map_kind_creditType]
    split
    · exact h.nodup
    · rename_i hnew
      rw [← List.concat_eq_append]
      exact h.nodup.concat hnew
  · exact h

/-- What is listed in the end comes from the types that come first, in another order. -/
theorem finalize_perm (proof : ProofAccumulator) (maxTypes maxSeeds : Nat) :
    (proof.finalize maxTypes maxSeeds).Perm
      ((proof.topTypes maxTypes).map fun held => (held.kind, held.topSeeds maxSeeds)) :=
  List.mergeSort_perm _ _

/-- What is listed in the end has been earned, and is within the limits. -/
theorem Earned.finalize (h : proof.Earned earns) (hpos : 0 < maxSeeds) :
    (proof.finalize maxTypes maxSeeds).Earned earns maxTypes maxSeeds := by
  have hperm := List.mergeSort_perm proof.types TypeProof.precedes
  have hgroups := proof.finalize_perm maxTypes maxSeeds
  have hmem (group : EdgeType × List NodeId) (hgroup : group ∈ proof.finalize maxTypes maxSeeds) :
      ∃ held ∈ proof.types, group = (held.kind, held.topSeeds maxSeeds) := by
    obtain ⟨held, hheld, rfl⟩ := List.mem_map.mp (hgroups.mem_iff.mp hgroup)
    exact ⟨held, hperm.mem_iff.mp (List.mem_of_mem_take hheld), rfl⟩
  constructor
  case length_le =>
    rw [hgroups.length_eq, List.length_map]
    exact List.length_take_le _ _
  case nodup =>
    rw [(hgroups.map (·.1)).nodup_iff, List.map_map]
    exact ((List.take_sublist _ _).map _).nodup ((hperm.map _).nodup_iff.mpr h.nodup)
  case seeds_le =>
    intro group hgroup
    obtain ⟨held, hheld, rfl⟩ := hmem group hgroup
    exact ((h.types held hheld).topSeeds hpos).1
  case seeds =>
    intro group hgroup
    obtain ⟨held, hheld, rfl⟩ := hmem group hgroup
    exact ((h.types held hheld).topSeeds hpos).2

end ProofAccumulator

end Slidewalk.Salsa
