import Slidewalk.Proofs.Renaming.Pairing
import Slidewalk.Salsa.SocialProof

/-!
# Social proof under renamed ids

Seeds are told apart, counted and put in order, and nothing else is done with their ids. So paired
seeds earn the same contributions, in the same places.
-/

namespace Slidewalk.Salsa

variable {names : Renaming} {seed seed' : NodeId} {weight : Binary64} {engagedAt : Time}

def SocialProof.Pairs (names : Renaming) (proof proof' : SocialProof) : Prop :=
  List.Forall₂
    (fun group group' => group.1 = group'.1 ∧ List.Forall₂ (names.Pairs .left) group.2 group'.2)
    proof proof'

theorem SocialProof.Pairs.distinctSeeds {proof proof' : SocialProof}
    (h : proof.Pairs names proof') : proof.distinctSeeds = proof'.distinctSeeds := by
  have hseeds : List.Forall₂ (names.Pairs .left) proof.seeds proof'.seeds :=
    List.rel_flatMap h fun _ _ hgroup => hgroup.2
  -- seeds are told apart exactly if their pairs are
  have hbeq : ∀ a a' b b' : NodeId, names.Pairs .left a a' → names.Pairs .left b b' →
      (a == b) = (a' == b') := by
    intro a a' b b' ha hb
    rw [Bool.eq_iff_iff, beq_iff_eq, beq_iff_eq]
    exact Renaming.eq_iff ha hb
  exact (forall₂_eraseDups hbeq hseeds).length_eq

/-! ## Contributions -/

namespace Contribution

structure Pairs (names : Renaming) (held held' : Contribution) : Prop where
  seed : names.Pairs .left held.seed held'.seed
  weight : held.weight = held'.weight
  engagedAt : held.engagedAt = held'.engagedAt

theorem credit_pairs {held held' : List Contribution} (h : List.Forall₂ (Pairs names) held held')
    (hseed : names.Pairs .left seed seed') :
    List.Forall₂ (Pairs names) (credit seed weight engagedAt held)
      (credit seed' weight engagedAt held') := by
  induction h with
  | nil => exact .cons ⟨hseed, rfl, rfl⟩ .nil
  | @cons first first' rest rest' hfirst hrest ih =>
    unfold credit
    by_cases hsame : first.seed = seed
    · have hsame' := (Renaming.eq_iff hfirst.seed hseed).mp hsame
      rw [if_pos hsame, if_pos hsame', hfirst.weight, hfirst.engagedAt]
      exact .cons ⟨hfirst.seed, rfl, rfl⟩ hrest
    · have hdiffer : ¬first'.seed = seed' := by
        intro hsame'
        exact hsame ((Renaming.eq_iff hfirst.seed hseed).mpr hsame')
      rw [if_neg hsame, if_neg hdiffer]
      exact .cons hfirst ih

theorem Pairs.precedes {a a' b b' : Contribution} (ha : a.Pairs names a') (hb : b.Pairs names b') :
    a.precedes b = a'.precedes b' := by
  have hle := Renaming.le_iff ha.seed hb.seed
  unfold Contribution.precedes
  rw [ha.weight, hb.weight, ha.engagedAt, hb.engagedAt, decide_eq_decide.mpr hle]

end Contribution

/-! ## Contributions of one type -/

namespace TypeProof

structure Pairs (names : Renaming) (held held' : TypeProof) : Prop where
  kind : held.kind = held'.kind
  total : held.total = held'.total
  seeds : List.Forall₂ (Contribution.Pairs names) held.seeds held'.seeds

variable {held held' other other' : TypeProof}

namespace Pairs

theorem fresh (kind : EdgeType) : (fresh kind).Pairs names (TypeProof.fresh kind) :=
  ⟨rfl, rfl, .nil⟩

theorem credit (h : held.Pairs names held') (hseed : names.Pairs .left seed seed') :
    (held.credit seed weight engagedAt).Pairs names (held'.credit seed' weight engagedAt) :=
  ⟨h.kind, congrArg (· + weight) h.total, Contribution.credit_pairs h.seeds hseed⟩

theorem precedes (h : held.Pairs names held') (hother : other.Pairs names other') :
    held.precedes other = held'.precedes other' := by
  unfold TypeProof.precedes
  rw [h.total, h.kind, hother.total, hother.kind]

theorem topSeeds (h : held.Pairs names held') (maxSeeds : Nat) :
    List.Forall₂ (names.Pairs .left) (held.topSeeds maxSeeds) (held'.topSeeds maxSeeds) := by
  have hsorted := forall₂_mergeSort h.seeds fun _ _ _ _ ha hb => Contribution.Pairs.precedes ha hb
  exact List.rel_map (fun _ _ hpair => hpair.seed) (List.forall₂_take maxSeeds hsorted)

end Pairs

end TypeProof

/-! ## Accumulators -/

namespace ProofAccumulator

def Pairs (names : Renaming) (proof proof' : ProofAccumulator) : Prop :=
  List.Forall₂ (TypeProof.Pairs names) proof.types proof'.types

theorem creditType_pairs {kind : EdgeType} {held held' : List TypeProof}
    (h : List.Forall₂ (TypeProof.Pairs names) held held') (hseed : names.Pairs .left seed seed') :
    List.Forall₂ (TypeProof.Pairs names) (creditType kind seed weight engagedAt held)
      (creditType kind seed' weight engagedAt held') := by
  induction h with
  | nil => exact .cons ((TypeProof.Pairs.fresh kind).credit hseed) .nil
  | cons hfirst hrest ih =>
    unfold creditType
    rw [hfirst.kind]
    split
    · exact .cons (hfirst.credit hseed) hrest
    · exact .cons hfirst ih

namespace Pairs

variable {proof proof' : ProofAccumulator}

theorem empty : empty.Pairs names empty := .nil

theorem tracks (h : proof.Pairs names proof') (kind : EdgeType) :
    proof.tracks kind = proof'.tracks kind := by
  have hkinds := map_eq_map_of_forall₂ (h.imp fun _ _ hpair => hpair.kind)
  -- whether a type is tracked is a matter of the types alone
  have hany (proof : ProofAccumulator) :
      proof.tracks kind = (proof.types.map (·.kind)).any (· == kind) := by
    rw [List.any_map]
    rfl
  rw [hany, hany, hkinds]

theorem record (h : proof.Pairs names proof') (hseed : names.Pairs .left seed seed')
    (kind : EdgeType) (weight : Binary64) (engagedAt : Time) (maxTypes : Nat) :
    (proof.record kind seed weight engagedAt maxTypes).1.Pairs names
      (proof'.record kind seed' weight engagedAt maxTypes).1 := by
  unfold ProofAccumulator.record
  rw [h.tracks, List.Forall₂.length_eq h]
  split
  · exact creditType_pairs h hseed
  · exact h

theorem topTypes (h : proof.Pairs names proof') (maxTypes : Nat) :
    List.Forall₂ (TypeProof.Pairs names) (proof.topTypes maxTypes) (proof'.topTypes maxTypes) := by
  have hsorted := forall₂_mergeSort h fun _ _ _ _ ha hb => TypeProof.Pairs.precedes ha hb
  exact List.forall₂_take maxTypes hsorted

theorem finalize (h : proof.Pairs names proof') (maxTypes maxSeeds : Nat) :
    (proof.finalize maxTypes maxSeeds).Pairs names (proof'.finalize maxTypes maxSeeds) := by
  apply forall₂_mergeSort
  · apply List.rel_map _ (h.topTypes maxTypes)
    intro held held' hheld
    exact ⟨hheld.kind, hheld.topSeeds maxSeeds⟩
  · intro a a' b b' ha hb
    rw [ha.1, hb.1]

end Pairs

end ProofAccumulator

end Slidewalk.Salsa
