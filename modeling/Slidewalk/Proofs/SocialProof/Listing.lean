import Mathlib.Data.Finset.Card
import Mathlib.Data.Finset.Union
import Mathlib.Data.List.Sort
import Slidewalk.Proofs.Ranking
import Slidewalk.Proofs.Renaming.Pairing
import Slidewalk.Proofs.SocialProof.Accounts

/-!
# What is listed of an accumulator

Types are listed by their total, and the seeds of a type by what they contributed. Types are
distinct, and so are the seeds of a type, so neither order has ties and the bounds cut it at one
place: a larger bound only adds to what is listed.
-/

namespace Slidewalk.Salsa

/-- Groups in the order that social proof is listed in. -/
theorem ranks_groups : Ranks (α := EdgeType × List NodeId) (·.1) (fun a b => a.1 ≤ b.1)
    (fun a b => a.1 < b.1) where
  trans a b c hab hbc := by
    rw [decide_eq_true_eq] at *
    exact UInt8.le_trans hab hbc
  total a b := by
    rw [Bool.or_eq_true, decide_eq_true_eq, decide_eq_true_eq]
    exact UInt8.le_total a.1 b.1
  strict a b h hne := UInt8.lt_of_le_of_ne (of_decide_eq_true h) hne

namespace Contribution

/-- Whether one seed stands above another: by what it contributed, then by the later engagement,
then by the smaller seed. -/
def Outranks (a b : Contribution) : Prop :=
  b.weight.totalKey < a.weight.totalKey ∨
    a.weight.totalKey = b.weight.totalKey ∧
      (b.engagedAt < a.engagedAt ∨ a.engagedAt = b.engagedAt ∧ a.seed < b.seed)

theorem precedes_iff {a b : Contribution} :
    a.precedes b = true ↔ b.weight.totalKey < a.weight.totalKey ∨
      a.weight.totalKey = b.weight.totalKey ∧
        (b.engagedAt.toInt < a.engagedAt.toInt ∨
          a.engagedAt.toInt = b.engagedAt.toInt ∧ a.seed.toNat ≤ b.seed.toNat) := by
  unfold precedes
  dsimp only
  by_cases hweight : a.weight.totalKey = b.weight.totalKey
  · rw [if_neg (Decidable.not_not.mpr hweight)]
    by_cases hengaged : a.engagedAt = b.engagedAt
    · rw [if_neg (Decidable.not_not.mpr hengaged), decide_eq_true_eq, UInt64.le_iff_toNat_le,
        hengaged]
      omega
    · have hdiffer : a.engagedAt.toInt ≠ b.engagedAt.toInt := mt Int64.toInt_inj.mp hengaged
      rw [if_pos hengaged, decide_eq_true_eq, Int64.lt_iff_toInt_lt]
      omega
  · rw [if_pos hweight, decide_eq_true_eq]
    omega

theorem ranks : Ranks (·.seed) precedes Outranks where
  trans a b c hab hbc := by
    rw [precedes_iff] at *
    omega
  total a b := by
    rw [Bool.or_eq_true, precedes_iff, precedes_iff]
    omega
  strict a b h hne := by
    have hdiffer : a.seed.toNat ≠ b.seed.toNat := mt UInt64.toNat_inj.mp hne
    rw [precedes_iff] at h
    unfold Outranks
    rw [Int64.lt_iff_toInt_lt, ← Int64.toInt_inj, UInt64.lt_iff_toNat_lt]
    omega

end Contribution

namespace TypeProof

/-- Whether one type stands above another: by its total, then by the smaller type. -/
def Outranks (a b : TypeProof) : Prop :=
  b.total.totalKey < a.total.totalKey ∨ a.total.totalKey = b.total.totalKey ∧ a.kind < b.kind

theorem precedes_iff {a b : TypeProof} :
    a.precedes b = true ↔ b.total.totalKey < a.total.totalKey ∨
      a.total.totalKey = b.total.totalKey ∧ a.kind.toNat ≤ b.kind.toNat := by
  unfold precedes
  dsimp only
  by_cases htotal : a.total.totalKey = b.total.totalKey
  · rw [if_neg (Decidable.not_not.mpr htotal), decide_eq_true_eq, UInt8.le_iff_toNat_le]
    omega
  · rw [if_pos htotal, decide_eq_true_eq]
    omega

theorem ranks : Ranks (·.kind) precedes Outranks where
  trans a b c hab hbc := by
    rw [precedes_iff] at *
    omega
  total a b := by
    rw [Bool.or_eq_true, precedes_iff, precedes_iff]
    omega
  strict a b h hne := by
    have hdiffer : a.kind.toNat ≠ b.kind.toNat := mt UInt8.toNat_inj.mp hne
    rw [precedes_iff] at h
    unfold Outranks
    rw [UInt8.lt_iff_toNat_lt]
    omega

/-- The group that is listed for a type. -/
structure Shows (maxSeeds : Nat) (held : TypeProof) (group : EdgeType × List NodeId) : Prop where
  kind : group.1 = held.kind
  seeds : ∃ kept, First Contribution.Outranks held.seeds maxSeeds kept ∧
    group.2 = kept.map (·.seed)

theorem shows_topSeeds {held : TypeProof} (h : (held.seeds.map (·.seed)).Nodup) (maxSeeds : Nat) :
    held.Shows maxSeeds (held.kind, held.topSeeds maxSeeds) :=
  ⟨rfl, _, Contribution.ranks.first_take h maxSeeds, rfl⟩

theorem topSeeds_prefix (held : TypeProof) {maxSeeds maxSeeds' : Nat} (h : maxSeeds ≤ maxSeeds') :
    held.topSeeds maxSeeds <+: held.topSeeds maxSeeds' :=
  (List.take_prefix_take_left h).map _

end TypeProof

/-- Seeds are counted once, however many types list them. -/
theorem SocialProof.distinctSeeds_eq (proof : SocialProof) :
    proof.distinctSeeds = (proof.toFinset.biUnion (·.2.toFinset)).card := by
  unfold distinctSeeds
  rw [← List.toFinset_card_of_nodup (nodup_eraseDups proof.seeds)]
  apply congrArg
  ext seed
  simp [SocialProof.seeds]

namespace ProofAccumulator

/-- The types that come first, each with the seeds that come first under it, listed by ascending
type. -/
structure Shows (proof : ProofAccumulator) (maxTypes maxSeeds : Nat) (listed : SocialProof) :
    Prop where
  ascending : (listed.map (·.1)).Pairwise (· < ·)
  exactly : ∃ kept groups, First TypeProof.Outranks proof.types maxTypes kept ∧
    List.Forall₂ (TypeProof.Shows maxSeeds) kept groups ∧ listed.Perm groups
  distinctSeeds : listed.distinctSeeds = (listed.toFinset.biUnion (·.2.toFinset)).card

/-- What is listed within any bounds, and what larger bounds add to it. -/
structure Presented (proof : ProofAccumulator) : Prop where
  shows : ∀ maxTypes maxSeeds, proof.Shows maxTypes maxSeeds (proof.finalize maxTypes maxSeeds)
  moreSeeds : ∀ maxTypes {maxSeeds maxSeeds'}, maxSeeds ≤ maxSeeds' →
    List.Forall₂ (fun group group' => group.1 = group'.1 ∧ group.2 <+: group'.2)
      (proof.finalize maxTypes maxSeeds) (proof.finalize maxTypes maxSeeds')
  moreTypes : ∀ {maxTypes maxTypes'} maxSeeds, maxTypes ≤ maxTypes' →
    (proof.finalize maxTypes maxSeeds).Sublist (proof.finalize maxTypes' maxSeeds)

variable {proof : ProofAccumulator}

theorem nodup_topTypes (h : (proof.types.map (·.kind)).Nodup) (maxTypes maxSeeds : Nat) :
    (((proof.topTypes maxTypes).map fun held => (held.kind, held.topSeeds maxSeeds)).map
      (·.1)).Nodup := by
  rw [List.map_map]
  have hperm := (List.mergeSort_perm proof.types TypeProof.precedes).map (·.kind)
  exact ((List.take_sublist _ _).map _).nodup (hperm.nodup_iff.mpr h)

theorem pairwise_finalize (h : (proof.types.map (·.kind)).Nodup) (maxTypes maxSeeds : Nat) :
    (proof.finalize maxTypes maxSeeds).Pairwise fun a b => a.1 < b.1 :=
  ranks_groups.pairwise_mergeSort (nodup_topTypes h maxTypes maxSeeds)

theorem finalize_moreSeeds (proof : ProofAccumulator) (maxTypes : Nat) {maxSeeds maxSeeds' : Nat}
    (h : maxSeeds ≤ maxSeeds') :
    List.Forall₂ (fun group group' => group.1 = group'.1 ∧ group.2 <+: group'.2)
      (proof.finalize maxTypes maxSeeds) (proof.finalize maxTypes maxSeeds') := by
  apply forall₂_mergeSort
  · rw [List.forall₂_map_left_iff, List.forall₂_map_right_iff, List.forall₂_same]
    exact fun held _ => ⟨rfl, held.topSeeds_prefix h⟩
  · intro a b a' b' hab ha'b'
    rw [hab.1, ha'b'.1]

theorem finalize_moreTypes (hnodup : (proof.types.map (·.kind)).Nodup) {maxTypes maxTypes' : Nat}
    (maxSeeds : Nat) (h : maxTypes ≤ maxTypes') :
    (proof.finalize maxTypes maxSeeds).Sublist (proof.finalize maxTypes' maxSeeds) := by
  have hsub := (List.take_sublist_take_left (l := proof.types.mergeSort TypeProof.precedes) h).map
    fun held => (held.kind, held.topSeeds maxSeeds)
  have hsubperm : (proof.finalize maxTypes maxSeeds).Subperm (proof.finalize maxTypes' maxSeeds) :=
    (finalize_perm proof maxTypes maxSeeds).subperm.trans
      (hsub.subperm.trans (finalize_perm proof maxTypes' maxSeeds).symm.subperm)
  -- of two groups only one can come before the other
  have : Std.Antisymm fun a b : EdgeType × List NodeId => a.1 < b.1 :=
    ⟨fun a b hab hba => absurd hba (UInt8.lt_asymm hab)⟩
  exact List.sublist_of_subperm_of_pairwise hsubperm (pairwise_finalize hnodup maxTypes maxSeeds)
    (pairwise_finalize hnodup maxTypes' maxSeeds)

theorem presented_of_nodup (hkinds : (proof.types.map (·.kind)).Nodup)
    (hseeds : ∀ held ∈ proof.types, (held.seeds.map (·.seed)).Nodup) : proof.Presented := by
  constructor
  case shows =>
    intro maxTypes maxSeeds
    have hfirst := TypeProof.ranks.first_take hkinds maxTypes
    refine ⟨List.pairwise_map.mpr (pairwise_finalize hkinds maxTypes maxSeeds),
      ⟨_, _, hfirst, ?_, finalize_perm proof maxTypes maxSeeds⟩, SocialProof.distinctSeeds_eq _⟩
    rw [List.forall₂_map_right_iff]
    exact List.forall₂_same.mpr fun held hheld =>
      TypeProof.shows_topSeeds (hseeds held (hfirst.mem held hheld)) maxSeeds
  case moreSeeds => exact fun maxTypes _ _ h => finalize_moreSeeds proof maxTypes h
  case moreTypes => exact fun maxSeeds h => finalize_moreTypes hkinds maxSeeds h

/-! ## Accounts and listing -/

/-- What is known of an accumulator that took some calls. -/
structure Accounted (taken : List RecordCall) (proof : ProofAccumulator) : Prop where
  addsUp : proof.AddsUp taken
  kinds_nodup : (proof.types.map (·.kind)).Nodup
  seeds_nodup : ∀ held ∈ proof.types, (held.seeds.map (·.seed)).Nodup
  seeds_ne_nil : ∀ held ∈ proof.types, held.seeds ≠ []
  /-- The next call is refused exactly if its type is new and there are as many as it allows. -/
  refuses_iff : ∀ call, (proof.perform call).2 = false ↔
    call.kind ∉ proof.types.map (·.kind) ∧ call.maxTypes ≤ proof.types.length
  unchanged : ∀ call, (proof.perform call).2 = false → (proof.perform call).1 = proof
  presented : proof.Presented

variable {calls : List RecordCall}

theorem AddsUp.seeds_ne_nil (h : proof.AddsUp calls) {held : TypeProof}
    (hheld : held ∈ proof.types) : held.seeds ≠ [] := by
  -- a type is held because of a call for it, and the seed of that call is held as well
  obtain ⟨call, hcall, hkind⟩ :=
    List.mem_map.mp (h.mem_kinds.mp (List.mem_map_of_mem (f := (·.kind)) hheld))
  have hcalls : call ∈ RecordCall.under (·.kind) held.kind calls :=
    List.mem_filter.mpr ⟨hcall, decide_eq_true hkind⟩
  have hseed : call.seed ∈ held.seeds.map (·.seed) := by
    rw [(h.each held hheld).seeds, List.mem_eraseDups]
    exact List.mem_map_of_mem hcalls
  intro hnil
  rw [hnil] at hseed
  contradiction

/-- Every run of calls is accounted for. -/
theorem run_accounted (calls : List RecordCall) :
    (empty.run calls).Accounted (empty.taken calls) := by
  have haddsUp := run_addsUp calls
  have hseeds := fun held hheld => (haddsUp.each held hheld).nodup
  exact {
    addsUp := haddsUp
    kinds_nodup := haddsUp.nodup
    seeds_nodup := hseeds
    seeds_ne_nil := fun _ => haddsUp.seeds_ne_nil
    refuses_iff := perform_eq_false_iff _
    unchanged := fun _ => perform_of_refused
    presented := presented_of_nodup haddsUp.nodup hseeds }

end ProofAccumulator

end Slidewalk.Salsa
