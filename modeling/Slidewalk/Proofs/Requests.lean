import Slidewalk.Salsa.Request

/-!
# What building a request makes sure of

A draft becomes a request if its settings pass every check, no seed has a bad weight, and there is
weight to share. Everything asked for is taken over as it is.
-/

namespace Slidewalk.Salsa

/-- What comes behind a check is reached if the check throws nothing. -/
theorem check_eq_ok_iff {ε α : Type} {p : Prop} [Decidable p] {fault : ε}
    {next : PUnit → Except ε α} {rest : Except ε α} {a : α} :
    (if p then throw fault >>= next else rest) = .ok a ↔ ¬p ∧ rest = .ok a := by
  by_cases hp : p
  · refine iff_of_false (fun hok => ?_) fun h => h.1 hp
    rw [if_pos hp] at hok
    contradiction
  · rw [if_neg hp]
    exact (and_iff_right hp).symm

/-! ## Settings -/

/-- What is checked of settings that walk so many half-steps. -/
structure Settings.Checked (length : Nat) (settings : Settings) : Prop where
  reset : isProbability settings.resetProbability = true
  fraction : isProbability settings.queryNodeWeightFraction = true
  walks_pos : 0 < settings.numRandomWalks
  length_eq : settings.maxRandomWalkLength = some length
  length_pos : 0 < length
  types_pos : 0 < settings.maxSocialProofTypeSize
  seeds_pos : 0 < settings.maxSocialProofSize
  results_pos : 0 < settings.maxNumResults

theorem Settings.checked_of_validate {settings : Settings} {length : Nat}
    (h : settings.validate = .ok length) : settings.Checked length := by
  unfold validate at h
  simp only [check_eq_ok_iff, Bool.not_eq_true', Bool.not_eq_false] at h
  obtain ⟨hreset, hfraction, hwalks, h⟩ := h
  split at h
  case h_1 => contradiction
  case h_2 => contradiction
  case h_3 walkLength hzero hlength =>
    simp only [pure_bind, check_eq_ok_iff] at h
    obtain ⟨htypes, hseeds, hresults, hok⟩ := h
    obtain rfl := Except.ok.inj hok
    exact ⟨hreset, hfraction, Nat.pos_of_ne_zero hwalks, hlength, Nat.pos_of_ne_zero hzero,
      Nat.pos_of_ne_zero htypes, Nat.pos_of_ne_zero hseeds, Nat.pos_of_ne_zero hresults⟩

/-! ## Drafts -/

variable {draft : RequestDraft} {request : Request}

/-- What a draft has that became a request, which asks for the same. -/
structure RequestDraft.Becomes (draft : RequestDraft) (request : Request) : Prop where
  checked : draft.settings.Checked request.walkLength
  seeds : draft.badSeed = none
  weighty : draft.leftSeeds.isEmpty = false → draft.leftSeeds.total ≤ 0.0 →
    ¬draft.settings.queryNodeWeightFraction < 1.0
  same : request = { draft with walkLength := request.walkLength }

theorem RequestDraft.Becomes.checked_request (h : draft.Becomes request) :
    request.settings.Checked request.walkLength := by
  have hsame : request.settings = draft.settings := by rw [h.same]
  rw [hsame]
  exact h.checked

theorem RequestDraft.becomes_of_build (h : draft.build = .ok request) : draft.Becomes request := by
  unfold build at h
  cases hvalid : draft.settings.validate with
  | error fault =>
    rw [hvalid] at h
    contradiction
  | ok walkLength =>
    have hpure : draft.settings.validate = pure walkLength := hvalid
    rw [hpure, pure_bind] at h
    cases hbad : draft.badSeed with
    | some seed =>
      simp only [hbad] at h
      contradiction
    | none =>
      simp only [hbad, check_eq_ok_iff] at h
      obtain ⟨hweighty, hok⟩ := h
      obtain rfl := Except.ok.inj hok
      simp only [Bool.and_eq_true, Bool.not_eq_true', decide_eq_true_eq, not_and] at hweighty
      exact ⟨Settings.checked_of_validate hvalid, hbad, fun hsome hzero => hweighty ⟨hsome, hzero⟩,
        rfl⟩

end Slidewalk.Salsa
