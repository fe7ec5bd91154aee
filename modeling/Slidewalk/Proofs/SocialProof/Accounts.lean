import Slidewalk.Proofs.Bucket
import Slidewalk.Proofs.Walk.Crediting

/-!
# What an accumulator holds

An accumulator takes a call unless it names one type too many. What it holds is determined by the
calls that it took: the types and seeds in the order of their first call, and for each of them what
its own calls add up to.
-/

namespace Slidewalk.Salsa

/-- A call that asks to credit a seed under a type, with the bound on types that it is made with. -/
structure RecordCall where
  kind : EdgeType
  seed : NodeId
  weight : Binary64
  engagedAt : Time
  maxTypes : Nat
  deriving DecidableEq, Repr

/-- The calls under a key: those for one type, or for one seed. -/
def RecordCall.under {κ : Type} [DecidableEq κ] (key : RecordCall → κ) (wanted : κ)
    (calls : List RecordCall) : List RecordCall :=
  calls.filter (key · = wanted)

open RecordCall

/-- Weights added up in order, from the first one on. -/
def weightSum? : List Binary64 → Option Binary64
  | [] => none
  | first :: rest => some (rest.foldl (· + ·) first)

/-- A contribution is made of the calls for its seed, among those of one type. -/
structure Contribution.AddsUp (calls : List RecordCall) (held : Contribution) : Prop where
  weight : weightSum? ((under (·.seed) held.seed calls).map (·.weight)) = some held.weight
  engagedAt : ((under (·.seed) held.seed calls).map (·.engagedAt)).max? = some held.engagedAt

/-- What is held of a type is made of the calls for it. -/
structure TypeProof.AddsUp (calls : List RecordCall) (held : TypeProof) : Prop where
  total : held.total = ((under (·.kind) held.kind calls).map (·.weight)).foldl (· + ·) 0.0
  seeds : held.seeds.map (·.seed) = ((under (·.kind) held.kind calls).map (·.seed)).eraseDups
  each : ∀ contribution ∈ held.seeds, contribution.AddsUp (under (·.kind) held.kind calls)

namespace ProofAccumulator

structure AddsUp (calls : List RecordCall) (proof : ProofAccumulator) : Prop where
  kinds : proof.types.map (·.kind) = (calls.map (·.kind)).eraseDups
  each : ∀ held ∈ proof.types, held.AddsUp calls

def perform (proof : ProofAccumulator) (call : RecordCall) : ProofAccumulator × Bool :=
  proof.record call.kind call.seed call.weight call.engagedAt call.maxTypes

/-- The accumulator after some calls. -/
def run (proof : ProofAccumulator) (calls : List RecordCall) : ProofAccumulator :=
  calls.foldl (fun proof call => (proof.perform call).1) proof

/-- The calls that an accumulator takes. -/
def taken (proof : ProofAccumulator) : List RecordCall → List RecordCall
  | [] => []
  | call :: rest =>
      (if (proof.perform call).2 then [call] else []) ++ (proof.perform call).1.taken rest

end ProofAccumulator

/-! ## One more call -/

theorem weightSum?_concat (front : List Binary64) (last : Binary64) :
    weightSum? (front ++ [last]) = some ((weightSum? front).elim last (· + last)) := by
  cases front with
  | nil => rfl
  | cons first rest =>
    rw [List.cons_append, weightSum?, weightSum?, List.foldl_concat]
    rfl

variable {calls : List RecordCall} {call : RecordCall}

namespace RecordCall

variable {κ : Type} [DecidableEq κ] (key : RecordCall → κ)

theorem under_concat (wanted : κ) : under key wanted (calls ++ [call]) =
    if key call = wanted then under key wanted calls ++ [call] else under key wanted calls := by
  unfold under
  rw [filter_concat]
  simp only [decide_eq_true_eq]

/-- Whatever was not called for has no calls. -/
theorem under_eq_nil {wanted : κ} (h : wanted ∉ calls.map key) : under key wanted calls = [] := by
  refine List.filter_eq_nil_iff.mpr fun call hcall hwanted => h ?_
  rw [← of_decide_eq_true hwanted]
  exact List.mem_map_of_mem hcall

end RecordCall

namespace Contribution

variable {held : Contribution}

theorem AddsUp.other (h : held.AddsUp calls) (hother : call.seed ≠ held.seed) :
    held.AddsUp (calls ++ [call]) := by
  constructor
  · rw [under_concat, if_neg hother]
    exact h.weight
  · rw [under_concat, if_neg hother]
    exact h.engagedAt

theorem AddsUp.more (h : held.AddsUp calls) (hsame : held.seed = call.seed) :
    AddsUp (calls ++ [call]) { held with
      weight := held.weight + call.weight
      engagedAt := max held.engagedAt call.engagedAt } := by
  constructor
  · rw [under_concat, if_pos hsame.symm, List.map_append, List.map_singleton,
      weightSum?_concat, h.weight]
    rfl
  · rw [under_concat, if_pos hsame.symm, List.map_append, List.map_singleton,
      max?_concat, h.engagedAt]
    rfl

theorem addsUp_new (h : call.seed ∉ calls.map (·.seed)) :
    AddsUp (calls ++ [call]) ⟨call.seed, call.weight, call.engagedAt⟩ := by
  have hcalls : under (·.seed) call.seed (calls ++ [call]) = [call] := by
    rw [under_concat, if_pos rfl, under_eq_nil _ h, List.nil_append]
  constructor
  · rw [hcalls]
    rfl
  · rw [hcalls]
    rfl

end Contribution

namespace TypeProof

variable {held : TypeProof}

theorem AddsUp.nodup (h : held.AddsUp calls) : (held.seeds.map (·.seed)).Nodup :=
  h.seeds ▸ nodup_eraseDups _

theorem AddsUp.other (h : held.AddsUp calls) (hother : call.kind ≠ held.kind) :
    held.AddsUp (calls ++ [call]) := by
  have hcalls : under (·.kind) held.kind (calls ++ [call]) = under (·.kind) held.kind calls := by
    rw [under_concat, if_neg hother]
  constructor
  · rw [hcalls]
    exact h.total
  · rw [hcalls]
    exact h.seeds
  · rw [hcalls]
    exact h.each

/-- A type that was not called for has nothing to add up. -/
theorem addsUp_fresh {kind : EdgeType} (h : kind ∉ calls.map (·.kind)) :
    (fresh kind).AddsUp calls := by
  have hcalls : under (·.kind) (fresh kind).kind calls = [] := under_eq_nil _ h
  constructor
  · rw [hcalls]
    rfl
  · rw [hcalls]
    rfl
  · intro contribution hcontribution
    contradiction

theorem AddsUp.credit (h : held.AddsUp calls) (hsame : held.kind = call.kind) :
    (held.credit call.seed call.weight call.engagedAt).AddsUp (calls ++ [call]) := by
  have hcalls : under (·.kind) held.kind (calls ++ [call]) =
      under (·.kind) held.kind calls ++ [call] := by
    rw [under_concat, if_pos hsame.symm]
  have hknown (seed : NodeId) : seed ∈ held.seeds.map (·.seed) ↔
      seed ∈ (under (·.kind) held.kind calls).map (·.seed) := by
    rw [h.seeds, List.mem_eraseDups]
  constructor
  case total =>
    show held.total + call.weight = _
    rw [show (held.credit call.seed call.weight call.engagedAt).kind = held.kind from rfl, hcalls,
      List.map_append, List.map_singleton, List.foldl_concat, ← h.total]
  case seeds =>
    rw [map_seed_seeds_credit, show (held.credit call.seed call.weight call.engagedAt).kind =
      held.kind from rfl, hcalls, List.map_append, List.map_singleton, eraseDups_concat, ← h.seeds]
    simp only [hknown]
  case each =>
    intro contribution hcontribution
    show contribution.AddsUp (under (·.kind) held.kind (calls ++ [call]))
    rw [hcalls]
    obtain ⟨hold, hseed⟩ | ⟨before, hbefore, hseed, rfl⟩ | ⟨hnew, rfl⟩ :=
      Contribution.mem_credit h.nodup hcontribution
    · exact (h.each contribution hold).other hseed.symm
    · exact (h.each before hbefore).more hseed
    · exact Contribution.addsUp_new (mt (hknown call.seed).mpr hnew)

end TypeProof

namespace ProofAccumulator

variable {proof : ProofAccumulator}

theorem AddsUp.nodup (h : proof.AddsUp calls) : (proof.types.map (·.kind)).Nodup :=
  h.kinds ▸ nodup_eraseDups _

theorem AddsUp.mem_kinds (h : proof.AddsUp calls) {kind : EdgeType} :
    kind ∈ proof.types.map (·.kind) ↔ kind ∈ calls.map (·.kind) := by
  rw [h.kinds, List.mem_eraseDups]

/-- A call is refused exactly if its type is new and there are as many as it allows. -/
theorem perform_eq_false_iff (proof : ProofAccumulator) (call : RecordCall) :
    (proof.perform call).2 = false ↔
      call.kind ∉ proof.types.map (·.kind) ∧ call.maxTypes ≤ proof.types.length := by
  rw [← tracks_iff, ← Nat.not_lt]
  unfold perform record
  split
  · rename_i htaken
    rw [Bool.or_eq_true, decide_eq_true_iff] at htaken
    simp only [Bool.true_eq_false, false_iff, not_and_or, not_not]
    exact htaken
  · rename_i hrefused
    rw [Bool.or_eq_true, decide_eq_true_iff, not_or] at hrefused
    exact iff_of_true rfl hrefused

theorem perform_of_refused (h : (proof.perform call).2 = false) :
    (proof.perform call).1 = proof := by
  unfold perform record at h ⊢
  split at h
  · contradiction
  · rw [if_neg ‹_›]

theorem perform_of_taken (h : (proof.perform call).2 = true) :
    (proof.perform call).1.types =
      creditType call.kind call.seed call.weight call.engagedAt proof.types := by
  unfold perform record at h ⊢
  split at h
  · rw [if_pos ‹_›]
  · contradiction

theorem AddsUp.perform (h : proof.AddsUp calls) (htaken : (proof.perform call).2 = true) :
    (proof.perform call).1.AddsUp (calls ++ [call]) := by
  have htypes := perform_of_taken htaken
  constructor
  · rw [htypes, map_kind_creditType, List.map_append, List.map_singleton, eraseDups_concat,
      ← h.kinds]
    simp only [h.mem_kinds]
  · intro held hheld
    rw [htypes] at hheld
    obtain ⟨hold, hkind⟩ | ⟨before, hbefore, hkind, rfl⟩ | ⟨hnew, rfl⟩ :=
      mem_creditType h.nodup hheld
    · exact (h.each held hold).other hkind.symm
    · exact (h.each before hbefore).credit hkind
    · exact (TypeProof.addsUp_fresh (mt h.mem_kinds.mpr hnew)).credit rfl

/-! ## Every run -/

theorem run_concat (proof : ProofAccumulator) (calls : List RecordCall) (call : RecordCall) :
    proof.run (calls ++ [call]) = ((proof.run calls).perform call).1 :=
  List.foldl_concat ..

theorem taken_concat (proof : ProofAccumulator) (calls : List RecordCall) (call : RecordCall) :
    proof.taken (calls ++ [call]) =
      proof.taken calls ++ if ((proof.run calls).perform call).2 then [call] else [] := by
  induction calls generalizing proof with
  | nil => exact List.append_nil _
  | cons first rest ih =>
    rw [List.cons_append, taken, ih, ← List.append_assoc]
    rfl

theorem run_addsUp (calls : List RecordCall) : (empty.run calls).AddsUp (empty.taken calls) := by
  induction calls using List.reverseRecOn with
  | nil => exact ⟨rfl, fun held hheld => by contradiction⟩
  | append_singleton calls call ih =>
    rw [run_concat, taken_concat]
    -- the last call is taken on top of the calls before it, or leaves everything as it was
    cases hanswer : ((empty.run calls).perform call).2 with
    | true => exact ih.perform hanswer
    | false =>
      rw [perform_of_refused hanswer, if_neg Bool.false_ne_true, List.append_nil]
      exact ih

end ProofAccumulator

end Slidewalk.Salsa
