import Slidewalk.Proofs.Walk.Locality
import Slidewalk.Proofs.Walk.ProofContent

/-!
# Stopping early

The frontiers of a walk take turns: a half-step takes up one of them whole, and leaves its mass in
the other. A walk that has no mass left stands still, so a run that ends there has found what it
would have found at its full length.
-/

namespace Slidewalk.Salsa

variable {request : Request} {adjacency : Adjacency} {walk : Walk}

/-! ## What is recorded stays recorded -/

/-- Whether a seed is recorded under a type. -/
def ProofAccumulator.Records (proof : ProofAccumulator) (kind : EdgeType) (seed : NodeId) : Prop :=
  ∃ held ∈ proof.types, held.kind = kind ∧ seed ∈ held.seeds.map (·.seed)

/-- Neither visited nodes nor recorded seeds are missing later. -/
structure Visits.KeptIn (later visits : Visits) : Prop where
  nodes : ∀ node ∈ visits, node ∈ later
  seeds : ∀ node kind seed, (visits.proofOf node).Records kind seed →
    (later.proofOf node).Records kind seed

namespace ProofAccumulator

variable {proof : ProofAccumulator} {kind other : EdgeType} {seed earlier : NodeId}
  {weight : Binary64} {engagedAt : Time} {maxTypes : Nat}

theorem exists_mem_creditType {types : List TypeProof} {held : TypeProof} (h : held ∈ types) :
    ∃ after ∈ creditType kind seed weight engagedAt types, after.kind = held.kind ∧
      ∀ earlier ∈ held.seeds.map (·.seed), earlier ∈ after.seeds.map (·.seed) := by
  induction types with
  | nil => contradiction
  | cons first rest ih =>
    unfold creditType
    split
    · rcases List.mem_cons.mp h with rfl | hrest
      · refine ⟨_, List.mem_cons_self, rfl, fun earlier hearlier => ?_⟩
        rw [TypeProof.map_seed_seeds_credit]
        split
        · exact hearlier
        · exact List.mem_append_left _ hearlier
      · exact ⟨held, List.mem_cons_of_mem _ hrest, rfl, fun _ hearlier => hearlier⟩
    · rcases List.mem_cons.mp h with rfl | hrest
      · exact ⟨held, List.mem_cons_self, rfl, fun _ hearlier => hearlier⟩
      · obtain ⟨after, hafter, hkeeps⟩ := ih hrest
        exact ⟨after, List.mem_cons_of_mem _ hafter, hkeeps⟩

theorem Records.record (h : proof.Records other earlier) :
    (proof.record kind seed weight engagedAt maxTypes).1.Records other earlier := by
  unfold ProofAccumulator.record
  split
  · obtain ⟨held, hheld, hkind, hearlier⟩ := h
    obtain ⟨after, hafter, hsame, hkeeps⟩ := exists_mem_creditType hheld
    exact ⟨after, hafter, hsame.trans hkind, hkeeps earlier hearlier⟩
  · exact h

end ProofAccumulator

namespace Visits.KeptIn

variable {visits later latest : Visits}

theorem refl (visits : Visits) : visits.KeptIn visits :=
  ⟨fun _ hnode => hnode, fun _ _ _ hseed => hseed⟩

theorem trans (hlater : later.KeptIn visits) (hlatest : latest.KeptIn later) :
    latest.KeptIn visits :=
  ⟨fun node hnode => hlatest.nodes node (hlater.nodes node hnode),
    fun node kind seed hseed => hlatest.seeds node kind seed (hlater.seeds node kind seed hseed)⟩

theorem arrive (visits : Visits) (node : NodeId) (amount : Binary64)
    (credit : Option Visit.Credit) : (visits.arrive node amount credit).KeptIn visits := by
  refine ⟨fun other hother => Visits.mem_arrive.mpr (.inr hother), fun other kind seed hseed => ?_⟩
  unfold proofOf at hseed ⊢
  rw [getElem?_arrive]
  split
  · rename_i hsame
    subst hsame
    cases credit with
    | none => exact hseed
    | some credit => exact hseed.record
  · exact hseed

end Visits.KeptIn

theorem Arrivals.Reached.keptIn {start arrivals : Arrivals}
    (h : Reached request adjacency start arrivals) : arrivals.visits.KeptIn start.visits := by
  induction h with
  | refl => exact .refl _
  | arrive _ _ ih => exact ih.trans (.arrive _ _ _ _)

namespace Walk

theorem step_keptIn (walk : Walk) (half : HalfStep) :
    (walk.step half request adjacency).visits.KeptIn walk.visits := by
  cases half with
  | right =>
    have hmoves : walk.MovesRight request adjacency _ := walk.step_right_moves
    obtain ⟨start, hvisits, -, hreached⟩ := hmoves.reached
    exact hvisits ▸ hreached.keptIn
  | left =>
    rw [step_left_visits]
    exact .refl _

theorem alternate_keptIn (walk : Walk) (request : Request) (adjacency : Adjacency)
    {taken more : Nat} (hle : taken ≤ more) (half : HalfStep) :
    (walk.alternate request adjacency more half).visits.KeptIn
      (walk.alternate request adjacency taken half).visits := by
  induction hle with
  | refl => exact .refl _
  | step _ ih =>
    rw [alternate_succ]
    exact ih.trans (step_keptIn _ _)

end Walk

/-! ## Standing still -/

theorem Mass.eq_empty_of_isEmpty {mass : Mass} (h : mass.isEmpty = true) : mass = .empty := by
  obtain ⟨⟨inner, hvalid⟩⟩ := mass
  cases inner with
  | leaf => rfl
  | inner => contradiction

namespace Walk

/-- The same mass on the same nodes, and the same visits. -/
structure SameTables (next walk : Walk) : Prop where
  left : next.leftFrontier = walk.leftFrontier
  right : next.rightFrontier = walk.rightFrontier
  visits : next.visits = walk.visits

theorem SameTables.isExhausted {next : Walk} (h : next.SameTables walk) :
    next.isExhausted = walk.isExhausted := by
  unfold Walk.isExhausted
  rw [h.left, h.right]

/-- Without mass nothing moves, and nothing returns to the seeds. -/
theorem step_of_exhausted (h : walk.isExhausted = true) (half : HalfStep) :
    (walk.step half request adjacency).SameTables walk := by
  obtain ⟨leftFrontier, rightFrontier, visits, halfSteps, dice⟩ := walk
  obtain ⟨hleft, hright⟩ := Bool.and_eq_true_iff.mp h
  obtain rfl : leftFrontier = .empty := Mass.eq_empty_of_isEmpty hleft
  obtain rfl : rightFrontier = .empty := Mass.eq_empty_of_isEmpty hright
  cases dice with
  | none =>
    cases half with
    | right => exact ⟨rfl, rfl, rfl⟩
    | left =>
      refine ⟨?_, rfl, rfl⟩
      dsimp only [step, countStep, leftExpected]
      exact if_neg (Binary64.lt_irrefl 0.0)
  | some dice =>
    cases half with
    | right => exact ⟨rfl, rfl, rfl⟩
    | left => exact ⟨rfl, rfl, rfl⟩

theorem alternate_of_exhausted {taken more : Nat} (hle : taken ≤ more) (half : HalfStep)
    (h : (walk.alternate request adjacency taken half).isExhausted = true) :
    (walk.alternate request adjacency more half).SameTables
      (walk.alternate request adjacency taken half) := by
  induction hle with
  | refl => exact ⟨rfl, rfl, rfl⟩
  | @step more _ ih =>
    have hstands : ((walk.alternate request adjacency more half).step (turn half more) request
        adjacency).SameTables _ := step_of_exhausted (ih.isExhausted.trans h) (turn half more)
    rw [alternate_succ]
    exact ⟨hstands.left.trans ih.left, hstands.right.trans ih.right,
      hstands.visits.trans ih.visits⟩

/-- A run ends at its length, or at the first half-step after which no mass is left. -/
theorem run_eq_alternate (request : Request) (adjacency : Adjacency) (length : Nat)
    (half : HalfStep) (walk : Walk) :
    ∃ taken ≤ length, Walk.run request adjacency length half walk =
        walk.alternate request adjacency taken half ∧
      (∀ earlier < taken, (walk.alternate request adjacency earlier half).isExhausted = false) ∧
      (taken < length → (walk.alternate request adjacency taken half).isExhausted = true) := by
  induction length generalizing half walk with
  | zero =>
    exact ⟨0, Nat.le_refl 0, rfl, fun _ hearlier => absurd hearlier (Nat.not_lt_zero _),
      fun hless => absurd hless (Nat.lt_irrefl 0)⟩
  | succ length ih =>
    unfold Walk.run
    split
    · rename_i hexhausted
      exact ⟨0, Nat.zero_le _, rfl, fun _ hearlier => absurd hearlier (Nat.not_lt_zero _),
        fun _ => hexhausted⟩
    · rename_i hgoes
      obtain ⟨taken, hle, hrun, hbefore, hend⟩ := ih half.other (walk.step half request adjacency)
      refine ⟨taken + 1, Nat.succ_le_succ hle, hrun, fun earlier hearlier => ?_,
        fun hless => hend (Nat.lt_of_succ_lt_succ hless)⟩
      cases earlier with
      | zero => exact Bool.not_eq_true _ ▸ hgoes
      | succ earlier => exact hbefore earlier (Nat.lt_of_succ_lt_succ hearlier)

/-! ## Counting half-steps -/

theorem step_halfSteps (walk : Walk) (half : HalfStep) :
    (walk.step half request adjacency).halfSteps = walk.halfSteps + 1 := by
  unfold step
  cases walk.dice with
  | none =>
    cases half with
    | right => rfl
    | left => rfl
  | some dice =>
    cases half with
    | right => rfl
    | left => rfl

theorem alternate_halfSteps (walk : Walk) (request : Request) (adjacency : Adjacency)
    (taken : Nat) (half : HalfStep) :
    (walk.alternate request adjacency taken half).halfSteps = walk.halfSteps + taken := by
  induction taken with
  | zero => rfl
  | succ taken ih => rw [alternate_succ, step_halfSteps, ih, Nat.add_assoc]

/-! ## Taking turns -/

theorem turn_of_even {taken : Nat} (h : taken % 2 = 0) : turn .right taken = .right := if_pos h

theorem turn_of_odd {taken : Nat} (h : taken % 2 = 1) : turn .right taken = .left :=
  if_neg (by omega)

/-- A half-step leaves nothing in the frontier it takes up. -/
theorem alternate_turns (hstart : walk.rightFrontier = .empty) (request : Request)
    (adjacency : Adjacency) (taken : Nat) :
    (taken % 2 = 0 → (walk.alternate request adjacency taken .right).rightFrontier = .empty) ∧
      (taken % 2 = 1 → (walk.alternate request adjacency taken .right).leftFrontier = .empty) := by
  cases taken with
  | zero => exact ⟨fun _ => hstart, fun hodd => absurd hodd (by decide)⟩
  | succ taken =>
    rw [alternate_succ]
    refine ⟨fun heven => ?_, fun hodd => ?_⟩
    · rw [turn_of_odd (by omega)]
      exact step_left_rightFrontier _
    · rw [turn_of_even (by omega)]
      exact (step_right_moves _).leftFrontier

/-- A run that stops without mass is as good as one that goes on. -/
structure StopsFreely (request : Request) (adjacency : Adjacency) (walk : Walk) : Prop where
  /-- Before a right step nothing is on the right. -/
  rightEmpty : ∀ taken, taken % 2 = 0 →
    (walk.alternate request adjacency taken .right).rightFrontier = .empty
  /-- Before a left step nothing is on the left. -/
  leftEmpty : ∀ taken, taken % 2 = 1 →
    (walk.alternate request adjacency taken .right).leftFrontier = .empty
  leftVisits : ∀ taken, taken % 2 = 1 →
    (walk.alternate request adjacency (taken + 1) .right).visits =
      (walk.alternate request adjacency taken .right).visits
  grows : ∀ taken more, taken ≤ more →
    (walk.alternate request adjacency more .right).visits.KeptIn
      (walk.alternate request adjacency taken .right).visits
  stands : ∀ taken half, (walk.alternate request adjacency taken .right).isExhausted = true →
    ((walk.alternate request adjacency taken .right).step half request adjacency).SameTables
      (walk.alternate request adjacency taken .right)
  recommends : recommend request adjacency =
    .ok (rank (walk.alternate request adjacency request.walkLength .right) request adjacency)
  /-- A run takes its length, or ends at the first half-step after which no mass is left. -/
  stops : ∀ length, (Walk.run request adjacency length .right walk).halfSteps ≤ length ∧
    (∀ earlier < (Walk.run request adjacency length .right walk).halfSteps,
      (walk.alternate request adjacency earlier .right).isExhausted = false) ∧
    ((Walk.run request adjacency length .right walk).halfSteps < length →
      (walk.alternate request adjacency
        (Walk.run request adjacency length .right walk).halfSteps .right).isExhausted = true)

theorem stopping_early_changes_nothing (hstart : Walk.start request = .ok walk)
    (adjacency : Adjacency) : walk.StopsFreely request adjacency := by
  obtain ⟨-, hright, -, -⟩ := start_frontiers hstart
  constructor
  case rightEmpty => exact fun taken => (alternate_turns hright request adjacency taken).1
  case leftEmpty => exact fun taken => (alternate_turns hright request adjacency taken).2
  case leftVisits =>
    intro taken hodd
    rw [alternate_succ, turn_of_odd hodd, step_left_visits]
  case grows => exact fun taken more hle => walk.alternate_keptIn request adjacency hle .right
  case stands => exact fun taken half hexhausted => step_of_exhausted hexhausted half
  case recommends =>
    obtain ⟨taken, hle, hrun, -, hend⟩ :=
      run_eq_alternate request adjacency request.walkLength .right walk
    have hvisits : (walk.alternate request adjacency taken .right).visits =
        (walk.alternate request adjacency request.walkLength .right).visits := by
      rcases Nat.eq_or_lt_of_le hle with rfl | hless
      · rfl
      · exact (alternate_of_exhausted hle .right (hend hless)).visits.symm
    rw [recommend_of_start adjacency hstart, hrun, rank, rank, hvisits]
  case stops =>
    intro length
    obtain ⟨taken, hle, hrun, hbefore, hend⟩ :=
      run_eq_alternate request adjacency length .right walk
    have htaken : (Walk.run request adjacency length .right walk).halfSteps = taken := by
      rw [hrun, alternate_halfSteps, start_halfSteps hstart, Nat.zero_add]
    rw [htaken]
    exact ⟨hle, hbefore, hend⟩

/-- Nobody has neighbors, so a walk of three half-steps ends after the first. -/
theorem sample_stopping_early : ∃ walk, Walk.start trackingSample = .ok walk ∧
    (Walk.run trackingSample ⟨fun _ _ => [], fun _ _ => 0⟩ 3 .right walk).halfSteps = 1 ∧
    walk.StopsFreely trackingSample ⟨fun _ _ => [], fun _ _ => 0⟩ := by
  obtain ⟨walk, hstart⟩ : ∃ walk, Walk.start trackingSample = .ok walk := ⟨_, rfl⟩
  refine ⟨walk, hstart, ?_, stopping_early_changes_nothing hstart _⟩
  obtain rfl := Except.ok.inj ((start_expected rfl).symm.trans hstart)
  rfl

end Walk

end Slidewalk.Salsa
