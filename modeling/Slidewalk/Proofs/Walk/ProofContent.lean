import Slidewalk.Proofs.Bucket
import Slidewalk.Proofs.Walk.Connected
import Slidewalk.Proofs.Walk.Crediting

/-!
# What a social proof lists

In expected mode a right step goes along all edges of the left frontier, node by node and edge by
edge, and credits the seeds that are there. The credits that a node gets in this order determine its
social proof but for the weights: the first types of them are tracked, and a type that is tracked
lists every seed that is credited under it, sooner or later.
-/

namespace Slidewalk.Salsa

/-! ## First occurrences -/

/-- The first few distinct items, once one more has come. -/
theorem take_eraseDups_concat {α : Type} [DecidableEq α] (front : List α) (last : α)
    {count : Nat} {known : List α} (hknown : front.eraseDups.take count = known) :
    (front ++ [last]).eraseDups.take count =
      if last ∈ known ∨ count ≤ known.length then known else known ++ [last] := by
  subst hknown
  rw [eraseDups_concat]
  by_cases hfull : count ≤ front.eraseDups.length
  · have hlength : (front.eraseDups.take count).length = count :=
      List.length_take_of_le hfull
    refine Eq.trans ?_ (if_pos (.inr hlength.ge)).symm
    split
    · rfl
    · exact List.take_append_of_le_length hfull
  · rw [List.take_of_length_le (Nat.le_of_not_le hfull)]
    by_cases hmem : last ∈ front
    · rw [if_pos hmem, if_pos (.inl (List.mem_eraseDups.mpr hmem))]
      exact List.take_of_length_le (Nat.le_of_not_le hfull)
    · rw [if_neg hmem, if_neg (not_or.mpr ⟨List.mem_eraseDups.not.mpr hmem, hfull⟩)]
      apply List.take_of_length_le
      rw [List.length_append, List.length_singleton]
      omega

/-! ## Credits of a proof -/

/-- The seeds that are credited under a type, in the order they first are. -/
def seedsUnder (kind : EdgeType) (credits : List (EdgeType × NodeId)) : List NodeId :=
  ((credits.filter (·.1 = kind)).map (·.2)).eraseDups

section

variable {kind : EdgeType} {seed : NodeId} {weight : Binary64} {engagedAt : Time}
  {maxTypes : Nat} {credits : List (EdgeType × NodeId)}

theorem mem_seedsUnder : seed ∈ seedsUnder kind credits ↔ (kind, seed) ∈ credits := by
  simp [seedsUnder]

theorem seedsUnder_concat_self :
    seedsUnder kind (credits ++ [(kind, seed)]) =
      if seed ∈ seedsUnder kind credits then seedsUnder kind credits
      else seedsUnder kind credits ++ [seed] := by
  have hlast : [(kind, seed)].filter (·.1 = kind) = [(kind, seed)] := by simp
  unfold seedsUnder
  rw [List.filter_append, hlast, List.map_append, List.map_singleton, eraseDups_concat]
  simp only [List.mem_eraseDups]

theorem seedsUnder_concat_of_ne {other : EdgeType} (hne : other ≠ kind) :
    seedsUnder kind (credits ++ [(other, seed)]) = seedsUnder kind credits := by
  have hlast : [(other, seed)].filter (·.1 = kind) = [] := by simp [hne]
  unfold seedsUnder
  rw [List.filter_append, hlast, List.append_nil]

namespace ProofAccumulator

/-- A proof that was made of credits, in order. -/
structure Lists (maxTypes : Nat) (credits : List (EdgeType × NodeId)) (proof : ProofAccumulator) :
    Prop where
  kinds : (credits.map (·.1)).eraseDups.take maxTypes = proof.types.map (·.kind)
  seeds : ∀ held ∈ proof.types, held.seeds.map (·.seed) = seedsUnder held.kind credits

variable {proof : ProofAccumulator}

namespace Lists

theorem empty (maxTypes : Nat) : (ProofAccumulator.empty).Lists maxTypes [] :=
  ⟨List.take_nil, fun held hheld => by contradiction⟩

theorem nodup (h : proof.Lists maxTypes credits) : (proof.types.map (·.kind)).Nodup := by
  rw [← h.kinds]
  exact (List.take_sublist _ _).nodup (nodup_eraseDups _)

/-- A type that is not tracked although there is room for it was never credited. -/
theorem not_mem_of_room (h : proof.Lists maxTypes credits) (hnew : kind ∉ proof.types.map (·.kind))
    (hroom : proof.types.length < maxTypes) (seed : NodeId) : (kind, seed) ∉ credits := by
  have hlength := congrArg List.length h.kinds
  rw [List.length_take, List.length_map] at hlength
  rw [← h.kinds, List.take_of_length_le (by omega), List.mem_eraseDups] at hnew
  exact fun hmem => hnew (List.mem_map_of_mem hmem)

/-- One more credit is recorded under a type that is tracked, or one that there is room for. -/
theorem record (h : proof.Lists maxTypes credits) :
    (proof.record kind seed weight engagedAt maxTypes).1.Lists maxTypes
      (credits ++ [(kind, seed)]) := by
  have hkinds : ((credits ++ [(kind, seed)]).map (·.1)).eraseDups.take maxTypes =
      if kind ∈ proof.types.map (·.kind) ∨ maxTypes ≤ proof.types.length then
        proof.types.map (·.kind)
      else proof.types.map (·.kind) ++ [kind] := by
    rw [List.map_append, List.map_singleton, take_eraseDups_concat _ kind h.kinds, List.length_map]
  unfold ProofAccumulator.record
  split
  · rename_i htaken
    rw [Bool.or_eq_true, tracks_iff, decide_eq_true_iff] at htaken
    refine ⟨?_, fun held hheld => ?_⟩
    · rw [hkinds, map_kind_creditType]
      by_cases hold : kind ∈ proof.types.map (·.kind)
      · rw [if_pos hold, if_pos (.inl hold)]
      · have hroom := Nat.not_le.mpr (htaken.resolve_left hold)
        rw [if_neg hold, if_neg (not_or.mpr ⟨hold, hroom⟩)]
    obtain ⟨hold, hkind⟩ | ⟨before, hbefore, rfl, rfl⟩ | ⟨hnew, rfl⟩ := mem_creditType h.nodup hheld
    · rw [seedsUnder_concat_of_ne hkind.symm, h.seeds held hold]
    · show _ = seedsUnder before.kind _
      rw [TypeProof.map_seed_seeds_credit, h.seeds before hbefore, seedsUnder_concat_self]
    · show [seed] = seedsUnder kind _
      have hnone : seedsUnder kind credits = [] := by
        refine List.eq_nil_iff_forall_not_mem.mpr fun other hother => ?_
        exact h.not_mem_of_room hnew (htaken.resolve_left hnew) other (mem_seedsUnder.mp hother)
      rw [seedsUnder_concat_self, hnone]
      rfl
  · rename_i hrefused
    rw [Bool.or_eq_true, tracks_iff, decide_eq_true_iff, not_or, Nat.not_lt] at hrefused
    refine ⟨?_, fun held hheld => ?_⟩
    · rw [hkinds, if_pos (.inr hrefused.2)]
    · have hkind : kind ≠ held.kind := by
        rintro rfl
        exact hrefused.1 (List.mem_map_of_mem hheld)
      rw [seedsUnder_concat_of_ne hkind, h.seeds held hheld]

end Lists

/-! ## The end -/

/-- Without bounds every type that is tracked is listed, with every seed credited under it. -/
theorem Lists.finalize (h : proof.Lists maxTypes credits) {boundTypes boundSeeds : Nat}
    (htypes : proof.types.length ≤ boundTypes)
    (hseeds : ∀ held ∈ proof.types, held.seeds.length ≤ boundSeeds) :
    ((proof.finalize boundTypes boundSeeds).map (·.1)).Perm (proof.types.map (·.kind)) ∧
      ∀ group ∈ proof.finalize boundTypes boundSeeds, group.2.Nodup ∧
        ∀ seed, seed ∈ group.2 ↔ (group.1, seed) ∈ credits := by
  have hsorted := List.mergeSort_perm proof.types TypeProof.precedes
  have hall : proof.topTypes boundTypes = proof.types.mergeSort TypeProof.precedes :=
    List.take_of_length_le (hsorted.length_eq ▸ htypes)
  have hgroups := proof.finalize_perm boundTypes boundSeeds
  rw [hall] at hgroups
  replace hgroups := hgroups.trans (hsorted.map _)
  refine ⟨?_, fun group hgroup => ?_⟩
  · have hkinds := hgroups.map (·.1)
    rw [List.map_map] at hkinds
    exact hkinds
  · obtain ⟨held, hheld, rfl⟩ := List.mem_map.mp (hgroups.mem_iff.mp hgroup)
    obtain ⟨seeds, hperm, htake⟩ := held.exists_perm_topSeeds boundSeeds
    have hlength : seeds.length ≤ boundSeeds := by
      rw [hperm.length_eq, List.length_map]
      exact hseeds held hheld
    rw [List.take_of_length_le hlength] at htake
    rw [h.seeds held hheld] at hperm
    refine ⟨?_, fun seed => ?_⟩
    · show (held.topSeeds boundSeeds).Nodup
      rw [htake, hperm.nodup_iff]
      exact nodup_eraseDups _
    · show seed ∈ held.topSeeds boundSeeds ↔ _
      rw [htake, hperm.mem_iff, mem_seedsUnder]

end ProofAccumulator

end

/-! ## Credits of a walk -/

/-- What mass on its way from a left node to a neighbor credits a node with. -/
def Request.creditsAlong (request : Request) (node left : NodeId) (neighbor : Neighbor) :
    List (EdgeType × NodeId) :=
  if neighbor.node = node ∧ request.isSeed left ∧ request.countsAsProof neighbor.kind then
    [(neighbor.kind, left)]
  else []

/-- The edges of a left node that credit another node, in the order they are read. -/
def Request.creditsFrom (request : Request) (adjacency : Adjacency) (node left : NodeId) :
    List (EdgeType × NodeId) :=
  (adjacency.neighbors left .left).flatMap (request.creditsAlong node left)

/-- The edges of the left frontier that credit a node, by ascending seed. -/
def Walk.credits (request : Request) (adjacency : Adjacency) (node : NodeId) (walk : Walk) :
    List (EdgeType × NodeId) :=
  walk.leftFrontier.keys.flatMap (request.creditsFrom adjacency node)

/-- The edges that credit a node in the right steps of a walk: every other step, from the first. -/
def Walk.credited (request : Request) (adjacency : Adjacency) (steps : Nat) (node : NodeId)
    (walk : Walk) : List (EdgeType × NodeId) :=
  ((List.range steps).filter (· % 2 = 0)).flatMap fun taken =>
    (walk.alternate request adjacency taken .right).credits request adjacency node

/-- Whether a left node is in the frontier before some right step. -/
def Walk.SendsFrom (request : Request) (adjacency : Adjacency) (steps : Nat) (left : NodeId)
    (walk : Walk) : Prop :=
  ∃ taken < steps, taken % 2 = 0 ∧
    left ∈ (walk.alternate request adjacency taken .right).leftFrontier

/-- What was recorded of the seeds that a node was reached from. -/
def Visits.proofOf (visits : Visits) (node : NodeId) : ProofAccumulator :=
  (visits[node]?.getD Visit.none).proof

variable {request : Request} {adjacency : Adjacency} {walk : Walk} {node seed : NodeId}
  {kind : EdgeType} {steps : Nat}

theorem Request.isSeed_iff :
    request.isSeed node = true ↔ node = request.queryNode ∨ node ∈ request.leftSeeds := by
  rw [Request.isSeed, Bool.or_eq_true, beq_iff_eq, Std.TreeMap.mem_iff_contains]

theorem mem_creditsFrom {left : NodeId} :
    (kind, seed) ∈ request.creditsFrom adjacency node left ↔
      left = seed ∧ request.isSeed seed ∧ request.countsAsProof kind ∧
        ∃ neighbor ∈ adjacency.neighbors seed .left, neighbor.node = node ∧
          neighbor.kind = kind := by
  unfold Request.creditsFrom Request.creditsAlong
  rw [List.mem_flatMap]
  constructor
  · rintro ⟨neighbor, hneighbor, hcredit⟩
    split at hcredit
    · rename_i hcounts
      obtain ⟨hkind, rfl⟩ := Prod.mk.inj (List.mem_singleton.mp hcredit)
      subst hkind
      exact ⟨rfl, hcounts.2.1, hcounts.2.2, neighbor, hneighbor, hcounts.1, rfl⟩
    · contradiction
  · rintro ⟨rfl, hseed, hcounts, neighbor, hneighbor, hnode, rfl⟩
    refine ⟨neighbor, hneighbor, ?_⟩
    rw [if_pos ⟨hnode, hseed, hcounts⟩]
    exact List.mem_singleton_self _

theorem Walk.mem_credited :
    (kind, seed) ∈ walk.credited request adjacency steps node ↔
      walk.SendsFrom request adjacency steps seed ∧ request.isSeed seed ∧
        request.countsAsProof kind ∧ ∃ neighbor ∈ adjacency.neighbors seed .left,
          neighbor.node = node ∧ neighbor.kind = kind := by
  unfold credited credits
  simp only [List.mem_flatMap, List.mem_filter, List.mem_range, decide_eq_true_iff,
    Std.TreeMap.mem_keys, mem_creditsFrom]
  constructor
  · rintro ⟨taken, ⟨hlt, heven⟩, left, hleft, rfl, hedge⟩
    exact ⟨⟨taken, hlt, heven, hleft⟩, hedge⟩
  · rintro ⟨⟨taken, hlt, heven, hseed⟩, hedge⟩
    exact ⟨taken, ⟨hlt, heven⟩, seed, hseed, rfl, hedge⟩

/-! ## Right steps -/

variable {credits : List (EdgeType × NodeId)}

theorem Visits.lists_arrive {visits : Visits}
    (h : (visits.proofOf node).Lists request.settings.maxSocialProofTypeSize credits)
    (left : NodeId) (neighbor : Neighbor) (amount : Binary64) :
    ((visits.arrive neighbor.node amount (creditFor request left neighbor)).proofOf node).Lists
      request.settings.maxSocialProofTypeSize
      (credits ++ request.creditsAlong node left neighbor) := by
  unfold proofOf at h ⊢
  unfold creditFor Request.creditsAlong
  rw [getElem?_arrive]
  by_cases hnode : neighbor.node = node
  · subst hnode
    by_cases hcounts : request.isSeed left ∧ request.countsAsProof neighbor.kind
    · rw [if_pos rfl, if_pos (Bool.and_eq_true_iff.mpr hcounts), if_pos ⟨rfl, hcounts⟩]
      exact h.record
    · rw [if_pos rfl, if_neg (Bool.and_eq_true_iff.not.mpr hcounts),
        if_neg fun hcredit => hcounts hcredit.2, List.append_nil]
      exact h
  · rw [if_neg hnode, if_neg fun hcredit => hnode hcredit.1, List.append_nil]
    exact h

namespace Arrivals

/-- Where every move adds credits, so does a series of moves. -/
theorem foldl_lists {α : Type} (items : List α) (move : Arrivals → α → Arrivals)
    (added : α → List (EdgeType × NodeId)) {maxTypes : Nat}
    (hmove : ∀ arrivals credits item, (arrivals.visits.proofOf node).Lists maxTypes credits →
      ((move arrivals item).visits.proofOf node).Lists maxTypes (credits ++ added item))
    {arrivals : Arrivals} (h : (arrivals.visits.proofOf node).Lists maxTypes credits) :
    ((items.foldl move arrivals).visits.proofOf node).Lists maxTypes
      (credits ++ items.flatMap added) := by
  induction items generalizing arrivals credits with
  | nil =>
    rw [List.flatMap_nil, List.append_nil]
    exact h
  | cons item rest ih =>
    rw [List.flatMap_cons, ← List.append_assoc]
    exact ih (hmove arrivals credits item h)

theorem lists_split {arrivals : Arrivals}
    (h : (arrivals.visits.proofOf node).Lists request.settings.maxSocialProofTypeSize credits)
    (left : NodeId) (mass : Binary64) :
    ((arrivals.split request adjacency left mass).visits.proofOf node).Lists
      request.settings.maxSocialProofTypeSize
      (credits ++ request.creditsFrom adjacency node left) := by
  unfold Arrivals.split Request.creditsFrom
  dsimp only
  split
  · rename_i hnone
    rw [List.isEmpty_iff.mp hnone, List.flatMap_nil, List.append_nil]
    exact h
  · refine foldl_lists _ _ _ (fun arrivals credits neighbor hlists => ?_) h
    exact Visits.lists_arrive hlists left neighbor _

end Arrivals

namespace Walk

theorem lists_rightExpected
    (h : (walk.visits.proofOf node).Lists request.settings.maxSocialProofTypeSize credits) :
    ((walk.rightExpected request adjacency).visits.proofOf node).Lists
      request.settings.maxSocialProofTypeSize
      (credits ++ walk.credits request adjacency node) := by
  have hstart : ((Arrivals.mk walk.rightFrontier walk.visits).visits.proofOf node).Lists _ _ := h
  have hfold := Arrivals.foldl_lists walk.leftFrontier.toList
    (fun arrivals entry => arrivals.split request adjacency entry.1 entry.2)
    (fun entry => request.creditsFrom adjacency node entry.1)
    (fun _ _ entry hlists => Arrivals.lists_split hlists entry.1 entry.2) hstart
  rw [← Std.TreeMap.foldl_eq_foldl_toList] at hfold
  unfold Walk.credits
  rw [← Std.TreeMap.map_fst_toList_eq_keys, List.flatMap_map]
  exact hfold

theorem lists_step (hdice : walk.dice = none)
    (h : (walk.visits.proofOf node).Lists request.settings.maxSocialProofTypeSize credits)
    (half : HalfStep) :
    ((walk.step half request adjacency).visits.proofOf node).Lists
      request.settings.maxSocialProofTypeSize
      (credits ++ if half = .right then walk.credits request adjacency node else []) := by
  cases half with
  | right =>
    have hstep : walk.step .right request adjacency =
        (walk.rightExpected request adjacency).countStep := by
      unfold step
      rw [hdice]
    rw [hstep, if_pos rfl]
    exact lists_rightExpected h
  | left =>
    rw [step_left_visits, if_neg (by decide), List.append_nil]
    exact h

/-! ## Runs -/

theorem credited_succ (walk : Walk) (steps : Nat) (node : NodeId) :
    walk.credited request adjacency (steps + 1) node =
      walk.credited request adjacency steps node ++ if turn .right steps = .right then
        (walk.alternate request adjacency steps .right).credits request adjacency node else [] := by
  unfold credited turn
  rw [List.range_succ, List.filter_append, List.flatMap_append, List.filter_singleton]
  by_cases heven : steps % 2 = 0
  · simp [heven]
  · simp [heven, HalfStep.other]

theorem step_dice_none (h : walk.dice = none) (half : HalfStep) :
    (walk.step half request adjacency).dice = none := by
  unfold step
  rw [h]
  cases half with
  | right => exact h
  | left => exact h

/-- After every half-step, the social proof of a node is made of the credits so far. -/
theorem lists_alternate (walk : Walk) (request : Request) (adjacency : Adjacency)
    (hdice : walk.dice = none) (hvisits : walk.visits = ∅) (steps : Nat) (node : NodeId) :
    (walk.alternate request adjacency steps .right).dice = none ∧
      ((walk.alternate request adjacency steps .right).visits.proofOf node).Lists
        request.settings.maxSocialProofTypeSize
        (walk.credited request adjacency steps node) := by
  induction steps with
  | zero =>
    refine ⟨hdice, ?_⟩
    have hnone : walk.visits.proofOf node = .empty := by
      rw [hvisits, Visits.proofOf, Std.TreeMap.getElem?_emptyc]
      rfl
    show (walk.visits.proofOf node).Lists _ []
    rw [hnone]
    exact .empty _
  | succ steps ih =>
    obtain ⟨hnone, hlists⟩ := ih
    rw [alternate_succ, credited_succ]
    exact ⟨step_dice_none hnone _, lists_step hnone hlists _⟩

/-! ## The social proof of a walk -/

/-- What the social proof of a node tracks and lists after so many half-steps by turns. -/
structure ProofComplete (request : Request) (adjacency : Adjacency) (steps : Nat) (node : NodeId)
    (walk : Walk) (proof : ProofAccumulator) : Prop where
  /-- The first distinct types that a seed is credited under. -/
  tracked : proof.types.map (·.kind) = ((walk.credited request adjacency steps node).map
    (·.1)).eraseDups.take request.settings.maxSocialProofTypeSize
  listed : ∀ maxTypes maxSeeds, proof.types.length ≤ maxTypes →
    (∀ held ∈ proof.types, held.seeds.length ≤ maxSeeds) →
    ((proof.finalize maxTypes maxSeeds).map (·.1)).Perm (proof.types.map (·.kind)) ∧
      ∀ group ∈ proof.finalize maxTypes maxSeeds, group.2.Nodup ∧ ∀ seed, seed ∈ group.2 ↔
        (seed = request.queryNode ∨ seed ∈ request.leftSeeds) ∧
        walk.SendsFrom request adjacency steps seed ∧
        ∃ neighbor ∈ adjacency.neighbors seed .left, neighbor.node = node ∧
          neighbor.kind = group.1

theorem start_expected (hmode : request.settings.walkMode = .expected) :
    Walk.start request = .ok (idle.seedExpected (seedDistribution request)
      (Binary64.ofNat request.settings.numRandomWalks)) :=
  start_eq_ok_iff.mpr (.expected hmode)

/-- In expected mode no seed is missed and none is invented. -/
theorem proof_complete (hmode : request.settings.walkMode = .expected) :
    ∃ walk, Walk.start request = .ok walk ∧ ∀ adjacency steps node,
      walk.ProofComplete request adjacency steps node
        ((walk.alternate request adjacency steps .right).visits.proofOf node) := by
  refine ⟨_, start_expected hmode, fun adjacency steps node => ?_⟩
  obtain ⟨-, hlists⟩ := lists_alternate (idle.seedExpected _ _) request adjacency rfl rfl steps node
  refine ⟨hlists.kinds.symm, fun maxTypes maxSeeds htypes hseeds => ?_⟩
  obtain ⟨hkinds, hgroups⟩ := hlists.finalize htypes hseeds
  refine ⟨hkinds, fun group hgroup => ⟨(hgroups group hgroup).1, fun seed => ?_⟩⟩
  -- a type that is tracked counts, since some seed was credited under it
  have hcounts : request.countsAsProof group.1 := by
    have htracked := hkinds.mem_iff.mp (List.mem_map_of_mem hgroup)
    rw [← hlists.kinds] at htracked
    obtain ⟨credit, hcredit, hkind⟩ :=
      List.mem_map.mp (List.mem_eraseDups.mp (List.mem_of_mem_take htracked))
    rw [← hkind]
    exact (mem_credited.mp hcredit).2.2.1
  rw [(hgroups group hgroup).2, mem_credited, Request.isSeed_iff]
  constructor
  · rintro ⟨hsends, hseed, -, hedge⟩
    exact ⟨hseed, hsends, hedge⟩
  · rintro ⟨hseed, hsends, hedge⟩
    exact ⟨hsends, hseed, hcounts, hedge⟩

/-- A walk from node 1 that tracks one type; node 4 is a seed that weighs nothing. -/
def trackingSample : Request where
  queryNode := 1
  settings := { Settings.standard with maxSocialProofTypeSize := 1 }
  leftSeeds := Mass.empty.add 4 0.0
  excluded := ∅
  filters := []
  walkLength := 3

/-- Nodes 1 and 4 on the left, and node 2 on the right. -/
def trackingAdjacency : Adjacency where
  neighbors
    | 1, .left => [⟨2, 0, 5⟩]
    | 4, .left => [⟨2, 1, 7⟩, ⟨2, 0, 7⟩]
    | 2, .right => [⟨1, 0, 5⟩, ⟨4, 1, 7⟩, ⟨4, 0, 7⟩]
    | _, _ => []
  degree
    | 1, .left => 1
    | 4, .left => 2
    | 2, .right => 3
    | _, _ => 0

/-- Mass comes to node 4 from node 2, and back again. -/
theorem sample_proof_complete : ∃ walk, Walk.start trackingSample = .ok walk ∧
    walk.credited trackingSample trackingAdjacency 3 2 = [(0, 1), (0, 1), (1, 4), (0, 4)] ∧
    walk.ProofComplete trackingSample trackingAdjacency 3 2
      ((walk.alternate trackingSample trackingAdjacency 3 .right).visits.proofOf 2) := by
  have hmode : trackingSample.settings.walkMode = .expected := rfl
  obtain ⟨walk, hstart, hcomplete⟩ := proof_complete hmode
  refine ⟨walk, hstart, ?_, hcomplete trackingAdjacency 3 2⟩
  obtain rfl := Except.ok.inj ((start_expected hmode).symm.trans hstart)
  rfl

end Walk

end Slidewalk.Salsa
