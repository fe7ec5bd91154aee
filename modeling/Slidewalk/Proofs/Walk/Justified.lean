import Slidewalk.Proofs.HeldEdges
import Slidewalk.Proofs.Ranking
import Slidewalk.Proofs.Requests
import Slidewalk.Proofs.Walk.Crediting
import Slidewalk.Proofs.Walk.Steps

/-!
# Recommendations are justified

A visit credits a seed only when mass arrives from it, along an edge of a type that counts. So every
seed that a result lists has such an edge to the result, in some segment that the walk could read.
-/

namespace Slidewalk.Salsa

/-- A seed may be listed under a type for a node: it has such an edge to the node. -/
structure Request.Explains (request : Request) (adjacency : Adjacency) (node : NodeId)
    (kind : EdgeType) (seed : NodeId) : Prop where
  isSeed : request.isSeed seed = true
  counts : request.countsAsProof kind = true
  neighbor : ∃ neighbor ∈ adjacency.neighbors seed .left, neighbor.node = node ∧
    neighbor.kind = kind

/-- A result within the limits of a request whose social proof goes back to edges. -/
structure Recommendation.Justified (request : Request) (buckets : List Bucket)
    (result : Recommendation) : Prop where
  allowed : result.node ∉ request.excluded
  kept : request.filters.excludes result.node result.proof = false
  types_le : result.proof.length ≤ request.settings.maxSocialProofTypeSize
  types : (result.proof.map (·.1)).Nodup
  seeds : ∀ group ∈ result.proof, group.2 ≠ [] ∧ group.2.Nodup ∧
    group.2.length ≤ request.settings.maxSocialProofSize
  edges : ∀ group ∈ result.proof, ∀ seed ∈ group.2, request.countsAsProof group.1 = true ∧
    (seed = request.queryNode ∨ seed ∈ request.leftSeeds) ∧
    ∃ bucket ∈ buckets, ∃ edge ∈ bucket, edge.left = seed ∧ edge.right = result.node ∧
      edge.kind = group.1

variable {request : Request} {adjacency : Adjacency}

/-! ## Visits -/

def Visits.Earned (earns : NodeId → EdgeType → NodeId → Prop) (visits : Visits) : Prop :=
  ∀ (node : NodeId) (visit : Visit), visits[node]? = some visit → visit.proof.Earned (earns node)

theorem Visits.Earned.arrive {earns : NodeId → EdgeType → NodeId → Prop} {visits : Visits}
    (h : visits.Earned earns) {node : NodeId} {amount : Binary64} {credit : Option Visit.Credit}
    (hcredit : ∀ found, credit = some found → earns node found.kind found.seed) :
    (visits.arrive node amount credit).Earned earns := by
  intro other visit hvisit
  rw [getElem?_arrive] at hvisit
  split at hvisit
  · rename_i hsame
    subst hsame
    obtain rfl := Option.some.inj hvisit
    have hheld : (visits[node]?.getD .none).proof.Earned (earns node) := by
      cases hfound : visits[node]? with
      | none => exact ProofAccumulator.empty_earned
      | some held => exact h node held hfound
    cases credit with
    | none => exact hheld
    | some found => exact hheld.record (hcredit found rfl)
  · exact h other visit hvisit

theorem creditFor_explains {left : NodeId} {neighbor : Neighbor} {credit : Visit.Credit}
    (hneighbor : neighbor ∈ adjacency.neighbors left .left)
    (h : creditFor request left neighbor = some credit) :
    request.Explains adjacency neighbor.node credit.kind credit.seed := by
  unfold creditFor at h
  split at h
  · rename_i hcounts
    obtain rfl := Option.some.inj h
    obtain ⟨hseed, hkind⟩ := Bool.and_eq_true_iff.mp hcounts
    exact ⟨hseed, hkind, neighbor, hneighbor, rfl, rfl⟩
  · contradiction

theorem Arrivals.Reached.earned {start arrivals : Arrivals}
    (h : Reached request adjacency start arrivals)
    (hstart : start.visits.Earned (request.Explains adjacency)) :
    arrivals.visits.Earned (request.Explains adjacency) := by
  induction h with
  | refl => exact hstart
  | arrive _ hneighbor ih => exact ih.arrive fun _ hcredit => creditFor_explains hneighbor hcredit

namespace Walk

variable {walk : Walk}

theorem step_earned (h : walk.visits.Earned (request.Explains adjacency)) (half : HalfStep) :
    (walk.step half request adjacency).visits.Earned (request.Explains adjacency) := by
  cases half with
  | right =>
    have hmoves : walk.MovesRight request adjacency _ := walk.step_right_moves
    obtain ⟨start, hvisits, -, hreached⟩ := hmoves.reached
    exact hreached.earned (hvisits ▸ h)
  | left =>
    rw [step_left_visits]
    exact h

theorem run_earned (h : walk.visits.Earned (request.Explains adjacency)) (steps : Nat)
    (half : HalfStep) :
    (Walk.run request adjacency steps half walk).visits.Earned (request.Explains adjacency) := by
  induction steps generalizing walk half with
  | zero => exact h
  | succ steps ih =>
    unfold Walk.run
    split
    · exact h
    · exact ih (step_earned h half) half.other

end Walk

/-! ## Results -/

theorem candidate?_eq_some {queryDegree : Nat} {node : NodeId} {visit : Visit}
    {result : Recommendation}
    (h : candidate? request adjacency queryDegree node visit = some result) :
    result.node = node ∧ node ∉ request.excluded ∧
      result.proof = visit.proof.finalize request.settings.maxSocialProofTypeSize
        request.settings.maxSocialProofSize ∧
      request.filters.excludes node result.proof = false := by
  unfold candidate? at h
  dsimp only at h
  split at h
  · contradiction
  rename_i hallowed
  split at h
  · contradiction
  · rename_i hkept
    obtain rfl := Option.some.inj h
    exact ⟨rfl, hallowed, rfl, Bool.not_eq_true _ ▸ hkept⟩

/-- Results are candidates, at most as many as asked for, of different nodes. -/
theorem rank_spec (walk : Walk) (request : Request) (adjacency : Adjacency) :
    (rank walk request adjacency).length ≤ request.settings.maxNumResults ∧
      ((rank walk request adjacency).map (·.node)).Nodup ∧
      ∀ result ∈ rank walk request adjacency, ∃ (node : NodeId) (visit : Visit),
        walk.visits[node]? = some visit ∧
        candidate? request adjacency (queryDegree request adjacency) node visit = some result := by
  have hperm := List.mergeSort_perm (walk.visits.toList.filterMap fun entry =>
    candidate? request adjacency (queryDegree request adjacency) entry.1 entry.2)
    Recommendation.precedes
  refine ⟨List.length_take_le _ _, ?_, fun result hresult => ?_⟩
  · refine ((List.take_sublist _ _).map _).nodup ((hperm.map _).nodup_iff.mpr ?_)
    exact nodup_candidates request adjacency _ walk.visits.pairwise_toList
  · obtain ⟨⟨node, visit⟩, hmem, hcandidate⟩ :=
      List.mem_filterMap.mp (hperm.mem_iff.mp (List.mem_of_mem_take hresult))
    exact ⟨node, visit, Std.TreeMap.mem_toList_iff_getElem?_eq_some.mp hmem, hcandidate⟩

/-! ## Recommending -/

theorem recommend_eq_ok {results : List Recommendation}
    (h : recommend request adjacency = .ok results) :
    ∃ walk, Walk.start request = .ok walk ∧
      results = rank (Walk.run request adjacency request.walkLength .right walk) request
        adjacency := by
  unfold recommend finishedWalk at h
  cases hstart : Walk.start request with
  | error fault => simp [hstart, Except.map] at h
  | ok walk =>
    rw [hstart] at h
    exact ⟨walk, rfl, (Except.ok.inj h).symm⟩

/-- What a result lists has been earned along edges that the walk could read. -/
theorem earned_of_recommend {results : List Recommendation}
    (h : recommend request adjacency = .ok results)
    (hpos : 0 < request.settings.maxSocialProofSize) :
    ∀ result ∈ results, result.node ∉ request.excluded ∧
      request.filters.excludes result.node result.proof = false ∧
      result.proof.Earned (request.Explains adjacency result.node)
        request.settings.maxSocialProofTypeSize request.settings.maxSocialProofSize := by
  obtain ⟨walk, hstart, rfl⟩ := recommend_eq_ok h
  have hvisits : walk.visits.Earned (request.Explains adjacency) := by
    intro node visit hvisit
    rw [Walk.start_visits hstart] at hvisit
    simp at hvisit
  have hfinal := Walk.run_earned hvisits request.walkLength .right
  intro result hresult
  obtain ⟨node, visit, hvisit, hcandidate⟩ := (rank_spec _ request adjacency).2.2 result hresult
  obtain ⟨hnode, hallowed, hproof, hkept⟩ := candidate?_eq_some hcandidate
  rw [hnode]
  refine ⟨hallowed, hkept, ?_⟩
  rw [hproof]
  exact (hfinal node visit hvisit).finalize hpos

end Slidewalk.Salsa

namespace Slidewalk.Graph

variable {options : Options} {codec : EdgeCodec} {graph : Graph}

/-- Every result stands on edges that the graph took into the segments of the snapshot. -/
theorem recommendations_are_justified (hcreate : Graph.create options = .ok graph)
    (hcodec : options.resolveCodec = .ok codec) (hround : codec.RoundTrips)
    (before meanwhile : List Operation) {draft : Salsa.RequestDraft} {request : Salsa.Request}
    (hbuild : draft.build = .ok request) {results : List Salsa.Recommendation}
    (hresults : Salsa.recommend request (graph.heldView before meanwhile).adjacency =
      .ok results) :
    results.length ≤ request.settings.maxNumResults ∧ (results.map (·.node)).Nodup ∧
      ∀ result ∈ results, result.Justified request (graph.heldBuckets before meanwhile) := by
  have hchecked := (Salsa.RequestDraft.becomes_of_build hbuild).checked_request
  have hearned := Salsa.earned_of_recommend hresults hchecked.seeds_pos
  obtain ⟨walk, -, rfl⟩ := Salsa.recommend_eq_ok hresults
  obtain ⟨hlength, hnodup, -⟩ := Salsa.rank_spec
    (Salsa.Walk.run request (graph.heldView before meanwhile).adjacency request.walkLength .right
      walk) request (graph.heldView before meanwhile).adjacency
  refine ⟨hlength, hnodup, fun result hresult => ?_⟩
  obtain ⟨hallowed, hkept, hproof⟩ := hearned result hresult
  refine ⟨hallowed, hkept, hproof.length_le, hproof.nodup, fun group hgroup => ?_,
    fun group hgroup seed hseed => ?_⟩
  · have hseeds := hproof.seeds group hgroup
    exact ⟨hseeds.ne_nil, hseeds.nodup, hproof.seeds_le group hgroup⟩
  · obtain ⟨hseed, hcounts, neighbor, hneighbor, hnode, hkind⟩ :=
      (hproof.seeds group hgroup).earned seed hseed
    obtain ⟨bucket, hbucket, edge, hedge, hleft, hright, hsame⟩ :=
      exists_edge_of_heldView hcreate hcodec hround before meanwhile hneighbor
    refine ⟨hcounts, ?_, bucket, hbucket, edge, hedge, hleft, hright.trans hnode,
      hsame.trans hkind⟩
    rcases Bool.or_eq_true_iff.mp hseed with hquery | hlisted
    · exact .inl (beq_iff_eq.mp hquery)
    · exact .inr (Std.TreeMap.mem_iff_contains.mpr hlisted)

/-- A walk from nodes 1 and 9 that leaves out node 2 and whatever is above 4. -/
def draftSample : Salsa.RequestDraft where
  queryNode := 1
  settings := { Salsa.Settings.standard with maxRandomWalkLength := some 3 }
  leftSeeds := Salsa.Mass.empty.add 9 1.0
  excluded := .ofList [(2 : NodeId)]
  filters := [.above 4]

def requestSample : Salsa.Request := { draftSample with walkLength := 3 }

theorem sample_recommendations_are_justified : ∃ results,
    Salsa.recommend requestSample ((sample .powerLaw true).heldView
      [.add ⟨1, 2, 0, 5⟩, .add ⟨1, 3, 1, 9⟩] [.add ⟨9, 3, 0, 8⟩]).adjacency = .ok results ∧
    results.length ≤ 10 ∧ (results.map (·.node)).Nodup ∧
    ∀ result ∈ results, result.Justified requestSample ((sample .powerLaw true).heldBuckets
      [.add ⟨1, 2, 0, 5⟩, .add ⟨1, 3, 1, 9⟩] [.add ⟨9, 3, 0, 8⟩]) := by
  have hbuild : draftSample.build = .ok requestSample := rfl
  -- an expected walk has no way to fail
  refine ⟨_, rfl, ?_⟩
  exact recommendations_are_justified (create_sample .powerLaw true)
    (Options.resolveCodec_sample .powerLaw true) BitMask.sample.toCodec_roundTrips _ _ hbuild rfl

end Slidewalk.Graph
