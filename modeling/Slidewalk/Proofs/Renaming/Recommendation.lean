import Slidewalk.Proofs.Renaming.Walk
import Slidewalk.Salsa.Recommend

/-!
# Results under renamed ids

Paired walks have paired visits with equal scores, and results compare like their pairs: by score,
by number of seeds, and then by node.
-/

namespace Slidewalk.Salsa

variable {names : Renaming} {request request' : Request} {adjacency adjacency' : Adjacency}

structure Recommendation.Pairs (names : Renaming) (result result' : Recommendation) : Prop where
  node : names.Pairs .right result.node result'.node
  score : result.score = result'.score
  proof : result.proof.Pairs names result'.proof

theorem Recommendation.Pairs.precedes {a a' b b' : Recommendation} (ha : a.Pairs names a')
    (hb : b.Pairs names b') : a.precedes b = a'.precedes b' := by
  have hle := Renaming.le_iff ha.node hb.node
  unfold Recommendation.precedes
  rw [ha.score, hb.score, ha.proof.distinctSeeds, hb.proof.distinctSeeds, decide_eq_decide.mpr hle]

theorem queryDegree_eq (hrequest : request.Pairs names request')
    (hadjacency : adjacency.Pairs names adjacency') :
    queryDegree request adjacency = queryDegree request' adjacency' := by
  unfold queryDegree
  rw [hrequest.settings, hadjacency.degree .left _ _ hrequest.queryNode]

theorem candidate?_pairs (hrequest : request.Pairs names request')
    (hadjacency : adjacency.Pairs names adjacency') (degree : Nat) {node node' : NodeId}
    (hnode : names.Pairs .right node node') {visit visit' : Visit}
    (hvisit : visit.Pairs names visit') :
    Option.Rel (Recommendation.Pairs names) (candidate? request adjacency degree node visit)
      (candidate? request' adjacency' degree node' visit') := by
  have hscore : scoreOf request adjacency degree node visit =
      scoreOf request' adjacency' degree node' visit' := by
    unfold scoreOf
    rw [hrequest.settings, hvisit.mass, hadjacency.degree .right _ _ hnode]
  have hproof := hvisit.proof.finalize request'.settings.maxSocialProofTypeSize
    request'.settings.maxSocialProofSize
  unfold candidate?
  dsimp only
  rw [hscore, hrequest.settings, hrequest.excluded _ _ hnode,
    hrequest.filters _ _ _ _ hnode hproof]
  split
  · exact .none
  split
  · exact .none
  · exact .some ⟨hnode, rfl, hproof⟩

theorem rank_pairs (hrequest : request.Pairs names request')
    (hadjacency : adjacency.Pairs names adjacency') {walk walk' : Walk}
    (hwalk : walk.Pairs names walk') :
    List.Forall₂ (Recommendation.Pairs names) (rank walk request adjacency)
      (rank walk' request' adjacency') := by
  have hcandidates : List.Forall₂ (Recommendation.Pairs names)
      (walk.visits.toList.filterMap fun entry =>
        candidate? request adjacency (queryDegree request adjacency) entry.1 entry.2)
      (walk'.visits.toList.filterMap fun entry =>
        candidate? request' adjacency' (queryDegree request' adjacency') entry.1 entry.2) := by
    rw [queryDegree_eq hrequest hadjacency]
    apply List.rel_filterMap _ hwalk.visits
    intro _ _ hentry
    exact candidate?_pairs hrequest hadjacency _ hentry.1 hentry.2
  have hsorted := forall₂_mergeSort hcandidates fun _ _ _ _ ha hb =>
    Recommendation.Pairs.precedes ha hb
  unfold rank rankVisits
  dsimp only
  rw [hrequest.settings]
  exact List.forall₂_take _ hsorted

theorem recommend_pairs (hrequest : request.Pairs names request')
    (hadjacency : adjacency.Pairs names adjacency') :
    (∃ fault, recommend request adjacency = .error fault ∧
      recommend request' adjacency' = .error fault) ∨
    ∃ results results', recommend request adjacency = .ok results ∧
      recommend request' adjacency' = .ok results' ∧
      List.Forall₂ (Recommendation.Pairs names) results results' := by
  unfold recommend finishedWalk
  rcases Walk.start_pairs hrequest with ⟨fault, hfault, hfault'⟩ | ⟨walk, walk', hok, hok', hwalk⟩
  · rw [hfault, hfault']
    exact .inl ⟨fault, rfl, rfl⟩
  · rw [hok, hok', hrequest.walkLength]
    have hfinal := hwalk.run hrequest hadjacency request'.walkLength .right
    exact .inr ⟨_, _, rfl, rfl, rank_pairs hrequest hadjacency hfinal⟩

end Slidewalk.Salsa
