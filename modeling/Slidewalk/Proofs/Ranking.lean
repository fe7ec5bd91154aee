import Slidewalk.Proofs.Sorting
import Slidewalk.Salsa.Recommend

/-!
# The order of results

Results are ordered by score, then by seeds, then by node. No two results of a walk have the same
node, so the order in which visits are listed does not show in their ranking.
-/

namespace Slidewalk.Salsa

namespace Recommendation

variable {a b : Recommendation}

theorem precedes_iff :
    a.precedes b = true ↔ b.score.totalKey < a.score.totalKey ∨
      a.score.totalKey = b.score.totalKey ∧
        (b.proof.distinctSeeds < a.proof.distinctSeeds ∨
          a.proof.distinctSeeds = b.proof.distinctSeeds ∧ a.node.toNat ≤ b.node.toNat) := by
  unfold precedes
  dsimp only
  by_cases hscore : a.score.totalKey = b.score.totalKey
  · rw [if_neg (Decidable.not_not.mpr hscore)]
    by_cases hseeds : a.proof.distinctSeeds = b.proof.distinctSeeds
    · rw [if_neg (Decidable.not_not.mpr hseeds), decide_eq_true_eq, UInt64.le_iff_toNat_le]
      omega
    · rw [if_pos hseeds, decide_eq_true_eq]
      omega
  · rw [if_pos hscore, decide_eq_true_eq]
    omega

theorem precedes_trans (a b c : Recommendation) (hab : a.precedes b = true)
    (hbc : b.precedes c = true) : a.precedes c = true := by
  rw [precedes_iff] at *
  omega

theorem precedes_total (a b : Recommendation) : (a.precedes b || b.precedes a) = true := by
  rw [Bool.or_eq_true, precedes_iff, precedes_iff]
  omega

theorem node_eq_of_precedes (hab : a.precedes b = true) (hba : b.precedes a = true) :
    a.node = b.node := by
  rw [precedes_iff] at hab hba
  apply UInt64.toNat_inj.mp
  omega

theorem pairwise_mergeSort (results : List Recommendation) :
    (results.mergeSort precedes).Pairwise fun a b => a.precedes b = true :=
  List.pairwise_mergeSort precedes_trans precedes_total results

/-- Results of different nodes have one order. -/
theorem eq_of_perm {ranked ranked' : List Recommendation} (hperm : ranked.Perm ranked')
    (hranked : ranked.Pairwise fun a b => a.precedes b = true)
    (hranked' : ranked'.Pairwise fun a b => a.precedes b = true)
    (hnodup : (ranked'.map (·.node)).Nodup) : ranked = ranked' := by
  refine List.Perm.eq_of_pairwise (fun a b ha hb hab hba => ?_) hranked hranked' hperm
  -- results that precede each other have one node, and one node has one result
  exact List.inj_on_of_nodup_map hnodup (hperm.mem_iff.mp ha) hb (node_eq_of_precedes hab hba)

end Recommendation

/-- A walk visits every node under one entry. -/
theorem Visits.pairwise_toList (visits : Visits) :
    visits.toList.Pairwise fun entry entry' => entry.1 ≠ entry'.1 := by
  apply Std.TreeMap.distinct_keys_toList.imp
  intro entry entry' hdiffer hsame
  exact hdiffer (Std.LawfulEqCmp.compare_eq_iff_eq.mpr hsame)

variable (request : Request) (adjacency : Adjacency) {degree : Nat}

theorem node_of_candidate? {node : NodeId} {visit : Visit} {result : Recommendation}
    (h : candidate? request adjacency degree node visit = some result) : result.node = node := by
  unfold candidate? at h
  dsimp only at h
  split at h
  · contradiction
  split at h
  · contradiction
  · rw [← Option.some.inj h]

/-- Different nodes have different candidates. -/
theorem nodup_candidates (degree : Nat) {visits : List (NodeId × Visit)}
    (hdistinct : visits.Pairwise fun entry entry' => entry.1 ≠ entry'.1) :
    ((visits.filterMap fun (node, visit) => candidate? request adjacency degree node visit).map
      (·.node)).Nodup := by
  rw [List.Nodup, List.pairwise_map, List.pairwise_filterMap]
  apply hdistinct.imp
  intro entry entry' hdiffer result hresult result' hresult'
  rw [node_of_candidate? request adjacency hresult, node_of_candidate? request adjacency hresult']
  exact hdiffer

/-- Visits of different nodes rank alike however they are listed. -/
theorem rankVisits_perm {visits visits' : List (NodeId × Visit)} (hperm : visits.Perm visits')
    (hdistinct : visits'.Pairwise fun entry entry' => entry.1 ≠ entry'.1) :
    rankVisits request adjacency visits = rankVisits request adjacency visits' := by
  have hnodup := nodup_candidates request adjacency (queryDegree request adjacency) hdistinct
  have hcandidates := hperm.filterMap fun (node, visit) =>
    candidate? request adjacency (queryDegree request adjacency) node visit
  unfold rankVisits
  apply congrArg (List.take _)
  apply Recommendation.eq_of_perm _ (Recommendation.pairwise_mergeSort _)
    (Recommendation.pairwise_mergeSort _)
  · exact ((List.mergeSort_perm _ _).map _).nodup_iff.mpr hnodup
  · exact (List.mergeSort_perm _ _).trans (hcandidates.trans (List.mergeSort_perm _ _).symm)

/-- The results of a walk whose visits are listed in some order to be ranked. -/
def recommendBy (listing : Visits → List (NodeId × Visit)) (request : Request)
    (adjacency : Adjacency) : Except RequestFault (List Recommendation) :=
  (finishedWalk request adjacency).map fun walk =>
    rankVisits request adjacency (listing walk.visits)

theorem recommendBy_eq {listing : Visits → List (NodeId × Visit)}
    (hlisting : ∀ visits, (listing visits).Perm visits.toList) :
    recommendBy listing request adjacency = recommend request adjacency := by
  unfold recommendBy recommend rank
  cases finishedWalk request adjacency with
  | error fault => rfl
  | ok walk =>
    have hranked := rankVisits_perm request adjacency (hlisting walk.visits)
      walk.visits.pairwise_toList
    exact congrArg Except.ok hranked

end Slidewalk.Salsa
