import Slidewalk.Proofs.Ranking

/-!
# Filtered, sorted and cut

Results are filtered before they are sorted, but it comes to the same as sorting all visited nodes
first: results of different nodes are never tied, so a result stands above another whatever else is
listed. What a request leaves out is deleted from the full ranking, and the rest is cut.
-/

namespace Slidewalk.Salsa

/-- Whether a result is neither excluded nor dropped by a filter. -/
def Request.keeps (request : Request) (result : Recommendation) : Bool :=
  !request.excluded.contains result.node && !request.filters.excludes result.node result.proof

namespace Recommendation

/-- Whether one result stands above another: by score, then by seeds, then by the smaller node. -/
def Outranks (a b : Recommendation) : Prop :=
  b.score.totalKey < a.score.totalKey ∨
    a.score.totalKey = b.score.totalKey ∧
      (b.proof.distinctSeeds < a.proof.distinctSeeds ∨
        a.proof.distinctSeeds = b.proof.distinctSeeds ∧ a.node < b.node)

variable {results : List Recommendation}

theorem ranks : Ranks (·.node) precedes Outranks where
  trans := precedes_trans
  total := precedes_total
  strict a b h hne := by
    have hdiffer : a.node.toNat ≠ b.node.toNat := fun hsame => hne (UInt64.toNat_inj.mp hsame)
    rw [precedes_iff] at h
    unfold Outranks
    rw [UInt64.lt_iff_toNat_lt]
    omega

end Recommendation

/-! ## The full ranking -/

variable (request : Request) (adjacency : Adjacency)

end Slidewalk.Salsa
