import Slidewalk.Proofs.Pool.Reached

/-!
# A check predicts an addition

Checking a node and adding an entry to it come to the same answer along different ways, as long as
the node fits. A check does not look at the number of the node: for one that is too high an open
pool says that there is room, or that there is no slot left, and then refuses the node as such.
-/

namespace Slidewalk

namespace PowerLawPool

variable {pool : PowerLawPool} {node : Nat}

/-- A check never refuses a node for its number. -/
theorem check_ne_nodes (pool : PowerLawPool) (node limit : Nat) :
    pool.check node ≠ .error (.capacity .nodes limit) := by
  -- no branch names the nodes
  unfold check listRefusal slotRefusal
  grind

theorem add_of_nodeRoom_le (hopen : pool.isSealed = false)
    (hnode : nodeRoom pool.bounds.maxNodes ≤ node) (entry : UInt32) :
    (pool.add node entry).2 = .error (.capacity .nodes (nodeRoom pool.bounds.maxNodes)) := by
  unfold add refusal
  rw [hopen, if_neg (by decide), if_pos hnode]

end PowerLawPool

namespace Pool

/-- The number of nodes that a pool was made for; none for an exact-fit pool. -/
def maxNodes : Pool → Nat
  | uniform pool => pool.maxNodes
  | powerLaw pool => pool.bounds.maxNodes
  | exactFit _ => 0

variable {limits : Limits} {pool : Pool} {node : Nat}

theorem add_eq_check_of_sealed (hsealed : pool.isSealed = true) (node : Nat) (entry : UInt32) :
    (pool.add node entry).2 = pool.check node := by
  cases pool with
  | uniform pool =>
    have hsealed : pool.isSealed = true := hsealed
    show (pool.add node entry).2 = pool.check node
    unfold UniformPool.add UniformPool.check UniformPool.refusal
    rw [if_pos hsealed, if_pos hsealed]
  | powerLaw pool =>
    have hsealed : pool.isSealed = true := hsealed
    show (pool.add node entry).2 = pool.check node
    unfold PowerLawPool.add PowerLawPool.check PowerLawPool.refusal
    rw [if_pos hsealed, if_pos hsealed]
  | exactFit pool => rfl

/-- A node that does not fit passes the check, or fails it for want of a slot. -/
theorem Kept.check_ne_add (h : pool.Kept limits) (hopen : pool.isSealed = false)
    (hnode : pool.nodeLimit ≤ node) (entry : UInt32) :
    (pool.add node entry).2 ≠ pool.check node := by
  have hfits := h.fits hopen
  cases pool with
  | uniform pool =>
    obtain ⟨-, hdegree⟩ := h.tallied.serves
    have hrow : pool.row node = #[] := h.tallied.sound node (Nat.le_trans hfits hnode)
    have hcheck : pool.check node = .ok () := by
      have hpos := h.degree_pos
      have hopen : pool.isSealed = false := hopen
      unfold UniformPool.check UniformPool.degree
      rw [hopen, if_neg (by decide), hrow, if_neg (by rw [hdegree]; exact Nat.not_le.mpr hpos)]
    intro heq
    exact absurd (lt_nodeLimit_of_add (heq.trans hcheck)) (Nat.not_lt.mpr hnode)
  | powerLaw pool =>
    show (pool.add node entry).2 ≠ pool.check node
    rw [PowerLawPool.add_of_nodeRoom_le hopen hnode]
    exact (pool.check_ne_nodes node _).symm
  | exactFit pool => contradiction

/-- A check of an open pool predicts an addition exactly if the node fits, which every node does
that the pool was made for.

The places of entries are numbers without bound: for a node that does not fit, the addition answers
as it does here if a slot has at most `2 ^ 32` entries, as explained with `UniformPool.refusal`. -/
theorem check_predicts_add_iff (h : pool.Reached) (node : UInt32) :
    ((∀ entry, (pool.add node.toNat entry).2 = pool.check node.toNat) ↔
      pool.isSealed = true ∨ node.toNat < pool.nodeLimit) ∧
    (pool.isSealed = false → pool.maxNodes ≤ pool.nodeLimit) := by
  obtain ⟨limits, hkept⟩ := h.kept
  refine ⟨⟨fun hpredicts => ?_, ?_⟩, fun hopen => ?_⟩
  · by_contra hneither
    obtain ⟨hopen, hnode⟩ := not_or.mp hneither
    exact hkept.check_ne_add (Bool.eq_false_iff.mpr hopen) (Nat.le_of_not_lt hnode) 0 (hpredicts 0)
  · rintro (hsealed | hnode) entry
    · exact add_eq_check_of_sealed hsealed _ entry
    · exact add_eq_check hnode entry
  · have hlimit := maxNodes_le_nodeLimit hkept.tallied.serves hopen hkept.nodes_pos hkept.degree_pos
    have hserves := hkept.tallied.serves
    cases pool with
    | uniform pool =>
      obtain ⟨hnodes, -⟩ := hserves
      show pool.maxNodes ≤ _
      rw [hnodes]
      exact hlimit
    | powerLaw pool =>
      show pool.bounds.maxNodes ≤ _
      rw [show pool.bounds.maxNodes = limits.maxNodesPerSegment by rw [hserves]]
      exact hlimit
    | exactFit pool => contradiction

theorem check_single (maxNodes maxDegree : Nat) (node entry : UInt32) (other : Nat) :
    (single maxNodes maxDegree node entry).check other =
      if maxDegree ≤ (if node.toNat = other then 1 else 0) then
        .error (.capacity .degree maxDegree) else .ok () := by
  rw [← degree_single maxNodes maxDegree node entry other]
  rfl

/-- The only node there is room for is full. -/
theorem single_check_predicts_add :
    (single 1 1 0 7).check 0 = .error (.capacity .degree 1) ∧
      ∀ entry, ((single 1 1 0 7).add 0 entry).2 = (single 1 1 0 7).check 0 := by
  exact ⟨check_single 1 1 0 7 0, (check_predicts_add_iff (single_reached rfl (by decide) 7) 0).1.mpr
    (.inr (by decide))⟩

/-- There is no sixth node, and only the addition says so. -/
theorem single_check_overlooks_node : (single 1 1 0 7).Reached ∧
    (single 1 1 0 7).check 5 = .ok () ∧
    ((single 1 1 0 7).add 5 8).2 = .error (.capacity .nodes 1) := by
  exact ⟨single_reached rfl (by decide) 7, check_single 1 1 0 7 5, rfl⟩

end Pool

end Slidewalk
