import Slidewalk.Proofs.Pool.AppendOnly

/-!
# Slots last as long as the edge bound

A list above class 0 fills more than half of its slot, so the room that a class shares holds one
more slot while edges are missing to the bound of the pool. Until then a node within the node bound
is refused at its degree bound and nowhere else.
-/

namespace Slidewalk

/-- The answer where the degree of a node is all that counts. -/
def PowerLawBounds.degreeVerdict (bounds : PowerLawBounds) (degree : Nat) : Except Fault Unit :=
  if bounds.maxDegree ≤ degree then .error (.capacity .degree bounds.maxDegree) else .ok ()

namespace PowerLawPool

variable {bounds : PowerLawBounds} {pool : PowerLawPool} {node : Nat} {calls : List PoolCall}

theorem nodeCount_run_le (hcreate : create bounds = .ok pool)
    (hcalls : ∀ node entry, .add node entry ∈ calls → node < bounds.maxNodes) :
    (pool.run calls).nodeCount ≤ bounds.maxNodes := by
  rw [(run_holds hcreate calls).2.nodeCount]
  exact nodesOf_le fun written hwritten =>
    hcalls written.1 written.2 (mem_of_mem_accepted hwritten)

/-- While an open pool holds fewer edges than it was made for, only its degree bound keeps a node
from another entry. -/
theorem refused_only_at_degree_bound (hcreate : create bounds = .ok pool)
    (hedges : bounds.maxEdges < UInt32.size)
    (hcalls : ∀ node entry, .add node entry ∈ calls → node < bounds.maxNodes)
    (hopen : (pool.run calls).isSealed = false)
    (hroom : (pool.run calls).edgeCount < bounds.maxEdges) (hnode : node < bounds.maxNodes)
    (entry : UInt32) :
    (pool.run calls).check node = bounds.degreeVerdict ((pool.run calls).degree node) ∧
      ((pool.run calls).add node entry).2 =
        bounds.degreeVerdict ((pool.run calls).degree node) := by
  obtain ⟨hsound, hbounds, -⟩ := create_sound hcreate
  have hbounds : (pool.run calls).bounds = bounds := (hsound.bounds_run calls).trans hbounds
  have hnodes := nodeCount_run_le hcreate hcalls
  have hchunks := le_nodeRoom bounds.maxNodes (by omega)
  -- edge bounds of 32 bits leave the shared room uncapped
  have hshared : 4 * bounds.maxEdges < UInt64.size := by
    have : 4 * UInt32.size < UInt64.size := by decide
    omega
  rw [← hbounds] at hnodes hnode hroom hshared hchunks ⊢
  have hcheck := check_eq (hsound.run calls) hopen hnodes hnode hroom hshared
  exact ⟨hcheck, (add_eq_check (Nat.lt_of_lt_of_le hnode hchunks) entry).trans hcheck⟩

/-- The first of two nodes gets as many entries as it may have. -/
def fillFirst : List PoolCall := [.add 0 1, .add 1 2, .add 0 3, .add 0 4, .add 0 5]

theorem sample_refused_only_at_degree_bound :
    (sample.run fillFirst).edgeCount < PowerLawBounds.sample.maxEdges ∧
      (sample.run fillFirst).check 0 = .error (.capacity .degree 4) ∧
      ((sample.run fillFirst).add 0 6).2 = .error (.capacity .degree 4) := by
  have hroom : (sample.run fillFirst).edgeCount < PowerLawBounds.sample.maxEdges := by
    have hcount : (sample.run fillFirst).edgeCount = 5 := by cbv
    rw [hcount]
    decide
  have hfull : PowerLawBounds.sample.degreeVerdict ((sample.run fillFirst).degree 0) =
      .error (.capacity .degree 4) := by
    cbv
  have hcalls : ∀ node entry, .add node entry ∈ fillFirst →
      node < PowerLawBounds.sample.maxNodes := by
    intro node entry hcall
    simp only [fillFirst, List.mem_cons, PoolCall.add.injEq, List.not_mem_nil, or_false] at hcall
    show node < 2
    omega
  rw [← hfull]
  exact ⟨hroom, refused_only_at_degree_bound create_sample (by decide) hcalls (by cbv) hroom
    (by decide) 6⟩

end PowerLawPool

end Slidewalk
