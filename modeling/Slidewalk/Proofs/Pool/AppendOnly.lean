import Mathlib.Data.List.Permutation
import Slidewalk.Proofs.Pool.Run

/-!
# A power-law pool is an append-only list per node

What is read for a node is what the accepted calls wrote for it, in order. Lists move between size
classes and take over slots that others left, but no two nodes share a slot, and no slot is free
that a node owns.
-/

namespace Slidewalk

namespace PowerLawPool

variable {bounds : PowerLawBounds} {pool next : PowerLawPool} {node : Nat} {entry : UInt32}
  {written history : List (Nat × UInt32)}

/-- The entries that a history holds for a node. -/
def entriesOf (history : List (Nat × UInt32)) (node : Nat) : List UInt32 :=
  (history.filter fun written => written.1 = node).map (·.2)

/-- One more than the highest node of a history. -/
def nodesOf (history : List (Nat × UInt32)) : Nat :=
  ((history.map (·.1 + 1)).max?).getD 0

theorem entriesOf_append (history : List (Nat × UInt32)) (node : Nat) (entry : UInt32)
    (other : Nat) :
    entriesOf (history ++ [(node, entry)]) other =
      if node = other then entriesOf history other ++ [entry] else entriesOf history other := by
  unfold entriesOf
  rw [List.filter_append, List.map_append]
  by_cases hsame : node = other
  · simp [hsame]
  · simp [hsame]

theorem nodesOf_append (history : List (Nat × UInt32)) (node : Nat) (entry : UInt32) :
    nodesOf (history ++ [(node, entry)]) = max (nodesOf history) (node + 1) := by
  unfold nodesOf
  rw [List.map_append]
  cases history with
  | nil => simp
  | cons first rest =>
    rw [List.map_cons, List.cons_append, List.max?_cons', List.max?_cons', List.foldl_append]
    rfl

theorem nodesOf_le {count : Nat} (h : ∀ written ∈ history, written.1 < count) :
    nodesOf history ≤ count := by
  unfold nodesOf
  cases hmax : (history.map (·.1 + 1)).max? with
  | none => exact Nat.zero_le _
  | some highest =>
    obtain ⟨written, hwritten, rfl⟩ := List.mem_map.mp (List.max?_mem hmax)
    exact h written hwritten

/-- What a pool holds is the history, node by node. -/
structure Holds (pool : PowerLawPool) (history : List (Nat × UInt32)) : Prop where
  row : ∀ node, (pool.row node).toList = entriesOf history node
  edgeCount : pool.edgeCount = history.length
  nodeCount : pool.nodeCount = nodesOf history

theorem Holds.step (h : pool.Holds history) (hstep : pool.Step next written) :
    next.Holds (history ++ written) := by
  cases hstep with
  | refused =>
    rw [List.append_nil]
    exact h
  | sealed =>
    rw [List.append_nil]
    exact ⟨h.row, h.edgeCount, h.nodeCount⟩
  | @wrote moved node target entry hmoves _ =>
    refine ⟨fun other => ?_, ?_, ?_⟩
    · rw [entriesOf_append, ← h.row]
      show (moved.row other).toList = _
      rw [hmoves.row]
      split
      · rw [Array.toList_push]
      · rfl
    · show moved.edgeCount + 1 = _
      rw [hmoves.edgeCount, h.edgeCount, List.length_append, List.length_singleton]
    · show max moved.nodeCount (node + 1) = _
      rw [hmoves.nodeCount, h.nodeCount, nodesOf_append]

theorem create_holds (hcreate : create bounds = .ok pool) : pool.Sound ∧ pool.Holds [] := by
  obtain ⟨hsound, -, hnodes, hedges, -, hrow⟩ := create_sound hcreate
  refine ⟨hsound, fun node => ?_, hedges, hnodes⟩
  rw [hrow]
  rfl

theorem run_holds (hcreate : create bounds = .ok pool) (calls : List PoolCall) :
    (pool.run calls).Sound ∧ (pool.run calls).Holds (pool.accepted calls) := by
  obtain ⟨hsound, hholds⟩ := create_holds hcreate
  exact ⟨hsound.run calls,
    run_keeps Holds (fun _ hholds hstep => hholds.step hstep) hsound [] hholds calls⟩

/-- What a pool shows after a history, and what the next call can change of it. -/
structure AppendsOnly (pool : PowerLawPool) (history : List (Nat × UInt32)) : Prop where
  readInto : ∀ node buffer,
    (Pool.powerLaw pool).readInto node buffer = buffer ++ (entriesOf history node).toArray
  degree : ∀ node, pool.degree node = (entriesOf history node).length
  edgeCount : pool.edgeCount = history.length
  nodeCount : pool.nodeCount = nodesOf history
  apart : ∀ a b handle, pool.handle a = some handle → pool.handle b = some handle → a = b
  -- an owned slot was handed out and is not free
  live : ∀ node handle, pool.handle node = some handle →
    (pool.sizeClass handle.sizeClass).Live handle.slot
  fits : ∀ node handle, pool.handle node = some handle →
    pool.degree node ≤ pool.bounds.slotLen handle.sizeClass
  freeOnce : ∀ k, (pool.sizeClass k).free.Nodup
  refused : ∀ node entry fault, (pool.add node entry).2 = .error fault →
    (pool.add node entry).1 = pool
  elsewhere : ∀ node entry other, other ≠ node → (pool.add node entry).1.row other = pool.row other

/-- A refused entry changes nothing, and an accepted one only the list of its node. -/
theorem Sound.add_cases (h : pool.Sound) (node : Nat) (entry : UInt32) :
    (∃ fault, pool.add node entry = (pool, .error fault)) ∨
    ∃ grown, pool.add node entry = (grown, .ok ()) ∧ ∀ other, grown.row other =
      if node = other then (pool.row other).push entry else pool.row other := by
  cases hrefusal : pool.refusal node with
  | some fault => exact .inl ⟨fault, add_of_refusal hrefusal⟩
  | none =>
    obtain ⟨-, -, -, -, -, hrow⟩ :=
      push_sound h entry fun k hnext => (room_of_refusal hrefusal hnext).1
    exact .inr ⟨_, add_of_no_refusal hrefusal, hrow⟩

theorem Holds.appendsOnly (h : pool.Holds history) (hsound : pool.Sound) :
    pool.AppendsOnly history where
  readInto := by
    intro node buffer
    rw [← h.row]
    rfl
  degree := by
    intro node
    rw [← h.row, Array.length_toList]
    rfl
  edgeCount := h.edgeCount
  nodeCount := h.nodeCount
  apart := fun _ _ _ => hsound.apart
  live := fun _ _ => hsound.live
  fits := fun _ _ hhandle => (hsound.fits hhandle).le
  freeOnce := fun k => (hsound.class_sound k).nodup
  refused := by
    intro node entry fault hfault
    obtain ⟨_, hadd⟩ | ⟨grown, hadd, -⟩ := hsound.add_cases node entry
    · rw [hadd]
    · rw [hadd] at hfault
      contradiction
  elsewhere := by
    intro node entry other hother
    obtain ⟨_, hadd⟩ | ⟨grown, hadd, hrow⟩ := hsound.add_cases node entry
    · rw [hadd]
    · rw [hadd]
      exact (hrow other).trans (if_neg hother.symm)

/-- After every run the pool holds what was accepted, one list for each node. -/
theorem lists_only_grow (hcreate : create bounds = .ok pool) (calls : List PoolCall) :
    (pool.run calls).AppendsOnly (pool.accepted calls) := by
  obtain ⟨hsound, hholds⟩ := run_holds hcreate calls
  exact hholds.appendsOnly hsound

theorem sample_lists_only_grow : create .sample = .ok sample ∧
    (sample.run PoolCall.sample).AppendsOnly [(0, 10), (0, 11), (1, 20), (0, 12), (1, 21)] := by
  refine ⟨create_sample, ?_⟩
  have haccepted : sample.accepted PoolCall.sample =
      [(0, 10), (0, 11), (1, 20), (0, 12), (1, 21)] := by
    cbv
  rw [← haccepted]
  exact lists_only_grow create_sample PoolCall.sample

end PowerLawPool

end Slidewalk
