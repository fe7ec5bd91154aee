import Slidewalk.Pool
import Slidewalk.Proofs.Pool.Promotion

/-!
# Runs of a power-law pool

A run applies calls in order. A call refuses and changes nothing, seals, or writes one entry, which
is a move; `Step` lists these ways, and what every step keeps is kept by every run.
-/

namespace Slidewalk

/-- What is asked of a pool. -/
inductive PoolCall where
  | add (node : Nat) (entry : UInt32)
  | close
  deriving DecidableEq

/-- The entry that a call wrote, with its node. -/
def PoolCall.written : PoolCall → Except Fault Unit → List (Nat × UInt32)
  | add node entry, .ok () => [(node, entry)]
  | _, _ => []

theorem PoolCall.eq_of_mem_written {call : PoolCall} {result : Except Fault Unit} {node : Nat}
    {entry : UInt32} (h : (node, entry) ∈ call.written result) : call = .add node entry := by
  unfold written at h
  split at h
  · obtain ⟨rfl, rfl⟩ := Prod.mk.inj (List.mem_singleton.mp h)
    rfl
  · exact absurd h List.not_mem_nil

namespace PowerLawPool

def perform (pool : PowerLawPool) : PoolCall → PowerLawPool × Except Fault Unit
  | .add node entry => pool.add node entry
  | .close => (pool.sealed, .ok ())

def run (pool : PowerLawPool) : List PoolCall → PowerLawPool
  | [] => pool
  | call :: rest => (pool.perform call).1.run rest

/-- The entries that a run writes, each with its node, in the order of the calls. -/
def accepted (pool : PowerLawPool) : List PoolCall → List (Nat × UInt32)
  | [] => []
  | call :: rest =>
      call.written (pool.perform call).2 ++ (pool.perform call).1.accepted rest

variable {pool next : PowerLawPool} {node : Nat} {entry : UInt32}
  {written : List (Nat × UInt32)}

theorem run_append (pool : PowerLawPool) (front back : List PoolCall) :
    pool.run (front ++ back) = (pool.run front).run back := by
  induction front generalizing pool with
  | nil => rfl
  | cons call rest ih => exact ih (pool.perform call).1

/-! ## One call -/

/-- What a call can make of a pool, and the entries it writes. -/
inductive Step (pool : PowerLawPool) : PowerLawPool → List (Nat × UInt32) → Prop where
  | refused : Step pool pool []
  | sealed : Step pool pool.sealed []
  | wrote {moved : PowerLawPool} {node : Nat} {target : SlotHandle} {entry : UInt32}
      (moves : pool.Moves moved node target entry)
      (room : ∀ k, pool.nextClass node = some k →
        (pool.sizeClass k).hasRoom (pool.bounds.maxSlots k) = true) :
      Step pool (moved.count node) [(node, entry)]

/-- A list that is not refused has a slot to move to. -/
theorem room_of_refusal (h : pool.refusal node = none) {k : Nat}
    (hnext : pool.nextClass node = some k) :
    k < pool.classes.size ∧ (pool.sizeClass k).hasRoom (pool.bounds.maxSlots k) = true := by
  unfold refusal at h
  split at h
  · contradiction
  split at h
  · contradiction
  unfold listRefusal at h
  split at h
  · contradiction
  rw [hnext] at h
  dsimp only [slotRefusal] at h
  split at h
  · contradiction
  split at h
  · exact ⟨by omega, ‹_›⟩
  · contradiction

theorem lt_nodeRoom_of_refusal (h : pool.refusal node = none) :
    node < nodeRoom pool.bounds.maxNodes := by
  unfold refusal at h
  split at h
  · contradiction
  split at h
  · contradiction
  · exact Nat.lt_of_not_le ‹_›

theorem add_of_refusal {fault : Fault} (h : pool.refusal node = some fault) :
    pool.add node entry = (pool, .error fault) := by
  unfold add
  rw [h]

theorem add_of_no_refusal (h : pool.refusal node = none) :
    pool.add node entry = (pool.push node entry, .ok ()) := by
  unfold add
  rw [h]

/-- The node bound apart, an entry is refused for the reason that `check` gives. -/
theorem add_eq_check (hnode : node < nodeRoom pool.bounds.maxNodes) (entry : UInt32) :
    (pool.add node entry).2 = pool.check node := by
  unfold add check refusal
  rw [if_neg (Nat.not_le.mpr hnode)]
  cases pool.isSealed with
  | true => rfl
  | false =>
    cases pool.listRefusal node with
    | none => rfl
    | some fault => rfl

theorem Sound.step (h : pool.Sound) (call : PoolCall) :
    pool.Step (pool.perform call).1 (call.written (pool.perform call).2) := by
  cases call with
  | close => exact .sealed
  | add node entry =>
    show pool.Step (pool.add node entry).1
      (PoolCall.written (.add node entry) (pool.add node entry).2)
    cases hrefusal : pool.refusal node with
    | some fault =>
      rw [add_of_refusal hrefusal]
      exact .refused
    | none =>
      obtain ⟨moved, target, hpush, hmoves⟩ :=
        push_moves h entry fun k hnext => (room_of_refusal hrefusal hnext).1
      rw [add_of_no_refusal hrefusal, hpush]
      exact .wrote hmoves fun k hnext => (room_of_refusal hrefusal hnext).2

namespace Step

theorem sound (h : pool.Sound) (hstep : pool.Step next written) : next.Sound := by
  cases hstep with
  | refused => exact h
  | sealed => exact h.sealed
  | wrote hmoves _ => exact hmoves.sound h

theorem bounds (hstep : pool.Step next written) : next.bounds = pool.bounds := by
  cases hstep with
  | refused => rfl
  | sealed => rfl
  | wrote hmoves _ => exact hmoves.bounds

end Step

/-! ## Every run -/

/-- What every step keeps of a pool and its history is kept by every run. -/
theorem run_keeps (Keeps : PowerLawPool → List (Nat × UInt32) → Prop)
    (hkeeps : ∀ {pool next history written}, pool.Sound → Keeps pool history →
      pool.Step next written → Keeps next (history ++ written))
    (hsound : pool.Sound) (history : List (Nat × UInt32)) (h : Keeps pool history)
    (calls : List PoolCall) : Keeps (pool.run calls) (history ++ pool.accepted calls) := by
  induction calls generalizing pool history with
  | nil =>
    rw [accepted, List.append_nil]
    exact h
  | cons call rest ih =>
    have hstep := hsound.step call
    have hrest := ih (hstep.sound hsound) _ (hkeeps hsound h hstep)
    rw [List.append_assoc] at hrest
    exact hrest

theorem run_invariant (Keeps : PowerLawPool → Prop)
    (hkeeps : ∀ {pool next written}, pool.Sound → Keeps pool → pool.Step next written →
      Keeps next)
    (hsound : pool.Sound) (h : Keeps pool) (calls : List PoolCall) : Keeps (pool.run calls) :=
  run_keeps (fun later _ => Keeps later) hkeeps hsound [] h calls

theorem Sound.run (h : pool.Sound) (calls : List PoolCall) : (pool.run calls).Sound :=
  run_invariant Sound (fun _ hsound hstep => hstep.sound hsound) h h calls

theorem Sound.bounds_run (h : pool.Sound) (calls : List PoolCall) :
    (pool.run calls).bounds = pool.bounds :=
  run_invariant (fun later => later.bounds = pool.bounds)
    (fun _ hsame hstep => hstep.bounds.trans hsame) h rfl calls

/-- What a run wrote was asked for. -/
theorem mem_of_mem_accepted {calls : List PoolCall} (h : (node, entry) ∈ pool.accepted calls) :
    .add node entry ∈ calls := by
  induction calls generalizing pool with
  | nil => exact absurd h List.not_mem_nil
  | cons call rest ih =>
    rcases List.mem_append.mp h with hfirst | hrest
    · rw [PoolCall.eq_of_mem_written hfirst]
      exact List.mem_cons_self
    · exact List.mem_cons_of_mem _ (ih hrest)

end PowerLawPool

/-! ## A small pool -/

def PowerLawBounds.sample : PowerLawBounds where
  maxNodes := 2
  maxEdges := 8
  maxDegree := 4
  minClassBits := 0

def PowerLawPool.sample : PowerLawPool where
  bounds := .sample
  classes := Array.replicate PowerLawBounds.sample.classCount .empty
  handles := ∅
  nodeCount := 0
  edgeCount := 0
  promotions := 0
  isSealed := false

theorem PowerLawPool.create_sample : create .sample = .ok sample := rfl

/-- Both lists move up twice or once, the second takes over a slot that the first left, and one node
is refused. -/
def PoolCall.sample : List PoolCall :=
  [.add 0 10, .add 0 11, .add 1 20, .add 5 30, .add 0 12, .add 1 21]

end Slidewalk
