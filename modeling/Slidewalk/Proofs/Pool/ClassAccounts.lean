import Slidewalk.Proofs.Pool.Occupancy
import Slidewalk.Proofs.Pool.Run

/-!
# What the size classes of a pool add up to

Handles, the slots handed out, the free slots and the count of promotions are kept apart. They say
the same after every run: a list lies in the smallest class that holds it, a slot is owned or free,
a class never outgrows its limit, and a list was promoted as often as its class is high.
-/

namespace Slidewalk

/-! ## The smallest class that fits -/

namespace PowerLawBounds

theorem classFor_eq_some_iff (bounds : PowerLawBounds) {degree k : Nat} :
    bounds.classFor degree = some k ↔
      k < bounds.classCount ∧ degree ≤ bounds.slotLen k ∧ ∀ j < k, bounds.slotLen j < degree := by
  unfold classFor
  rw [List.find?_range_eq_some, List.mem_range, decide_eq_true_eq]
  constructor
  · rintro ⟨hfits, hlt, hsmaller⟩
    exact ⟨hlt, hfits, fun j hj => Nat.lt_of_not_le (by simpa using hsmaller j hj)⟩
  · rintro ⟨hlt, hfits, hsmaller⟩
    exact ⟨hfits, hlt, fun j hj => by simpa using hsmaller j hj⟩

theorem Fits.classFor_eq {bounds : PowerLawBounds} {k degree : Nat} (h : bounds.Fits k degree)
    (hlt : k < bounds.classCount) : bounds.classFor degree = some k := by
  refine bounds.classFor_eq_some_iff.mpr ⟨hlt, h.le, fun j hj => ?_⟩
  obtain ⟨below, rfl⟩ := Nat.exists_eq_succ_of_ne_zero (Nat.ne_zero_of_lt hj)
  have hlower := h.lower below rfl
  have hmono : ¬ bounds.slotLen below < bounds.slotLen j := by
    rw [bounds.slotLen_lt_slotLen]
    omega
  omega

end PowerLawBounds

namespace PowerLawPool

variable {bounds : PowerLawBounds} {pool next : PowerLawPool} {written : List (Nat × UInt32)}

/-! ## What every step keeps -/

/-- The promotions are those of the lists that are there, and no class has too many slots. -/
structure Levelled (pool : PowerLawPool) : Prop where
  promotions : ∀ nodes, pool.nodeCount ≤ nodes →
    pool.promotions = ∑ node ∈ Finset.range nodes, pool.level node
  slots_le : ∀ k, (pool.sizeClass k).slots.size ≤ pool.bounds.maxSlots k

theorem Moves.sum_level {moved : PowerLawPool} {node : Nat} {target : SlotHandle} {entry : UInt32}
    (h : pool.Moves moved node target entry) {nodes : Nat} (hlt : node < nodes) :
    (∑ n ∈ Finset.range nodes, moved.level n) + pool.level node =
      (∑ n ∈ Finset.range nodes, pool.level n) + target.sizeClass := by
  have hoff : ∀ other, other ≠ node → moved.level other = pool.level other := by
    intro other hne
    unfold level classOf
    rw [h.elsewhere other hne]
  have hhere : moved.level node = target.sizeClass := by
    unfold level classOf
    rw [h.here]
    rfl
  rw [← hhere]
  exact sum_of_eq_off hlt hoff

theorem create_levelled (hcreate : create bounds = .ok pool) : pool.Levelled := by
  obtain ⟨hclass, hhandle, hpromotions⟩ := create_blank hcreate
  refine ⟨fun nodes _ => ?_, fun k => ?_⟩
  · rw [hpromotions, Finset.sum_eq_zero fun node _ => ?_]
    simp [level, classOf, hhandle]
  · rw [hclass k]
    exact Nat.zero_le _

theorem Levelled.step (h : pool.Levelled) (hstep : pool.Step next written) : next.Levelled := by
  cases hstep with
  | refused => exact h
  | sealed => exact ⟨h.promotions, h.slots_le⟩
  | @wrote moved node target entry hmoves hroom =>
    refine ⟨fun nodes hnodes => ?_, fun k => ?_⟩
    · change max moved.nodeCount (node + 1) ≤ nodes at hnodes
      rw [hmoves.nodeCount] at hnodes
      have hbefore := h.promotions nodes (by omega)
      have hsum := hmoves.sum_level (by omega : node < nodes)
      have hpromotions := hmoves.promotions
      show moved.promotions = ∑ n ∈ Finset.range nodes, moved.level n
      omega
    · have hopened := hmoves.opened k
      have hbefore := h.slots_le k
      show (moved.sizeClass k).slots.size ≤ moved.bounds.maxSlots k
      rw [hmoves.bounds, hopened]
      split
      · rename_i hnew
        obtain ⟨hnext, hfree⟩ := hnew
        -- without a free slot there is room because the limit is not reached
        have hroom := hroom k hnext
        unfold SizeClass.hasRoom at hroom
        rw [hfree] at hroom
        have hlt : (pool.sizeClass k).slots.size < pool.bounds.maxSlots k := by simpa using hroom
        omega
      · omega

/-- No class loses a slot. -/
theorem Step.slots_le (hstep : pool.Step next written) (k : Nat) :
    (pool.sizeClass k).slots.size ≤ (next.sizeClass k).slots.size := by
  cases hstep with
  | refused => exact Nat.le_refl _
  | sealed => exact Nat.le_refl _
  | @wrote moved _ _ _ hmoves _ =>
    show _ ≤ (moved.sizeClass k).slots.size
    rw [hmoves.opened k]
    exact Nat.le_add_right _ _

theorem Sound.slots_le_run (h : pool.Sound) (calls : List PoolCall) (k : Nat) :
    (pool.sizeClass k).slots.size ≤ ((pool.run calls).sizeClass k).slots.size :=
  run_invariant (fun later => (pool.sizeClass k).slots.size ≤ (later.sizeClass k).slots.size)
    (fun _ hle hstep => Nat.le_trans hle (hstep.slots_le k)) h (Nat.le_refl _) calls

/-! ## The accounts -/

/-- Handles, size classes, statistics and the count of promotions agree. -/
structure Accounted (bounds : PowerLawBounds) (pool : PowerLawPool) : Prop where
  owns_iff : ∀ node, (pool.handle node).isSome ↔ 0 < pool.degree node
  sizeClass : ∀ node handle, pool.handle node = some handle →
    bounds.classFor (pool.degree node) = some handle.sizeClass
  smallest : ∀ node handle, pool.handle node = some handle →
    pool.degree node ≤ bounds.slotLen handle.sizeClass ∧
      ∀ j < handle.sizeClass, bounds.slotLen j < pool.degree node
  unowned : ∀ node, pool.nodeCount ≤ node → pool.handle node = none
  classes : pool.stats.classes = (List.range bounds.classCount).map fun k => {
    slotLen := bounds.slotLen k
    inUse := pool.residents pool.nodeCount k
    released := (pool.sizeClass k).free.length }
  -- nothing is cut off where free slots are taken from those handed out
  free_le : ∀ k, (pool.sizeClass k).free.length ≤ (pool.sizeClass k).slots.size
  slots_le : ∀ (k : Nat) (stats : ClassStats), pool.stats.classes[k]? = some stats →
    stats.inUse + stats.released ≤ bounds.maxSlots k
  reserved : pool.stats.reserved =
    ∑ node ∈ Finset.range pool.nodeCount, (pool.classOf node).elim 0 bounds.slotLen
  edges_le : pool.stats.edges ≤ pool.stats.reserved
  promotions : pool.promotions = ∑ node ∈ Finset.range pool.nodeCount, pool.level node

theorem Sound.owns_iff (h : pool.Sound) (node : Nat) :
    (pool.handle node).isSome ↔ 0 < pool.degree node := by
  cases hhandle : pool.handle node with
  | none =>
    have hempty : pool.degree node = 0 := by
      rw [degree, row_of_no_handle hhandle, List.size_toArray, List.length_nil]
    simp [hempty]
  | some handle => simp [(h.fits hhandle).pos]

theorem Sound.free_le (h : pool.Sound) (k : Nat) :
    (pool.sizeClass k).free.length ≤ (pool.sizeClass k).slots.size := by
  rw [h.slots k pool.nodeCount (Nat.le_refl _)]
  exact Nat.le_add_left _ _

theorem Sound.classes_eq (h : pool.Sound) :
    pool.stats.classes = (List.range pool.bounds.classCount).map fun k => {
      slotLen := pool.bounds.slotLen k
      inUse := pool.residents pool.nodeCount k
      released := (pool.sizeClass k).free.length } := by
  show pool.classStats = _
  rw [classStats_eq, h.classes_size]
  refine List.map_congr_left fun k _ => ?_
  rw [← h.inUse_eq k (pool.bounds.slotLen k)]
  rfl

/-- The slots handed out are those in use and those released. -/
theorem Sound.inUse_add_released (h : pool.Sound) {k : Nat} {stats : ClassStats}
    (hstats : pool.stats.classes[k]? = some stats) :
    stats.inUse + stats.released = (pool.sizeClass k).slots.size := by
  have hmap := hstats
  rw [h.classes_eq, List.getElem?_map] at hmap
  obtain ⟨place, hplace, rfl⟩ := Option.map_eq_some_iff.mp hmap
  obtain ⟨-, rfl⟩ := List.getElem?_eq_some_iff.mp hplace
  rw [List.getElem_range]
  exact (h.slots k pool.nodeCount (Nat.le_refl _)).symm

theorem Sound.classFor_degree (h : pool.Sound) {node : Nat} {handle : SlotHandle}
    (hhandle : pool.handle node = some handle) :
    pool.bounds.classFor (pool.degree node) = some handle.sizeClass :=
  (h.fits hhandle).classFor_eq (h.classes_size ▸ h.class_lt hhandle)

theorem Levelled.accounted (h : pool.Levelled) (hsound : pool.Sound) :
    pool.Accounted pool.bounds where
  owns_iff := hsound.owns_iff
  sizeClass := fun _ _ => hsound.classFor_degree
  smallest := fun _ _ hhandle =>
    (pool.bounds.classFor_eq_some_iff.mp (hsound.classFor_degree hhandle)).2
  unowned := fun _ => hsound.handle_eq_none
  classes := hsound.classes_eq
  free_le := hsound.free_le
  slots_le := by
    intro k stats hstats
    rw [hsound.inUse_add_released hstats]
    exact h.slots_le k
  reserved := hsound.reserved_eq
  edges_le := hsound.edgeCount_le_reserved
  promotions := h.promotions pool.nodeCount (Nat.le_refl _)

/-- After every run the accounts agree, and whatever follows, no class gets smaller. -/
theorem classes_add_up (hcreate : create bounds = .ok pool) (calls more : List PoolCall) :
    (pool.run calls).Accounted bounds ∧
      ∀ (k : Nat) (before after : ClassStats),
        (pool.run calls).stats.classes[k]? = some before →
        (pool.run (calls ++ more)).stats.classes[k]? = some after →
        before.inUse + before.released ≤ after.inUse + after.released := by
  obtain ⟨hsound, hbounds, -⟩ := create_sound hcreate
  have hlevelled : (pool.run calls).Levelled :=
    run_invariant Levelled (fun _ h hstep => h.step hstep) hsound (create_levelled hcreate) calls
  have haccounted := hlevelled.accounted (hsound.run calls)
  rw [hsound.bounds_run calls, hbounds] at haccounted
  refine ⟨haccounted, fun k before after hbefore hafter => ?_⟩
  rw [(hsound.run calls).inUse_add_released hbefore,
    (hsound.run (calls ++ more)).inUse_add_released hafter, run_append]
  exact (hsound.run calls).slots_le_run more k

theorem sample_classes_add_up :
    (sample.run PoolCall.sample).Accounted .sample ∧
      (sample.run PoolCall.sample).stats.classes.map (fun stats => (stats.inUse, stats.released)) =
        [(0, 1), (1, 0), (1, 0)] ∧
      (sample.run PoolCall.sample).promotions = 3 :=
  ⟨(classes_add_up create_sample PoolCall.sample []).1, by cbv, by cbv⟩

end PowerLawPool

end Slidewalk
