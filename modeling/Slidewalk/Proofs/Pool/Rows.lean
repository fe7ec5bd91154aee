import Slidewalk.Proofs.Pool.ExactFit
import Slidewalk.Proofs.Pool.Run
import Slidewalk.Segment

/-!
# Pools of every layout keep the same lists

What a pool reads for a node is its row. Appending changes one row, sealing and repacking change
none, and below the edge bound of a segment every layout refuses a node for the same reason.
-/

namespace Slidewalk

/-! ## Uniform pools -/

namespace UniformPool

def Sound (pool : UniformPool) : Prop := ∀ node, pool.nodeCount ≤ node → pool.row node = #[]

theorem create_sound {maxNodes maxDegree : Nat} {pool : UniformPool}
    (h : create maxNodes maxDegree = .ok pool) :
    pool.Sound ∧ (pool.maxNodes = maxNodes ∧ pool.maxDegree = maxDegree) ∧ pool.nodeCount = 0 ∧
      pool.edgeCount = 0 ∧ pool.isSealed = false ∧ ∀ node, pool.row node = #[] := by
  unfold create at h
  split at h
  · simp at h
  split at h
  · simp at h
  obtain rfl := Except.ok.inj h
  have hrow : ∀ node, (Std.HashMap.getD (∅ : Std.HashMap Nat (Array UInt32)) node #[]) = #[] := by
    simp
  exact ⟨fun node _ => hrow node, ⟨rfl, rfl⟩, rfl, rfl, rfl, hrow⟩

variable {pool : UniformPool} {node : Nat}

/-! ### Which nodes have a slot -/

/-- How many nodes have both a length and a whole slot within the chunks. -/
def nodeLimit (pool : UniformPool) : Nat :=
  min (nodeRoom pool.maxNodes) (pool.entryRoom / pool.maxDegree)

/-- The room for entries is made up of whole slots. -/
theorem entryRoom_eq (pool : UniformPool) :
    pool.entryRoom / pool.maxDegree * pool.maxDegree = pool.entryRoom := by
  apply Nat.div_mul_cancel
  unfold entryRoom roundUp
  rw [← Nat.mul_assoc]
  exact Nat.dvd_mul_left _ _

theorem maxNodes_le_nodeLimit (hnodes : 0 < pool.maxNodes) (hdegree : 0 < pool.maxDegree) :
    pool.maxNodes ≤ pool.nodeLimit := by
  have hentries : pool.maxNodes * pool.maxDegree ≤ pool.entryRoom :=
    le_roundUp _ _ (Nat.mul_pos (by omega) hdegree)
  exact Nat.le_min.mpr
    ⟨le_nodeRoom _ hnodes, (Nat.le_div_iff_mul_le hdegree).mpr hentries⟩

/-- An entry of a node that has a slot is refused for the reason that `check` gives. -/
theorem add_eq_check (hnode : node < pool.nodeLimit) (entry : UInt32) :
    (pool.add node entry).2 = pool.check node := by
  obtain ⟨hroom, hslot⟩ := Nat.lt_min.mp hnode
  -- the place of one more entry lies in front of the next node's places
  have hplace : (node + 1) * pool.maxDegree ≤ pool.entryRoom := Nat.mul_le_of_le_div _ _ _ hslot
  rw [Nat.succ_mul] at hplace
  unfold add check refusal
  rw [if_neg (Nat.not_le.mpr hroom)]
  cases pool.isSealed with
  | true => rfl
  | false =>
    by_cases hdegree : pool.maxDegree ≤ pool.degree node
    · rw [if_neg (by decide), if_pos hdegree, if_neg (by decide), if_pos hdegree]
    · rw [if_neg (by decide), if_neg hdegree, if_neg (by omega), if_neg (by decide),
        if_neg hdegree]

/-- An entry is written into a slot. -/
theorem lt_nodeLimit_of_refusal (h : pool.refusal node = none) : node < pool.nodeLimit := by
  unfold refusal at h
  split at h
  · contradiction
  split at h
  · contradiction
  split at h
  · contradiction
  split at h
  · contradiction
  rename_i hroom hdegree hentries
  refine Nat.lt_min.mpr ⟨Nat.lt_of_not_le hroom, ?_⟩
  have hslots := pool.entryRoom_eq
  -- behind the last slot there is no entry
  by_contra hbeyond
  have := Nat.mul_le_mul_right pool.maxDegree (Nat.le_of_not_lt hbeyond)
  omega

end UniformPool

namespace Pool

def Sound : Pool → Prop
  | uniform pool => pool.Sound
  | powerLaw pool => pool.Sound
  | exactFit pool => pool.Sound

/-- The pool was made for these limits. An exact-fit pool has none. -/
def Serves (limits : Limits) : Pool → Prop
  | uniform pool =>
      pool.maxNodes = limits.maxNodesPerSegment ∧ pool.maxDegree = limits.maxDegree
  | powerLaw pool => pool.bounds = {
      maxNodes := limits.maxNodesPerSegment
      maxEdges := limits.segmentEdgeCapacity
      maxDegree := limits.maxDegree
      minClassBits := limits.minSizeClassBits }
  | exactFit _ => True

theorem createPool_cases {limits : Limits} {pool : Pool}
    (h : Segment.createPool limits = .ok pool) :
    (∃ created, UniformPool.create limits.maxNodesPerSegment limits.maxDegree = .ok created ∧
      pool = uniform created) ∨
    ∃ created, PowerLawPool.create {
        maxNodes := limits.maxNodesPerSegment
        maxEdges := limits.segmentEdgeCapacity
        maxDegree := limits.maxDegree
        minClassBits := limits.minSizeClassBits } = .ok created ∧ pool = powerLaw created := by
  unfold Segment.createPool at h
  split at h
  · cases hcreated : UniformPool.create limits.maxNodesPerSegment limits.maxDegree with
    | error fault => simp [hcreated, Except.map] at h
    | ok created =>
      rw [hcreated] at h
      exact .inl ⟨created, rfl, (Except.ok.inj h).symm⟩
  · cases hcreated : PowerLawPool.create {
        maxNodes := limits.maxNodesPerSegment
        maxEdges := limits.segmentEdgeCapacity
        maxDegree := limits.maxDegree
        minClassBits := limits.minSizeClassBits } with
    | error fault => simp [hcreated, Except.map] at h
    | ok created =>
      rw [hcreated] at h
      exact .inr ⟨created, rfl, (Except.ok.inj h).symm⟩

theorem createPool_sound {limits : Limits} {pool : Pool}
    (h : Segment.createPool limits = .ok pool) :
    pool.Sound ∧ pool.Serves limits ∧ pool.nodeCount = 0 ∧ pool.edgeCount = 0 ∧
      pool.isSealed = false ∧ ∀ node, pool.row node = #[] := by
  obtain ⟨created, hcreated, rfl⟩ | ⟨created, hcreated, rfl⟩ := createPool_cases h
  · exact UniformPool.create_sound hcreated
  · exact PowerLawPool.create_sound hcreated

theorem size_row {pool : Pool} (h : pool.Sound) (node : Nat) :
    (pool.row node).size = pool.degree node := by
  cases pool with
  | uniform pool => rfl
  | powerLaw pool => rfl
  | exactFit pool => exact ExactFitPool.size_row h node

theorem row_of_nodeCount_le {pool : Pool} (h : pool.Sound) {node : Nat}
    (hnode : pool.nodeCount ≤ node) : pool.row node = #[] := by
  cases pool with
  | uniform pool => exact h node hnode
  | powerLaw pool =>
    exact PowerLawPool.row_of_no_handle (PowerLawPool.Sound.handle_eq_none h hnode)
  | exactFit pool =>
    have hnone : pool.offsets[node + 1]? = none :=
      Array.getElem?_eq_none (by simp only [nodeCount, ExactFitPool.nodeCount] at hnode; omega)
    show pool.row node = #[]
    unfold ExactFitPool.row
    rw [hnone]
    split <;> simp_all

/-! ## Appending -/

/-- The second pool is the first with an entry behind a node's list. -/
structure Appends (limits : Limits) (pool grown : Pool) (node : Nat) (entry : UInt32) : Prop where
  sound : grown.Sound
  serves : grown.Serves limits
  isSealed : grown.isSealed = pool.isSealed
  edgeCount : grown.edgeCount = pool.edgeCount + 1
  nodeCount : grown.nodeCount = max pool.nodeCount (node + 1)
  row : ∀ other, grown.row other =
    if node = other then (pool.row other).push entry else pool.row other

/-- A refused entry changes nothing, and an accepted one is appended to the list of its node. -/
theorem add_cases {limits : Limits} {pool : Pool} (h : pool.Sound) (hserves : pool.Serves limits)
    (node : Nat) (entry : UInt32) :
    (∃ fault, pool.add node entry = (pool, .error fault)) ∨
    ∃ grown, pool.add node entry = (grown, .ok ()) ∧ Appends limits pool grown node entry := by
  cases pool with
  | uniform pool =>
    cases hrefusal : pool.refusal node with
    | some fault => exact .inl ⟨fault, by simp only [add, UniformPool.add, hrefusal]⟩
    | none =>
      refine .inr ⟨uniform (pool.push node entry), ?_, ?_, hserves, rfl, rfl, rfl,
        pool.row_push node entry⟩
      · simp only [add, UniformPool.add, hrefusal]
      · intro other hother
        change max pool.nodeCount (node + 1) ≤ other at hother
        rw [UniformPool.row_push, if_neg (by omega)]
        exact h other (by omega)
  | powerLaw pool =>
    cases hrefusal : pool.refusal node with
    | some fault => exact .inl ⟨fault, by simp only [add, PowerLawPool.add, hrefusal]⟩
    | none =>
      obtain ⟨hsound, hkeep, hedges, hnodes, hsealed, hrow⟩ :=
        PowerLawPool.push_sound h entry fun k hnext =>
          (PowerLawPool.room_of_refusal hrefusal hnext).1
      refine .inr ⟨powerLaw (pool.push node entry), ?_, hsound, hkeep.trans hserves, hsealed,
        hedges, hnodes, hrow⟩
      simp only [add, PowerLawPool.add, hrefusal]
  | exactFit pool => exact .inl ⟨_, rfl⟩

/-! ### Which nodes fit -/

/-- How many nodes a pool has room for; no node of an exact-fit pool has room. -/
def nodeLimit : Pool → Nat
  | uniform pool => pool.nodeLimit
  | powerLaw pool => nodeRoom pool.bounds.maxNodes
  | exactFit _ => 0

/-- An entry of a node that fits is refused for the reason that `check` gives. -/
theorem add_eq_check {pool : Pool} {node : Nat} (hnode : node < pool.nodeLimit) (entry : UInt32) :
    (pool.add node entry).2 = pool.check node := by
  cases pool with
  | uniform pool => exact UniformPool.add_eq_check hnode entry
  | powerLaw pool => exact PowerLawPool.add_eq_check hnode entry
  | exactFit pool => exact absurd hnode (Nat.not_lt_zero node)

/-- Every node that a pool was made for fits. -/
theorem maxNodes_le_nodeLimit {limits : Limits} {pool : Pool} (hserves : pool.Serves limits)
    (hopen : pool.isSealed = false) (hnodes : 0 < limits.maxNodesPerSegment)
    (hdegree : 0 < limits.maxDegree) : limits.maxNodesPerSegment ≤ pool.nodeLimit := by
  cases pool with
  | uniform pool =>
    obtain ⟨hmaxNodes, hmaxDegree⟩ := hserves
    rw [← hmaxNodes] at hnodes ⊢
    exact UniformPool.maxNodes_le_nodeLimit hnodes (hmaxDegree ▸ hdegree)
  | powerLaw pool =>
    have hbounds : pool.bounds.maxNodes = limits.maxNodesPerSegment := by rw [hserves]
    rw [← hbounds] at hnodes ⊢
    exact le_nodeRoom _ hnodes
  | exactFit pool => contradiction

/-- An entry is written for a node that fits. -/
theorem lt_nodeLimit_of_add {pool : Pool} {node : Nat} {entry : UInt32}
    (hadd : (pool.add node entry).2 = .ok ()) : node < pool.nodeLimit := by
  cases pool with
  | uniform pool =>
    simp only [add, UniformPool.add] at hadd
    split at hadd
    · contradiction
    · exact UniformPool.lt_nodeLimit_of_refusal ‹_›
  | powerLaw pool =>
    simp only [add, PowerLawPool.add] at hadd
    split at hadd
    · contradiction
    · exact PowerLawPool.lt_nodeRoom_of_refusal ‹_›
  | exactFit pool => contradiction

theorem isSealed_of_check {pool : Pool} {node : Nat} (hcheck : pool.check node = .ok ()) :
    pool.isSealed = false := by
  cases pool with
  | uniform pool =>
    simp only [check, UniformPool.check] at hcheck
    split at hcheck
    · contradiction
    · exact Bool.eq_false_iff.mpr ‹_›
  | powerLaw pool =>
    simp only [check, PowerLawPool.check] at hcheck
    split at hcheck
    · contradiction
    · exact Bool.eq_false_iff.mpr ‹_›
  | exactFit pool => contradiction

theorem degree_lt_of_check {limits : Limits} {pool : Pool} {node : Nat}
    (hserves : pool.Serves limits) (hcheck : pool.check node = .ok ()) :
    pool.degree node < limits.maxDegree := by
  cases pool with
  | uniform pool =>
    obtain ⟨-, hdegree⟩ := hserves
    rw [← hdegree]
    simp only [check, UniformPool.check] at hcheck
    split at hcheck
    · contradiction
    split at hcheck
    · contradiction
    · exact Nat.lt_of_not_le ‹_›
  | powerLaw pool =>
    have hdegree : pool.bounds.maxDegree = limits.maxDegree := by rw [hserves]
    rw [← hdegree]
    by_contra hfull
    have hrefusal : pool.listRefusal node = some (.capacity .degree pool.bounds.maxDegree) :=
      if_pos (Nat.le_of_not_lt hfull)
    simp only [check, PowerLawPool.check, hrefusal] at hcheck
    split at hcheck
    · contradiction
    · contradiction
  | exactFit pool => contradiction

theorem add_of_check {limits : Limits} {pool : Pool} (h : pool.Sound) (hserves : pool.Serves limits)
    {node : Nat} (hnode : node < limits.maxNodesPerSegment) (hcheck : pool.check node = .ok ())
    (entry : UInt32) :
    ∃ grown, pool.add node entry = (grown, .ok ()) ∧ Appends limits pool grown node entry := by
  have hdegree := degree_lt_of_check hserves hcheck
  have hlimit := maxNodes_le_nodeLimit hserves (isSealed_of_check hcheck)
    (Nat.zero_lt_of_lt hnode) (Nat.zero_lt_of_lt hdegree)
  have hanswer := (add_eq_check (Nat.lt_of_lt_of_le hnode hlimit) entry).trans hcheck
  obtain ⟨fault, hadd⟩ | hadd := add_cases h hserves node entry
  · rw [hadd] at hanswer
    contradiction
  · exact hadd

/-- Below the edge bound an open pool refuses a node only at its degree bound. -/
theorem check_eq {limits : Limits} {pool : Pool} (h : pool.Sound) (hserves : pool.Serves limits)
    (hsealed : pool.isSealed = false) (hnodes : pool.nodeCount ≤ limits.maxNodesPerSegment)
    {node : Nat} (hnode : node < limits.maxNodesPerSegment)
    (hedges : pool.edgeCount < limits.segmentEdgeCapacity)
    (hcapacity : limits.segmentEdgeCapacity < UInt32.size) :
    pool.check node = if limits.maxDegree ≤ (pool.row node).size then
      .error (.capacity .degree limits.maxDegree) else .ok () := by
  cases pool with
  | uniform pool =>
    obtain ⟨-, hdegree⟩ := hserves
    change pool.isSealed = false at hsealed
    show pool.check node = _
    unfold UniformPool.check
    rw [hsealed, hdegree]
    rfl
  | powerLaw pool =>
    have hbounds : pool.bounds = _ := hserves
    -- edge bounds of 32 bits leave the shared room uncapped
    have hbudget : 4 * limits.segmentEdgeCapacity < UInt64.size := by
      have : 4 * UInt32.size < UInt64.size := by decide
      omega
    have heq : pool.check node = if pool.bounds.maxDegree ≤ (pool.row node).size then
        .error (.capacity .degree pool.bounds.maxDegree) else .ok () := by
      apply PowerLawPool.check_eq h hsealed
      all_goals rw [hbounds]
      · exact hnodes
      · exact hnode
      · exact hedges
      · exact hbudget
    rw [hbounds] at heq
    exact heq
  | exactFit pool => simp [isSealed] at hsealed

/-! ## Sealing and repacking -/

@[simp] theorem row_sealed (pool : Pool) (node : Nat) : pool.sealed.row node = pool.row node := by
  cases pool <;> rfl

@[simp] theorem nodeCount_sealed (pool : Pool) : pool.sealed.nodeCount = pool.nodeCount := by
  cases pool <;> rfl

@[simp] theorem isSealed_sealed (pool : Pool) : pool.sealed.isSealed = true := by
  cases pool <;> rfl

theorem sealed_sound {pool : Pool} (h : pool.Sound) : pool.sealed.Sound := by
  cases pool with
  | uniform pool => exact h
  | powerLaw pool => exact PowerLawPool.Sound.sealed h
  | exactFit pool => exact h

theorem sealed_serves {limits : Limits} {pool : Pool} (h : pool.Serves limits) :
    pool.sealed.Serves limits := by
  cases pool <;> exact h

/-- A pool is repacked if it is sealed and has no more entries than 32 bits count. -/
theorem repack_eq_ok_iff {pool : Pool} {repacked : ExactFitPool} :
    pool.repack = .ok repacked ↔ pool.isSealed = true ∧ pool.edgeCount < UInt32.size ∧
      .ofRows ((List.range pool.copiedNodes).map pool.row) = repacked := by
  have hexceeds : ExactFitPool.maxEntries < pool.edgeCount ↔ UInt32.size ≤ pool.edgeCount :=
    Nat.lt_iff_add_one_le
  unfold repack
  cases pool.isSealed with
  | false => simp
  | true =>
    by_cases hedges : pool.edgeCount < UInt32.size
    · have hfits : ¬ExactFitPool.maxEntries < pool.edgeCount :=
        mt hexceeds.mp (Nat.not_le.mpr hedges)
      simp [hedges, hfits]
    · simp [hedges, hexceeds.mpr (Nat.le_of_not_lt hedges)]

theorem repack_sound {pool : Pool} (h : pool.Sound) (hnodes : pool.nodeCount < UInt32.size)
    {repacked : ExactFitPool} (hrepack : pool.repack = .ok repacked) :
    (exactFit repacked).Sound ∧ (exactFit repacked).nodeCount = pool.nodeCount ∧
      ∀ node, (exactFit repacked).row node = pool.row node := by
  obtain ⟨-, -, rfl⟩ := repack_eq_ok_iff.mp hrepack
  obtain ⟨hsound, hcount, hrow⟩ :=
    ExactFitPool.ofRows_sound ((List.range pool.copiedNodes).map pool.row)
  rw [List.length_map, List.length_range, copiedNodes_of_lt hnodes] at hcount
  rw [copiedNodes_of_lt hnodes] at hsound hrow ⊢
  refine ⟨hsound, hcount, fun node => (hrow node).trans ?_⟩
  -- nodes beyond the count have no row on either side
  by_cases hlt : node < pool.nodeCount
  · simp [List.getD_eq_getElem?_getD, hlt]
  · rw [row_of_nodeCount_le h (by omega), List.getD_eq_getElem?_getD,
      List.getElem?_eq_none (by simpa using hlt), Option.getD_none]

end Pool

end Slidewalk
