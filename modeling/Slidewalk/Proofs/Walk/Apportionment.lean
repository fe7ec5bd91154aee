import Slidewalk.Proofs.Sorting
import Slidewalk.Proofs.Totals
import Slidewalk.Salsa.Seeding

/-!
# Apportionment by largest remainders

Every node of a distribution gets the whole part of its share of the walkers. The walkers that are
left over go one each to the shares that come first by remainder, and there is one such order if the
nodes are distinct. Shares are sorted by position, but the positions do not show: what is listed can
be read off the shares.
-/

namespace Slidewalk.Salsa

namespace WalkerShare

variable {a b : WalkerShare}

/-- Whether one share is rounded up before another: by the larger remainder, then by the smaller
node. -/
def Outranks (a b : WalkerShare) : Prop :=
  b.remainder.totalKey < a.remainder.totalKey ∨
    a.remainder.totalKey = b.remainder.totalKey ∧ a.node < b.node

theorem precedes_iff :
    a.precedes b = true ↔ b.remainder.totalKey < a.remainder.totalKey ∨
      a.remainder.totalKey = b.remainder.totalKey ∧ a.node.toNat ≤ b.node.toNat := by
  unfold precedes
  dsimp only
  by_cases hremainder : a.remainder.totalKey = b.remainder.totalKey
  · rw [if_neg (Decidable.not_not.mpr hremainder), decide_eq_true_eq, UInt64.le_iff_toNat_le]
    omega
  · rw [if_pos hremainder, decide_eq_true_eq]
    omega

theorem ranks : Ranks (·.node) precedes Outranks where
  trans a b c hab hbc := by
    rw [precedes_iff] at *
    omega
  total a b := by
    rw [Bool.or_eq_true, precedes_iff, precedes_iff]
    omega
  strict a b h hne := by
    have hdiffer : a.node.toNat ≠ b.node.toNat := mt UInt64.toNat_inj.mp hne
    rw [precedes_iff] at h
    unfold Outranks
    rw [UInt64.lt_iff_toNat_lt]
    omega

end WalkerShare

/-- The walkers a share comes to if some shares are rounded up. -/
def WalkerShare.count (raised : List WalkerShare) (share : WalkerShare) : Nat :=
  share.whole + if share ∈ raised then 1 else 0

/-! ## Positions and shares -/

section Positions

variable {shares : List WalkerShare}

/-- The shares without their positions are sorted in the same order. -/
theorem map_fst_sorted (shares : List WalkerShare) :
    (shares.zipIdx.mergeSort fun a b => a.1.precedes b.1).map (·.1) =
      shares.mergeSort WalkerShare.precedes := by
  rw [List.map_mergeSort (s := WalkerShare.precedes) fun _ _ _ _ => rfl]
  congr 1
  exact List.zipIdx_map_fst 0 shares

/-- No position is rounded up twice. -/
theorem nodup_roundingOrder (shares : List WalkerShare) : (roundingOrder shares).Nodup := by
  unfold roundingOrder
  rw [((List.mergeSort_perm _ _).map _).nodup_iff, List.zipIdx_map_snd]
  exact List.nodup_range'

variable (hnodup : (shares.map (·.node)).Nodup)

include hnodup

/-- A position is rounded up exactly if the share at it is. -/
theorem mem_take_roundingOrder_iff (count : Nat) {share : WalkerShare} {position : Nat}
    (h : shares[position]? = some share) :
    position ∈ (roundingOrder shares).take count ↔
      share ∈ (shares.mergeSort WalkerShare.precedes).take count := by
  have hplaced (entry : WalkerShare × Nat)
      (hentry : entry ∈ (shares.zipIdx.mergeSort fun a b => a.1.precedes b.1).take count) :
      shares[entry.2]? = some entry.1 :=
    List.mem_zipIdx_iff_getElem?.mp
      ((List.mergeSort_perm _ _).mem_iff.mp (List.mem_of_mem_take hentry))
  rw [roundingOrder, ← map_fst_sorted, ← List.map_take, ← List.map_take]
  constructor
  · intro hposition
    obtain ⟨entry, hentry, rfl⟩ := List.mem_map.mp hposition
    -- there is one share at a position
    obtain rfl := Option.some.inj ((hplaced entry hentry).symm.trans h)
    exact List.mem_map_of_mem hentry
  · intro hshare
    obtain ⟨entry, hentry, rfl⟩ := List.mem_map.mp hshare
    -- there is one position of a share
    have hsame : position = entry.2 := by
      obtain ⟨hlt, -⟩ := List.getElem?_eq_some_iff.mp h
      apply (List.getElem?_inj hlt (hnodup.of_map _)).mp
      rw [h, hplaced entry hentry]
    rw [hsame]
    exact List.mem_map_of_mem hentry

/-- Raising the shares at the first positions raises the shares that come first, once each. -/
theorem raiseAt_eq (count : Nat) :
    raiseAt shares ((roundingOrder shares).take count) = shares.map fun share =>
      { share with whole := share.count ((shares.mergeSort WalkerShare.precedes).take count) } := by
  apply List.ext_getElem?
  intro position
  rw [getElem?_raiseAt, List.getElem?_map]
  cases hshare : shares[position]? with
  | none => rfl
  | some share =>
    -- a position that is listed once is raised by one walker
    have honce := (nodup_roundingOrder shares).sublist (List.take_sublist count _)
    rw [honce.count, if_congr (mem_take_roundingOrder_iff hnodup count hshare) rfl rfl]
    rfl

end Positions

/-! ## What is handed out -/

/-- The walkers that the whole parts make up. -/
def assignedWalkers (distribution : Distribution) (walkers : Nat) : Nat :=
  total (·.whole) (sharesOf distribution walkers)

/-- The shares that are rounded up. -/
def raisedShares (distribution : Distribution) (walkers : Nat) : List WalkerShare :=
  ((sharesOf distribution walkers).mergeSort WalkerShare.precedes).take
    (walkers - assignedWalkers distribution walkers)

/-- The walkers of each node that has any, if some shares are rounded up. -/
def countsOf (distribution : Distribution) (walkers : Nat) (raised : List WalkerShare) :
    List (NodeId × Nat) :=
  ((sharesOf distribution walkers).map fun share => (share.node, share.count raised)).filter
    fun (_, count) => 0 < count

variable {distribution : Distribution} (walkers : Nat)

theorem apportion?_eq_none_iff :
    apportion? distribution walkers = none ↔
      UInt64.size ≤ assignedWalkers distribution walkers := by
  unfold apportion?
  dsimp only
  rw [Option.map_eq_none_iff, total?_eq, ite_eq_right_iff, assignedWalkers]
  simp

theorem map_node_sharesOf (distribution : Distribution) :
    (sharesOf distribution walkers).map (·.node) = distribution.map (·.1) := by
  rw [sharesOf, List.map_map]
  rfl

theorem length_sharesOf (distribution : Distribution) :
    (sharesOf distribution walkers).length = distribution.length :=
  List.length_map _

/-- Nodes that are not listed have no walkers. -/
theorem total_filter_positive (entries : List (NodeId × Nat)) :
    total (·.2) (entries.filter fun (_, count) => 0 < count) = total (·.2) entries := by
  rw [total_filter]
  apply total_congr
  intro entry _
  by_cases h : 0 < entry.2
  · rw [if_pos (decide_eq_true h)]
  · rw [if_neg (by simpa using h)]
    omega

section Distinct

variable (hdistinct : (distribution.map (·.1)).Nodup)

include hdistinct

theorem nodup_sharesOf : ((sharesOf distribution walkers).map (·.node)).Nodup := by
  rw [map_node_sharesOf]
  exact hdistinct

theorem first_raisedShares :
    First WalkerShare.Outranks (sharesOf distribution walkers)
      (walkers - assignedWalkers distribution walkers) (raisedShares distribution walkers) :=
  WalkerShare.ranks.first_take (nodup_sharesOf walkers hdistinct) _

/-- The counts can be read off the shares, in the order of the distribution. -/
theorem apportion?_of_fits (hfits : assignedWalkers distribution walkers < UInt64.size) :
    apportion? distribution walkers =
      some (countsOf distribution walkers (raisedShares distribution walkers)) := by
  have hraised := raiseAt_eq (nodup_sharesOf walkers hdistinct)
    (walkers - assignedWalkers distribution walkers)
  unfold assignedWalkers at hraised hfits
  unfold apportion?
  dsimp only
  rw [total?_eq, if_pos hfits, Option.map_some, hraised, List.map_map]
  rfl

theorem eq_countsOf {counts : List (NodeId × Nat)}
    (h : apportion? distribution walkers = some counts) :
    counts = countsOf distribution walkers (raisedShares distribution walkers) := by
  have hfits : ¬UInt64.size ≤ assignedWalkers distribution walkers := by
    rw [← apportion?_eq_none_iff, h]
    exact Option.some_ne_none counts
  rw [apportion?_of_fits walkers hdistinct (Nat.lt_of_not_le hfits)] at h
  exact (Option.some.inj h).symm

theorem countP_raisedShares :
    (sharesOf distribution walkers).countP
        (fun share => decide (share ∈ raisedShares distribution walkers)) =
      min (walkers - assignedWalkers distribution walkers) distribution.length := by
  -- the raised shares are distinct shares of the distribution: they are counted by their number
  have hfirst := first_raisedShares walkers hdistinct
  have hshares := (nodup_sharesOf walkers hdistinct).of_map
  have hraised : (raisedShares distribution walkers).Nodup :=
    (List.take_sublist _ _).nodup ((List.mergeSort_perm _ _).nodup_iff.mpr hshares)
  rw [countP_mem_of_subset hraised hshares hfirst.mem, hfirst.length, length_sharesOf]

theorem total_countsOf :
    total (·.2) (countsOf distribution walkers (raisedShares distribution walkers)) =
      assignedWalkers distribution walkers +
        min (walkers - assignedWalkers distribution walkers) distribution.length := by
  calc total (·.2) (countsOf distribution walkers (raisedShares distribution walkers))
    _ = total (·.count (raisedShares distribution walkers)) (sharesOf distribution walkers) := by
      rw [countsOf, total_filter_positive, total_map]
    _ = assignedWalkers distribution walkers +
          total (fun share => (decide (share ∈ raisedShares distribution walkers)).toNat)
            (sharesOf distribution walkers) := by
      rw [assignedWalkers, ← total_add]
      apply total_congr
      intro share _
      unfold WalkerShare.count
      split <;> simp_all
    _ = _ := by rw [total_toNat, countP_raisedShares walkers hdistinct]

end Distinct

/-- How walkers are shared out, if the whole parts add up in 64 bits: the whole parts, and one more
walker for each raised share. -/
structure Apportioned (distribution : Distribution) (walkers : Nat) (raised : List WalkerShare) :
    Prop where
  /-- As many shares are raised as walkers are left over, if there are as many. -/
  first : First WalkerShare.Outranks (sharesOf distribution walkers)
    (walkers - assignedWalkers distribution walkers) raised
  raisedCount : (sharesOf distribution walkers).countP (fun share => decide (share ∈ raised)) =
    min (walkers - assignedWalkers distribution walkers) distribution.length
  refused : apportion? distribution walkers = none ↔
    UInt64.size ≤ assignedWalkers distribution walkers
  counts : assignedWalkers distribution walkers < UInt64.size →
    apportion? distribution walkers = some (countsOf distribution walkers raised)
  handedOut : ∀ counts, apportion? distribution walkers = some counts →
    total (·.2) counts = assignedWalkers distribution walkers +
      min (walkers - assignedWalkers distribution walkers) distribution.length
  exact : ∀ counts, apportion? distribution walkers = some counts →
    assignedWalkers distribution walkers ≤ walkers →
      walkers ≤ assignedWalkers distribution walkers + distribution.length →
        total (·.2) counts = walkers
  /-- No count is larger than the walkers or the whole parts together. -/
  bounded : ∀ counts, apportion? distribution walkers = some counts → ∀ entry ∈ counts,
    entry.2 ≤ max walkers (assignedWalkers distribution walkers)

theorem apportioned (hdistinct : (distribution.map (·.1)).Nodup) :
    Apportioned distribution walkers (raisedShares distribution walkers) := by
  have htotal := total_countsOf walkers hdistinct
  constructor
  case first => exact first_raisedShares walkers hdistinct
  case raisedCount => exact countP_raisedShares walkers hdistinct
  case refused => exact apportion?_eq_none_iff walkers
  case counts => exact apportion?_of_fits walkers hdistinct
  case handedOut =>
    intro counts hcounts
    rw [eq_countsOf walkers hdistinct hcounts, htotal]
  case exact =>
    intro counts hcounts hleast hmost
    rw [eq_countsOf walkers hdistinct hcounts, htotal]
    omega
  case bounded =>
    intro counts hcounts entry hentry
    rw [eq_countsOf walkers hdistinct hcounts] at hentry
    have hle := le_total_of_mem (fun entry : NodeId × Nat => entry.2) hentry
    omega

/-- The nodes a walk starts from are distinct. -/
theorem nodup_seedDistribution (request : Request) :
    ((seedDistribution request).map (·.1)).Nodup :=
  (List.filter_sublist.map _).nodup (seedWeights request).nodup_nodes

/-- Walkers that are left over go to the shares with the largest remainders, of distinct nodes in
general and of those that a walk starts from. -/
theorem walkers_apportioned_by_remainder :
    (∀ distribution : Distribution, (distribution.map (·.1)).Nodup →
      ∀ walkers, ∃ raised, Apportioned distribution walkers raised) ∧
    ∀ request walkers, ∃ raised, Apportioned (seedDistribution request) walkers raised :=
  ⟨fun _ hdistinct walkers => ⟨_, apportioned walkers hdistinct⟩,
    fun request walkers => ⟨_, apportioned walkers (nodup_seedDistribution request)⟩⟩

/-- One walker is left over, two nodes have the same remainder, and one node has no walkers. -/
theorem tied_apportioned_by_remainder :
    (([(9, 0.5), (4, 0.5), (6, 0.0)] : Distribution).map (·.1)).Nodup ∧
      (∃ raised, Apportioned [(9, 0.5), (4, 0.5), (6, 0.0)] 3 raised) ∧
        ∃ counts, apportion? [(9, 0.5), (4, 0.5), (6, 0.0)] 3 = some counts ∧
          total (·.2) counts = 3 := by
  have hdistinct : (([(9, 0.5), (4, 0.5), (6, 0.0)] : Distribution).map (·.1)).Nodup := by decide
  obtain ⟨raised, happortioned⟩ := walkers_apportioned_by_remainder.1 _ hdistinct 3
  have hcounts := happortioned.counts (by decide)
  exact ⟨hdistinct, ⟨raised, happortioned⟩, _, hcounts,
    happortioned.exact _ hcounts (by decide) (by decide)⟩

end Slidewalk.Salsa
