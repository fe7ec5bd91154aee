import Mathlib.Algebra.BigOperators.Group.List.Lemmas
import Mathlib.Data.List.Dedup
import Slidewalk.Proofs.Binary64.Whole
import Slidewalk.Proofs.Totals
import Slidewalk.Salsa.Walk

/-!
# Walkers are counted exactly

In sampled mode mass is a number of walkers, held as a double for each node. A table counts walkers
if some list of them, by the node each stands on, gives all its entries. Then adding to it and
summing it up is exact, as far as doubles count.
-/

namespace Slidewalk.Salsa

open Binary64 (countLimit)

/-! ## Counting with a double -/

/-- What a double has counted to: it stays where doubles stop to count. -/
def counter (count : Nat) : Binary64 := Binary64.ofNat (min count countLimit)

theorem counter_of_le {count : Nat} (h : count ≤ countLimit) :
    counter count = Binary64.ofNat count := by
  rw [counter, Nat.min_eq_left h]

theorem counter_add_one (count : Nat) : counter count + 1.0 = counter (count + 1) := by
  have hone : (1.0 : Binary64) = Binary64.ofNat 1 := rfl
  rw [hone]
  by_cases hlimit : count + 1 ≤ countLimit
  · rw [counter_of_le hlimit, counter_of_le (Nat.le_of_succ_le hlimit), Binary64.ofNat_add hlimit]
  · rw [counter, counter, Nat.min_eq_right (by omega), Nat.min_eq_right (by omega)]
    exact Binary64.ofNat_countLimit_add_one

theorem counter_add_ofNat {count more : Nat} (h : count + more ≤ countLimit) :
    counter count + Binary64.ofNat more = counter (count + more) := by
  rw [counter_of_le h, counter_of_le (by omega), Binary64.ofNat_add h]

theorem walkersOf_counter (count : Nat) : walkersOf (counter count) = min count countLimit :=
  Binary64.toUInt64_ofNat (Nat.min_le_right _ _)

/-! ## Counting on nodes -/

/-- What is held for each node counts the walkers there, and there are so many in all. -/
def Counted (held : NodeId → Option Binary64) (number : Nat) : Prop :=
  ∃ walkers : List NodeId, walkers.length = number ∧ ∀ node, held node =
    if walkers.count node = 0 then none else some (counter (walkers.count node))

namespace Counted

variable {held next : NodeId → Option Binary64} {number : Nat}

theorem empty (h : ∀ node, held node = none) : Counted held 0 := ⟨[], rfl, h⟩

/-- More walkers come to a node. -/
theorem add (h : Counted held number) (node : NodeId) {count : Nat} (hpos : 0 < count)
    {amount : Binary64}
    (hamount : ∀ before ≤ number, counter before + amount = counter (before + count))
    (hnext : ∀ other, next other =
      if node = other then some ((held node).getD 0.0 + amount) else held other) :
    Counted next (number + count) := by
  obtain ⟨walkers, rfl, hheld⟩ := h
  refine ⟨List.replicate count node ++ walkers, by simp [Nat.add_comm], fun other => ?_⟩
  rw [hnext, List.count_append]
  by_cases hsame : node = other
  · subst hsame
    have hbefore : (held node).getD 0.0 = counter (walkers.count node) := by
      rw [hheld]
      split
      · rename_i hzero
        rw [hzero]
        rfl
      · rfl
    rw [if_pos rfl, List.count_replicate_self, if_neg (by omega), hbefore,
      hamount _ List.count_le_length, Nat.add_comm]
  · have hnone : (List.replicate count node).count other = 0 :=
      List.count_eq_zero.mpr fun hmem => hsame (List.eq_of_mem_replicate hmem).symm
    rw [if_neg hsame, hnone, Nat.zero_add]
    exact hheld other

end Counted

/-- A table of amounts counts walkers. -/
def Tallies {α : Type} (amount : α → Binary64) (table : Std.TreeMap NodeId α) (number : Nat) :
    Prop :=
  Counted (fun node => (table[node]?).map amount) number

/-- The walkers on all nodes of a table. -/
def walkersIn {α : Type} (amount : α → Binary64) (table : Std.TreeMap NodeId α) : Nat :=
  total (fun entry => walkersOf (amount entry.2)) table.toList

/-! ## Moving -/

section Moving

variable {mass : Mass} {visits : Visits} {node : NodeId} {number count : Nat}

theorem tallies_empty : Tallies id Mass.empty 0 := Counted.empty fun _ => rfl

theorem Tallies.add (h : Tallies id mass number) (hpos : 0 < count)
    (hlimit : number + count ≤ countLimit) :
    Tallies id (mass.add node (Binary64.ofNat count)) (number + count) := by
  refine Counted.add h node hpos (fun before hle => counter_add_ofNat (by omega)) fun other => ?_
  rw [Mass.getElem?_add, Option.map_id]
  rfl

theorem Tallies.addOne (h : Tallies id mass number) :
    Tallies id (mass.add node 1.0) (number + 1) := by
  refine Counted.add h node Nat.one_pos (fun before _ => counter_add_one before) fun other => ?_
  rw [Mass.getElem?_add, Option.map_id]
  rfl

theorem Tallies.arrive (h : Tallies (·.mass) visits number) (credit : Option Visit.Credit) :
    Tallies (·.mass) (visits.arrive node 1.0 credit) (number + 1) := by
  refine Counted.add h node Nat.one_pos (fun before _ => counter_add_one before) fun other => ?_
  rw [Visits.getElem?_arrive]
  split
  -- a new visit starts without mass
  · cases visits[node]? with
    | none => rfl
    | some visit => rfl
  · rfl

end Moving

/-! ## Summing up -/

/-- Counting node by node counts every walker. -/
theorem total_count {nodes walkers : List NodeId} (hnodup : nodes.Nodup)
    (hnodes : ∀ node, node ∈ nodes ↔ node ∈ walkers) :
    total (walkers.count ·) nodes = walkers.length := by
  have hperm : nodes.Perm walkers.dedup := by
    rw [List.perm_ext_iff_of_nodup hnodup (List.nodup_dedup walkers)]
    intro node
    rw [hnodes, List.mem_dedup]
  rw [total_eq_sum, (hperm.map _).sum_eq, List.sum_map_count_dedup_eq_length]

namespace Tallies

variable {α : Type} {amount : α → Binary64} {table : Std.TreeMap NodeId α} {number : Nat}

/-- Entry by entry a table holds numbers of walkers, and they add up. -/
theorem exists_counts (h : Tallies amount table number) :
    ∃ counts : NodeId × α → Nat, total counts table.toList = number ∧
      ∀ entry ∈ table.toList, amount entry.2 = counter (counts entry) ∧
        counts entry ≤ number := by
  obtain ⟨walkers, rfl, hheld⟩ := h
  refine ⟨fun entry => walkers.count entry.1, ?_, fun entry hentry =>
    ⟨?_, List.count_le_length⟩⟩
  · have hkeys : table.toList.map (·.1) = table.keys := Std.TreeMap.map_fst_toList_eq_keys
    have htotal : total (fun entry : NodeId × α => walkers.count entry.1) table.toList =
        total (walkers.count ·) table.keys := by
      rw [total_eq_sum, total_eq_sum, ← hkeys, List.map_map]
      rfl
    rw [htotal]
    apply total_count Std.TreeMap.nodup_keys
    intro node
    have hcount := hheld node
    dsimp only at hcount
    rw [Std.TreeMap.mem_keys, ← Std.TreeMap.isSome_getElem?_iff_mem, ← List.count_pos_iff]
    cases hfound : table[node]? with
    | none =>
      rw [hfound] at hcount
      split at hcount
      · simp only [Option.isSome_none, Bool.false_eq_true, false_iff]
        omega
      · contradiction
    | some value =>
      rw [hfound] at hcount
      split at hcount
      · contradiction
      · simp only [Option.isSome_some, true_iff]
        omega
  · have hfound := Std.TreeMap.mem_toList_iff_getElem?_eq_some.mp hentry
    have hcount := hheld entry.1
    dsimp only at hcount
    rw [hfound] at hcount
    split at hcount
    · contradiction
    · exact Option.some.inj hcount

/-- The walkers on all nodes are all walkers, unless a node may have more of them than doubles
count. -/
theorem walkersIn_eq (h : Tallies amount table number)
    (hexact : number ≤ countLimit ∨ ∀ (node : NodeId) (value : α), table[node]? = some value →
      walkersOf (amount value) < countLimit) :
    walkersIn amount table = number := by
  obtain ⟨counts, htotal, hcounts⟩ := h.exists_counts
  rw [walkersIn, total_eq_sum, ← htotal, total_eq_sum]
  apply congrArg List.sum
  apply List.map_congr_left
  intro entry hentry
  obtain ⟨hamount, hle⟩ := hcounts entry hentry
  rw [hamount, walkersOf_counter]
  rcases hexact with hlimit | hlimit
  · exact Nat.min_eq_left (Nat.le_trans hle hlimit)
  · have hless := hlimit entry.1 entry.2 (Std.TreeMap.mem_toList_iff_getElem?_eq_some.mp hentry)
    rw [hamount, walkersOf_counter] at hless
    omega

end Tallies

/-- Numbers of walkers add up as doubles do. -/
theorem foldl_add_eq {α : Type} {amount : α → Binary64} {entries : List (NodeId × α)}
    {counts : NodeId × α → Nat}
    (hcounts : ∀ entry ∈ entries, amount entry.2 = counter (counts entry)) {sum : Nat}
    (hlimit : sum + total counts entries ≤ countLimit) :
    entries.foldl (fun sum entry => sum + amount entry.2) (Binary64.ofNat sum) =
      Binary64.ofNat (sum + total counts entries) := by
  induction entries generalizing sum with
  | nil => rfl
  | cons entry rest ih =>
    rw [total_cons, ← Nat.add_assoc] at hlimit ⊢
    rw [List.foldl_cons, hcounts entry List.mem_cons_self, counter_of_le (by omega),
      Binary64.ofNat_add (by omega)]
    exact ih (fun other hother => hcounts other (List.mem_cons_of_mem _ hother)) hlimit

theorem Tallies.foldl_eq {α : Type} {amount : α → Binary64} {table : Std.TreeMap NodeId α}
    {number : Nat} (h : Tallies amount table number) (hlimit : number ≤ countLimit) :
    table.foldl (fun sum _ value => sum + amount value) 0.0 = Binary64.ofNat number := by
  obtain ⟨counts, htotal, hcounts⟩ := h.exists_counts
  have hbound : 0 + total counts table.toList ≤ countLimit := by
    rw [htotal, Nat.zero_add]
    exact hlimit
  have hsum := foldl_add_eq (fun entry hentry => (hcounts entry hentry).1) hbound
  rw [htotal, Nat.zero_add] at hsum
  rw [Std.TreeMap.foldl_eq_foldl_toList]
  exact hsum

end Slidewalk.Salsa
