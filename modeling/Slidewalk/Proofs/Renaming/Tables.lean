import Slidewalk.Proofs.Renaming.Pairing
import Slidewalk.Salsa.Mass

/-!
# Tables of nodes under renamed ids

Tables by ascending node pair up if they list paired ids one by one. Because the pairs are in the
same order on both sides, it is enough that each table finds what the other one has.
-/

namespace Slidewalk

open Salsa (Mass)

namespace Renaming

variable {names : Renaming} {side : Side} {α β : Type} {R : α → β → Prop}
  {table next : Std.TreeMap NodeId α} {table' next' : Std.TreeMap NodeId β} {key key' : NodeId}
  {value : α} {value' : β}

theorem pairwise_toList (table : Std.TreeMap NodeId α) :
    table.toList.Pairwise fun entry entry' => entry.1 < entry'.1 :=
  Std.TreeMap.ordered_keys_toList.imp fun hless => Std.compare_eq_lt.mp hless

def PairsTables (names : Renaming) (side : Side) (R : α → β → Prop)
    (table : Std.TreeMap NodeId α) (table' : Std.TreeMap NodeId β) : Prop :=
  List.Forall₂ (fun entry entry' => names.Pairs side entry.1 entry'.1 ∧ R entry.2 entry'.2)
    table.toList table'.toList

/-- The second table finds what the first one has. -/
def Covers (names : Renaming) (side : Side) (R : α → β → Prop)
    (table : Std.TreeMap NodeId α) (table' : Std.TreeMap NodeId β) : Prop :=
  ∀ (key : NodeId) (value : α), table[key]? = some value →
    ∃ (key' : NodeId) (value' : β), table'[key']? = some value' ∧ names.Pairs side key key' ∧
      R value value'

theorem covers_update (h : names.Covers side R table table') (hkey : names.Pairs side key key')
    (hvalue : R value value')
    (hnext : ∀ other : NodeId, next[other]? = if key = other then some value else table[other]?)
    (hnext' : ∀ other : NodeId,
      next'[other]? = if key' = other then some value' else table'[other]?) :
    names.Covers side R next next' := by
  intro other found hfound
  rw [hnext] at hfound
  by_cases hsame : key = other
  · subst hsame
    rw [if_pos rfl] at hfound
    obtain rfl := Option.some.inj hfound
    exact ⟨key', value', by rw [hnext', if_pos rfl], hkey, hvalue⟩
  · rw [if_neg hsame] at hfound
    obtain ⟨other', found', hfound', hother, hrelated⟩ := h other found hfound
    -- a pairing that keeps the order is one to one, so another key has another partner
    have hdiffer : ¬key' = other' := fun heq => hsame ((eq_iff hkey hother).mpr heq)
    exact ⟨other', found', by rw [hnext', if_neg hdiffer, hfound'], hother, hrelated⟩

namespace PairsTables

theorem symm (h : names.PairsTables side R table table') :
    names.symm.PairsTables side (flip R) table' table :=
  h.flip

theorem covers (h : names.PairsTables side R table table') : names.Covers side R table table' := by
  intro key value hfound
  have hmem := Std.TreeMap.mem_toList_iff_getElem?_eq_some.mpr hfound
  obtain ⟨⟨key', value'⟩, hmem', hkey, hvalue⟩ := exists_of_mem_of_forall₂ h hmem
  exact ⟨key', value', Std.TreeMap.mem_toList_iff_getElem?_eq_some.mp hmem', hkey, hvalue⟩

theorem of_covers (hto : names.Covers side R table table')
    (hfrom : names.symm.Covers side (flip R) table' table) :
    names.PairsTables side R table table' := by
  refine forall₂_of_sorted ?_ ?_ (pairwise_toList table) (pairwise_toList table') ?_ ?_
  · rintro x x' y y' ⟨hx, -⟩ ⟨hy, -⟩
    exact names.lt_iff hx hy
  · exact fun _ _ hless => UInt64.lt_asymm hless
  · rintro ⟨key, value⟩ hmem
    have hfound := Std.TreeMap.mem_toList_iff_getElem?_eq_some.mp hmem
    obtain ⟨key', value', hfound', hrelated⟩ := hto key value hfound
    exact ⟨(key', value'), Std.TreeMap.mem_toList_iff_getElem?_eq_some.mpr hfound', hrelated⟩
  · rintro ⟨key', value'⟩ hmem
    have hfound' := Std.TreeMap.mem_toList_iff_getElem?_eq_some.mp hmem
    obtain ⟨key, value, hfound, hrelated⟩ := hfrom key' value' hfound'
    exact ⟨(key, value), Std.TreeMap.mem_toList_iff_getElem?_eq_some.mpr hfound, hrelated⟩

/-- Tables stay paired when both change under paired ids. -/
theorem update (h : names.PairsTables side R table table') (hkey : names.Pairs side key key')
    (hvalue : R value value')
    (hnext : ∀ other : NodeId, next[other]? = if key = other then some value else table[other]?)
    (hnext' : ∀ other : NodeId,
      next'[other]? = if key' = other then some value' else table'[other]?) :
    names.PairsTables side R next next' := by
  have hcovers := covers_update h.covers hkey hvalue hnext hnext'
  have hsymm : names.symm.Pairs side key' key := hkey
  exact of_covers hcovers (covers_update h.symm.covers hsymm hvalue hnext' hnext)

theorem empty : names.PairsTables side R ∅ ∅ := .nil

theorem insert (h : names.PairsTables side R table table') (hkey : names.Pairs side key key')
    (hvalue : R value value') :
    names.PairsTables side R (table.insert key value) (table'.insert key' value') := by
  refine h.update hkey hvalue (fun other => ?_) (fun other => ?_)
  · simp only [Std.TreeMap.getElem?_insert, Std.LawfulEqCmp.compare_eq_iff_eq]
  · simp only [Std.TreeMap.getElem?_insert, Std.LawfulEqCmp.compare_eq_iff_eq]

theorem getElem? (h : names.PairsTables side R table table') (hkey : names.Pairs side key key') :
    Option.Rel R table[key]? table'[key']? := by
  cases hfound : table[key]? with
  | some value =>
    obtain ⟨other, value', hfound', hother, hvalue⟩ := h.covers key value hfound
    obtain rfl := (eq_iff hkey hother).mp rfl
    rw [hfound']
    exact .some hvalue
  | none =>
    cases hfound' : table'[key']? with
    | none => exact .none
    | some value' =>
      obtain ⟨other, value, hother, hpair, -⟩ := h.symm.covers key' value' hfound'
      have hpair : names.Pairs side other key' := hpair
      obtain rfl := (eq_iff hkey hpair).mpr rfl
      rw [hfound] at hother
      contradiction

theorem contains (h : names.PairsTables side R table table') (hkey : names.Pairs side key key') :
    table'.contains key' = table.contains key := by
  have hfound := h.getElem? hkey
  rw [Std.TreeMap.contains_eq_isSome_getElem?, Std.TreeMap.contains_eq_isSome_getElem?]
  generalize table[key]? = found at hfound
  generalize table'[key']? = found' at hfound
  cases hfound with
  | none => rfl
  | some _ => rfl

theorem isEmpty (h : names.PairsTables side R table table') : table'.isEmpty = table.isEmpty := by
  rw [← Std.TreeMap.isEmpty_toList, ← Std.TreeMap.isEmpty_toList, isEmpty_eq_of_forall₂ h]

/-- Folds over paired tables go through related states. -/
theorem foldl {σ σ' : Type} {S : σ → σ' → Prop} (h : names.PairsTables side R table table')
    {step : σ → NodeId → α → σ} {step' : σ' → NodeId → β → σ'}
    (hstep : ∀ state state' key key' value value', S state state' → names.Pairs side key key' →
      R value value' → S (step state key value) (step' state' key' value'))
    {start : σ} {start' : σ'} (hstart : S start start') :
    S (table.foldl step start) (table'.foldl step' start') := by
  rw [Std.TreeMap.foldl_eq_foldl_toList, Std.TreeMap.foldl_eq_foldl_toList]
  exact List.rel_foldl (fun _ _ hstate _ _ hentry => hstep _ _ _ _ _ _ hstate hentry.1 hentry.2)
    hstart h

end PairsTables

/-! ## Mass -/

/-- Mass with equal amounts on paired nodes. -/
abbrev PairsMass (names : Renaming) (side : Side) (mass mass' : Mass) : Prop :=
  names.PairsTables side Eq mass mass'

namespace PairsMass

variable {mass mass' : Mass} {node node' : NodeId}

theorem empty : names.PairsMass side .empty .empty := PairsTables.empty

theorem add (h : names.PairsMass side mass mass') (hnode : names.Pairs side node node')
    (amount : Binary64) : names.PairsMass side (mass.add node amount) (mass'.add node' amount) := by
  have hheld := h.getElem? hnode
  have hamount : mass[node]?.getD 0.0 + amount = mass'[node']?.getD 0.0 + amount := by
    generalize mass[node]? = held at hheld
    generalize mass'[node']? = held' at hheld
    cases hheld with
    | none => rfl
    | some heq => exact congrArg (· + amount) heq
  exact PairsTables.update h hnode hamount (Mass.getElem?_add mass node amount)
    (Mass.getElem?_add mass' node' amount)

theorem total (h : names.PairsMass side mass mass') : mass'.total = mass.total :=
  (PairsTables.foldl (S := Eq) h (fun _ _ _ _ _ _ hsum _ hamount => by rw [hsum, hamount]) rfl).symm

end PairsMass

end Renaming

end Slidewalk
