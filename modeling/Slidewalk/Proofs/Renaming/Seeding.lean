import Slidewalk.Proofs.Renaming.SocialProof
import Slidewalk.Proofs.Renaming.Tables
import Slidewalk.Random.Draw
import Slidewalk.Salsa.Seeding

/-!
# Seeds under renamed ids

Paired requests start walks with equal weights and equally many walkers on paired seeds. Ties
between equal remainders go to the smaller node, which is the same one in both walks.
-/

namespace Slidewalk

open Slidewalk.Random (Stream Weighted)

/-! ## Weighted items -/

namespace Random.Weighted

variable {α β : Type} {R : α → β → Prop}

structure Pairs (R : α → β → Prop) (items : Weighted α) (items' : Weighted β) : Prop where
  first : R items.first items'.first
  rest : List.Forall₂ (fun entry entry' => entry.1 = entry'.1 ∧ R entry.2 entry'.2)
    items.rest items'.rest
  scale : items.scale = items'.scale

theorem partialSums_pairs {entries : List (α × Binary64)} {entries' : List (β × Binary64)}
    (h : List.Forall₂ (fun entry entry' => R entry.1 entry'.1 ∧ entry.2 = entry'.2)
      entries entries') (sum : Binary64) :
    Lockstep (List.Forall₂ fun entry entry' => entry.1 = entry'.1 ∧ R entry.2 entry'.2)
      (partialSums sum entries) (partialSums sum entries') := by
  induction h generalizing sum with
  | nil => exact ⟨.nil, rfl⟩
  | @cons entry entry' rest rest' hfirst _ ih =>
    obtain ⟨item, weight⟩ := entry
    obtain ⟨item', weight'⟩ := entry'
    obtain ⟨hitem, rfl⟩ := hfirst
    obtain ⟨hsums, htotal⟩ := ih (sum + weight)
    exact ⟨.cons ⟨rfl, hitem⟩ hsums, htotal⟩

theorem ofList?_pairs {entries : List (α × Binary64)} {entries' : List (β × Binary64)}
    (h : List.Forall₂ (fun entry entry' => R entry.1 entry'.1 ∧ entry.2 = entry'.2)
      entries entries') :
    Option.Rel (Pairs R) (ofList? entries) (ofList? entries') := by
  cases h with
  | nil => exact .none
  | @cons entry entry' rest rest' hfirst hrest =>
    obtain ⟨item, weight⟩ := entry
    obtain ⟨item', weight'⟩ := entry'
    obtain ⟨hitem, rfl⟩ := hfirst
    obtain ⟨hsums, htotal⟩ := partialSums_pairs hrest weight
    exact .some ⟨hitem, hsums, congrArg (fun total => fitScale total 64 total) htotal.symm⟩

theorem pick_pairs {entries : List (Binary64 × α)} {entries' : List (Binary64 × β)}
    (h : List.Forall₂ (fun entry entry' => entry.1 = entry'.1 ∧ R entry.2 entry'.2)
      entries entries') {current : α} {current' : β} (hcurrent : R current current')
    (number : Binary64) : R (pick current number entries) (pick current' number entries') := by
  induction h generalizing current current' with
  | nil => exact hcurrent
  | cons hfirst _ ih =>
    unfold pick
    rw [hfirst.1]
    split
    · exact ih hfirst.2
    · exact hcurrent

theorem Pairs.draw {items : Weighted α} {items' : Weighted β} (h : items.Pairs R items')
    (stream : Stream) :
    Lockstep R (items.draw stream) (items'.draw stream) := by
  unfold Weighted.draw
  rw [h.scale]
  exact ⟨pick_pairs h.rest h.first _, rfl⟩

end Random.Weighted

namespace Salsa

variable {names : Renaming}

/-! ## Requests -/

structure Request.Pairs (names : Renaming) (request request' : Request) : Prop where
  queryNode : names.Pairs .left request.queryNode request'.queryNode
  settings : request.settings = request'.settings
  walkLength : request.walkLength = request'.walkLength
  leftSeeds : names.PairsMass .left request.leftSeeds request'.leftSeeds
  excluded : ∀ node node' : NodeId, names.Pairs .right node node' →
    request.excluded.contains node = request'.excluded.contains node'
  filters : ∀ (node node' : NodeId) (proof proof' : SocialProof), names.Pairs .right node node' →
    proof.Pairs names proof' →
      request.filters.excludes node proof = request'.filters.excludes node' proof'

/-! ## Distributions -/

def Distribution.Pairs (names : Renaming) (distribution distribution' : Distribution) : Prop :=
  List.Forall₂ (fun entry entry' => names.Pairs .left entry.1 entry'.1 ∧ entry.2 = entry'.2)
    distribution distribution'

namespace Request.Pairs

variable {request request' : Request}

theorem isSeed (h : request.Pairs names request') {node node' : NodeId}
    (hnode : names.Pairs .left node node') : request.isSeed node = request'.isSeed node' := by
  have hquery : (node == request.queryNode) = (node' == request'.queryNode) := by
    rw [Bool.eq_iff_iff, beq_iff_eq, beq_iff_eq]
    exact Renaming.eq_iff hnode h.queryNode
  unfold Request.isSeed
  rw [hquery, Renaming.PairsTables.contains h.leftSeeds hnode]

theorem countsAsProof (h : request.Pairs names request') (kind : EdgeType) :
    request.countsAsProof kind = request'.countsAsProof kind := by
  unfold Request.countsAsProof
  rw [h.settings]

theorem seedWeights (h : request.Pairs names request') :
    names.PairsMass .left (seedWeights request) (seedWeights request') := by
  have hsettings := h.settings
  have htotal := Renaming.PairsMass.total h.leftSeeds
  unfold Salsa.seedWeights
  dsimp only
  rw [hsettings, htotal]
  split
  · apply Renaming.PairsTables.foldl h.leftSeeds
    · rintro weights weights' node node' weight _ hweights hnode rfl
      exact Renaming.PairsMass.add hweights hnode _
    · exact Renaming.PairsTables.insert Renaming.PairsMass.empty h.queryNode rfl
  · exact Renaming.PairsTables.insert Renaming.PairsMass.empty h.queryNode rfl

theorem seedDistribution (h : request.Pairs names request') :
    (seedDistribution request).Pairs names (seedDistribution request') := by
  apply List.rel_filter _ h.seedWeights
  rintro ⟨node, weight⟩ ⟨node', weight'⟩ ⟨-, hweight⟩
  have hweight : weight = weight' := hweight
  subst hweight
  exact Iff.rfl

end Request.Pairs

/-! ## Walkers -/

namespace WalkerShare

structure Pairs (names : Renaming) (share share' : WalkerShare) : Prop where
  node : names.Pairs .left share.node share'.node
  whole : share.whole = share'.whole
  remainder : share.remainder = share'.remainder

theorem of_pairs {entry entry' : NodeId × Binary64} (walkers : Nat)
    (hnode : names.Pairs .left entry.1 entry'.1) (hweight : entry.2 = entry'.2) :
    (of walkers entry).Pairs names (of walkers entry') := by
  unfold of
  rw [hweight]
  exact ⟨hnode, rfl, rfl⟩

theorem Pairs.precedes {a a' b b' : WalkerShare} (ha : a.Pairs names a') (hb : b.Pairs names b') :
    a.precedes b = a'.precedes b' := by
  have hle := Renaming.le_iff ha.node hb.node
  unfold WalkerShare.precedes
  rw [ha.remainder, hb.remainder, decide_eq_decide.mpr hle]

theorem Pairs.raise {share share' : WalkerShare} (h : share.Pairs names share') :
    share.raise.Pairs names share'.raise :=
  ⟨h.node, congrArg (· + 1) h.whole, h.remainder⟩

end WalkerShare

theorem raiseAt_pairs {shares shares' : List WalkerShare}
    (h : List.Forall₂ (WalkerShare.Pairs names) shares shares') (positions : List Nat) :
    List.Forall₂ (WalkerShare.Pairs names) (raiseAt shares positions)
      (raiseAt shares' positions) := by
  induction positions generalizing shares shares' with
  | nil => exact h
  | cons position rest ih =>
    exact ih (forall₂_modify (fun _ _ hpair => WalkerShare.Pairs.raise hpair) h position)

theorem roundingOrder_eq {shares shares' : List WalkerShare}
    (h : List.Forall₂ (WalkerShare.Pairs names) shares shares') :
    roundingOrder shares = roundingOrder shares' := by
  -- the positions are carried along and are the same in both lists
  have hsorted := forall₂_mergeSort (r := fun a b => a.1.precedes b.1)
    (s := fun a b => a.1.precedes b.1) (forall₂_zipIdx h 0)
    fun _ _ _ _ ha hb => WalkerShare.Pairs.precedes ha.1 hb.1
  exact map_eq_map_of_forall₂ (hsorted.imp fun _ _ hpair => hpair.2)

theorem sharesOf_pairs {distribution distribution' : Distribution}
    (h : distribution.Pairs names distribution') (walkers : Nat) :
    List.Forall₂ (WalkerShare.Pairs names) (sharesOf distribution walkers)
      (sharesOf distribution' walkers) :=
  List.rel_map (fun _ _ hentry => WalkerShare.of_pairs walkers hentry.1 hentry.2) h

/-- The same number of walkers for each node, or a sum that does not fit on both sides. -/
theorem apportion?_pairs {distribution distribution' : Distribution}
    (h : distribution.Pairs names distribution') (walkers : Nat) :
    Option.Rel (List.Forall₂ fun entry entry' =>
        names.Pairs .left entry.1 entry'.1 ∧ entry.2 = entry'.2)
      (apportion? distribution walkers) (apportion? distribution' walkers) := by
  have hshares := sharesOf_pairs h walkers
  have hassigned := total_eq_total_of_forall₂ (hshares.imp fun _ _ hshare => hshare.whole)
  unfold apportion?
  dsimp only
  rw [roundingOrder_eq hshares, total?_eq, total?_eq, hassigned]
  split
  · apply Option.Rel.some
    apply List.rel_filter
    · rintro ⟨node, count⟩ ⟨node', count'⟩ ⟨-, hcount⟩
      have hcount : count = count' := hcount
      subst hcount
      exact Iff.rfl
    · apply List.rel_map _ (raiseAt_pairs hshares _)
      exact fun _ _ hshare => ⟨hshare.node, hshare.whole⟩
  · exact .none

end Salsa

end Slidewalk
