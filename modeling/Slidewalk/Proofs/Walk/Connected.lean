import Slidewalk.Proofs.HeldEdges
import Slidewalk.Proofs.Walk.Steps

/-!
# Mass stands where it can go on

A right node that was reached has the node it was reached from as a neighbor, and the other way
round. The one way to a left node that has no neighbors is to start there, or to return there.
-/

namespace Slidewalk.Salsa

open Slidewalk.Random (Chance Stream Weighted)

/-- The nodes that a walk starts from and returns to. -/
def seedNodes (request : Request) : List NodeId := (seedDistribution request).map (·.1)

/-- Wherever mass is it can go on, seeds apart. -/
structure Walk.Connected (request : Request) (adjacency : Adjacency) (walk : Walk) : Prop where
  right : ∀ node ∈ walk.rightFrontier, adjacency.neighbors node .right ≠ []
  visited : ∀ node ∈ walk.visits, adjacency.neighbors node .right ≠ []
  left : ∀ node ∈ walk.leftFrontier,
    node ∈ seedNodes request ∨ adjacency.neighbors node .left ≠ []

/-- Whatever is drawn, walkers return to some of the given nodes. -/
def Dice.ReturnsTo (nodes : List NodeId) (dice : Dice) : Prop :=
  ∀ stream, (dice.resets.draw stream).1 ∈ nodes

variable {request : Request} {adjacency : Adjacency} {P : NodeId → Prop} {frontier : Mass}

theorem HalfStep.other_other (half : HalfStep) : half.other.other = half := by
  cases half <;> rfl

theorem Mass.not_mem_empty {node : NodeId} : node ∉ Mass.empty := Std.TreeMap.not_mem_emptyc

theorem Adjacency.Mutual.neighbors_ne_nil (h : adjacency.Mutual) {node : NodeId} {side : Side}
    {neighbor : Neighbor} (hneighbor : neighbor ∈ adjacency.neighbors node side) :
    adjacency.neighbors neighbor.node side.opposite ≠ [] := by
  obtain ⟨back, hback, -⟩ := h node side neighbor hneighbor
  exact List.ne_nil_of_mem hback

/-! ## Right steps -/

theorem Visits.mem_arrive {visits : Visits} {node other : NodeId} {amount : Binary64}
    {credit : Option Visit.Credit} :
    other ∈ visits.arrive node amount credit ↔ node = other ∨ other ∈ visits := by
  rw [← Std.TreeMap.isSome_getElem?_iff_mem, ← Std.TreeMap.isSome_getElem?_iff_mem,
    Visits.getElem?_arrive]
  split <;> simp_all

/-- Where all left neighbors are of a kind, so is what is reached. -/
theorem Arrivals.Reached.of_mem {start arrivals : Arrivals}
    (h : Reached request adjacency start arrivals)
    (hneighbors : ∀ node, ∀ neighbor ∈ adjacency.neighbors node .left, P neighbor.node)
    (hfrontier : ∀ node ∈ start.frontier, P node) (hvisits : ∀ node ∈ start.visits, P node) :
    (∀ node ∈ arrivals.frontier, P node) ∧ ∀ node ∈ arrivals.visits, P node := by
  induction h with
  | refl => exact ⟨hfrontier, hvisits⟩
  | @arrive arrivals left neighbor amount _ hneighbor ih =>
    have hnew := hneighbors left neighbor hneighbor
    constructor
    · intro node hnode
      rcases Mass.mem_add.mp hnode with rfl | hold
      · exact hnew
      · exact ih.1 node hold
    · intro node hnode
      rcases Visits.mem_arrive.mp hnode with rfl | hold
      · exact hnew
      · exact ih.2 node hold

/-! ## Left steps -/

/-- Adding mass to nodes lists those nodes. -/
theorem mem_foldl_add {α : Type} {items : List α} {node : α → NodeId} {amount : α → Binary64}
    {other : NodeId} :
    other ∈ items.foldl (fun frontier item => frontier.add (node item) (amount item)) frontier ↔
      other ∈ frontier ∨ ∃ item ∈ items, node item = other := by
  apply foldl_iff (P := fun frontier : Mass => other ∈ frontier)
  exact fun frontier item => Mass.mem_add.trans or_comm

/-- Adding mass to nodes of a kind keeps it on nodes of that kind. -/
theorem foldl_add_of_mem {α : Type} {items : List α} {node : α → NodeId} {amount : α → Binary64}
    (hfrontier : ∀ other ∈ frontier, P other) (hitems : ∀ item ∈ items, P (node item)) :
    ∀ other ∈ items.foldl (fun frontier item => frontier.add (node item) (amount item)) frontier,
      P other := by
  intro other hother
  rcases mem_foldl_add.mp hother with hold | ⟨item, hitem, rfl⟩
  · exact hfrontier other hold
  · exact hitems item hitem

namespace Walk

theorem splitBack_of_mem {reset : Binary64} {right : NodeId} {mass : Binary64}
    (hfrontier : ∀ other ∈ frontier, P other)
    (hneighbors : ∀ neighbor ∈ adjacency.neighbors right .right, P neighbor.node) :
    ∀ other ∈ splitBack reset adjacency frontier right mass, P other := by
  unfold splitBack
  dsimp only
  split
  · exact hfrontier
  split
  · exact hfrontier
  · exact foldl_add_of_mem hfrontier hneighbors

theorem sendBack_of_mem {reset : Chance} {resets : Weighted NodeId} {neighbors : Array Neighbor}
    (hresets : ∀ stream, P (resets.draw stream).1)
    (hneighbors : ∀ neighbor ∈ neighbors.toList, P neighbor.node) (walkers : Nat)
    {stream : Stream} (hfrontier : ∀ other ∈ frontier, P other) :
    ∀ other ∈ (sendBack reset resets neighbors walkers frontier stream).1, P other := by
  induction walkers generalizing frontier stream with
  | zero => exact hfrontier
  | succ walkers ih =>
    have hadd (node : NodeId) (hnode : P node) : ∀ other ∈ frontier.add node 1.0, P other := by
      intro other hother
      rcases Mass.mem_add.mp hother with rfl | hold
      · exact hnode
      · exact hfrontier other hold
    unfold sendBack
    dsimp only
    split
    · exact ih (hadd _ (hresets _))
    split
    · exact ih hfrontier
    split
    · exact ih hfrontier
    · rename_i neighbor hchoice
      exact ih (hadd _ (hneighbors neighbor (Array.mem_def.mp (Array.mem_of_getElem? hchoice))))

variable {walk : Walk}

/-- A right step puts mass on right neighbors of left nodes. -/
theorem frontiers_of_step_right (hfrontier : ∀ node ∈ walk.rightFrontier, P node)
    (hvisits : ∀ node ∈ walk.visits, P node)
    (hneighbors : ∀ node, ∀ neighbor ∈ adjacency.neighbors node .left, P neighbor.node) :
    (∀ node ∈ (walk.step .right request adjacency).rightFrontier, P node) ∧
      (∀ node ∈ (walk.step .right request adjacency).visits, P node) ∧
      (walk.step .right request adjacency).leftFrontier = .empty := by
  have hmoves : walk.MovesRight request adjacency _ := walk.step_right_moves
  obtain ⟨start, hsame, hstart, hreached⟩ := hmoves.reached
  have hbefore : ∀ node ∈ start.frontier, P node := by
    rcases hstart with hold | hnone
    · rw [hold]
      exact hfrontier
    · rw [hnone]
      exact fun node hnode => absurd hnode Mass.not_mem_empty
  obtain ⟨hright, hvisited⟩ := hreached.of_mem hneighbors hbefore (hsame ▸ hvisits)
  exact ⟨hright, hvisited, hmoves.leftFrontier⟩

/-- A left step puts mass on left neighbors of right nodes, and on seeds. -/
theorem leftFrontier_of_step (hfrontier : ∀ node ∈ walk.leftFrontier, P node)
    (hseeds : ∀ node ∈ seedNodes request, P node)
    (hneighbors : ∀ node, ∀ neighbor ∈ adjacency.neighbors node .right, P neighbor.node)
    (hdice : ∀ dice, walk.dice = some dice → dice.ReturnsTo (seedNodes request)) :
    ∀ node ∈ (walk.step .left request adjacency).leftFrontier, P node := by
  unfold step
  cases hmode : walk.dice with
  | none =>
    have hsplit : ∀ node ∈ (walk.rightFrontier.foldl
        (fun (state : Mass × Binary64) right mass =>
          (splitBack request.settings.resetProbability adjacency state.1 right mass,
            state.2 + request.settings.resetProbability * mass))
        (walk.leftFrontier, 0.0)).1, P node := by
      apply foldl_induction (P := fun state : Mass × Binary64 => ∀ node ∈ state.1, P node) hfrontier
      exact fun state right mass _ hstate => splitBack_of_mem hstate (hneighbors right)
    show ∀ node ∈ (walk.leftExpected request adjacency).leftFrontier, P node
    unfold leftExpected
    dsimp only
    split
    · exact foldl_add_of_mem hsplit fun entry hentry => hseeds _ (List.mem_map_of_mem hentry)
    · exact hsplit
  | some dice =>
    have hresets (stream : Stream) := hseeds _ (hdice dice hmode stream)
    apply foldl_induction (P := fun state : Mass × Stream => ∀ node ∈ state.1, P node)
    · exact fun node hnode => absurd hnode Mass.not_mem_empty
    · exact fun state right mass _ hstate =>
        sendBack_of_mem hresets (hneighbors right) (walkersOf mass) hstate

theorem step_left_rightFrontier (walk : Walk) :
    (walk.step .left request adjacency).rightFrontier = .empty := by
  unfold step
  cases walk.dice with
  | none => rfl
  | some dice => rfl

/-- A walk keeps its seeds; only the words it draws go by. -/
theorem step_dice {nodes : List NodeId} (half : HalfStep)
    (h : ∀ dice, walk.dice = some dice → dice.ReturnsTo nodes) :
    ∀ dice, (walk.step half request adjacency).dice = some dice → dice.ReturnsTo nodes := by
  unfold step
  cases hmode : walk.dice with
  | none =>
    intro dice hdice
    cases half with
    | right => exact h dice hdice
    | left => exact h dice hdice
  | some before =>
    have hbefore := h before hmode
    intro dice hdice
    cases half with
    | right =>
      obtain rfl := Option.some.inj hdice
      exact hbefore
    | left =>
      obtain rfl := Option.some.inj hdice
      exact hbefore

theorem Connected.step (h : walk.Connected request adjacency) (hmutual : adjacency.Mutual)
    (hdice : ∀ dice, walk.dice = some dice → dice.ReturnsTo (seedNodes request))
    (half : HalfStep) : (walk.step half request adjacency).Connected request adjacency := by
  cases half with
  | right =>
    obtain ⟨hright, hvisited, hleft⟩ := frontiers_of_step_right h.right h.visited
      fun node neighbor hneighbor => hmutual.neighbors_ne_nil hneighbor
    refine ⟨hright, hvisited, fun node hnode => ?_⟩
    rw [hleft] at hnode
    exact absurd hnode Mass.not_mem_empty
  | left =>
    refine ⟨fun node hnode => ?_, fun node hnode => ?_, ?_⟩
    · rw [step_left_rightFrontier] at hnode
      exact absurd hnode Mass.not_mem_empty
    · rw [step_left_visits] at hnode
      exact h.visited node hnode
    · refine leftFrontier_of_step h.left (fun node hnode => .inl hnode) ?_ hdice
      exact fun node neighbor hneighbor => .inr (hmutual.neighbors_ne_nil hneighbor)

end Walk

/-! ## The start -/

theorem map_snd_partialSums {α : Type} (items : List (α × Binary64)) (sum : Binary64) :
    (Weighted.partialSums sum items).1.map (·.2) = items.map (·.1) := by
  induction items generalizing sum with
  | nil => rfl
  | cons item rest ih => exact congrArg (item.1 :: ·) (ih (sum + item.2))

/-- What is drawn is one of the items. -/
theorem draw_mem {α : Type} {items : List (α × Binary64)} {weighted : Weighted α}
    (h : Weighted.ofList? items = some weighted) (stream : Stream) :
    (weighted.draw stream).1 ∈ items.map (·.1) := by
  cases items with
  | nil => contradiction
  | cons item others =>
    obtain rfl := Option.some.inj h
    rw [List.map_cons, ← map_snd_partialSums others item.2, List.mem_cons]
    exact Weighted.pick_mem _ _ _

theorem mem_apportioned {distribution : Distribution} {walkers : Nat}
    {counts : List (NodeId × Nat)} (h : apportion? distribution walkers = some counts)
    {entry : NodeId × Nat} (hentry : entry ∈ counts) :
    entry.1 ∈ distribution.map (·.1) ∧ 0 < entry.2 := by
  obtain ⟨assigned, -, rfl⟩ := Option.map_eq_some_iff.mp h
  obtain ⟨hmem, hpos⟩ := List.mem_filter.mp hentry
  obtain ⟨share, hshare, rfl⟩ := List.mem_map.mp hmem
  refine ⟨?_, of_decide_eq_true hpos⟩
  -- raising shares does not change their nodes
  have hnode := List.mem_map_of_mem (f := WalkerShare.node) hshare
  rw [map_node_raiseAt, sharesOf, List.map_map] at hnode
  exact hnode

namespace Walk

variable {walk : Walk}

/-- A walk starts at seeds, and walkers return to seeds. -/
theorem start_frontiers (h : Walk.start request = .ok walk) :
    (∀ node ∈ walk.leftFrontier, node ∈ seedNodes request) ∧ walk.rightFrontier = .empty ∧
      walk.visits = ∅ ∧
      ∀ dice, walk.dice = some dice → dice.ReturnsTo (seedNodes request) := by
  have hempty : ∀ node ∈ Mass.empty, node ∈ seedNodes request :=
    fun node hnode => absurd hnode Mass.not_mem_empty
  cases start_eq_ok_iff.mp h with
  | expected =>
    refine ⟨?_, rfl, rfl, fun dice hdice => by contradiction⟩
    exact foldl_add_of_mem hempty fun entry hentry => List.mem_map_of_mem hentry
  | sampled _ hresets hcounts =>
    refine ⟨?_, rfl, rfl, fun dice hdice => ?_⟩
    · exact foldl_add_of_mem hempty fun entry hentry => (mem_apportioned hcounts hentry).1
    · obtain rfl := Option.some.inj hdice
      exact draw_mem hresets

theorem start_connected (h : Walk.start request = .ok walk) :
    walk.Connected request adjacency ∧
      ∀ dice, walk.dice = some dice → dice.ReturnsTo (seedNodes request) := by
  obtain ⟨hleft, hright, hvisits, hdice⟩ := start_frontiers h
  refine ⟨⟨fun node hnode => ?_, fun node hnode => ?_, fun node hnode => .inl (hleft node hnode)⟩,
    hdice⟩
  · rw [hright] at hnode
    exact absurd hnode Mass.not_mem_empty
  · rw [hvisits] at hnode
    exact absurd hnode Std.TreeMap.not_mem_emptyc

/-- Half-steps by turns, however little mass is left. -/
def alternate (request : Request) (adjacency : Adjacency) : (steps : Nat) → HalfStep → Walk → Walk
  | 0, _, walk => walk
  | steps + 1, half, walk =>
      alternate request adjacency steps half.other (walk.step half request adjacency)

/-- The half-step that is next after so many. -/
def turn (half : HalfStep) (steps : Nat) : HalfStep := if steps % 2 = 0 then half else half.other

theorem alternate_succ (walk : Walk) (steps : Nat) (half : HalfStep) :
    walk.alternate request adjacency (steps + 1) half =
      (walk.alternate request adjacency steps half).step (turn half steps) request adjacency := by
  induction steps generalizing walk half with
  | zero => rfl
  | succ steps ih =>
    have hturn : turn half.other steps = turn half (steps + 1) := by
      unfold turn
      rw [half.other_other]
      split
      · rw [if_neg (by omega)]
      · rw [if_pos (by omega)]
    rw [← hturn]
    exact ih (walk.step half request adjacency) half.other

theorem Connected.alternate (h : walk.Connected request adjacency) (hmutual : adjacency.Mutual)
    (hdice : ∀ dice, walk.dice = some dice → dice.ReturnsTo (seedNodes request)) (steps : Nat)
    (half : HalfStep) :
    (walk.alternate request adjacency steps half).Connected request adjacency := by
  induction steps generalizing walk half with
  | zero => exact h
  | succ steps ih => exact ih (h.step hmutual hdice half) (step_dice half hdice) half.other

end Walk

end Slidewalk.Salsa
