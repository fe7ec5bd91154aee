import Slidewalk.Proofs.Walk.Conservation
import Slidewalk.Proofs.Walk.Justified

/-!
# A recommendation depends on what its seeds can reach

A half-step reads the neighbors of the nodes in its frontier and nothing else, and the frontiers of
a walk stay within reach of its seeds. So two graphs that agree within reach give the same walk,
draw by draw, and the same results.
-/

namespace Slidewalk.Salsa

/-- Alternating paths of some length from a seed to a node on a side. -/
inductive Request.Reaches (request : Request) (adjacency : Adjacency) : Nat → NodeId → Side → Prop
  | seed {node : NodeId} : node ∈ seedNodes request → Reaches request adjacency 0 node .left
  | edge {length : Nat} {node : NodeId} {side : Side} {neighbor : Neighbor} :
      Reaches request adjacency length node side → neighbor ∈ adjacency.neighbors node side →
      Reaches request adjacency (length + 1) neighbor.node side.opposite

/-- There is a path that is no longer than a bound. -/
def Request.Near (request : Request) (adjacency : Adjacency) (bound : Nat) (side : Side)
    (node : NodeId) : Prop :=
  ∃ length ≤ bound, request.Reaches adjacency length node side

/-- Everything the walk has reached is near. -/
structure Walk.Within (request : Request) (adjacency : Adjacency) (bound : Nat) (walk : Walk) :
    Prop where
  left : ∀ node ∈ walk.leftFrontier, request.Near adjacency bound .left node
  right : ∀ node ∈ walk.rightFrontier, request.Near adjacency bound .right node
  visited : ∀ node ∈ walk.visits, request.Near adjacency bound .right node

/-- The side that a half-step leaves. -/
def HalfStep.source : HalfStep → Side
  | right => .left
  | left => .right

/-- The adjacency lists of some nodes only. -/
def Adjacency.only (adjacency : Adjacency) (keep : NodeId → Bool) : Adjacency where
  neighbors := fun node side => if keep node then adjacency.neighbors node side else []
  degree := adjacency.degree

variable {request : Request} {adjacency other : Adjacency} {bound : Nat} {walk : Walk}

theorem Adjacency.mem_neighbors_only {keep : NodeId → Bool} {node : NodeId} {side : Side}
    {neighbor : Neighbor} :
    neighbor ∈ (adjacency.only keep).neighbors node side ↔
      keep node = true ∧ neighbor ∈ adjacency.neighbors node side := by
  unfold only
  dsimp only
  split <;> simp_all

/-- Nodes from which no edge leads away include all that is reached, if they include the seeds. -/
theorem Request.Reaches.of_closed {P : NodeId → Side → Prop}
    (hseeds : ∀ node ∈ seedNodes request, P node .left)
    (hedges : ∀ node side, P node side → ∀ neighbor ∈ adjacency.neighbors node side,
      P neighbor.node side.opposite)
    {length : Nat} {node : NodeId} {side : Side}
    (h : request.Reaches adjacency length node side) : P node side := by
  induction h with
  | seed hnode => exact hseeds _ hnode
  | edge _ hneighbor ih => exact hedges _ _ ih _ hneighbor

theorem Request.Near.mono {side : Side} {node : NodeId} {more : Nat}
    (h : request.Near adjacency bound side node) (hle : bound ≤ more) :
    request.Near adjacency more side node := by
  obtain ⟨length, hlength, hreaches⟩ := h
  exact ⟨length, hlength.trans hle, hreaches⟩

theorem Request.Near.edge {side : Side} {node : NodeId} {neighbor : Neighbor}
    (h : request.Near adjacency bound side node)
    (hneighbor : neighbor ∈ adjacency.neighbors node side) :
    request.Near adjacency (bound + 1) side.opposite neighbor.node := by
  obtain ⟨length, hlength, hreaches⟩ := h
  exact ⟨length + 1, Nat.succ_le_succ hlength, hreaches.edge hneighbor⟩

/-! ## A half-step reads its frontier -/

theorem mem_of_mem_toList {α : Type} {table : Std.TreeMap NodeId α} {entry : NodeId × α}
    (h : entry ∈ table.toList) : entry.1 ∈ table := by
  rw [← Std.TreeMap.isSome_getElem?_iff_mem, Std.TreeMap.mem_toList_iff_getElem?_eq_some.mp h]
  rfl

theorem foldl_congr_of_mem {α σ : Type} {table : Std.TreeMap NodeId α}
    {step step' : σ → NodeId → α → σ}
    (h : ∀ state node value, node ∈ table → step state node value = step' state node value)
    (start : σ) : table.foldl step start = table.foldl step' start := by
  rw [Std.TreeMap.foldl_eq_foldl_toList, Std.TreeMap.foldl_eq_foldl_toList]
  exact List.foldl_ext _ _ _ fun state entry hentry => h state _ _ (mem_of_mem_toList hentry)

theorem Arrivals.split_congr {left : NodeId}
    (hsame : other.neighbors left .left = adjacency.neighbors left .left) (arrivals : Arrivals)
    (mass : Binary64) :
    arrivals.split request other left mass = arrivals.split request adjacency left mass := by
  unfold split
  rw [hsame]

namespace Walk

theorem splitBack_congr {right : NodeId}
    (hsame : other.neighbors right .right = adjacency.neighbors right .right)
    (reset : Binary64) (frontier : Mass) (mass : Binary64) :
    splitBack reset other frontier right mass = splitBack reset adjacency frontier right mass := by
  unfold splitBack
  rw [hsame]

theorem rightExpected_congr (hsame : ∀ node ∈ walk.leftFrontier,
    other.neighbors node .left = adjacency.neighbors node .left) :
    walk.rightExpected request other = walk.rightExpected request adjacency := by
  unfold rightExpected
  dsimp only
  rw [foldl_congr_of_mem fun arrivals left mass hleft =>
    Arrivals.split_congr (hsame left hleft) arrivals mass]

theorem leftExpected_congr (hsame : ∀ node ∈ walk.rightFrontier,
    other.neighbors node .right = adjacency.neighbors node .right) :
    walk.leftExpected request other = walk.leftExpected request adjacency := by
  have hsplit (state : Mass × Binary64) (right : NodeId) (mass : Binary64)
      (hright : right ∈ walk.rightFrontier) :
      (splitBack request.settings.resetProbability other state.1 right mass,
        state.2 + request.settings.resetProbability * mass) =
      (splitBack request.settings.resetProbability adjacency state.1 right mass,
        state.2 + request.settings.resetProbability * mass) := by
    rw [splitBack_congr (hsame right hright)]
  unfold leftExpected
  dsimp only
  rw [foldl_congr_of_mem hsplit]

theorem rightSampled_congr (dice : Dice) (hsame : ∀ node ∈ walk.leftFrontier,
    other.neighbors node .left = adjacency.neighbors node .left) :
    walk.rightSampled dice request other = walk.rightSampled dice request adjacency := by
  unfold rightSampled
  dsimp only
  rw [foldl_congr_of_mem fun state left mass hleft => by rw [hsame left hleft]]

theorem leftSampled_congr (dice : Dice) (hsame : ∀ node ∈ walk.rightFrontier,
    other.neighbors node .right = adjacency.neighbors node .right) :
    walk.leftSampled dice request other = walk.leftSampled dice request adjacency := by
  unfold leftSampled
  dsimp only
  rw [foldl_congr_of_mem fun state right mass hright => by rw [hsame right hright]]

theorem step_congr (half : HalfStep) (hsame : ∀ node ∈ walk.frontier half,
    other.neighbors node half.source = adjacency.neighbors node half.source) :
    walk.step half request other = walk.step half request adjacency := by
  unfold step
  refine congrArg countStep ?_
  cases half with
  | right =>
    cases walk.dice with
    | none => exact rightExpected_congr hsame
    | some dice => exact rightSampled_congr dice hsame
  | left =>
    cases walk.dice with
    | none => exact leftExpected_congr hsame
    | some dice => exact leftSampled_congr dice hsame

/-! ## Walks stay within reach -/

theorem start_within (h : Walk.start request = .ok walk) : walk.Within request adjacency 0 := by
  obtain ⟨hleft, hright, hvisits, -⟩ := start_frontiers h
  refine ⟨fun node hnode => ⟨0, Nat.le_refl 0, .seed (hleft node hnode)⟩, fun node hnode => ?_,
    fun node hnode => ?_⟩
  · rw [hright] at hnode
    exact absurd hnode Mass.not_mem_empty
  · rw [hvisits] at hnode
    exact absurd hnode Std.TreeMap.not_mem_emptyc

theorem Within.mono {more : Nat} (h : walk.Within request adjacency bound) (hle : bound ≤ more) :
    walk.Within request adjacency more :=
  ⟨fun node hnode => (h.left node hnode).mono hle, fun node hnode => (h.right node hnode).mono hle,
    fun node hnode => (h.visited node hnode).mono hle⟩

theorem Within.step (h : walk.Within request adjacency bound)
    (hdice : ∀ dice, walk.dice = some dice → dice.ReturnsTo (seedNodes request))
    (half : HalfStep) :
    (walk.step half request adjacency).Within request adjacency (bound + 1) := by
  have hfrontier : ∀ node ∈ walk.frontier half, request.Near adjacency bound half.source node := by
    cases half with
    | right => exact h.left
    | left => exact h.right
  -- the neighbors of other nodes are not read, so they need not be near
  generalize hread : adjacency.only (fun node => (walk.frontier half).contains node) = read
  have hstep : walk.step half request read = walk.step half request adjacency := by
    refine step_congr half fun node hnode => ?_
    rw [← hread]
    exact if_pos (Std.TreeMap.mem_iff_contains.mp hnode)
  have hneighbors (node : NodeId) (neighbor : Neighbor)
      (hneighbor : neighbor ∈ read.neighbors node half.source) :
      request.Near adjacency (bound + 1) half.source.opposite neighbor.node := by
    rw [← hread] at hneighbor
    obtain ⟨hnode, hneighbor⟩ := Adjacency.mem_neighbors_only.mp hneighbor
    exact (hfrontier node (Std.TreeMap.mem_iff_contains.mpr hnode)).edge hneighbor
  rw [← hstep]
  cases half with
  | right =>
    obtain ⟨hright, hvisited, hleft⟩ := frontiers_of_step_right
      (fun node hnode => (h.right node hnode).mono (Nat.le_succ bound))
      (fun node hnode => (h.visited node hnode).mono (Nat.le_succ bound)) hneighbors
    refine ⟨fun node hnode => ?_, hright, hvisited⟩
    rw [hleft] at hnode
    exact absurd hnode Mass.not_mem_empty
  | left =>
    refine ⟨?_, fun node hnode => ?_, fun node hnode => ?_⟩
    · exact leftFrontier_of_step (fun node hnode => (h.left node hnode).mono (Nat.le_succ bound))
        (fun node hnode => ⟨0, Nat.zero_le _, .seed hnode⟩) hneighbors hdice
    · rw [step_left_rightFrontier] at hnode
      exact absurd hnode Mass.not_mem_empty
    · rw [step_left_visits] at hnode
      exact (h.visited node hnode).mono (Nat.le_succ bound)

/-- Where two graphs agree within reach, a walk takes the same steps, and it stays within reach. -/
theorem Within.run (h : walk.Within request adjacency bound)
    (hdice : ∀ dice, walk.dice = some dice → dice.ReturnsTo (seedNodes request)) (steps : Nat)
    (half : HalfStep)
    (hsame : ∀ side node, request.Near adjacency (bound + steps) side node →
      other.neighbors node side = adjacency.neighbors node side) :
    Walk.run request other steps half walk = Walk.run request adjacency steps half walk ∧
      (Walk.run request adjacency steps half walk).Within request adjacency (bound + steps) := by
  induction steps generalizing walk bound half with
  | zero => exact ⟨rfl, h⟩
  | succ steps ih =>
    have hbound : bound + 1 + steps = bound + (steps + 1) := by omega
    have hstep : walk.step half request other = walk.step half request adjacency := by
      refine step_congr half fun node hnode => hsame _ node ?_
      have hle : bound ≤ bound + (steps + 1) := by omega
      cases half with
      | right => exact (h.left node hnode).mono hle
      | left => exact (h.right node hnode).mono hle
    unfold Walk.run
    split
    · exact ⟨rfl, h.mono (Nat.le_add_right bound _)⟩
    · rw [hstep, ← hbound]
      exact ih (h.step hdice half) (step_dice half hdice) half.other (hbound ▸ hsame)

end Walk

/-! ## Results -/

/-- Scores read the degrees of the query node and of the visited nodes, if any. -/
theorem rank_congr
    (hquery : request.settings.normalization = .cosine →
      other.degree request.queryNode .left = adjacency.degree request.queryNode .left)
    (hvisited : request.settings.normalization = .cosine → ∀ node ∈ walk.visits,
      other.degree node .right = adjacency.degree node .right) :
    rank walk request other = rank walk request adjacency := by
  have hdegree : queryDegree request other = queryDegree request adjacency := by
    unfold queryDegree
    split
    · rfl
    · rename_i hcosine
      exact hquery hcosine
  have hcandidates : walk.visits.toList.filterMap (fun entry =>
        candidate? request other (queryDegree request other) entry.1 entry.2) =
      walk.visits.toList.filterMap fun entry =>
        candidate? request adjacency (queryDegree request adjacency) entry.1 entry.2 := by
    rw [hdegree]
    apply List.filterMap_congr
    intro entry hentry
    have hscore : scoreOf request other (queryDegree request adjacency) entry.1 entry.2 =
        scoreOf request adjacency (queryDegree request adjacency) entry.1 entry.2 := by
      unfold scoreOf
      split
      · rfl
      · rename_i hcosine
        rw [hvisited hcosine entry.1 (mem_of_mem_toList hentry)]
    unfold candidate?
    rw [hscore]
  unfold rank rankVisits
  dsimp only
  rw [hcandidates]

theorem recommend_of_start (adjacency : Adjacency) (hstart : Walk.start request = .ok walk) :
    recommend request adjacency = .ok
      (rank (Walk.run request adjacency request.walkLength .right walk) request adjacency) := by
  unfold recommend finishedWalk
  rw [hstart]
  rfl

/-- What lies beyond reach has no say in the results. -/
theorem recommend_congr
    (hsame : ∀ side node, request.Near adjacency request.walkLength side node →
      other.neighbors node side = adjacency.neighbors node side)
    (hquery : request.settings.normalization = .cosine →
      other.degree request.queryNode .left = adjacency.degree request.queryNode .left)
    (hdegree : request.settings.normalization = .cosine → ∀ node,
      request.Near adjacency request.walkLength .right node →
      other.degree node .right = adjacency.degree node .right) :
    recommend request other = recommend request adjacency := by
  cases hstart : Walk.start request with
  | error fault =>
    have hfails (adjacency : Adjacency) : recommend request adjacency = .error fault := by
      unfold recommend finishedWalk
      rw [hstart]
      rfl
    rw [hfails, hfails]
  | ok walk =>
    obtain ⟨-, -, -, hdice⟩ := Walk.start_frontiers hstart
    have hnew : walk.Within request adjacency 0 := Walk.start_within hstart
    obtain ⟨hrun, hwithin⟩ := hnew.run hdice request.walkLength .right
      fun side node hnear => hsame side node (Nat.zero_add request.walkLength ▸ hnear)
    rw [Nat.zero_add] at hwithin
    rw [recommend_of_start other hstart, recommend_of_start adjacency hstart, hrun,
      rank_congr hquery fun hcosine node hnode => hdegree hcosine node (hwithin.visited node hnode)]

end Slidewalk.Salsa

namespace Slidewalk.Graph

/-- What a snapshot of some graph shows at some time. A packing that replaces the usual one loses
nothing. -/
inductive IsHeld : View → Prop
  | intro {options : Options} {graph : Graph} (hcreate : Graph.create options = .ok graph)
      (hown : ∀ own, options.codec = some own → own.RoundTrips)
      (before meanwhile : List Operation) :
      IsHeld (graph.heldView before meanwhile)

variable {view other : View} {request : Salsa.Request}

theorem IsHeld.degree_eq (h : IsHeld view) (node : NodeId) (side : Side) :
    view.degree node side = (view.neighbors node side).length := by
  obtain ⟨hcreate, hown, before, meanwhile⟩ := h
  obtain ⟨codec, hcodec, -⟩ := Options.validate_iff.mp (create_eq hcreate).1
  have hround : codec.RoundTrips :=
    Options.of_resolveCodec BitMask.toCodec_roundTrips hown hcodec
  exact heldView_degree hcreate hcodec hround before meanwhile node side

/-- Whatever a request cannot reach from its seeds has no influence on what is recommended. -/
theorem recommendations_are_local (hview : IsHeld view) (hother : IsHeld other)
    (hneighbors : ∀ length ≤ request.walkLength, ∀ node side,
      request.Reaches view.adjacency length node side →
      other.neighbors node side = view.neighbors node side)
    (hquery : request.settings.normalization = .cosine →
      other.degree request.queryNode .left = view.degree request.queryNode .left) :
    Salsa.recommend request other.adjacency = Salsa.recommend request view.adjacency := by
  refine Salsa.recommend_congr ?_ hquery fun _ node hnear => ?_
  · rintro side node ⟨length, hlength, hreaches⟩
    exact hneighbors length hlength node side hreaches
  -- a visited node is within reach, so its neighbors are the same, and so is their number
  · obtain ⟨length, hlength, hreaches⟩ := hnear
    show other.degree node .right = view.degree node .right
    rw [hother.degree_eq, hview.degree_eq, hneighbors length hlength node .right hreaches]

/-- A walk from nodes 1 and 9 whose scores are normalized. -/
def cosineSample : Salsa.Request :=
  { requestSample with settings := { requestSample.settings with normalization := .cosine } }

/-- An edge between nodes 7 and 8 in an older segment is not reached from nodes 1 and 9. -/
theorem sample_recommendations_are_local :
    Salsa.recommend cosineSample ((sample .powerLaw false).heldView
        [.add ⟨7, 8, 0, 1⟩, .sealCurrent, .add ⟨1, 2, 0, 5⟩, .add ⟨1, 3, 1, 9⟩] []).adjacency =
      Salsa.recommend cosineSample ((sample .powerLaw false).heldView
        [.add ⟨1, 2, 0, 5⟩, .add ⟨1, 3, 1, 9⟩] []).adjacency := by
  have hheld (operations : List Operation) :
      IsHeld ((sample .powerLaw false).heldView operations []) :=
    .intro (create_sample .powerLaw false) (fun own hown => by contradiction) operations []
  let ledger (operations : List Operation) : Ledger :=
    (Ledger.empty.run (Options.sample .powerLaw false).limits 1 operations).1
  have hread (operations : List Operation) (node : NodeId) (side : Side) :
      ((sample .powerLaw false).heldView operations []).neighbors node side =
        (ledger operations).neighbors node side := by
    rw [heldView, List.append_nil]
    exact (sample_follows operations).2.neighbors node side
  let near : List (NodeId × Side) := [(1, .left), (9, .left), (2, .right), (3, .right)]
  have hseeds : Salsa.seedNodes cosineSample = [1, 9] := rfl
  have hclosed : ∀ entry ∈ near,
      ∀ neighbor ∈ (ledger [.add ⟨1, 2, 0, 5⟩, .add ⟨1, 3, 1, 9⟩]).neighbors entry.1 entry.2,
        (neighbor.node, entry.2.opposite) ∈ near := by decide
  have hsame : ∀ entry ∈ near,
      (ledger [.add ⟨7, 8, 0, 1⟩, .sealCurrent, .add ⟨1, 2, 0, 5⟩,
        .add ⟨1, 3, 1, 9⟩]).neighbors entry.1 entry.2 =
      (ledger [.add ⟨1, 2, 0, 5⟩, .add ⟨1, 3, 1, 9⟩]).neighbors entry.1 entry.2 := by decide
  refine recommendations_are_local (hheld _) (hheld _) (fun length _ node side hreaches => ?_)
    fun _ => ?_
  · have hnear : (node, side) ∈ near := by
      apply hreaches.of_closed (P := fun node side => (node, side) ∈ near)
      · intro node hnode
        rw [hseeds, List.mem_cons, List.mem_singleton] at hnode
        obtain rfl | rfl := hnode
        · exact List.mem_cons_self
        · exact List.mem_cons_of_mem _ List.mem_cons_self
      · intro node side hmem neighbor hneighbor
        change neighbor ∈ View.neighbors _ node side at hneighbor
        rw [hread] at hneighbor
        exact hclosed (node, side) hmem neighbor hneighbor
    rw [hread, hread]
    exact hsame (node, side) hnear
  · rw [(hheld _).degree_eq, (hheld _).degree_eq, hread, hread]
    rfl

end Slidewalk.Graph
