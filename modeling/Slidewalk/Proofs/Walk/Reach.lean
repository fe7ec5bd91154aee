import Slidewalk.Proofs.Walk.Locality
import Slidewalk.Proofs.Walk.ProofContent

/-!
# Within reach of the seeds

A walk goes along edges, one of them with each half-step, and goes back to the seeds. So after some
number of half-steps it has come to nodes that so many edges join to a seed, and to no others. The
first right step of an expected walk comes to every neighbor of every seed.
-/

namespace Slidewalk

/-- Some edges join a left node to a node on a side, so many of them one after the other. -/
inductive Joined (edges : List Edge) (start : NodeId) : Nat → NodeId → Side → Prop
  | refl : Joined edges start 0 start .left
  | cross {length : Nat} {edge : Edge} {side : Side} :
      Joined edges start length (edge.endpoint side) side → edge ∈ edges →
      Joined edges start (length + 1) (edge.endpoint side.opposite) side.opposite

namespace Salsa

variable {request : Request} {adjacency : Adjacency} {edges : List Edge} {walk : Walk}
  {node : NodeId}

/-- A seed is joined to a node by at most so many edges. -/
def Request.Joins (request : Request) (edges : List Edge) (bound : Nat) (node : NodeId)
    (side : Side) : Prop :=
  ∃ seed ∈ seedNodes request, ∃ length ≤ bound, Joined edges seed length node side

/-- Everything that a walk has come to is joined to a seed, unless it is one. -/
structure Walk.JoinedToSeeds (request : Request) (edges : List Edge) (bound : Nat) (walk : Walk) :
    Prop where
  visited : ∀ node ∈ walk.visits, request.Joins edges bound node .right
  right : ∀ node ∈ walk.rightFrontier, request.Joins edges bound node .right
  left : ∀ node ∈ walk.leftFrontier,
    node ∈ seedNodes request ∨ request.Joins edges bound node .left

/-- What is read of a node goes back to edges. -/
def Adjacency.ReadsFrom (adjacency : Adjacency) (edges : List Edge) : Prop :=
  ∀ node side, ∀ neighbor ∈ adjacency.neighbors node side,
    ∃ edge ∈ edges, edge.endpoint side = node ∧ edge.endpoint side.opposite = neighbor.node

theorem Request.Reaches.joined (hreads : adjacency.ReadsFrom edges) {length : Nat} {side : Side}
    (h : request.Reaches adjacency length node side) :
    ∃ seed ∈ seedNodes request, Joined edges seed length node side := by
  induction h with
  | seed hseed => exact ⟨_, hseed, .refl⟩
  | edge _ hneighbor ih =>
    obtain ⟨seed, hseed, hjoined⟩ := ih
    obtain ⟨edge, hedge, rfl, hother⟩ := hreads _ _ _ hneighbor
    exact ⟨seed, hseed, hother ▸ .cross hjoined hedge⟩

theorem Request.Near.joins (hreads : adjacency.ReadsFrom edges) {bound : Nat} {side : Side}
    (h : request.Near adjacency bound side node) : request.Joins edges bound node side := by
  obtain ⟨length, hlength, hreaches⟩ := h
  obtain ⟨seed, hseed, hjoined⟩ := hreaches.joined hreads
  exact ⟨seed, hseed, length, hlength, hjoined⟩

/-! ## The first step -/

namespace Arrivals

variable {arrivals : Arrivals}

theorem mem_visits_split {left : NodeId} {mass : Binary64} :
    node ∈ (arrivals.split request adjacency left mass).visits ↔
      node ∈ arrivals.visits ∨ ∃ neighbor ∈ adjacency.neighbors left .left,
        neighbor.node = node := by
  unfold split
  dsimp only
  split
  · rename_i hnone
    rw [List.isEmpty_iff.mp hnone]
    simp
  · apply foldl_iff (P := fun arrivals : Arrivals => node ∈ arrivals.visits)
    exact fun arrivals neighbor => Visits.mem_arrive.trans or_comm

end Arrivals

/-- The same of a fold over a table, where what is brought in depends on the node only. -/
theorem foldl_table_iff {α σ : Type} {table : Std.TreeMap NodeId α} {move : σ → NodeId → α → σ}
    {P : σ → Prop} {brings : NodeId → Prop}
    (hmove : ∀ state node value, P (move state node value) ↔ P state ∨ brings node) {start : σ} :
    P (table.foldl move start) ↔ P start ∨ ∃ node ∈ table, brings node := by
  have hentries : ∀ (state : σ) (entry : NodeId × α),
      P (move state entry.1 entry.2) ↔ P state ∨ brings entry.1 :=
    fun state entry => hmove state entry.1 entry.2
  rw [Std.TreeMap.foldl_eq_foldl_toList, foldl_iff hentries]
  simp only [← Std.TreeMap.mem_keys, ← Std.TreeMap.map_fst_toList_eq_keys, List.mem_map,
    exists_exists_and_eq_and]

namespace Walk

theorem mem_visits_rightExpected :
    node ∈ (walk.rightExpected request adjacency).visits ↔
      node ∈ walk.visits ∨ ∃ left ∈ walk.leftFrontier,
        ∃ neighbor ∈ adjacency.neighbors left .left, neighbor.node = node := by
  obtain ⟨leftFrontier, rightFrontier, visits, halfSteps, dice⟩ := walk
  dsimp only [rightExpected]
  apply foldl_table_iff (P := fun arrivals : Arrivals => node ∈ arrivals.visits)
  exact fun arrivals left mass => Arrivals.mem_visits_split

/-- An expected walk starts at every seed. -/
theorem mem_leftFrontier_start (hmode : request.settings.walkMode = .expected)
    (hstart : Walk.start request = .ok walk) :
    walk.dice = none ∧ ∀ node, node ∈ walk.leftFrontier ↔ node ∈ seedNodes request := by
  obtain rfl := Except.ok.inj ((start_expected hmode).symm.trans hstart)
  refine ⟨rfl, fun node => ?_⟩
  unfold seedNodes
  rw [List.mem_map]
  exact mem_foldl_add.trans (or_iff_right Mass.not_mem_empty)

theorem mem_visits_first_step (hmode : request.settings.walkMode = .expected)
    (hstart : Walk.start request = .ok walk) :
    node ∈ (walk.step .right request adjacency).visits ↔ ∃ seed ∈ seedNodes request,
      ∃ neighbor ∈ adjacency.neighbors seed .left, neighbor.node = node := by
  obtain ⟨-, -, hvisits, -⟩ := start_frontiers hstart
  obtain ⟨hdice, hleft⟩ := mem_leftFrontier_start hmode hstart
  have hstep : walk.step .right request adjacency =
      (walk.rightExpected request adjacency).countStep := by
    unfold step
    rw [hdice]
  have hnone : node ∉ walk.visits := hvisits ▸ Std.TreeMap.not_mem_emptyc
  rw [hstep]
  refine mem_visits_rightExpected.trans ((or_iff_right hnone).trans ?_)
  simp only [hleft]

theorem Within.alternate {bound : Nat} (h : walk.Within request adjacency bound)
    (hdice : ∀ dice, walk.dice = some dice → dice.ReturnsTo (seedNodes request)) (steps : Nat)
    (half : HalfStep) :
    (walk.alternate request adjacency steps half).Within request adjacency (bound + steps) := by
  induction steps generalizing walk bound half with
  | zero => exact h
  | succ steps ih =>
    have hnext := ih (h.step hdice half) (step_dice half hdice) half.other
    rw [Nat.add_assoc, Nat.add_comm 1] at hnext
    exact hnext

theorem Within.joinedToSeeds {bound : Nat} (h : walk.Within request adjacency bound)
    (hreads : adjacency.ReadsFrom edges) : walk.JoinedToSeeds request edges bound :=
  ⟨fun node hnode => (h.visited node hnode).joins hreads,
    fun node hnode => (h.right node hnode).joins hreads,
    fun node hnode => .inr ((h.left node hnode).joins hreads)⟩

end Walk

end Salsa

namespace Graph

variable {options : Options} {codec : EdgeCodec} {graph : Graph}

/-- With every half-step a walk comes at most one edge further from its seeds. -/
theorem walk_stays_within_reach (hcreate : Graph.create options = .ok graph)
    (hcodec : options.resolveCodec = .ok codec) (hround : codec.RoundTrips)
    (before meanwhile : List Operation) {request : Salsa.Request} {walk : Salsa.Walk}
    (hstart : Salsa.Walk.start request = .ok walk) :
    let adjacency := (graph.heldView before meanwhile).adjacency
    let edges := (graph.heldBuckets before meanwhile).flatten
    (∀ steps, (walk.alternate request adjacency steps .right).JoinedToSeeds request edges steps) ∧
      (request.settings.walkMode = .expected → ∀ node,
        node ∈ (walk.step .right request adjacency).visits ↔
          ∃ edge ∈ edges, edge.left ∈ Salsa.seedNodes request ∧ edge.right = node) := by
  intro adjacency edges
  have hreads : adjacency.ReadsFrom edges := by
    intro node side neighbor hneighbor
    obtain ⟨bucket, hbucket, edge, hedge, hnode, hother, -⟩ :=
      exists_edge_of_heldView hcreate hcodec hround before meanwhile hneighbor
    exact ⟨edge, List.mem_flatten_of_mem hbucket hedge, hnode, hother⟩
  obtain ⟨-, -, -, hdice⟩ := Salsa.Walk.start_frontiers hstart
  have hnew : walk.Within request adjacency 0 := Salsa.Walk.start_within hstart
  refine ⟨fun steps => ?_, fun hmode node => ?_⟩
  · have hwithin := hnew.alternate hdice steps .right
    rw [Nat.zero_add] at hwithin
    exact hwithin.joinedToSeeds hreads
  rw [Salsa.Walk.mem_visits_first_step hmode hstart]
  constructor
  · rintro ⟨seed, hseed, neighbor, hneighbor, hnode⟩
    obtain ⟨edge, hedge, rfl, hother⟩ := hreads seed .left neighbor hneighbor
    exact ⟨edge, hedge, hseed, hother.trans hnode⟩
  · rintro ⟨edge, hedge, hseed, hnode⟩
    obtain ⟨bucket, hbucket, hmem⟩ := List.mem_flatten.mp hedge
    obtain ⟨neighbor, hneighbor, hsame⟩ := Bucket.exists_neighbor_of_mem hmem .left
    refine ⟨edge.left, hseed, neighbor, ?_, hsame.trans hnode⟩
    show neighbor ∈ View.neighbors _ _ _
    rw [heldView_neighbors hcreate hcodec hround]
    exact List.mem_flatMap.mpr ⟨bucket, hbucket, hneighbor⟩

/-- Node 9 has no edges; node 4 is reached over node 2. -/
theorem sample_walk_stays_within_reach :
    ∃ walk, Salsa.Walk.start requestSample = .ok walk ∧
      (walk.alternate requestSample ((sample .powerLaw true).heldView
          [.add ⟨1, 2, 0, 5⟩, .add ⟨4, 2, 1, 9⟩] [.add ⟨4, 3, 0, 8⟩]).adjacency 3
          .right).JoinedToSeeds requestSample ((sample .powerLaw true).heldBuckets
        [.add ⟨1, 2, 0, 5⟩, .add ⟨4, 2, 1, 9⟩] [.add ⟨4, 3, 0, 8⟩]).flatten 3 ∧
      ∀ node, node ∈ (walk.step .right requestSample ((sample .powerLaw true).heldView
          [.add ⟨1, 2, 0, 5⟩, .add ⟨4, 2, 1, 9⟩] [.add ⟨4, 3, 0, 8⟩]).adjacency).visits ↔
        ∃ edge ∈ ((sample .powerLaw true).heldBuckets
            [.add ⟨1, 2, 0, 5⟩, .add ⟨4, 2, 1, 9⟩] [.add ⟨4, 3, 0, 8⟩]).flatten,
          edge.left ∈ [1, 9] ∧ edge.right = node := by
  obtain ⟨walk, hstart⟩ : ∃ walk, Salsa.Walk.start requestSample = .ok walk := ⟨_, rfl⟩
  obtain ⟨hjoined, hfirst⟩ := walk_stays_within_reach (create_sample .powerLaw true)
    (Options.resolveCodec_sample .powerLaw true) BitMask.sample.toCodec_roundTrips
    [.add ⟨1, 2, 0, 5⟩, .add ⟨4, 2, 1, 9⟩] [.add ⟨4, 3, 0, 8⟩] hstart
  exact ⟨walk, hstart, hjoined 3, hfirst rfl⟩

end Graph

end Slidewalk
