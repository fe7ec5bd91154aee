import Slidewalk.Proofs.Ranking
import Slidewalk.Proofs.Reading
import Slidewalk.Proofs.Renaming.Recommendation
import Slidewalk.Proofs.Renaming.Window
import Slidewalk.Proofs.Sample

/-!
# Only the order of ids shows

Left ids and right ids may be renamed, each kind in its own way, as long as the ids that a run and a
request mention stay in order. Every edge is then taken or refused as before, and the same results
come back under their new names.
-/

namespace Slidewalk

variable (image : Side → NodeId → NodeId)

/-! ## Renaming what callers give and get -/

def Operation.rename : Operation → Operation
  | add edge => add { edge with left := image .left edge.left, right := image .right edge.right }
  | sealCurrent => sealCurrent
  | optimizeSealed => optimizeSealed

def Operation.ids (side : Side) : Operation → List NodeId
  | add edge => [edge.endpoint side]
  | sealCurrent | optimizeSealed => []

namespace Salsa

def Mass.rename (side : Side) (mass : Mass) : Mass :=
  .ofList (mass.toList.map fun (node, amount) => (image side node, amount))

def SocialProof.rename (proof : SocialProof) : SocialProof :=
  proof.map fun (kind, seeds) => (kind, seeds.map (image .left))

def Recommendation.rename (result : Recommendation) : Recommendation :=
  { result with node := image .right result.node, proof := result.proof.rename image }

namespace Request

/-- The request for renamed ids, which asks filters of its own. -/
def rename (filters : FilterChain) (request : Request) : Request :=
  { request with
    queryNode := image .left request.queryNode
    leftSeeds := request.leftSeeds.rename image .left
    excluded := .ofList (request.excluded.toList.map (image .right))
    filters }

def ids (request : Request) : Side → List NodeId
  | .left => request.queryNode :: request.leftSeeds.keys
  | .right => request.excluded.toList

end Request

/-- Filters that drop renamed candidates if other filters drop the candidates themselves. -/
def FilterChain.Follows (ids : Side → List NodeId) (filters' filters : FilterChain) : Prop :=
  ∀ node ∈ ids .right, ∀ proof : SocialProof, (∀ seed ∈ proof.seeds, seed ∈ ids .left) →
    filters'.excludes (image .right node) (proof.rename image) = filters.excludes node proof

end Salsa

/-- Every id of a side that a run and a request mention. -/
def mentioned (operations : List Operation) (request : Salsa.Request) (side : Side) : List NodeId :=
  operations.flatMap (·.ids side) ++ request.ids side

/-- The images of some ids are in the same order as the ids. -/
def KeepsOrder (ids : Side → List NodeId) : Prop :=
  ∀ side, ∀ a ∈ ids side, ∀ b ∈ ids side, a < b → image side a < image side b

theorem all_iff_keepsOrder (ids : Side → List NodeId) :
    ([Side.left, .right].all fun side => (ids side).all fun a => (ids side).all fun b =>
      !decide (a < b) || decide (image side a < image side b)) = true ↔ KeepsOrder image ids := by
  simp only [List.all_eq_true, Bool.or_eq_true, Bool.not_eq_true', decide_eq_false_iff_not,
    decide_eq_true_eq]
  constructor
  · intro h side a ha b hb hless
    have hside : side ∈ [Side.left, .right] := by
      cases side with
      | left => exact List.mem_cons_self
      | right => exact List.mem_cons_of_mem _ List.mem_cons_self
    rcases h side hside a ha b hb with hnot | himage
    · contradiction
    · exact himage
  · intro h side _ a ha b hb
    by_cases hless : a < b
    · exact .inr (h side a ha b hb hless)
    · exact .inl hless

instance (ids : Side → List NodeId) : Decidable (KeepsOrder image ids) :=
  decidable_of_iff _ (all_iff_keepsOrder image ids)

variable {image} {ids : Side → List NodeId}

def Renaming.ofImage (h : KeepsOrder image ids) : Renaming where
  Pairs side a b := a ∈ ids side ∧ b = image side a
  lt_iff := by
    rintro side a _ b _ ⟨ha, rfl⟩ ⟨hb, rfl⟩
    refine ⟨h side a ha b hb, fun hless => ?_⟩
    apply UInt64.not_le.mp
    intro hle
    rcases UInt64.lt_or_eq_of_le hle with hless' | rfl
    · exact UInt64.lt_asymm hless (h side b hb a ha hless')
    · exact UInt64.lt_irrefl _ hless

variable (h : KeepsOrder image ids)

/-! ## Renamed operations, requests and results are paired with the given ones -/

theorem eq_image_of_forall₂ {side : Side} {found found' : List NodeId}
    (hfound : List.Forall₂ ((Renaming.ofImage h).Pairs side) found found') :
    found' = found.map (image side) ∧ ∀ id ∈ found, id ∈ ids side := by
  have hparts := (List.forall₂_and_left _ _).mp hfound
  exact ⟨eq_map_of_forall₂ hparts.2, hparts.1⟩

theorem Operation.rename_pairs {operation : Operation}
    (hids : ∀ side, ∀ id ∈ operation.ids side, id ∈ ids side) :
    operation.Pairs (.ofImage h) (operation.rename image) := by
  cases operation with
  | add edge =>
    have hleft := hids .left edge.left List.mem_cons_self
    have hright := hids .right edge.right List.mem_cons_self
    exact .add ⟨⟨hleft, rfl⟩, ⟨hright, rfl⟩, rfl, rfl⟩
  | sealCurrent => exact .sealCurrent
  | optimizeSealed => exact .optimizeSealed

/-! ### Mass -/

section Mass

variable {side : Side} {mass : Salsa.Mass} (hids : ∀ entry ∈ mass.toList, entry.1 ∈ ids side)

include h hids

theorem pairwise_image :
    (mass.toList.map fun (node, amount) => (image side node, amount)).Pairwise
      fun entry entry' => ¬compare entry.1 entry'.1 = .eq := by
  rw [List.pairwise_map]
  apply (Renaming.pairwise_toList mass).imp_of_mem
  intro entry entry' hentry hentry' hless heq
  have hless := h side _ (hids entry hentry) _ (hids entry' hentry') hless
  have hsame : image side entry.1 = image side entry'.1 :=
    Std.LawfulEqCmp.compare_eq_iff_eq.mp heq
  rw [hsame] at hless
  exact UInt64.lt_irrefl _ hless

theorem Salsa.Mass.getElem?_rename {node : NodeId} {amount : Binary64}
    (hentry : (node, amount) ∈ mass.toList) :
    (mass.rename image side)[image side node]? = some amount := by
  apply Std.TreeMap.getElem?_ofList_of_mem Std.ReflCmp.compare_self (pairwise_image h hids)
  exact List.mem_map_of_mem hentry

/-- Whatever renamed mass has was renamed. -/
theorem Salsa.Mass.exists_of_getElem?_rename {node' : NodeId} {amount : Binary64}
    (hfound : (mass.rename image side)[node']? = some amount) :
    ∃ node, (node, amount) ∈ mass.toList ∧ node' = image side node := by
  have hcontains : (mass.rename image side).contains node' = true := by
    rw [Std.TreeMap.contains_eq_isSome_getElem?, hfound]
    rfl
  unfold Mass.rename at hcontains
  rw [Std.TreeMap.contains_ofList, List.contains_iff_mem, List.map_map] at hcontains
  obtain ⟨⟨node, held⟩, hentry, rfl⟩ := List.mem_map.mp hcontains
  have hheld := Salsa.Mass.getElem?_rename h hids hentry
  -- renamed keys stay apart, so it is the amount of this very entry
  rw [Option.some.inj (hfound.symm.trans hheld)]
  exact ⟨node, hentry, rfl⟩

theorem Salsa.Mass.rename_pairs :
    (Renaming.ofImage h).PairsMass side mass (mass.rename image side) := by
  apply Renaming.PairsTables.of_covers
  · intro node amount hfound
    have hentry := Std.TreeMap.mem_toList_iff_getElem?_eq_some.mpr hfound
    have hrenamed := Salsa.Mass.getElem?_rename h hids hentry
    exact ⟨image side node, amount, hrenamed, ⟨hids _ hentry, rfl⟩, rfl⟩
  · intro node' amount hfound
    obtain ⟨node, hentry, rfl⟩ := Salsa.Mass.exists_of_getElem?_rename h hids hfound
    have hheld := Std.TreeMap.mem_toList_iff_getElem?_eq_some.mp hentry
    exact ⟨node, amount, hheld, ⟨hids _ hentry, rfl⟩, rfl⟩

end Mass

namespace Salsa

theorem SocialProof.eq_rename {proof proof' : SocialProof}
    (hproof : proof.Pairs (.ofImage h) proof') :
    proof' = proof.rename image ∧ ∀ seed ∈ proof.seeds, seed ∈ ids .left := by
  constructor
  · apply eq_map_of_forall₂
    apply hproof.imp
    rintro ⟨kind, seeds⟩ ⟨kind', seeds'⟩ ⟨rfl, hseeds⟩
    exact congrArg (Prod.mk kind) (eq_image_of_forall₂ h hseeds).1
  · intro seed hseed
    obtain ⟨group, hgroup, hseed⟩ := List.mem_flatMap.mp hseed
    obtain ⟨group', -, -, hseeds⟩ := exists_of_mem_of_forall₂ hproof hgroup
    exact (eq_image_of_forall₂ h hseeds).2 seed hseed

theorem Recommendation.eq_rename {result result' : Recommendation}
    (hresult : result.Pairs (.ofImage h) result') : result' = result.rename image := by
  obtain ⟨node, score, proof⟩ := result
  obtain ⟨node', score', proof'⟩ := result'
  obtain ⟨⟨-, rfl⟩, rfl, hproof⟩ := hresult
  obtain rfl := (SocialProof.eq_rename h hproof).1
  rfl

theorem Request.rename_pairs {request : Request} {filters : FilterChain}
    (hids : ∀ side, ∀ id ∈ request.ids side, id ∈ ids side)
    (hfilters : filters.Follows image ids request.filters) :
    request.Pairs (.ofImage h) (request.rename image filters) := by
  refine ⟨⟨hids .left _ List.mem_cons_self, rfl⟩, rfl, rfl, ?_, ?_, ?_⟩
  · apply Mass.rename_pairs h
    intro entry hentry
    apply hids .left
    apply List.mem_cons_of_mem
    rw [← Std.TreeMap.map_fst_toList_eq_keys]
    exact List.mem_map_of_mem hentry
  · rintro node _ ⟨hnode, rfl⟩
    show request.excluded.contains node =
      (Std.TreeSet.ofList (request.excluded.toList.map (image .right))).contains (image .right node)
    rw [Std.TreeSet.contains_ofList, ← Std.TreeSet.contains_toList, Bool.eq_iff_iff,
      List.contains_iff_mem, List.contains_iff_mem, List.mem_map]
    constructor
    · intro hmem
      exact ⟨node, hmem, rfl⟩
    · rintro ⟨other, hother, hsame⟩
      have hpair : (Renaming.ofImage h).Pairs .right other (image .right other) :=
        ⟨hids .right other hother, rfl⟩
      -- the image of another excluded node is not the image of this one
      rw [← (Renaming.eq_iff hpair ⟨hnode, rfl⟩).mpr hsame]
      exact hother
  · rintro node _ proof proof' ⟨hnode, rfl⟩ hproof
    obtain ⟨rfl, hseeds⟩ := SocialProof.eq_rename h hproof
    exact (hfilters node hnode proof hseeds).symm

end Salsa

/-! ## Runs and recommendations -/

namespace Graph

theorem Pairs.adjacency {names : Renaming} {graph graph' : Graph} (h : graph.Pairs names graph') :
    graph.view.adjacency.Pairs names graph'.view.adjacency :=
  ⟨fun _ _ _ hnode => h.neighbors hnode, fun _ _ _ hnode => (h.degree hnode).symm⟩

variable {options : Options} {graph : Graph} {operations : List Operation}
  {request : Salsa.Request} {filters : Salsa.FilterChain}

/-- Renaming the ids of a run and of a request renames the results and changes nothing else: not
what is taken or refused, and not with the visits listed in any other order. -/
theorem only_order_of_ids_shows (hcreate : Graph.create options = .ok graph)
    (horder : KeepsOrder image (mentioned operations request))
    (hfilters : filters.Follows image (mentioned operations request) request.filters) :
    let run := graph.run operations
    let run' := graph.run (operations.map (·.rename image))
    let request' := request.rename image filters
    run'.2 = run.2 ∧
      (run'.1.recommend request').2 =
        (run.1.recommend request).2.map (List.map (·.rename image)) ∧
      ∀ listing : Salsa.Visits → List (NodeId × Salsa.Visit),
        (∀ visits, (listing visits).Perm visits.toList) →
          Salsa.recommendBy listing request' run'.1.view.adjacency =
            (run.1.recommend request).2.map (List.map (·.rename image)) := by
  intro run run' request'
  -- a new graph mentions no ids, so it is paired with itself
  have hgraph : graph.Pairs (.ofImage horder) graph := create_pairs hcreate
  have hoperations : List.Forall₂ (Operation.Pairs (.ofImage horder)) operations
      (operations.map (·.rename image)) := by
    rw [List.forall₂_map_right_iff, List.forall₂_same]
    intro operation hmem
    apply Operation.rename_pairs horder
    intro side id hid
    exact List.mem_append_left _ (List.mem_flatMap.mpr ⟨operation, hmem, hid⟩)
  have hrequest : request.Pairs (.ofImage horder) request' :=
    Salsa.Request.rename_pairs horder (fun _ _ hid => List.mem_append_right _ hid) hfilters
  obtain ⟨hfinal, hanswers⟩ := hgraph.run hoperations
  have hresults : Salsa.recommend request' run'.1.view.adjacency =
      (run.1.recommend request).2.map (List.map (·.rename image)) := by
    rw [recommend_eq]
    rcases Salsa.recommend_pairs hrequest hfinal.adjacency with ⟨fault, hfault, hfault'⟩ |
      ⟨results, results', hok, hok', hpairs⟩
    · rw [hfault, hfault']
      rfl
    · rw [hok, hok']
      have hsame := eq_map_of_forall₂ (hpairs.imp fun _ _ => Salsa.Recommendation.eq_rename horder)
      exact congrArg Except.ok hsame
  refine ⟨hanswers, ?_, fun listing hlisting => ?_⟩
  · rw [recommend_eq, hresults]
  · rw [Salsa.recommendBy_eq request' _ hlisting, hresults]

/-- Left ids move up and right ids move apart. -/
def spread : Side → NodeId → NodeId
  | .left, id => id + 10
  | .right, id => 3 * id

/-- A sampled walk from node 1 that leaves out node 2 and whatever is above 4. -/
def querySample : Salsa.Request where
  queryNode := 1
  settings := { Salsa.Settings.standard with walkMode := .sampled 7 }
  leftSeeds := .empty
  excluded := .ofList [(2 : NodeId)]
  filters := [.above 4]
  walkLength := 3

def runSample : List Operation :=
  [.add ⟨1, 2, 0, 1⟩, .add ⟨1, 3, 1, 2⟩, .sealCurrent, .add ⟨4, 3, 0, 3⟩, .add ⟨4, 5, 2, 4⟩]

theorem sample_only_order_of_ids_shows :
    ((sample .powerLaw true).run (runSample.map (·.rename spread))).2 =
        ((sample .powerLaw true).run runSample).2 ∧
      (((sample .powerLaw true).run (runSample.map (·.rename spread))).1.recommend
          (querySample.rename spread [.above 12])).2 =
        (((sample .powerLaw true).run runSample).1.recommend querySample).2.map
          (List.map (·.rename spread)) := by
  have horder : KeepsOrder spread (mentioned runSample querySample) := by decide
  have hfilters : Salsa.FilterChain.Follows spread (mentioned runSample querySample) [.above 12]
      querySample.filters := by
    have habove : ((mentioned runSample querySample .right).all fun node =>
        decide (12 < spread .right node) == decide (4 < node)) = true := by decide
    intro node hnode proof _
    have hsame := beq_iff_eq.mp (List.all_eq_true.mp habove node hnode)
    show (decide (12 < spread .right node) || false) = (decide (4 < node) || false)
    rw [hsame]
  obtain ⟨hanswers, hresults, -⟩ :=
    only_order_of_ids_shows (create_sample .powerLaw true) horder hfilters
  exact ⟨hanswers, hresults⟩

end Graph

end Slidewalk
