import Slidewalk.Salsa.Request
import Slidewalk.Total

/-!
# Where a walk starts

The seed distribution gives the query node its fraction and shares the rest among the seeds by
weight. Walkers are apportioned to it by largest remainder, unless their whole parts do not add up
in 64 bits: sums are checked, and nothing goes on behind one that does not fit.
-/

namespace Slidewalk.Salsa

/-- Nodes with positive weights, by ascending node. -/
abbrev Distribution := List (NodeId × Binary64)

/-- The weights before those that are not positive are dropped. -/
def seedWeights (request : Request) : Mass :=
  let total := request.leftSeeds.total
  if 0.0 < total then
    let fraction := request.settings.queryNodeWeightFraction
    request.leftSeeds.foldl
      (fun weights node weight => weights.add node ((1.0 - fraction) * weight / total))
      (Mass.empty.insert request.queryNode fraction)
  else Mass.empty.insert request.queryNode 1.0

def seedDistribution (request : Request) : Distribution :=
  (seedWeights request).toList.filter fun (_, weight) => 0.0 < weight

/-- The share of one node of a distribution in a number of walkers: a whole number, and what is left
over. -/
structure WalkerShare where
  node : NodeId
  whole : Nat
  remainder : Binary64
  deriving DecidableEq, Repr

namespace WalkerShare

def of (walkers : Nat) (entry : NodeId × Binary64) : WalkerShare :=
  let exact := entry.2 * Binary64.ofNat walkers
  let floor := exact.floor
  { node := entry.1, whole := floor.toUInt64.toNat, remainder := exact - floor }

/-- Whether a share is rounded up no later than another: the larger remainder first, then the
smaller node. -/
def precedes (a b : WalkerShare) : Bool :=
  let x := a.remainder.totalKey
  let y := b.remainder.totalKey
  if x ≠ y then y < x else a.node ≤ b.node

/-- The share with one walker more. -/
def raise (share : WalkerShare) : WalkerShare := { share with whole := share.whole + 1 }

end WalkerShare

/-- The positions of the shares in the order they are rounded up. -/
def roundingOrder (shares : List WalkerShare) : List Nat :=
  (shares.zipIdx.mergeSort fun a b => a.1.precedes b.1).map (·.2)

/-- Rounds up the shares at some positions, one after the other. -/
def raiseAt (shares : List WalkerShare) (positions : List Nat) : List WalkerShare :=
  positions.foldl (fun shares position => shares.modify position WalkerShare.raise) shares

/-- The share of each node in a number of walkers. -/
def sharesOf (distribution : Distribution) (walkers : Nat) : List WalkerShare :=
  distribution.map (.of walkers)

/-- Distributes walkers: each node gets the whole part of its share, and the walkers left over go
one each to the nodes with the largest remainders. Nodes without walkers are dropped.

The whole parts are added up in 64 bits. They may not fit, as each of them is cut off from a product
that was rounded: then nothing is distributed. (Where sums are not checked, the program goes on with
what is left of the sum modulo `2 ^ 64`.) -/
def apportion? (distribution : Distribution) (walkers : Nat) : Option (List (NodeId × Nat)) :=
  let shares := sharesOf distribution walkers
  (total? (·.whole) shares).map fun assigned =>
    -- the whole parts can exceed the walkers where doubles are coarse: none is left then
    let raised := raiseAt shares ((roundingOrder shares).take (walkers - assigned))
    (raised.map fun share => (share.node, share.whole)).filter fun (_, count) => 0 < count

/-- A share is raised as often as its position is listed. -/
theorem getElem?_raiseAt (shares : List WalkerShare) (positions : List Nat) (i : Nat) :
    (raiseAt shares positions)[i]? = shares[i]?.map fun share =>
      { share with whole := share.whole + positions.count i } := by
  -- a position may be listed again: one walker is added to what is there by then
  unfold raiseAt
  induction positions generalizing shares with
  | nil => simp
  | cons position rest ih =>
    rw [List.foldl_cons, ih, List.getElem?_modify]
    cases shares[i]? with
    | none => rfl
    | some share =>
      by_cases hhere : position = i
      · simp [hhere, WalkerShare.raise, Nat.add_comm, Nat.add_left_comm]
      · simp [hhere]

theorem map_node_raiseAt (shares : List WalkerShare) (positions : List Nat) :
    (raiseAt shares positions).map (·.node) = shares.map (·.node) := by
  apply List.ext_getElem?
  intro i
  rw [List.getElem?_map, List.getElem?_map, getElem?_raiseAt]
  cases shares[i]? with
  | none => rfl
  | some share => rfl

end Slidewalk.Salsa
