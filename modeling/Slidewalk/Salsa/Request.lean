import Std.Data.TreeSet
import Slidewalk.Salsa.Filter
import Slidewalk.Salsa.Mass
import Slidewalk.Salsa.Settings

/-!
# Requests

A draft collects what a caller asks for; a request is a draft that was found usable.
-/

namespace Slidewalk.Salsa

structure RequestDraft where
  queryNode : NodeId
  settings : Settings
  /-- Further left nodes to start from, with their weights. -/
  leftSeeds : Mass
  /-- Right nodes to leave out of the results. -/
  excluded : Std.TreeSet NodeId
  filters : FilterChain

structure Request where
  queryNode : NodeId
  settings : Settings
  leftSeeds : Mass
  excluded : Std.TreeSet NodeId
  filters : FilterChain
  walkLength : Nat

def Settings.request (settings : Settings) (queryNode : NodeId) : RequestDraft :=
  { queryNode, settings, leftSeeds := .empty, excluded := ∅, filters := [] }

namespace RequestDraft

/-- Adds a seed; the weights of repeated seeds add up. -/
def seed (draft : RequestDraft) (node : NodeId) (weight : Binary64) : RequestDraft :=
  { draft with leftSeeds := draft.leftSeeds.add node weight }

def exclude (draft : RequestDraft) (nodes : List NodeId) : RequestDraft :=
  { draft with excluded := nodes.foldl (fun excluded node => excluded.insert node) draft.excluded }

def modifySettings (draft : RequestDraft) (change : Settings → Settings) : RequestDraft :=
  { draft with settings := change draft.settings }

def filter (draft : RequestDraft) (filter : Filter) : RequestDraft :=
  { draft with filters := draft.filters ++ [filter] }

/-- The first seed, by ascending node, whose weight is negative or not finite. -/
def badSeed (draft : RequestDraft) : Option (NodeId × Binary64) :=
  draft.leftSeeds.toList.find? fun (_, weight) => !weight.isFinite || weight < 0.0

/-- The request, if everything asked for is usable. -/
def build (draft : RequestDraft) : Except RequestFault Request := do
  let walkLength ← draft.settings.validate
  if let some (seed, weight) := draft.badSeed then
    throw (.seedWeight seed weight)
  -- a query node that takes all the weight needs no seeds
  if !draft.leftSeeds.isEmpty && draft.leftSeeds.total ≤ 0.0 &&
      draft.settings.queryNodeWeightFraction < 1.0 then
    throw .weightlessSeeds
  let { queryNode, settings, leftSeeds, excluded, filters } := draft
  return { queryNode, settings, leftSeeds, excluded, filters, walkLength }

end RequestDraft

namespace Request

/-- Whether a left node is one of those the walk was asked to start from. -/
def isSeed (request : Request) (node : NodeId) : Bool :=
  node == request.queryNode || request.leftSeeds.contains node

def countsAsProof (request : Request) (kind : EdgeType) : Bool :=
  request.settings.socialProofTypeMask.isEmpty || request.settings.socialProofTypeMask.contains kind

end Request

end Slidewalk.Salsa
