import Slidewalk.Counters
import Slidewalk.View

/-!
# Graphs: a sliding window of segments

Edges go to the newest segment. When it is sealed the next edge opens another one, and the oldest
segment leaves the window if there are too many. A segment lives in two versions: as it was written,
and repacked. The window, and every snapshot of it, lists versions; reading one looks them up in the
graph, so a snapshot shows the edges its newest segment received after it was taken, and segments
that have left the window.
-/

namespace Slidewalk

/-- A segment in one of its two versions. -/
structure Version where
  segment : Nat
  repacked : Bool
  deriving DecidableEq, Repr

/-- A segment that was opened: as written, and repacked if that was done. -/
structure Holding where
  written : Segment
  repacked : Option Segment

/-- The versions that the window listed at some moment. -/
structure Snapshot where
  versions : List Version
  deriving DecidableEq, Repr

def Snapshot.empty : Snapshot := { versions := [] }

structure Graph where
  options : Options
  /-- Every segment opened so far, under its id. -/
  holdings : Array Holding
  /-- The segments of the window, oldest first. -/
  window : List Version
  counters : Counters

namespace Graph

/-- A graph without edges; its options must be usable together. -/
def create (options : Options) : Except Fault Graph := do
  options.validate
  return { options, holdings := #[], window := [], counters := .zero }

/-! ## Reading -/

def segment? (graph : Graph) (version : Version) : Option Segment :=
  match graph.holdings[version.segment]? with
  | none => none
  | some holding => if version.repacked then holding.repacked else some holding.written

def snapshot (graph : Graph) : Snapshot := { versions := graph.window }

/-- What a snapshot of this graph shows now. -/
def viewOf (graph : Graph) (snapshot : Snapshot) : View where
  segments := snapshot.versions.filterMap graph.segment?

def view (graph : Graph) : View := graph.viewOf graph.snapshot

/-- The counted events, all zero if the graph does not report them. -/
def metrics (graph : Graph) : Counters :=
  if graph.options.counting then
    { graph.counters with
      indexGrowths := total (·.written.growths) graph.holdings.toList
      poolPromotions := total (·.written.promotions) graph.holdings.toList }
  else .zero

/-- The newest segment of the window, if it still takes edges. -/
def openVersion? (graph : Graph) : Option Version :=
  match graph.window.getLast? with
  | none => none
  | some version =>
      match graph.segment? version with
      | none => none
      | some segment => if segment.isSealed then none else some version

/-! ## Sealing and repacking -/

def modifyWritten (graph : Graph) (id : Nat) (change : Segment → Segment) : Graph :=
  { graph with
    holdings := graph.holdings.modify id fun holding =>
      { holding with written := change holding.written } }

def keepRepacked (graph : Graph) (id : Nat) (segment : Segment) : Graph :=
  { graph with
    holdings := graph.holdings.modify id fun holding => { holding with repacked := some segment } }

/-- Repacks a segment that is listed as written. On success the repacked version is kept and the
event counted; the window does not change. -/
def repackVersion (graph : Graph) (version : Version) : Graph × Except Fault Version :=
  match graph.segment? version with
  | none => (graph, .ok version)
  | some segment =>
      match segment.repack with
      | .error fault => (graph, .error fault)
      | .ok repacked =>
          let kept := graph.keepRepacked version.segment repacked
          ({ kept with counters := kept.counters.countOptimized segment.stats.wasted },
            .ok { version with repacked := true })

/-- Counts a sealed segment, and repacks it in the window if the limits ask for that. A segment that
cannot be repacked stays as it is. -/
def onSealed (graph : Graph) (version : Version) : Graph :=
  let graph := { graph with counters := graph.counters.countSealed }
  if graph.options.limits.optimizeOnSeal then
    match graph.repackVersion version with
    | (graph, .error _) => graph
    | (graph, .ok repacked) =>
        { graph with window := graph.window.map fun old => if old = version then repacked else old }
  else graph

/-- Seals the newest segment if it takes edges and has one; says whether it did. -/
def sealCurrent (graph : Graph) : Graph × Bool :=
  match graph.openVersion? with
  | none => (graph, false)
  | some version =>
      match graph.segment? version with
      | none => (graph, false)
      | some segment =>
          if segment.edgeCount = 0 then (graph, false)
          else ((graph.modifyWritten version.segment (·.sealed)).onSealed version, true)

def isRepackable (graph : Graph) (version : Version) : Bool :=
  match graph.segment? version with
  | none => false
  | some segment => segment.isSealed && !segment.isRepacked

/-- Repacks the sealed segments among some versions: the graph with the repacked versions kept, and
the versions to list instead, with the number of those that changed. -/
def repackAll (graph : Graph) : List Version → Graph × Except Fault (List Version × Nat)
  | [] => (graph, .ok ([], 0))
  | version :: rest =>
      if graph.isRepackable version then
        match graph.repackVersion version with
        | (graph, .error fault) => (graph, .error fault)
        | (graph, .ok repacked) =>
            match repackAll graph rest with
            | (graph, .error fault) => (graph, .error fault)
            | (graph, .ok (versions, count)) => (graph, .ok (repacked :: versions, count + 1))
      else
        match repackAll graph rest with
        | (graph, .error fault) => (graph, .error fault)
        | (graph, .ok (versions, count)) => (graph, .ok (version :: versions, count))

/-- Repacks every sealed segment of the window that is not repacked yet; answers how many. -/
def optimizeSealed (graph : Graph) : Graph × Except Fault Nat :=
  match graph.repackAll graph.window with
  | (graph, .error fault) => (graph, .error fault)
  | (graph, .ok (window, count)) => ({ graph with window }, .ok count)

/-! ## Adding edges -/

/-- The versions that stay when at most `limit` may, and how many leave in front of them; nothing
stays to be listed if one that would have to leave is not sealed. -/
def evict (isSealed : Version → Bool) (limit : Nat) :
    List Version → Nat × Option (List Version)
  | [] => (0, some [])
  | version :: rest =>
      if (version :: rest).length ≤ limit then (0, some (version :: rest))
      else if isSealed version then
        let (count, kept) := evict isSealed limit rest
        (count + 1, kept)
      else (0, none)

def isSealedVersion (graph : Graph) (version : Version) : Bool :=
  match graph.segment? version with
  | none => true
  | some segment => segment.isSealed

/-- Opens a segment at the end of the window and drops the oldest ones beyond the limit. -/
def openSegment (graph : Graph) : Graph × Except Fault Version :=
  match Segment.create graph.holdings.size graph.options with
  | .error fault => (graph, .error fault)
  | .ok segment =>
      let version : Version := ⟨graph.holdings.size, false⟩
      -- the id is used up even if the window refuses the segment
      let graph := { graph with holdings := graph.holdings.push ⟨segment, none⟩ }
      let (count, kept) :=
        evict graph.isSealedVersion graph.options.limits.maxSegments (graph.window ++ [version])
      let graph := { graph with counters := graph.counters.countEvicted count }
      match kept with
      | none => (graph, .error (.configuration .evictingUnsealed))
      | some window => ({ graph with window }, .ok version)

/-- Offers an edge to a segment and leaves the answer as state. -/
def offerTo (edge : Edge) (holding : Holding) : StateM (Except Fault Unit) Holding :=
  let ⟨written, repacked⟩ := holding
  let (written, result) := written.add edge
  fun _ => ({ written, repacked }, result)

def offer (graph : Graph) (id : Nat) (edge : Edge) : Graph × Except Fault Unit :=
  -- taking the graph apart lets its arrays be changed in place
  let ⟨options, holdings, window, counters⟩ := graph
  let (holdings, result) := (holdings.modifyM id (offerTo edge)).run (.ok ())
  ({ options, holdings, window, counters }, result)

theorem offer_eq (graph : Graph) (id : Nat) (edge : Edge) :
    graph.offer id edge = (graph.modifyWritten id fun written => (written.add edge).1,
      match graph.holdings[id]? with
      | some holding => (holding.written.add edge).2
      | none => .ok ()) := by
  obtain ⟨options, holdings, window, counters⟩ := graph
  unfold offer modifyWritten Array.modify Array.modifyM
  dsimp only
  by_cases hlt : id < holdings.size
  · rw [dif_pos hlt, dif_pos hlt, Array.getElem?_eq_getElem hlt]
    rfl
  · rw [dif_neg hlt, dif_neg hlt, Array.getElem?_eq_none (Nat.le_of_not_lt hlt)]
    rfl

/-- The segment that takes the next edge, opened if none is open. -/
def target (graph : Graph) : Graph × Except Fault Version :=
  match graph.openVersion? with
  | some version => (graph, .ok version)
  | none => graph.openSegment

/-- Adds an edge to the newest segment, opening one first if the newest is sealed. -/
def add (graph : Graph) (edge : Edge) : Graph × Except Fault Unit :=
  let (graph, target) := graph.target
  match target with
  | .error fault => (graph, .error fault)
  | .ok version =>
      match graph.offer version.segment edge with
      | (graph, .error fault) =>
          ({ graph with counters := graph.counters.countRejected }, .error fault)
      | (graph, .ok ()) =>
          let graph := { graph with counters := graph.counters.countAdded }
          (if graph.isSealedVersion version then graph.onSealed version else graph, .ok ())

end Graph

end Slidewalk
