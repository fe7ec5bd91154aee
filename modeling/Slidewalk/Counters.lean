/-!
# Event counters

What happened to a graph since it was made. Counters only grow.
-/

namespace Slidewalk

structure Counters where
  edgesAdded : Nat
  edgesRejected : Nat
  segmentsSealed : Nat
  segmentsEvicted : Nat
  segmentsOptimized : Nat
  /-- Entries that segments wasted before they were repacked. -/
  reclaimedEntries : Nat
  indexGrowths : Nat
  poolPromotions : Nat
  queries : Nat
  /-- Right nodes visited, summed over the queries. -/
  visitedRight : Nat
  deriving DecidableEq, Repr

namespace Counters

def zero : Counters where
  edgesAdded := 0
  edgesRejected := 0
  segmentsSealed := 0
  segmentsEvicted := 0
  segmentsOptimized := 0
  reclaimedEntries := 0
  indexGrowths := 0
  poolPromotions := 0
  queries := 0
  visitedRight := 0

def countAdded (counters : Counters) : Counters :=
  { counters with edgesAdded := counters.edgesAdded + 1 }

def countRejected (counters : Counters) : Counters :=
  { counters with edgesRejected := counters.edgesRejected + 1 }

def countSealed (counters : Counters) : Counters :=
  { counters with segmentsSealed := counters.segmentsSealed + 1 }

def countEvicted (counters : Counters) (segments : Nat) : Counters :=
  { counters with segmentsEvicted := counters.segmentsEvicted + segments }

def countOptimized (counters : Counters) (wasted : Nat) : Counters :=
  { counters with
    segmentsOptimized := counters.segmentsOptimized + 1
    reclaimedEntries := counters.reclaimedEntries + wasted }

def countQuery (counters : Counters) (visitedRight : Nat) : Counters :=
  { counters with
    queries := counters.queries + 1
    visitedRight := counters.visitedRight + visitedRight }

end Counters

end Slidewalk
