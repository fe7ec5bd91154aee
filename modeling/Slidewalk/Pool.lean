import Slidewalk.Pool.ExactFit
import Slidewalk.Pool.PowerLaw
import Slidewalk.Pool.Uniform

/-!
# Adjacency pools

A pool keeps, for each densely numbered node, the list of packed entries written for it. The layouts
differ in what they reserve and in which bound they run into; what is read from them is the same.
-/

namespace Slidewalk

inductive Pool where
  | uniform (pool : UniformPool)
  | powerLaw (pool : PowerLawPool)
  | exactFit (pool : ExactFitPool)

namespace Pool

/-- The entries written for a node, in order. -/
def row : Pool → Nat → Array UInt32
  | uniform pool => pool.row
  | powerLaw pool => pool.row
  | exactFit pool => pool.row

def readInto (pool : Pool) (node : Nat) (buffer : Array UInt32) : Array UInt32 :=
  buffer ++ pool.row node

def degree : Pool → Nat → Nat
  | uniform pool => pool.degree
  | powerLaw pool => pool.degree
  | exactFit pool => pool.degree

def nodeCount : Pool → Nat
  | uniform pool => pool.nodeCount
  | powerLaw pool => pool.nodeCount
  | exactFit pool => pool.nodeCount

def edgeCount : Pool → Nat
  | uniform pool => pool.edgeCount
  | powerLaw pool => pool.edgeCount
  | exactFit pool => pool.edgeCount

def isSealed : Pool → Bool
  | uniform pool => pool.isSealed
  | powerLaw pool => pool.isSealed
  | exactFit _ => true

def stats : Pool → PoolStats
  | uniform pool => pool.stats
  | powerLaw pool => pool.stats
  | exactFit pool => pool.stats

def promotions : Pool → Nat
  | powerLaw pool => pool.promotions
  | _ => 0

/-- Whether an edge of a node would be refused, and why. The pool does not ask here whether the node
itself fits. -/
def check : Pool → Nat → Except Fault Unit
  | uniform pool, node => pool.check node
  | powerLaw pool, node => pool.check node
  | exactFit _, _ => .error (.sealed .exactFitPool)

/-- Appends an entry to a node's list. A refused entry leaves the pool as it was. -/
def add : Pool → Nat → UInt32 → Pool × Except Fault Unit
  | uniform pool, node, entry =>
      let (pool, result) := pool.add node entry
      (uniform pool, result)
  | powerLaw pool, node, entry =>
      let (pool, result) := pool.add node entry
      (powerLaw pool, result)
  | exactFit pool, _, _ => (exactFit pool, .error (.sealed .exactFitPool))

def sealed : Pool → Pool
  | uniform pool => uniform pool.sealed
  | powerLaw pool => powerLaw pool.sealed
  | exactFit pool => exactFit pool

/-- The nodes whose lists a repacked copy holds. They are counted in 32 bits without a check that
the count fits: if every number of 32 bits may have a list, none is copied. -/
def copiedNodes (pool : Pool) : Nat := pool.nodeCount % UInt32.size

def repack (pool : Pool) : Except Fault ExactFitPool :=
  if !pool.isSealed then .error (.configuration .unsealedPool)
  else if ExactFitPool.maxEntries < pool.edgeCount then
    .error (.capacity .exactFitEntries ExactFitPool.maxEntries)
  else .ok (ExactFitPool.ofRows ((List.range pool.copiedNodes).map pool.row))

theorem copiedNodes_of_lt {pool : Pool} (h : pool.nodeCount < UInt32.size) :
    pool.copiedNodes = pool.nodeCount :=
  Nat.mod_eq_of_lt h

end Pool

end Slidewalk
