import Slidewalk.Salsa.SocialProof

/-!
# Candidate filters

A filter drops candidates, given a node and its social proof. A chain asks its filters in order and
stops at the first that drops the candidate.
-/

namespace Slidewalk.Salsa

/-- Whether a candidate is dropped. -/
abbrev Filter := NodeId → SocialProof → Bool

namespace Filter

def congruent (modulus remainder : NodeId) : Filter := fun node _ => node % modulus == remainder

def above (bound : NodeId) : Filter := fun node _ => bound < node

def unexplained : Filter := fun _ proof => proof.isEmpty

def explainedBy (kind : EdgeType) : Filter := fun _ proof => proof.any (·.1 == kind)

/-- Drops what fewer than `count` seeds explain, a seed counted once for each type. -/
def fewerSeeds (count : Nat) : Filter := fun _ proof => proof.seeds.length < count

def everything : Filter := fun _ _ => true

def nothing : Filter := fun _ _ => false

end Filter

abbrev FilterChain := List Filter

namespace FilterChain

def excludes (chain : FilterChain) (node : NodeId) (proof : SocialProof) : Bool :=
  chain.any fun filter => filter node proof

/-- Whether the candidate is dropped, and how many filters it takes to know. -/
def consult (node : NodeId) (proof : SocialProof) : FilterChain → Bool × Nat
  | [] => (false, 0)
  | filter :: rest =>
      if filter node proof then (true, 1)
      else
        let (dropped, asked) := consult node proof rest
        (dropped, asked + 1)

def describe (chain : FilterChain) : String :=
  "FilterChain \x7b " ++ s!"filters: {chain.length}" ++ " \x7d"

end FilterChain

end Slidewalk.Salsa
