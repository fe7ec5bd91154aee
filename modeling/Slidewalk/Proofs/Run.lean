import Slidewalk.Graph

/-!
# Runs of a graph

A run applies operations in order and collects what they answer.
-/

namespace Slidewalk

inductive Operation where
  | add (edge : Edge)
  | sealCurrent
  | optimizeSealed
  deriving DecidableEq

inductive Answer where
  | added (result : Except Fault Unit)
  | sealed (changed : Bool)
  | optimized (result : Except Fault Nat)

def Operation.isMaintenance : Operation → Bool
  | optimizeSealed => true
  | _ => false

def Answer.isMaintenance : Answer → Bool
  | optimized _ => true
  | _ => false

/-- Whether an edge was taken. -/
def Answer.takes : Answer → Bool
  | added (.ok _) => true
  | _ => false

/-- Whether an edge was refused. -/
def Answer.refuses : Answer → Bool
  | added (.error _) => true
  | _ => false

/-- The edge that an operation put into the window. -/
def Operation.taken : Operation → Answer → List Edge
  | add edge, .added (.ok ()) => [edge]
  | _, _ => []

/-- The newest segment of a window that was sealed by hand. -/
def Answer.closed (newest : Option Nat) : Answer → List Nat
  | sealed true => newest.toList
  | _ => []

/-- The newest segment that a snapshot lists. -/
def Snapshot.newest? (snapshot : Snapshot) : Option Nat :=
  snapshot.versions.getLast?.map (·.segment)

namespace Graph

def perform (graph : Graph) : Operation → Graph × Answer
  | .add edge => ((graph.add edge).1, .added (graph.add edge).2)
  | .sealCurrent => (graph.sealCurrent.1, .sealed graph.sealCurrent.2)
  | .optimizeSealed => (graph.optimizeSealed.1, .optimized graph.optimizeSealed.2)

def run (graph : Graph) : List Operation → Graph × List Answer
  | [] => (graph, [])
  | operation :: rest =>
      let (graph, answer) := graph.perform operation
      let (graph, answers) := graph.run rest
      (graph, answer :: answers)

def accepted (graph : Graph) : List Operation → List Edge
  | [] => []
  | operation :: rest =>
      let (graph, answer) := graph.perform operation
      operation.taken answer ++ graph.accepted rest

/-- The segment that the next edge is offered to. -/
def receiver? (graph : Graph) : Option Nat :=
  match graph.target.2 with
  | .ok version => some version.segment
  | .error _ => none

/-- The edges that a run puts into the segment of an id. -/
def acceptedInto (graph : Graph) (id : Nat) : List Operation → List Edge
  | [] => []
  | operation :: rest =>
      let (next, answer) := graph.perform operation
      (if graph.receiver? = some id then operation.taken answer else []) ++
        next.acceptedInto id rest

/-- The ids of the segments that a run seals by hand. -/
def closedByHand (graph : Graph) : List Operation → List Nat
  | [] => []
  | operation :: rest =>
      let (next, answer) := graph.perform operation
      answer.closed graph.snapshot.newest? ++ next.closedByHand rest

theorem run_append (graph : Graph) (front back : List Operation) :
    (graph.run (front ++ back)).1 = ((graph.run front).1.run back).1 := by
  induction front generalizing graph with
  | nil => rfl
  | cons operation rest ih => exact ih (graph.perform operation).1

theorem answers_append (graph : Graph) (front back : List Operation) :
    (graph.run (front ++ back)).2 = (graph.run front).2 ++ ((graph.run front).1.run back).2 := by
  induction front generalizing graph with
  | nil => rfl
  | cons operation rest ih => exact congrArg (_ :: ·) (ih (graph.perform operation).1)

/-- Every edge that is offered is taken or refused. -/
theorem countP_answers (graph : Graph) (edges : List Edge) :
    (graph.run (edges.map .add)).2.countP (·.takes) +
      (graph.run (edges.map .add)).2.countP (·.refuses) = edges.length := by
  induction edges generalizing graph with
  | nil => rfl
  | cons edge rest ih =>
    have hrest := ih (graph.add edge).1
    have hanswers : (graph.run ((edge :: rest).map .add)).2 =
        .added (graph.add edge).2 :: ((graph.add edge).1.run (rest.map .add)).2 := rfl
    rw [hanswers, List.countP_cons, List.countP_cons, List.length_cons, ← hrest]
    cases (graph.add edge).2 with
    | error fault =>
      simp [Answer.takes, Answer.refuses]
      omega
    | ok done =>
      simp [Answer.takes, Answer.refuses]
      omega

end Graph

end Slidewalk
