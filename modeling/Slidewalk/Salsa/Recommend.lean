import Slidewalk.Graph
import Slidewalk.Salsa.Ranking

/-!
# Recommending

A recommendation walks over a view of a graph as a request asks, and ranks what was visited.
-/

namespace Slidewalk

def View.adjacency (view : View) : Salsa.Adjacency where
  neighbors := view.neighbors
  degree := view.degree

namespace Salsa

/-- The walk of a request after its last half-step. -/
def finishedWalk (request : Request) (adjacency : Adjacency) : Except RequestFault Walk :=
  (Walk.start request).map (Walk.run request adjacency request.walkLength .right)

def recommend (request : Request) (adjacency : Adjacency) :
    Except RequestFault (List Recommendation) :=
  (finishedWalk request adjacency).map fun walk => rank walk request adjacency

end Salsa

/-- The best results in the current window, counted as a query. -/
def Graph.recommend (graph : Graph) (request : Salsa.Request) :
    Graph × Except Salsa.RequestFault (List Salsa.Recommendation) :=
  let adjacency := graph.view.adjacency
  match Salsa.finishedWalk request adjacency with
  | .error fault => (graph, .error fault)
  | .ok walk =>
      ({ graph with counters := graph.counters.countQuery walk.visitedRight },
        .ok (Salsa.rank walk request adjacency))

end Slidewalk
