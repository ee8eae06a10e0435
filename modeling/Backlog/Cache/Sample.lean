import Backlog.Graph.Basic

namespace Backlog

/-!
# The files that guard a cached graph

A cached graph is only used as long as a sample of its files is unchanged.

* `ImportGraph.sample` — the entry points, and other nodes at even distances.
-/

/-- Every `step`-th item of a list, the first one after `skip` others. -/
def everyNth {α : Type} (step : Nat) : Nat → List α → List α
  | _, [] => []
  | 0, a :: rest => a :: everyNth step (step - 1) rest
  | skip + 1, _ :: rest => everyNth step skip rest

namespace ImportGraph

/-- The entry points that are nodes. -/
def entryNodes (g : ImportGraph) : List String := g.entryPoints.filter g.contains

/-- The nodes that are no entry points, in order. -/
def otherNodes (g : ImportGraph) : List String :=
  g.nodes.keys.filter (fun path => !g.entryNodes.contains path)

/-- The files that guard the graph: its entry points, and as many others as there is room for, at
    even distances in the order of the nodes. -/
def sample (g : ImportGraph) (maxSize : Int) : List String :=
  -- Without room the division is by zero, but then nothing is drawn.
  let room := (maxSize - g.entryNodes.length).toNat
  g.entryNodes ++ (everyNth (max 1 (g.otherNodes.length / room)) 0 g.otherNodes).take room

end ImportGraph

end Backlog
