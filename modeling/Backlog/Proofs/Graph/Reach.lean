import Backlog.Graph.Reach
import Backlog.Proofs.Graph.Layers
import Backlog.Proofs.OrderedMap

namespace Backlog

open Backlog.Text

/-!
# What entry points lead to

What is connected to an entry point is found row by row, and stated by ways: rows of nodes, each a
neighbour of the one before in a fixed direction. The bound on the number of rows without a limit is
the number of nodes, and no way has to be longer than that.

* `ImportGraph.Walk` — a way through nodes, all its steps in one direction;
* `ImportGraph.stepsTo_iff_walk` — the ways that are spread along are these;
* `ImportGraph.mem_reachFrom_iff` — one node and one direction;
* `ImportGraph.mem_reach_iff` — entry points are connected to a path exactly if one of them has a way
  to it that the mode and the limit allow.
-/

/-- The directions in which a mode lets a way go. -/
def DependencyMode.Allows : DependencyMode → Direction → Prop
  | .connected, _ => True
  | .dependencies, d => d = .toDependencies
  | .dependents, d => d = .toDependents

/-- The directions of a mode are those that it allows. -/
theorem DependencyMode.mem_directions_iff (mode : DependencyMode) (d : Direction) :
    d ∈ mode.directions ↔ mode.Allows d := by
  cases mode <;> cases d <;> simp [directions, Allows]

namespace ImportGraph

/-- A way of some steps from one node to another: each step leads from a node to one of its
    neighbours in the direction that is also a node. -/
inductive Walk (g : ImportGraph) (d : Direction) : Nat → String → String → Prop where
  | start {x : String} (hx : g.contains x) : Walk g d 0 x x
  | step {k : Nat} {x y z : String} {node : ModuleNode} (way : Walk g d k x y)
      (hy : g.nodes.lookup y = some node) (hz : z ∈ node.neighbours d) (hnode : g.contains z) :
      Walk g d (k + 1) x z

variable {g : ImportGraph} {d : Direction} {k : Nat} {e x y : String}

/-- The nodes one step away. A neighbour that is no node is no step. -/
theorem mem_next_iff :
    y ∈ g.next d x ↔
      ∃ node, g.nodes.lookup x = some node ∧ y ∈ node.neighbours d ∧ g.contains y := by
  unfold next
  cases hnode : g.nodes.lookup x with
  | none => simp
  | some node => simp [List.mem_filter]

/-- From a node, the ways of some length are the ways through nodes. The one is what a search
    follows, the other what is meant by a way. -/
theorem stepsTo_iff_walk (he : g.contains e) : StepsTo (g.next d) [e] k x ↔ g.Walk d k e x := by
  -- Both kinds of ways grow at their end.
  induction k generalizing x with
  | zero =>
    rw [StepsTo, List.mem_singleton]
    constructor
    · rintro rfl
      exact .start he
    · rintro ⟨⟩
      rfl
  | succ k ih =>
    constructor
    · rintro ⟨y, hy, hxy⟩
      obtain ⟨node, hnode, hx, hcontains⟩ := mem_next_iff.mp hxy
      exact .step (ih.mp hy) hnode hx hcontains
    · intro h
      cases h with
      | step way hy hz hnode => exact ⟨_, ih.mpr way, mem_next_iff.mpr ⟨_, hy, hz, hnode⟩⟩

/-- Steps in one direction stay among the nodes. So a search from a node ends. -/
theorem closed_next (he : g.contains e) : Closed (g.next d) [e] g.nodes.keys where
  start_subset := by
    intro x hx
    obtain rfl := List.mem_singleton.mp hx
    exact OrderedMap.contains_iff.mp he
  next_subset := by
    intro x y hy
    obtain ⟨_, _, _, hcontains⟩ := mem_next_iff.mp hy
    exact OrderedMap.contains_iff.mp hcontains

/-- A node leads in one direction to the ends of its ways, if they are not too long. The search is
    in rows, and the rows are those of distances. -/
theorem mem_reachFrom_iff {maxDepth : Option Int} (he : g.contains e) :
    x ∈ g.reachFrom d maxDepth e ↔ ∃ k, AllowsLength maxDepth k ∧ g.Walk d k e x := by
  rw [reachFrom, ← OrderedMap.length_keys, mem_flatten_layers_iff (closed_next he)]
  simp only [stepsTo_iff_walk he]

/-- Each entry point that is a node counts for itself, and so does each direction that the mode
    allows. So it is enough to look at one of each. -/
theorem mem_reach_iff_mem_reachFrom {entryPoints : List String} {mode : DependencyMode}
    {maxDepth : Option Int} :
    x ∈ g.reach entryPoints mode maxDepth ↔
      ∃ e ∈ entryPoints, g.contains e ∧ ∃ d, mode.Allows d ∧ x ∈ g.reachFrom d maxDepth e := by
  simp only [reach, mem_distinctTexts, List.mem_flatMap, List.mem_filter,
    DependencyMode.mem_directions_iff]
  constructor
  · rintro ⟨e, ⟨hentry, he⟩, hreach⟩
    exact ⟨e, hentry, he, hreach⟩
  · rintro ⟨e, hentry, he, hreach⟩
    exact ⟨e, ⟨hentry, he⟩, hreach⟩

/-- A path is connected to some entry points exactly if a way leads to it from one of them that is a
    node: a way through nodes, in one direction that the mode allows, and not longer than the limit
    allows. -/
theorem mem_reach_iff (g : ImportGraph) (entryPoints : List String) (mode : DependencyMode)
    (maxDepth : Option Int) (x : String) :
    x ∈ g.reach entryPoints mode maxDepth ↔
      ∃ e ∈ entryPoints, g.contains e ∧ ∃ d, mode.Allows d ∧
        ∃ k : Nat, (∀ n, maxDepth = some n → (k : Int) ≤ max n 0) ∧ g.Walk d k e x := by
  rw [mem_reach_iff_mem_reachFrom]
  constructor
  · rintro ⟨e, hentry, he, d, hd, hx⟩
    exact ⟨e, hentry, he, d, hd, (mem_reachFrom_iff he).mp hx⟩
  · rintro ⟨e, hentry, he, d, hd, hx⟩
    exact ⟨e, hentry, he, d, hd, (mem_reachFrom_iff he).mpr hx⟩

end ImportGraph

end Backlog
