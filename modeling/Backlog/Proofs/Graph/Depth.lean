import Backlog.Proofs.Graph.Reach

namespace Backlog

open Backlog.Number Backlog.Text

/-!
# Depths of nodes

A graph is built together with the distance of each node from the entry points.

* `ImportGraph.Shortest` — the length of a shortest way from the entry points along the dependencies;
* `layerOf?_eq_some_iff` — a node is found in the row of its distance;
* `ImportGraph.distance_iff_shortest` — the distances that rows know are the lengths of such ways;
* `ImportGraph.depth_ofModules_iff` — the depth of a node is the length of its shortest way if the
  limit allows that length; and the nodes with a depth are those that the entry points lead to.
-/

/-- The first row that holds a node is the row of its distance. A node lies in one row only, which
    is why the first will do. -/
theorem layerOf?_eq_some_iff {next : String → List String} {start : List String} {k hops : Nat}
    {x : String} :
    layerOf? (layers next hops start start) x = some k ↔ k ≤ hops ∧ Distance next start k x := by
  rw [← mem_layers_iff, layerOf?, List.findIdx?_eq_some_iff_getElem]
  constructor
  · rintro ⟨hk, hx, _⟩
    exact ⟨_, List.getElem?_eq_getElem hk, by simpa using hx⟩
  · rintro ⟨row, hrow, hx⟩
    have hdist := (mem_layers_iff.mp ⟨row, hrow, hx⟩).2
    obtain ⟨hk, rfl⟩ := List.getElem?_eq_some_iff.mp hrow
    refine ⟨hk, by simpa using hx, fun j hj => ?_⟩
    -- An earlier row would hold the node at another distance.
    rw [List.contains_iff_mem]
    intro hxj
    have hrowj := List.getElem?_eq_getElem (Nat.lt_trans hj hk)
    have hj' := (mem_layers_iff.mp ⟨_, hrowj, hxj⟩).2
    exact Nat.ne_of_lt hj (hj'.unique hdist)

namespace ImportGraph

/-- A way of this length leads from one of the entry points to a node along the dependencies, and no
    shorter one does. -/
def Shortest (g : ImportGraph) (entryPoints : List String) (k : Nat) (x : String) : Prop :=
  (∃ e ∈ entryPoints, g.Walk .toDependencies k e x) ∧
    ∀ j < k, ¬∃ e ∈ entryPoints, g.Walk .toDependencies j e x

/-! ### The dependencies that a graph is built from -/

/-- The dependencies that some modules give each source. -/
def edgesOf (modules : List SourceModule) : OrderedMap String (List String) :=
  let sources := distinctTexts (modules.map SourceModule.source)
  .ofList (sources.map (fun s => (s, dependenciesOf modules sources s)))

/-- The nodes one step away. -/
def along (edges : OrderedMap String (List String)) (x : String) : List String :=
  (edges.lookup x).getD []

/-- The entry points that are nodes, each once. -/
def startOf (edges : OrderedMap String (List String)) (entryPoints : List String) : List String :=
  distinctTexts (entryPoints.filter edges.contains)

variable {modules : List SourceModule} {entryPoints : List String} {maxDepth : Option Int}
  {builtAt : Binary64} {x y : String} {k : Nat}

/-- The edges of a graph that is built, source by source. -/
theorem entries_edgesOf (modules : List SourceModule) :
    (edgesOf modules).entries =
      (distinctTexts (modules.map SourceModule.source)).map fun s =>
        (s, dependenciesOf modules (distinctTexts (modules.map SourceModule.source)) s) := by
  refine OrderedMap.entries_ofList ?_
  rw [List.map_map]
  exact (List.map_id' _).symm ▸ nodup_distinctTexts _

/-- Dependencies are sources. An import of anything else is no edge. -/
theorem contains_of_mem_along (h : y ∈ along (edgesOf modules) x) :
    (edgesOf modules).contains y := by
  unfold along at h
  cases hx : (edgesOf modules).lookup x with
  | none => simp [hx] at h
  | some dependencies =>
    rw [hx, Option.getD_some] at h
    -- What is looked up was made from the modules, and only sources were let through.
    have hmem := OrderedMap.lookup_eq_some_iff.mp hx
    rw [entries_edgesOf, List.mem_map] at hmem
    obtain ⟨s, _, heq⟩ := hmem
    obtain ⟨rfl, rfl⟩ := Prod.mk.inj heq
    simp only [dependenciesOf, mem_distinctTexts, List.mem_filter, Bool.and_eq_true,
      List.contains_iff_mem] at h
    rw [OrderedMap.contains_iff, OrderedMap.keys, entries_edgesOf, List.map_map]
    simpa using h.2.1

/-- The sources are closed under the edges, so ways from entry points stay among them. -/
theorem closed_along (modules : List SourceModule) (entryPoints : List String) :
    Closed (along (edgesOf modules)) (startOf (edgesOf modules) entryPoints)
      (edgesOf modules).keys where
  start_subset := by
    intro x hx
    rw [startOf, mem_distinctTexts, List.mem_filter] at hx
    exact OrderedMap.contains_iff.mp hx.2
  next_subset _ _ hy := OrderedMap.contains_iff.mp (contains_of_mem_along hy)

/-! ### The nodes of the graph -/

/-- The node of a path: its dependencies, and what follows from them. This is the construction,
    looked up. -/
theorem lookup_ofModules :
    (ofModules modules entryPoints maxDepth builtAt).nodes.lookup x =
      ((edgesOf modules).lookup x).map fun dependencies =>
        ⟨x, dependencies, dependentsOf (edgesOf modules) x, entryPoints.contains x,
          layerOf? (depthRows (edgesOf modules) entryPoints maxDepth) x⟩ :=
  OrderedMap.lookup_map _ _ _

/-- The nodes of a graph are those that have edges, be they none. -/
theorem contains_ofModules :
    (ofModules modules entryPoints maxDepth builtAt).contains x = (edgesOf modules).contains x := by
  rw [Bool.eq_iff_iff, contains, OrderedMap.contains_iff, OrderedMap.contains_iff,
    ← not_iff_not, ← OrderedMap.lookup_eq_none_iff, ← OrderedMap.lookup_eq_none_iff,
    lookup_ofModules, Option.map_eq_none_iff]

/-- The nodes one step away along the dependencies. So ways along the edges are ways of the
    graph. -/
theorem mem_along_iff :
    y ∈ along (edgesOf modules) x ↔
      y ∈ (ofModules modules entryPoints maxDepth builtAt).next .toDependencies x := by
  rw [mem_next_iff, lookup_ofModules, contains_ofModules]
  constructor
  · intro h
    have hcontains := contains_of_mem_along h
    unfold along at h
    cases hx : (edgesOf modules).lookup x with
    | none => simp [hx] at h
    | some dependencies =>
      exact ⟨_, rfl, by simpa [hx, ModuleNode.neighbours] using h, hcontains⟩
  · rintro ⟨node, hnode, hy, _⟩
    obtain ⟨dependencies, hx, rfl⟩ := Option.map_eq_some_iff.mp hnode
    simpa [along, hx, ModuleNode.neighbours] using hy

/-! ### Distances as lengths of ways -/

/-- The ways that the rows spread along are the ways from the entry points that are nodes. Entry
    points that are no sources are not started from. -/
theorem stepsTo_iff_exists_walk :
    StepsTo (along (edgesOf modules)) (startOf (edgesOf modules) entryPoints) k x ↔
      ∃ e ∈ entryPoints,
        (ofModules modules entryPoints maxDepth builtAt).Walk .toDependencies k e x := by
  induction k generalizing x with
  | zero =>
    rw [StepsTo, startOf, mem_distinctTexts, List.mem_filter, ← contains_ofModules]
    constructor
    · rintro ⟨hentry, hx⟩
      exact ⟨x, hentry, .start hx⟩
    · rintro ⟨e, hentry, ⟨hx⟩⟩
      exact ⟨hentry, hx⟩
  | succ k ih =>
    constructor
    · rintro ⟨y, hy, hxy⟩
      obtain ⟨e, hentry, way⟩ := ih.mp hy
      obtain ⟨node, hnode, hx, hcontains⟩ := mem_next_iff.mp (mem_along_iff.mp hxy)
      exact ⟨e, hentry, .step way hnode hx hcontains⟩
    · rintro ⟨e, hentry, way⟩
      cases way with
      | step way hy hx hnode =>
        exact ⟨_, ih.mpr ⟨e, hentry, way⟩, mem_along_iff.mpr (mem_next_iff.mpr ⟨_, hy, hx, hnode⟩)⟩

/-- So the distance of a path is the length of its shortest way. -/
theorem distance_iff_shortest :
    Distance (along (edgesOf modules)) (startOf (edgesOf modules) entryPoints) k x ↔
      (ofModules modules entryPoints maxDepth builtAt).Shortest entryPoints k x := by
  constructor
  · intro h
    exact ⟨stepsTo_iff_exists_walk.mp h.steps,
      fun j hj hway => h.least j hj (stepsTo_iff_exists_walk.mpr hway)⟩
  · rintro ⟨hway, hleast⟩
    exact ⟨stepsTo_iff_exists_walk.mpr hway,
      fun j hj hsteps => hleast j hj (stepsTo_iff_exists_walk.mp hsteps)⟩

/-- A path has a depth exactly if that is the length of its shortest way and the limit allows it.
    The rows are cut off where the limit is. -/
theorem exists_depth_iff :
    (∃ node, (ofModules modules entryPoints maxDepth builtAt).nodes.lookup x = some node ∧
        node.depth = some k) ↔
      (ofModules modules entryPoints maxDepth builtAt).Shortest entryPoints k x ∧
        AllowsLength maxDepth k := by
  have hclosed := closed_along modules entryPoints
  have hrow : layerOf? (depthRows (edgesOf modules) entryPoints maxDepth) x = some k ↔
      k ≤ hopCount (edgesOf modules).keys.length maxDepth ∧
        Distance (along (edgesOf modules)) (startOf (edgesOf modules) entryPoints) k x := by
    rw [OrderedMap.length_keys]
    exact layerOf?_eq_some_iff
  rw [lookup_ofModules]
  constructor
  · rintro ⟨node, hnode, hdepth⟩
    obtain ⟨_, _, rfl⟩ := Option.map_eq_some_iff.mp hnode
    obtain ⟨hle, hdist⟩ := hrow.mp hdepth
    exact ⟨distance_iff_shortest.mp hdist, (le_hopCount_iff hclosed hdist).mp hle⟩
  · rintro ⟨hshortest, hallows⟩
    have hdist := distance_iff_shortest.mpr hshortest
    -- What a way leads to is a source, so that there is a node.
    have hx : x ∈ (edgesOf modules).keys := hdist.steps.mem_of_closed hclosed
    obtain ⟨dependencies, hlookup⟩ := OrderedMap.mem_keys.mp hx
    rw [OrderedMap.lookup_eq_some_iff.mpr hlookup]
    exact ⟨_, rfl, hrow.mpr ⟨(le_hopCount_iff hclosed hdist).mpr hallows, hdist⟩⟩

/-- A way starts at a node. Even a way of no steps does. -/
theorem Walk.contains_start {g : ImportGraph} {d : Direction} (way : g.Walk d k x y) :
    g.contains x := by
  induction way with
  | start hx => exact hx
  | step _ _ _ _ ih => exact ih

/-- A path that a way leads to is at the end of a shortest one, which a limit allows as well. It is
    the least of the lengths of such ways. -/
theorem exists_shortest {g : ImportGraph} {e : String} (hentry : e ∈ entryPoints)
    (way : g.Walk .toDependencies k e x) (hallows : AllowsLength maxDepth k) :
    ∃ j, g.Shortest entryPoints j x ∧ AllowsLength maxDepth j := by
  classical
  have hex : ∃ j, ∃ e ∈ entryPoints, g.Walk .toDependencies j e x := ⟨k, e, hentry, way⟩
  refine ⟨Nat.find hex, ⟨Nat.find_spec hex, fun j hj => Nat.find_min hex hj⟩, fun n hn => ?_⟩
  have hle := Nat.find_min' hex ⟨e, hentry, way⟩
  have := hallows n hn
  omega

/-- In the graph of some modules the depth of a node is the length of the shortest way to it from an
    entry point that is a node, along the dependencies, if there is a way and the limit allows that
    length; without such a length it has no depth. So the nodes with a depth are those that the entry
    points lead to within the limit. -/
theorem depth_ofModules_iff (modules : List SourceModule) (entryPoints : List String)
    (maxDepth : Option Int) (builtAt : Binary64) (x : String) :
    let g := ofModules modules entryPoints maxDepth builtAt
    (∀ k, (∃ node, g.nodes.lookup x = some node ∧ node.depth = some k) ↔
        g.Shortest entryPoints k x ∧ ∀ n, maxDepth = some n → (k : Int) ≤ max n 0) ∧
      ((∃ node, g.nodes.lookup x = some node ∧ node.depth = none) ↔
        g.contains x ∧
          ¬∃ k, g.Shortest entryPoints k x ∧ ∀ n, maxDepth = some n → (k : Int) ≤ max n 0) ∧
      ((∃ node k, g.nodes.lookup x = some node ∧ node.depth = some k) ↔
        x ∈ g.reach entryPoints .dependencies maxDepth) := by
  intro g
  have hdepth : ∀ k, (∃ node, g.nodes.lookup x = some node ∧ node.depth = some k) ↔
      g.Shortest entryPoints k x ∧ AllowsLength maxDepth k := fun _ => exists_depth_iff
  refine ⟨hdepth, ?_, ?_⟩
  · constructor
    · rintro ⟨node, hnode, hnone⟩
      refine ⟨OrderedMap.contains_iff.mpr (OrderedMap.mem_keys.mpr
        ⟨node, OrderedMap.lookup_eq_some_iff.mp hnode⟩), ?_⟩
      rintro ⟨k, hk⟩
      obtain ⟨other, hother, hsome⟩ := (hdepth k).mpr hk
      obtain rfl : node = other := Option.some.inj (hnode.symm.trans hother)
      exact Option.some_ne_none k (hsome.symm.trans hnone)
    · rintro ⟨hx, hno⟩
      obtain ⟨node, hnode⟩ := OrderedMap.mem_keys.mp (OrderedMap.contains_iff.mp hx)
      have hlookup := OrderedMap.lookup_eq_some_iff.mpr hnode
      refine ⟨node, hlookup, ?_⟩
      cases hk : node.depth with
      | none => rfl
      | some k => exact absurd ⟨k, (hdepth k).mp ⟨node, hlookup, hk⟩⟩ hno
  · rw [mem_reach_iff_mem_reachFrom]
    constructor
    · rintro ⟨node, k, hnode, hk⟩
      obtain ⟨⟨⟨e, hentry, way⟩, _⟩, hallows⟩ := (hdepth k).mp ⟨node, hnode, hk⟩
      have he : g.contains e := way.contains_start
      exact ⟨e, hentry, he, _, rfl, (mem_reachFrom_iff he).mpr ⟨k, hallows, way⟩⟩
    · rintro ⟨e, hentry, he, _, rfl, hx⟩
      obtain ⟨k, hallows, way⟩ := (mem_reachFrom_iff he).mp hx
      -- A way within the limit need not be the shortest one, but this is within it too.
      obtain ⟨j, hj⟩ := exists_shortest hentry way hallows
      obtain ⟨node, hnode⟩ := (hdepth j).mpr hj
      exact ⟨node, j, hnode⟩

end ImportGraph

end Backlog
