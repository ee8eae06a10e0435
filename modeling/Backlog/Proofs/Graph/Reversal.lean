import Backlog.Proofs.Graph.Links

namespace Backlog

open Backlog.Number

/-!
# Ways there and back

What a node leads to along the dependents leads back to it along the dependencies, in as many steps.

* `ImportGraph.Walk.cons` — a way may be lengthened at its start as well;
* `ImportGraph.Walk.reverse` — in the graph of some modules every way can be gone backwards;
* `ImportGraph.ImportChain` — a row of imports, each made by the module that the one before leads to;
* `ImportGraph.mem_reach_dependents_iff` — reaching along the dependents and being reached along the
  dependencies are one thing, under every limit: a row of imports that the limit allows.
-/

/-- The way back. -/
def Direction.opposite : Direction → Direction
  | .toDependencies => .toDependents
  | .toDependents => .toDependencies

namespace ImportGraph

/-- Some modules make a row of imports from one source to another, each import leading to a source. -/
inductive ImportChain (modules : List SourceModule) : Nat → String → String → Prop where
  | start {x : String} (hx : x ∈ modules.map SourceModule.source) : ImportChain modules 0 x x
  | step {k : Nat} {x : String} {m : SourceModule} {i : ResolvedImport} {z : String}
      (chain : ImportChain modules k x m.source) (hm : m ∈ modules) (hi : i ∈ m.imports)
      (hz : i.target = some z) (hsource : z ∈ modules.map SourceModule.source) :
      ImportChain modules (k + 1) x z

variable {g : ImportGraph} {d : Direction} {j k : Nat} {x y z : String} {node : ModuleNode}
  {modules : List SourceModule} {entryPoints : List String} {depth maxDepth : Option Int}
  {builtAt : Binary64}

/-! ### Ways backwards -/

/-- A step may come before a way. Ways are made by adding steps at their end, and are turned around
    by adding them in front. -/
theorem Walk.cons (hx : g.nodes.lookup x = some node) (hy : y ∈ node.neighbours d)
    (way : g.Walk d k y z) : g.Walk d (k + 1) x z := by
  -- Ways grow at their end, so the step is carried along to the start.
  induction way with
  | start hcontains =>
    have hstart : g.contains x :=
      OrderedMap.contains_iff.mpr (OrderedMap.mem_keys.mpr ⟨node, OrderedMap.lookup_eq_some_iff.mp hx⟩)
    exact .step (.start hstart) hx hy hcontains
  | step _ hlast hz hnode ih => exact .step (ih hy) hlast hz hnode

/-- A neighbour in one direction has the node as a neighbour in the other. That is the one step of
    which going backwards is made. -/
theorem exists_opposite_neighbour
    (hx : (ofModules modules entryPoints depth builtAt).nodes.lookup x = some node)
    (hy : y ∈ node.neighbours d) :
    ∃ other, (ofModules modules entryPoints depth builtAt).nodes.lookup y = some other ∧
      x ∈ other.neighbours d.opposite := by
  cases d with
  | toDependencies => exact mem_dependencies_iff_mem_dependents.mp ⟨node, hx, hy⟩
  | toDependents => exact mem_dependencies_iff_mem_dependents.mpr ⟨node, hx, hy⟩

/-- In the graph of some modules every way can be gone backwards. The induction is along the way. -/
theorem Walk.reverse (way : (ofModules modules entryPoints depth builtAt).Walk d k x y) :
    (ofModules modules entryPoints depth builtAt).Walk d.opposite k y x := by
  induction way with
  | start hx => exact .start hx
  | step _ hy hz _ ih =>
    -- The last step becomes the first one.
    obtain ⟨other, hother, hback⟩ := exists_opposite_neighbour hy hz
    exact .cons hother hback ih

/-- A way along the dependents is a way along the dependencies, gone backwards. -/
theorem walk_dependents_iff :
    (ofModules modules entryPoints depth builtAt).Walk .toDependents k x y ↔
      (ofModules modules entryPoints depth builtAt).Walk .toDependencies k y x :=
  ⟨Walk.reverse, Walk.reverse⟩

/-! ### Ways and imports -/

/-- Every step of a way along the dependencies is an import. The importing module comes first. -/
theorem Walk.importChain
    (way : (ofModules modules entryPoints depth builtAt).Walk .toDependencies k x y) :
    ImportChain modules k x y := by
  induction way with
  | start hx => exact .start (contains_ofModules_iff.mp hx)
  | @step k x y z node _ hy hz hnode ih =>
    obtain ⟨_, rfl⟩ := lookup_ofModules_iff.mp hy
    -- The link was made from the imports of a module of this source.
    have htarget : z ∈ targetsOf modules y := (mem_linksOf_iff.mp hz).1
    obtain ⟨i, hi, hi'⟩ := List.mem_filterMap.mp htarget
    obtain ⟨m, hm, himports⟩ := List.mem_flatMap.mp hi
    obtain ⟨hmodule, hsource⟩ := List.mem_filter.mp hm
    obtain rfl : m.source = y := by simpa using hsource
    exact .step ih hmodule himports hi' (contains_ofModules_iff.mp hnode)

/-- A row of imports is a way, apart from the imports of a module by itself. These are left out of
    the graph, and so are they of the way, which may then be shorter. -/
theorem ImportChain.exists_walk (chain : ImportChain modules k x y) :
    ∃ j ≤ k, (ofModules modules entryPoints depth builtAt).Walk .toDependencies j x y := by
  induction chain with
  | start hx => exact ⟨0, Nat.le_refl 0, .start (contains_ofModules_iff.mpr hx)⟩
  | @step k x m i z chain hm hi hz hsource ih =>
    obtain ⟨j, hj, way⟩ := ih
    by_cases hself : z = m.source
    · -- nothing is gained by an import of the module itself
      subst hself
      exact ⟨j, by omega, way⟩
    · have hmodule : m.source ∈ modules.map SourceModule.source := List.mem_map_of_mem hm
      have htarget : z ∈ targetsOf modules m.source := by
        refine List.mem_filterMap.mpr ⟨i, List.mem_flatMap.mpr ⟨m, ?_, hi⟩, hz⟩
        exact List.mem_filter.mpr ⟨hm, by simp⟩
      have hlink : z ∈ linksOf modules m.source := mem_linksOf_iff.mpr ⟨htarget, hself, hsource⟩
      exact ⟨j + 1, by omega, .step way (lookup_ofModules_iff.mpr ⟨hmodule, rfl⟩) hlink
        (contains_ofModules_iff.mpr hsource)⟩

/-! ### What leads to what -/

/-- One path reaches another in one direction exactly if a way leads there that is not too long. A
    mode for both directions would allow more ways. -/
theorem mem_reach_singleton_iff {mode : DependencyMode} (hmode : ∀ c, mode.Allows c ↔ c = d) :
    y ∈ g.reach [x] mode maxDepth ↔ ∃ k, AllowsLength maxDepth k ∧ g.Walk d k x y := by
  rw [mem_reach_iff_mem_reachFrom]
  constructor
  · rintro ⟨e, he, hx, c, hc, hy⟩
    obtain rfl := List.mem_singleton.mp he
    obtain rfl := (hmode c).mp hc
    exact (mem_reachFrom_iff hx).mp hy
  · rintro ⟨k, hallows, way⟩
    have hx : g.contains x := way.contains_start
    exact ⟨x, List.mem_singleton_self x, hx, d, (hmode d).mpr rfl,
      (mem_reachFrom_iff hx).mpr ⟨k, hallows, way⟩⟩

/-- In the graph of some modules, one path reaches another along the dependents exactly if the other
    reaches it along the dependencies, whatever the limit; that is, if a row of imports that is not
    longer than the limit leads from the other one to it. -/
theorem mem_reach_dependents_iff (modules : List SourceModule) (entryPoints : List String)
    (depth : Option Int) (builtAt : Binary64) (e f : String) (maxDepth : Option Int) :
    let g := ofModules modules entryPoints depth builtAt
    (f ∈ g.reach [e] .dependents maxDepth ↔ e ∈ g.reach [f] .dependencies maxDepth) ∧
      (e ∈ g.reach [f] .dependencies maxDepth ↔
        ∃ k : Nat, (∀ n, maxDepth = some n → (k : Int) ≤ max n 0) ∧ ImportChain modules k f e) := by
  intro g
  have hdependents : f ∈ g.reach [e] .dependents maxDepth ↔
      ∃ k, AllowsLength maxDepth k ∧ g.Walk .toDependents k e f :=
    mem_reach_singleton_iff fun _ => Iff.rfl
  have hdependencies : e ∈ g.reach [f] .dependencies maxDepth ↔
      ∃ k, AllowsLength maxDepth k ∧ g.Walk .toDependencies k f e :=
    mem_reach_singleton_iff fun _ => Iff.rfl
  rw [hdependents, hdependencies]
  constructor
  · exact exists_congr fun k => and_congr_right' walk_dependents_iff
  · constructor
    · rintro ⟨k, hallows, way⟩
      exact ⟨k, hallows, way.importChain⟩
    · rintro ⟨k, hallows, chain⟩
      obtain ⟨j, hj, way⟩ := chain.exists_walk
      refine ⟨j, fun n hn => ?_, way⟩
      have := hallows n hn
      omega

end ImportGraph

end Backlog
