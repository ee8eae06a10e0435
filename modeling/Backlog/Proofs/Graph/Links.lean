import Backlog.Proofs.Graph.Building

namespace Backlog

open Backlog.Number Backlog.Text

/-!
# The links of a graph

What the graph of some modules says about them, in terms of their sources and imports alone. Several
modules may have one source, and a module may import itself or what is no source.

* `ImportGraph.targetsOf` — where the imports of a source lead, module by module;
* `ImportGraph.lookup_ofModules_iff` — the nodes are the sources, each with its links;
* `ImportGraph.mem_dependencies_iff_mem_dependents` — the links in one direction are those in the
  other, turned around;
* `ImportGraph.IsGraphOf` — the nodes, the links in both directions, the entry points and the number
  of the imports that were left out;
* `ImportGraph.isGraphOf_ofModules` — the graph of some modules is such a graph.
-/

namespace ImportGraph

/-- The targets of all modules of a source, in the order of their imports. -/
def targetsOf (modules : List SourceModule) (source : String) : List String :=
  ((modules.filter (fun m => m.source = source)).flatMap SourceModule.imports).filterMap
    ResolvedImport.target

/-- A graph shows the sources of some modules and the imports between them. -/
structure IsGraphOf (g : ImportGraph) (modules : List SourceModule) (entryPoints : List String) :
    Prop where
  /-- The nodes are the sources, each where it first comes. -/
  keys_eq : g.nodes.keys = (modules.map SourceModule.source).eraseDups
  /-- A node is filed under its own path. -/
  path_eq : ∀ x node, g.nodes.lookup x = some node → node.path = x
  /-- The dependencies of a node are the targets of its modules, each where it first comes, without
  the node itself and without what is no source. -/
  dependencies_eq : ∀ x node, g.nodes.lookup x = some node → node.dependencies =
    ((targetsOf modules x).filter
      (fun t => t ≠ x ∧ t ∈ modules.map SourceModule.source)).eraseDups
  /-- If a source has one module only, they are the targets of this module that are nodes. -/
  dependencies_of_single : ∀ m node, modules.filter (fun n => n.source = m.source) = [m] →
    g.nodes.lookup m.source = some node → node.dependencies = m.targets.filter g.contains
  /-- One path is a dependency of another one exactly if the other one is a dependent of it. -/
  converse : ∀ x y, (∃ node, g.nodes.lookup x = some node ∧ y ∈ node.dependencies) ↔
    ∃ node, g.nodes.lookup y = some node ∧ x ∈ node.dependents
  /-- The dependents of a node stand in the order of the nodes, none of them twice. -/
  dependents_sublist : ∀ x node, g.nodes.lookup x = some node →
    node.dependents.Sublist g.nodes.keys ∧ node.dependents.Nodup
  /-- Links lead to nodes. -/
  contains_of_link : ∀ x node, g.nodes.lookup x = some node →
    ∀ y ∈ node.dependencies ++ node.dependents, g.contains y = true
  /-- Left out are the imports without a target, and those whose target is no source. -/
  excludedImports_eq : g.excludedImports =
    (modules.flatMap SourceModule.imports).countP
      (fun i => ∀ t ∈ i.target, t ∉ modules.map SourceModule.source)
  /-- The entry points are the given ones, and the nodes among them are marked. -/
  entryPoints_eq : g.entryPoints = entryPoints
  isEntry_iff : ∀ x node, g.nodes.lookup x = some node → (node.isEntry = true ↔ x ∈ entryPoints)

variable {modules : List SourceModule} {entryPoints : List String} {maxDepth : Option Int}
  {builtAt : Binary64} {x y : String} {node : ModuleNode}

/-! ### Links by sources and imports -/

/-- The dependencies of a source among the modules. -/
abbrev linksOf (modules : List SourceModule) (source : String) : List String :=
  dependenciesOf modules (distinctTexts (modules.map SourceModule.source)) source

/-- The links of a path: its targets that are sources, without itself and without repeats. -/
theorem linksOf_eq (modules : List SourceModule) (x : String) :
    linksOf modules x = ((targetsOf modules x).filter
      (fun t => t ≠ x ∧ t ∈ modules.map SourceModule.source)).eraseDups := by
  rw [linksOf, dependenciesOf, distinctTexts_eq_eraseDups, targetsOf]
  refine congrArg List.eraseDups (List.filter_congr fun t _ => ?_)
  rw [Bool.eq_iff_iff, Bool.and_eq_true, List.contains_iff_mem, mem_distinctTexts,
    decide_eq_true_eq, decide_eq_true_eq, and_comm]

/-- A link leads to a target that is another source. -/
theorem mem_linksOf_iff : y ∈ linksOf modules x ↔
    y ∈ targetsOf modules x ∧ y ≠ x ∧ y ∈ modules.map SourceModule.source := by
  rw [linksOf_eq, List.mem_eraseDups, List.mem_filter, decide_eq_true_eq]

/-- The links of a source with one module are the targets of this module that are sources. Only
    where a source is there twice do its targets have to be put together. -/
theorem linksOf_of_single {m : SourceModule}
    (h : modules.filter (fun n => n.source = m.source) = [m]) :
    linksOf modules m.source =
      m.targets.filter (fun t => t ∈ modules.map SourceModule.source) := by
  have htargets : targetsOf modules m.source = m.imports.filterMap ResolvedImport.target := by
    rw [targetsOf, h, List.flatMap_singleton]
  rw [linksOf_eq, htargets, SourceModule.targets, filter_distinctTexts, List.filter_filter,
    distinctTexts_eq_eraseDups]
  refine congrArg List.eraseDups (List.filter_congr fun t _ => ?_)
  rw [Bool.eq_iff_iff, Bool.and_eq_true, decide_eq_true_eq, decide_eq_true_eq, decide_eq_true_eq,
    and_comm]

/-! ### The nodes of the graph -/

theorem mem_edgesOf_iff {dependencies : List String} :
    (x, dependencies) ∈ (edgesOf modules).entries ↔
      x ∈ modules.map SourceModule.source ∧ dependencies = linksOf modules x := by
  rw [entries_edgesOf, List.mem_map]
  constructor
  · rintro ⟨s, hs, heq⟩
    obtain ⟨rfl, rfl⟩ := Prod.mk.inj heq
    exact ⟨mem_distinctTexts.mp hs, rfl⟩
  · rintro ⟨hx, rfl⟩
    exact ⟨x, mem_distinctTexts.mpr hx, rfl⟩

/-- The dependents of a path are the sources with a link to it. They are looked for among all
    sources. -/
theorem mem_dependentsOf_iff : x ∈ dependentsOf (edgesOf modules) y ↔
    x ∈ modules.map SourceModule.source ∧ y ∈ linksOf modules x := by
  rw [dependentsOf, List.mem_map]
  constructor
  · rintro ⟨⟨s, dependencies⟩, he, rfl⟩
    obtain ⟨hmem, hy⟩ := List.mem_filter.mp he
    obtain ⟨hs, rfl⟩ := mem_edgesOf_iff.mp hmem
    exact ⟨hs, List.contains_iff_mem.mp hy⟩
  · rintro ⟨hx, hy⟩
    exact ⟨_, List.mem_filter.mpr
      ⟨mem_edgesOf_iff.mpr ⟨hx, rfl⟩, List.contains_iff_mem.mpr hy⟩, rfl⟩

/-- The nodes are the sources, each with its links. Nothing else is a node. -/
theorem lookup_ofModules_iff :
    (ofModules modules entryPoints maxDepth builtAt).nodes.lookup x = some node ↔
      x ∈ modules.map SourceModule.source ∧
        node = ⟨x, linksOf modules x, dependentsOf (edgesOf modules) x, entryPoints.contains x,
          layerOf? (depthRows (edgesOf modules) entryPoints maxDepth) x⟩ := by
  rw [lookup_ofModules, Option.map_eq_some_iff]
  constructor
  · rintro ⟨dependencies, hx, rfl⟩
    obtain ⟨hsource, rfl⟩ := mem_edgesOf_iff.mp (OrderedMap.lookup_eq_some_iff.mp hx)
    exact ⟨hsource, rfl⟩
  · rintro ⟨hsource, rfl⟩
    exact ⟨_, OrderedMap.lookup_eq_some_iff.mpr (mem_edgesOf_iff.mpr ⟨hsource, rfl⟩), rfl⟩

theorem contains_ofModules_iff :
    (ofModules modules entryPoints maxDepth builtAt).contains x = true ↔
      x ∈ modules.map SourceModule.source := by
  rw [contains, OrderedMap.contains_iff, keys_ofModules, mem_distinctTexts]

/-- The dependents of a path come in the order of the nodes. So none of them is there twice. -/
theorem dependentsOf_sublist (modules : List SourceModule) (x : String) :
    (dependentsOf (edgesOf modules) x).Sublist
      (distinctTexts (modules.map SourceModule.source)) := by
  have hkeys : (edgesOf modules).keys = distinctTexts (modules.map SourceModule.source) := by
    rw [OrderedMap.keys, entries_edgesOf, List.map_map]
    exact List.map_id' _
  rw [← hkeys]
  exact List.filter_sublist.map Prod.fst

/-- The imports that lead to a source. The others are counted, and make no edge. -/
theorem isKnown_iff {i : ResolvedImport} :
    isKnown (distinctTexts (modules.map SourceModule.source)) i = true ↔
      ∃ t ∈ i.target, t ∈ modules.map SourceModule.source := by
  rw [isKnown, Option.any_eq_true]
  simp only [List.contains_iff_mem, mem_distinctTexts, Option.mem_def]

/-- Links in one direction are those in the other, turned around. This is the symmetry on which
    going backwards rests. -/
theorem mem_dependencies_iff_mem_dependents :
    (∃ node, (ofModules modules entryPoints maxDepth builtAt).nodes.lookup x = some node ∧
        y ∈ node.dependencies) ↔
      ∃ node, (ofModules modules entryPoints maxDepth builtAt).nodes.lookup y = some node ∧
        x ∈ node.dependents := by
  constructor
  · rintro ⟨node, hx, hy⟩
    obtain ⟨hsource, rfl⟩ := lookup_ofModules_iff.mp hx
    -- A link leads to a source, which thus has a node.
    have htarget : y ∈ modules.map SourceModule.source := (mem_linksOf_iff.mp hy).2.2
    exact ⟨_, lookup_ofModules_iff.mpr ⟨htarget, rfl⟩, mem_dependentsOf_iff.mpr ⟨hsource, hy⟩⟩
  · rintro ⟨node, hy, hx⟩
    obtain ⟨_, rfl⟩ := lookup_ofModules_iff.mp hy
    obtain ⟨hsource, hlink⟩ := mem_dependentsOf_iff.mp hx
    exact ⟨_, lookup_ofModules_iff.mpr ⟨hsource, rfl⟩, hlink⟩

/-- The graph of some modules shows their sources and the imports between them. -/
theorem isGraphOf_ofModules (modules : List SourceModule) (entryPoints : List String)
    (maxDepth : Option Int) (builtAt : Binary64) :
    (ofModules modules entryPoints maxDepth builtAt).IsGraphOf modules entryPoints where
  keys_eq := by
    rw [keys_ofModules, distinctTexts_eq_eraseDups]
  path_eq := by
    intro x node hx
    exact isConsistent_ofModules.path _ (OrderedMap.lookup_eq_some_iff.mp hx)
  dependencies_eq := by
    intro x node hx
    obtain ⟨_, rfl⟩ := lookup_ofModules_iff.mp hx
    exact linksOf_eq modules x
  dependencies_of_single := by
    intro m node hsingle hm
    obtain ⟨_, rfl⟩ := lookup_ofModules_iff.mp hm
    refine (linksOf_of_single hsingle).trans (List.filter_congr fun t _ => ?_)
    rw [Bool.eq_iff_iff, decide_eq_true_eq, contains_ofModules_iff]
  converse _ _ := mem_dependencies_iff_mem_dependents
  dependents_sublist := by
    intro x node hx
    obtain ⟨_, rfl⟩ := lookup_ofModules_iff.mp hx
    have hsublist := dependentsOf_sublist modules x
    rw [keys_ofModules]
    exact ⟨hsublist, (nodup_distinctTexts _).sublist hsublist⟩
  contains_of_link := by
    intro x node hx
    exact isConsistent_ofModules.edges _ (OrderedMap.lookup_eq_some_iff.mp hx)
  excludedImports_eq := by
    refine congrArg Nat.cast (List.countP_congr fun i _ => ?_)
    rw [Bool.not_eq_true', ← Bool.not_eq_true, isKnown_iff, decide_eq_true_eq, not_exists]
    simp only [not_and]
  entryPoints_eq := rfl
  isEntry_iff := by
    intro x node hx
    obtain ⟨_, rfl⟩ := lookup_ofModules_iff.mp hx
    exact List.contains_iff_mem

end ImportGraph

end Backlog
