import Backlog.Proofs.Graph.Depth
import Backlog.Graph.Build
import Backlog.Proofs.Graph.Document
import Mathlib.Data.Nat.Digits.Defs

namespace Backlog

open Backlog.Number Backlog.Text

/-!
# Graphs as they are built

The nodes of a graph are built from lists of modules, and the facts about them that a document needs
are gathered here: that neighbours are nodes, and that no number is too large. A depth is the length
of a way without repeats, and so is bounded by the number of nodes.

* `ImportGraph.isConsistent_ofModules`, `ImportGraph.keys_ofModules` — the nodes are the sources, and
  their neighbours are nodes;
* `ImportGraph.depth_lt_of_mem`, `ImportGraph.fits_ofModules` — a depth is less than the number of
  modules, so that the numbers of a graph are not too large to be written down;
* `ImportGraph.nodes_congr` — the order of the entry points does not matter for the nodes.
-/

/-! ### Numbers that are not too large -/

namespace Number

/-- A number below the size of any list that fits a memory. -/
def IsListSize (n : Nat) : Prop := n < 2 ^ 63

/-- A number is not too long if it is less than a power of ten. -/
theorem isTooLong_eq_false_iff {n : Int} : isTooLong n = false ↔ n.natAbs < 10 ^ maxDigits := by
  rw [isTooLong, decide_eq_false_iff_not, Nat.not_lt,
    Nat.length_toDigits_le_iff (by decide) (by decide)]

/-- A number of few binary digits has few decimal ones. So sizes of lists need not be written out in
    digits. -/
theorem isTooLong_of_lt_two_pow {n k : Nat} (h : n < 2 ^ k) (hk : k ≤ maxDigits) :
    isTooLong n = false := by
  rw [isTooLong_eq_false_iff, Int.natAbs_natCast]
  calc n < 2 ^ k := h
    _ ≤ 10 ^ k := Nat.pow_le_pow_left (by decide) k
    _ ≤ 10 ^ maxDigits := Nat.pow_le_pow_right (by decide) hk

theorem isTooLong_of_isListSize {n : Nat} (h : IsListSize n) : isTooLong n = false :=
  isTooLong_of_lt_two_pow h (by decide)

theorem isTooLong_of_le {m n : Nat} (h : m ≤ n) (hn : isTooLong n = false) :
    isTooLong m = false := by
  rw [isTooLong_eq_false_iff, Int.natAbs_natCast] at hn ⊢
  exact Nat.lt_of_le_of_lt h hn

/-- A quotient whose numerator is not too large is finite. It is far below the largest double. -/
theorem Binary64.exists_ofRatio {negative : Bool} {num : Nat} (h : num < 2 ^ 63) :
    ∃ m e, ofRatio negative num 1 = .finite negative m e := by
  unfold ofRatio
  by_cases hzero : num = 0
  · exact ⟨0, minExponent, if_pos hzero⟩
  have hlog : num.log2 < 63 := (Nat.log2_lt hzero).mpr h
  have hone : Nat.log2 1 = 0 := by decide
  have hmin : minExponent = -1074 := rfl
  have hmax : maxExponent = 971 := rfl
  simp only [if_neg hzero, hone]
  -- The exponent is far below the greatest one.
  repeat' split
  all_goals first | exact ⟨_, _, rfl⟩ | omega

theorem Binary64.isSome_ofInt? {n : Nat} (h : IsListSize n) : (ofInt? n).isSome := by
  rw [ofInt?, Int.natAbs_natCast]
  obtain ⟨m, e, heq⟩ := exists_ofRatio h
  rw [heq]
  rfl

end Number

/-! ### Spreading out from the same start -/

/-- The order of the start does not matter for the ways from it. Nor does it matter how often a node
    is among them. -/
theorem stepsTo_congr {next : String → List String} {start start' : List String}
    (h : ∀ x, x ∈ start ↔ x ∈ start') {k : Nat} {x : String} :
    StepsTo next start k x ↔ StepsTo next start' k x := by
  induction k generalizing x with
  | zero => exact h x
  | succ k ih => exact exists_congr fun y => and_congr_left' ih

theorem distance_congr {next : String → List String} {start start' : List String}
    (h : ∀ x, x ∈ start ↔ x ∈ start') {k : Nat} {x : String} :
    Distance next start k x ↔ Distance next start' k x := by
  have hsteps : ∀ j, StepsTo next start j x ↔ StepsTo next start' j x := fun _ => stepsTo_congr h
  exact ⟨fun hd => ⟨(hsteps k).mp hd.steps, fun j hj => mt (hsteps j).mpr (hd.least j hj)⟩,
    fun hd => ⟨(hsteps k).mpr hd.steps, fun j hj => mt (hsteps j).mp (hd.least j hj)⟩⟩

namespace ImportGraph

variable {modules : List SourceModule} {entryPoints entryPoints' : List String}
  {maxDepth : Option Int} {builtAt builtAt' : Binary64} {e : String × ModuleNode}

/-- The nodes of a graph that is built: the edges of each source, seen from both sides, whether it
    is an entry point, and in which row it lies. -/
theorem nodes_ofModules : (ofModules modules entryPoints maxDepth builtAt).nodes =
    (edgesOf modules).map fun path dependencies =>
      ⟨path, dependencies, dependentsOf (edgesOf modules) path, entryPoints.contains path,
        layerOf? (depthRows (edgesOf modules) entryPoints maxDepth) path⟩ := rfl

/-- The nodes are the sources. They stand in the order in which they first come. -/
theorem keys_ofModules : (ofModules modules entryPoints maxDepth builtAt).nodes.keys =
    distinctTexts (modules.map SourceModule.source) := by
  rw [nodes_ofModules, OrderedMap.keys, OrderedMap.entries_map, entries_edgesOf, List.map_map,
    List.map_map]
  exact List.map_id' _

/-- A node, as it is built. This is what is unfolded of the construction. -/
theorem mem_nodes_ofModules_iff :
    e ∈ (ofModules modules entryPoints maxDepth builtAt).nodes.entries ↔
      ∃ dependencies, (e.1, dependencies) ∈ (edgesOf modules).entries ∧
        e.2 = ⟨e.1, dependencies, dependentsOf (edgesOf modules) e.1, entryPoints.contains e.1,
          layerOf? (depthRows (edgesOf modules) entryPoints maxDepth) e.1⟩ := by
  rw [nodes_ofModules, OrderedMap.entries_map, List.mem_map]
  constructor
  · rintro ⟨⟨source, dependencies⟩, hmem, rfl⟩
    exact ⟨dependencies, hmem, rfl⟩
  · rintro ⟨dependencies, hmem, heq⟩
    exact ⟨_, hmem, Prod.ext rfl heq.symm⟩

/-- A graph that is built is consistent. Only targets that are sources become edges, and every
    source is a node. -/
theorem isConsistent_ofModules : (ofModules modules entryPoints maxDepth builtAt).IsConsistent where
  path := by
    intro e he
    obtain ⟨_, _, heq⟩ := mem_nodes_ofModules_iff.mp he
    rw [heq]
  edges := by
    intro e he edge hedge
    obtain ⟨dependencies, hdependencies, heq⟩ := mem_nodes_ofModules_iff.mp he
    rw [contains_ofModules]
    rw [heq] at hedge
    rcases List.mem_append.mp hedge with hmem | hmem
    · refine contains_of_mem_along (x := e.1) ?_
      rw [along, OrderedMap.lookup_eq_some_iff.mpr hdependencies]
      exact hmem
    · obtain ⟨d, hd, rfl⟩ := List.mem_map.mp hmem
      exact OrderedMap.contains_iff.mpr (List.mem_map_of_mem (List.mem_filter.mp hd).1)

/-- A depth is less than the number of modules. A shortest way has no node twice. -/
theorem depth_lt_of_mem (he : e ∈ (ofModules modules entryPoints maxDepth builtAt).nodes.entries)
    {n : Nat} (hn : n ∈ e.2.depth) : n < modules.length := by
  obtain ⟨_, _, heq⟩ := mem_nodes_ofModules_iff.mp he
  rw [heq] at hn
  have hlt := (layerOf?_eq_some_iff.mp hn).2.lt_length (closed_along modules entryPoints)
  have hle := ((nodup_distinctTexts (modules.map SourceModule.source)).subperm
    fun _ => mem_distinctTexts.mp).length_le
  rw [OrderedMap.keys, entries_edgesOf, List.length_map, List.length_map] at hlt
  rw [List.length_map] at hle
  exact Nat.lt_of_lt_of_le hlt hle

/-- The numbers of a graph of not too many modules with not too many imports are not too large. So
    it can be written down as a document. -/
theorem fits_ofModules (hmodules : IsListSize modules.length)
    (himports : isTooLong (modules.flatMap SourceModule.imports).length = false) :
    (ofModules modules entryPoints maxDepth builtAt).HasDepths ∧
      (∀ e ∈ (ofModules modules entryPoints maxDepth builtAt).nodes.entries, ∀ n ∈ e.2.depth,
        isTooLong n = false) ∧
      isTooLong (ofModules modules entryPoints maxDepth builtAt).excludedImports = false := by
  have hdepth : ∀ e ∈ (ofModules modules entryPoints maxDepth builtAt).nodes.entries,
      ∀ n ∈ e.2.depth, IsListSize n := fun e he n hn => Nat.lt_trans (depth_lt_of_mem he hn) hmodules
  exact ⟨fun e he n hn => Binary64.isSome_ofInt? (hdepth e he n hn),
    fun e he n hn => isTooLong_of_isListSize (hdepth e he n hn),
    isTooLong_of_le List.countP_le_length himports⟩

/-- The order of the entry points does not matter for the nodes. They are marked, and where ways
    start. -/
theorem nodes_congr (h : ∀ x, x ∈ entryPoints ↔ x ∈ entryPoints') :
    (ofModules modules entryPoints maxDepth builtAt).nodes =
      (ofModules modules entryPoints' maxDepth builtAt').nodes := by
  have hstart : ∀ x, x ∈ startOf (edgesOf modules) entryPoints ↔
      x ∈ startOf (edgesOf modules) entryPoints' := by
    intro x
    rw [startOf, startOf, mem_distinctTexts, mem_distinctTexts, List.mem_filter, List.mem_filter, h]
  have hrows : ∀ x, layerOf? (depthRows (edgesOf modules) entryPoints maxDepth) x =
      layerOf? (depthRows (edgesOf modules) entryPoints' maxDepth) x := by
    intro x
    ext k
    exact layerOf?_eq_some_iff.trans
      ((and_congr_right' (distance_congr hstart)).trans layerOf?_eq_some_iff.symm)
  have hentry : ∀ x, entryPoints.contains x = entryPoints'.contains x := by
    intro x
    rw [Bool.eq_iff_iff, List.contains_iff_mem, List.contains_iff_mem, h]
  rw [nodes_ofModules, nodes_ofModules]
  simp only [hrows, hentry]

/-! ### Building from an analysis -/

/-- A graph is built from the modules that are found and the real paths of the entry points. Where
    there are no modules, there is no graph. -/
theorem build_ok_iff {analyze : Analyzer} {request : BuildRequest} {graph : ImportGraph} :
    build analyze builtAt request = .ok graph ↔
      ∃ modules entries, analyze request.project request.exclude = .ok modules ∧ modules ≠ [] ∧
        request.project.resolveEntries request.entryPoints = .ok entries ∧
        graph = ofModules modules entries request.maxDepth builtAt := by
  unfold build
  rw [bind_ok_iff]
  refine exists_congr fun modules => ?_
  rw [mapError_ok_iff]
  cases modules with
  | nil => simp [bind, Except.bind, throw, throwThe, MonadExceptOf.throw]
  | cons m modules =>
    simp only [List.isEmpty_cons, Bool.false_eq_true, if_false, bind_ok_iff, mapError_ok_iff,
      pure_ok_iff, ne_eq, reduceCtorEq, not_false_eq_true, true_and]
    exact exists_and_left.symm

/-- The entry points have real paths if each of them has one. The first without one ends the
    build. -/
theorem exists_resolveEntries_iff {project : Project} {texts : List String} :
    (∃ entries, project.resolveEntries texts = .ok entries) ↔
      ∀ e ∈ texts, ∃ path, project.resolve e = .ok path := by
  rw [← exists_mapM_ok_iff]
  simp only [Project.resolveEntries, map_ok_iff]
  exact ⟨fun ⟨_, resolved, h, _⟩ => ⟨resolved, h⟩, fun ⟨resolved, h⟩ => ⟨_, resolved, h, rfl⟩⟩

theorem mem_of_resolveEntries {project : Project} {texts entries : List String}
    (h : project.resolveEntries texts = .ok entries) (path : String) :
    path ∈ entries ↔ ∃ e ∈ texts, project.resolve e = .ok path := by
  obtain ⟨resolved, hresolved, rfl⟩ := map_ok_iff.mp h
  rw [mem_distinctTexts, mem_of_mapM_ok hresolved]

/-- The same graph is built in another state of the files, if the analysis finds the same modules
    and the entry points have the same real paths. This is all that a build depends on. -/
theorem build_congr {analyze : Analyzer} {scope : DependencyScope} {project project' : Project}
    (hroot : project'.root = project.root)
    (hanalysis : analyze project' scope.exclude = analyze project scope.exclude)
    (hresolve : ∀ e ∈ scope.entryPoints, project'.resolve e = project.resolve e) :
    build analyze builtAt (scope.request project') =
      build analyze builtAt (scope.request project) := by
  have hentries : project'.resolveEntries scope.entryPoints =
      project.resolveEntries scope.entryPoints := by
    rw [Project.resolveEntries, Project.resolveEntries, mapM_congr hresolve]
  unfold build DependencyScope.request
  simp only [hanalysis, hentries, hroot]

/-- A graph with the same nodes is built if the globs give the same modules, the limit is the same,
    and the entry points are the same up to their order. That is how far keys with the same text may
    differ. -/
theorem exists_build_of_same {analyze : Analyzer} {scope other : DependencyScope} {project : Project}
    {graph : ImportGraph} (hanalysis : analyze project scope.exclude = analyze project other.exclude)
    (hdepth : scope.maxDepth = other.maxDepth)
    (hentries : ∀ e, e ∈ scope.entryPoints ↔ e ∈ other.entryPoints)
    (h : build analyze builtAt (scope.request project) = .ok graph) (builtAt' : Binary64) :
    ∃ graph', build analyze builtAt' (other.request project) = .ok graph' ∧
      graph.nodes = graph'.nodes ∧ graph.excludedImports = graph'.excludedImports ∧
      ∀ e, e ∈ graph.entryPoints ↔ e ∈ graph'.entryPoints := by
  obtain ⟨modules, entries, hmodules, hne, hresolved, rfl⟩ := build_ok_iff.mp h
  have hall := exists_resolveEntries_iff.mp ⟨entries, hresolved⟩
  obtain ⟨entries', hresolved'⟩ := exists_resolveEntries_iff.mpr fun e he =>
    hall e ((hentries e).mpr he)
  have hmem : ∀ x, x ∈ entries ↔ x ∈ entries' := by
    intro x
    rw [mem_of_resolveEntries hresolved, mem_of_resolveEntries hresolved']
    exact exists_congr fun e => and_congr_left' (hentries e)
  refine ⟨_, build_ok_iff.mpr ⟨modules, entries', hanalysis ▸ hmodules, hne, hresolved', rfl⟩, ?_,
    rfl, hmem⟩
  show (ofModules modules entries scope.maxDepth builtAt).nodes = _
  rw [hdepth]
  exact nodes_congr hmem

end ImportGraph

end Backlog
