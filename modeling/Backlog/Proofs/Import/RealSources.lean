import Backlog.Import.Analysis
import Backlog.Proofs.Files.RealNames
import Backlog.Proofs.Graph.Building
import Backlog.Proofs.Graph.Reach
import Backlog.Proofs.Import.Answers
import Backlog.Proofs.Import.Discovery
import Backlog.Proofs.Import.Obstacles

namespace Backlog

open Backlog.Files Backlog.Text

/-!
# The nodes of a graph are real paths

Modules and entry points are compared as texts of paths, so it matters that each file has one such
text. Resolving gives a real path except where a link leads back to itself, and this has to be
excluded for the sources of a project. Entry points need no such condition, since only those that
are modules count.

* `Project.SourcesSettle` — on the way to no source file a link leads back to itself;
* `Project.isRealPath_of_modules` — then the modules of a project are given by real paths;
* `ImportGraph.isRealPath_of_build` — and so are the nodes of the graph that is built;
* `ImportGraph.mem_keys_of_mem_reach` — among which is all that entry points lead to;
* `Project.modules_of_no_imports` — files without imports are modules without imports.
-/

/-! ### Modules -/

namespace Project

variable {grammars : Grammars} {exclude suffixes : List String} {project : Project}

/-- On the way to a file with the name of a source no link leads back to itself. -/
def SourcesSettle (project : Project) (exclude suffixes : List String) : Prop :=
  ∀ excluded, GlobSet.compile exclude = .ok excluded →
    ∀ names ∈ project.sourceNames excluded suffixes,
      project.tree.Settles (project.root.join ⟨0, names⟩)

/-- The real root of a project is what its root resolves to, and it has to be a folder. -/
theorem realRoot_ok_iff {root : Path} :
    project.realRoot = .ok root ↔
      project.tree.resolve project.root = .ok root ∧ project.tree.isFolder root.text = .ok true := by
  simp only [realRoot, bind_ok_iff, mapError_ok_iff]
  constructor
  · rintro ⟨real, hreal, isThere, hthere, h⟩
    cases isThere with
    | false => cases h
    | true =>
      obtain rfl : real = root := Except.ok.inj h
      exact ⟨hreal, hthere⟩
  · rintro ⟨hreal, hthere⟩
    exact ⟨root, hreal, true, hthere, rfl⟩

/-- The source files of a project in a real folder are given by real paths. This is where links that
    lead out of where they stand are excluded, which resolving does not settle. -/
theorem isRealPath_of_sourceFiles (hsound : project.tree.root.IsSound)
    (hroot : project.tree.IsRealPath project.root) (hsettle : project.SourcesSettle exclude suffixes)
    {files : List Path} (h : project.sourceFiles exclude suffixes = .ok files) {file : Path}
    (hfile : file ∈ files) : project.tree.IsRealPath file := by
  obtain ⟨excluded, names, hexcluded, ⟨⟨base, leaf, hbase, hleaf⟩, hsuffix, hkept⟩, hreal, hisFile⟩ :=
    (mem_sourceFiles_iff_isSourceFile hsound hroot.isRooted h file).mp hfile
  obtain ⟨node, hstat, _⟩ := FileTree.leadsTo_ok_true_iff.mp hisFile
  have hentry :=
    FileTree.isEntryFile_of_isFile hsound hroot.isRooted hbase hleaf.find? hreal hisFile
  have hnames := (mem_sourceNames_iff hsound).mpr
    ⟨⟨base, hbase, .inl ⟨leaf, hleaf, hentry⟩⟩, hsuffix, hkept⟩
  obtain ⟨_, _, _, hisName⟩ := FileTree.exists_place_of_find? hsound hbase hleaf.find?
  have hjoin : (project.root.join ⟨0, names⟩).IsRooted :=
    hroot.isRooted.join fun name hname => (hisName name hname).1.isSegment
  have hnil : FileTree.IsReal project.tree.root [] := by
    obtain ⟨_, _, hfolders, _⟩ := hroot
    exact hfolders.of_prefix List.nil_prefix
  refine FileTree.isRealPath_of_resolve hnil (hsettle excluded hexcluded names hnames) ?_ hreal hstat
  intro name hname
  rw [FileTree.namesFromRoot, if_pos hjoin.isAbsolute] at hname
  exact (hjoin.isSpelled name hname).2

/-- The modules of such a project are given by real paths. For the modules are the source files with
    what they import. -/
theorem isRealPath_of_modules (hsound : project.tree.root.IsSound)
    (hroot : project.tree.IsRealPath project.root) (hsettle : project.SourcesSettle exclude suffixes)
    {modules : List SourceModule} (h : project.modules grammars suffixes exclude = .ok modules)
    {m : SourceModule} (hm : m ∈ modules) :
    ∃ path, m.source = path.text ∧ project.tree.IsRealPath path := by
  unfold Project.modules at h
  obtain ⟨root, hrealRoot, h⟩ := bind_ok_iff.mp h
  -- A real folder is where the analysis begins.
  obtain rfl : project.root = root :=
    Except.ok.inj (hroot.resolve_eq.symm.trans (realRoot_ok_iff.mp hrealRoot).1)
  split at h
  · cases h
  · obtain ⟨files, hfiles, h⟩ := bind_ok_iff.mp h
    rw [mapError_ok_iff] at hfiles h
    obtain ⟨file, hfile, hmodule⟩ := (mem_of_mapM_ok h m).mp hm
    exact ⟨file, (sourceModule_ok hmodule).1, isRealPath_of_sourceFiles hsound hroot hsettle hfiles hfile⟩

end Project

/-! ### Nodes -/

namespace ImportGraph

variable {g : ImportGraph}

/-- Entry points lead to nodes only. -/
theorem mem_keys_of_mem_reach {entryPoints : List String} {mode : DependencyMode}
    {maxDepth : Option Int} {path : String} (h : path ∈ g.reach entryPoints mode maxDepth) :
    path ∈ g.nodes.keys := by
  obtain ⟨e, _, he, d, _, k, _, hwalk⟩ := (mem_reach_iff g entryPoints mode maxDepth path).mp h
  exact ((stepsTo_iff_walk he).mpr hwalk).mem_of_closed (closed_next he)

/-- What a scope leads to are distinct nodes. So a list of them does not count anything twice. -/
theorem nodup_of_scopeReach {scope : DependencyScope} {project : Project} {reached : List String}
    (h : g.scopeReach scope project = .ok reached) :
    reached.Nodup ∧ ∀ path ∈ reached, path ∈ g.nodes.keys := by
  obtain ⟨entries, _, h⟩ := bind_ok_iff.mp h
  obtain rfl := pure_ok_iff.mp h
  exact ⟨nodup_distinctTexts _, fun path hpath => mem_keys_of_mem_reach hpath⟩

/-- The nodes of a graph that is built from a project in a real folder are real paths. They are what
    ledger entries and entry points are compared with, as texts. -/
theorem isRealPath_of_build {grammars : Grammars} {builtAt : Number.Binary64} {request : BuildRequest}
    (hsound : request.project.tree.root.IsSound)
    (hroot : request.project.tree.IsRealPath request.project.root)
    (hsettle : request.project.SourcesSettle request.exclude grammars.suffixes)
    (h : build (Project.analyze grammars) builtAt request = .ok g) {path : String}
    (hpath : path ∈ g.nodes.keys) :
    ∃ p : Path, path = p.text ∧ request.project.tree.IsRealPath p := by
  obtain ⟨modules, entries, hmodules, _, _, rfl⟩ := build_ok_iff.mp h
  rw [keys_ofModules, mem_distinctTexts] at hpath
  obtain ⟨m, hm, rfl⟩ := List.mem_map.mp hpath
  exact Project.isRealPath_of_modules hsound hroot hsettle hmodules hm

end ImportGraph

/-! ### Sources without imports -/

/-- An empty file imports nothing. The grammar of Python reads it as a module without statements. -/
theorem Files.FileTree.imports_of_empty {tree : FileTree} {path : Path} {time : Int}
    (hlanguage : Grammars.all.language? path.suffix = some .python)
    (h : tree.stat path.text = .ok (.file [] time)) : tree.imports .all path = .ok [] := by
  have hread : tree.read path.text = .ok [] := by
    rw [read, h]
    rfl
  rw [imports, hlanguage]
  simp only [hread]
  rfl

namespace Project

variable {grammars : Grammars} {exclude suffixes : List String} {project : Project} {tree : FileTree}
  {entries : List (String × Node)}

/-- Files without imports are modules without imports. So in examples the module analysis is settled
    by the search for files. -/
theorem modules_of_no_imports {root : Path} {files : List Path}
    (hroot : project.realRoot = .ok root) (hlanguage : suffixes ≠ [])
    (hfiles : sourceFiles ⟨project.tree, root⟩ exclude suffixes = .ok files)
    (hno : ∀ file ∈ files, project.tree.imports grammars file = .ok []) :
    project.modules grammars suffixes exclude = .ok (files.map fun file => ⟨file.text, []⟩) := by
  -- With no import to resolve, each file is a module of its own.
  have hmodule : ∀ file ∈ files, sourceModule grammars ⟨project.tree, root, files⟩ file =
      .ok ⟨file.text, []⟩ := by
    intro file hfile
    have hresolve : (Sources.mk project.tree root files).resolve grammars file [] = .ok [] := by
      unfold Sources.resolve
      cases grammars.language? file.suffix <;> rfl
    rw [sourceModule]
    simp only [hno file hfile]
    show ((Sources.mk project.tree root files).resolve grammars file [] >>= _) = _
    rw [hresolve]
    rfl
  have hmodules : files.mapM (sourceModule grammars ⟨project.tree, root, files⟩) =
      .ok (files.map fun file => ⟨file.text, []⟩) := by
    rw [mapM_congr hmodule]
    exact List.mapM_pure
  rw [modules_of_realRoot hroot hlanguage, hfiles]
  show ((files.mapM (sourceModule grammars ⟨project.tree, root, files⟩)).mapError _) = _
  rw [hmodules]
  rfl

/-- The root of a tree is a real folder. So a project may be the whole of a tree. -/
theorem realRoot_top (hroot : tree.stat "/" = .ok (.folder entries)) :
    realRoot ⟨tree, ⟨1, []⟩⟩ = .ok ⟨1, []⟩ := by
  have hresolve : tree.resolve ⟨1, []⟩ = .ok ⟨1, []⟩ := by
    have hsettle : FileTree.settle tree.root (tree.root.linkCount + 1) [] []
        (tree.namesFromRoot ⟨1, []⟩) = ([], true) := by
      rw [FileTree.namesFromRoot, if_pos (by decide), FileTree.settle]
    exact FileTree.resolve_of_settle (by simp) (by simp) hsettle
  refine realRoot_ok_iff.mpr ⟨hresolve, ?_⟩
  have htext : Path.text ⟨1, []⟩ = "/" := by decide
  rw [htext]
  exact FileTree.leadsTo_of_stat hroot

/-- What is at the top of a tree resolves as its name does. An entry that is a link resolves to what
    it leads to. -/
theorem resolve_top {name : String} {real : Path} (hname : Path.IsName name)
    (h : tree.resolve ⟨1, [name]⟩ = .ok real) : resolve ⟨tree, ⟨1, []⟩⟩ name = .ok real.text := by
  have hjoin : (Files.Path.mk 1 []).join (.ofText name) = ⟨1, [name]⟩ := by
    rw [Path.ofText_name hname]
    rfl
  rw [resolve, hjoin, h]
  rfl

/-- Below a folder without folders there is no more to find. So a flat project is searched in one
    go. -/
theorem inOrder_of_no_folder (path : Path) (hfolder : ∀ e ∈ entries, FileTree.isFolderNode e.2 = false) :
    inOrder (FileTree.candidatesOfFolders tree path [] entries) = [] := by
  refine List.eq_nil_iff_forall_not_mem.mpr fun names hnames => ?_
  obtain ⟨_, hmem, hnames⟩ := FileTree.mem_inOrder.mp hnames
  obtain ⟨e, he, _, rfl⟩ := FileTree.mem_candidatesOfFolders.mp hmem
  have hno := hfolder e he
  cases hnode : e.2 with
  | folder _ | sealed _ =>
    rw [hnode] at hno
    cases hno
  | file _ _ | link _ =>
    rw [hnode] at hnames
    simp [FileTree.candidatesBelow] at hnames

/-- What is no folder, and leads to none, counts as a file. Whether it is a file is asked later,
    when it is resolved. -/
theorem isEntryFile_of_isFolder {path : Path} {node : Node} (hnode : FileTree.isFolderNode node = false)
    (h : tree.isFolder path.text = .ok false) : tree.isEntryFile path node = true := by
  cases node with
  | file _ _ => rfl
  | folder _ | sealed _ => cases hnode
  | link _ => simp only [FileTree.isEntryFile, h, Bool.not_false]

/-- In a tree of files, and of links that lead to no folder, all with names of sources, these are
    the names of the sources. They are in the order of the entries, since nothing has been sorted
    yet. -/
theorem sourceNames_top (hroot : tree.stat "/" = .ok (.folder entries))
    (hfolder : ∀ e ∈ entries, FileTree.isFolderNode e.2 = false)
    (hfile : ∀ e ∈ entries, tree.isFolder (Path.text ⟨1, [e.1]⟩) = .ok false)
    (hsource : ∀ e ∈ entries, isSource .empty suffixes [e.1] = true) :
    sourceNames ⟨tree, ⟨1, []⟩⟩ .empty suffixes = entries.map fun e => [e.1] := by
  have htext : Path.text ⟨1, []⟩ = "/" := by decide
  have hentry : ∀ e ∈ entries,
      tree.isEntryFile (((Files.Path.mk 1 []).join ⟨0, []⟩).child e.1) e.2 = true :=
    fun e he => isEntryFile_of_isFolder (hfolder e he) (hfile e he)
  have hcandidates : tree.candidates ⟨1, []⟩ = entries.map fun e => [e.1] := by
    unfold FileTree.candidates
    rw [htext, hroot]
    show FileTree.candidatesBelow tree ⟨1, []⟩ [] (.folder entries) = _
    rw [FileTree.candidatesBelow, inOrder_of_no_folder _ hfolder, List.append_nil,
      List.filter_eq_self.mpr hentry]
    simp only [List.nil_append]
  rw [sourceNames, hcandidates]
  exact List.filter_eq_self.mpr (List.forall_mem_map.mpr hsource)

end Project

end Backlog
