import Backlog.Proofs.Command.Applying
import Backlog.Proofs.Command.Listing
import Backlog.Proofs.Command.Settings

namespace Backlog

open Backlog.Files Backlog.Text

/-!
# What the command for graphs lists

A listed file is a spelling of a module. That it leads back to the module is a matter of real paths:
the folder of the project is one, the modules are, if links on the way to them settle, and then the
relative path between the two can be followed. The two trees at the end show that this condition is
needed.

* `ImportGraph.link_of_ofScope` — keeping a graph in a cache makes no links;
* `Command.isRealPath_projectRoot` — the folder of the project is a real path;
* `Command.run_lists_reached` — the files that a command line lists are those that its scope matches, if
  no link on the way to a source leads back to itself;
* `Command.linkedTree`, `Command.strayTree` — a tree in which it is so, and one in which it is not.
-/

/-! ### Links beside a cache -/

/-- A write to a cache makes no links. Whatever link is there afterwards was there before. -/
theorem CacheStore.link_of_write {store : CacheStore} {t : FileTree} {part name : String}
    {bytes : Bytes} {now : Int} (hpart : IsPart part) (hname : IsSlot name)
    (hspelled : store.folder.IsSpelled) {place : List String} {target : String}
    (h : (store.write t part name bytes now).tree.root.find? place = some (.link target)) :
    t.root.find? place = some (.link target) := by
  rcases write_cases store t hpart hname hspelled bytes now with
    heq | ⟨made, hmake, heq | ⟨folder, entries, hsection, _, heq⟩⟩
  · rwa [heq] at h
  · rw [heq] at h
    exact ((FileTree.founds_of_makeFolders hmake).linksAlike.link place target).mp h
  · refine ((FileTree.founds_of_makeFolders hmake).linksAlike.link place target).mp ?_
    rw [heq] at h
    have hleaf : ∀ entries, Node.link target ≠ .folder entries := fun _ => nofun
    by_cases hbefore : folder ++ [name ++ ".json"] <+: place
    · -- where the file is there is no link
      obtain ⟨more, rfl⟩ := hbefore
      rw [Node.find?_put_self (FileTree.node_of_locate hsection).1.symm] at h
      cases more with
      | nil => cases h
      | cons next more => cases h
    · rwa [← Node.outlineAt?_eq_some_iff hleaf, Node.outlineAt?_put hbefore,
        Node.outlineAt?_eq_some_iff hleaf] at h

/-- The graph of a scope leaves no new links behind. Building reads the tree, and storing is a write
    to the cache. -/
theorem ImportGraph.link_of_ofScope {scope : DependencyScope} {project : Project}
    {cache : Option GraphCache} {now : Int} {builder : Builder} {found : ScopeGraph}
    (hspelled : ∀ used, cache = some used → used.store.folder.IsSpelled)
    (h : ofScope scope project cache now builder = .ok found) {place : List String} {target : String}
    (hlink : found.tree.root.find? place = some (.link target)) :
    project.tree.root.find? place = some (.link target) := by
  obtain ⟨key, _, ⟨_, _, _, heq⟩ | ⟨_, ⟨_, heq⟩ | ⟨used, hused, _, hset⟩⟩⟩ := ofScope_ok h
  · rwa [heq] at hlink
  · rwa [heq] at hlink
  · obtain ⟨_, _, _, _, _, _, heq⟩ := GraphCache.set_ok_iff.mp hset
    rw [heq] at hlink
    exact CacheStore.link_of_write CacheStore.isPart_graphs (GraphCache.isSlot_slotName key)
      (hspelled used hused) hlink

namespace Command

variable {grammars : Grammars} {tree : FileTree} {now : Int} {words : List String} {r : GraphRequest}
  {json : Bool} {root : Path}

/-- The cache of a command is in a folder whose path can be spelled. It is below the folder of the
    project. -/
theorem isSpelled_cacheOf (hroot : root.IsSpelled) {noCache : Bool} {used : GraphCache}
    (h : cacheOf root noCache = some used) : used.store.folder.IsSpelled := by
  cases noCache with
  | true => cases h
  | false =>
    obtain rfl := Option.some.inj h
    exact (hroot.child ⟨by decide, by decide, by decide⟩).child ⟨by decide, by decide, by decide⟩

/-! ### The folder of the project -/

/-- A project is given by the text of a path to something. The path was checked when the command
    line was read. -/
theorem project_of_graphOf {reading : Reading} {project : Path} (h : graphOf tree reading = .ok r)
    (hproject : r.project = some project) :
    ∃ value node, project = .ofText value ∧ tree.stat value = .ok node := by
  obtain ⟨_, hcheck, h⟩ := bind_ok_iff.mp h
  obtain ⟨_, _, h⟩ := bind_ok_iff.mp h
  obtain rfl := pure_ok_iff.mp h
  obtain ⟨value, hvalue, rfl⟩ := Option.map_eq_some_iff.mp hproject
  obtain ⟨_, hcheck⟩ := Reading.checkValue_of_checkOptions hcheck hvalue (by decide)
  obtain ⟨node, hstat, _⟩ := checkPath_ok hcheck
  exact ⟨value, node, rfl, hstat⟩

/-- The folder of a project that is asked about is a real path. It may be given relative to the
    current folder, or found by going up from there. -/
theorem isRealPath_projectRoot (hsound : tree.root.IsSound)
    (hhere : ∃ entries, tree.root.find? tree.here = some (.folder entries))
    (hwords : Request.ofWords tree words = .ok (.graph r json))
    (h : tree.resolve (projectRoot tree r.project) = .ok root) : tree.IsRealPath root := by
  obtain ⟨entries, hhere⟩ := hhere
  have hreal : tree.IsRealPath (.absolute tree.here) :=
    FileTree.isRealPath_of_find? hsound hhere (by simp)
  cases hproject : r.project with
  | none =>
    rw [hproject] at h
    obtain rfl := Except.ok.inj (hreal.resolve_eq.symm.trans h)
    exact hreal
  | some project =>
    obtain ⟨reading, hreading⟩ : ∃ reading, graphOf tree reading = .ok r := by
      cases isAsked_of_ofWords hwords with
      | graph _ _ h => exact ⟨_, h⟩
    obtain ⟨value, node, rfl, hstat⟩ := project_of_graphOf hreading hproject
    obtain ⟨names, hfind, hnode, hsettle⟩ := FileTree.exists_settle_of_stat
      (FileTree.isReal_of_find? hsound hhere (by simp)) hstat
    rw [hproject] at h
    obtain rfl := FileTree.resolve_eq_of_settle (hsound.isEntryName hfind) h hsettle
    exact FileTree.isRealPath_of_find? hsound hfind hnode

/-! ### The run -/

/-- A run about a graph that goes well makes the graph and lists its files. This is the inversion of
    such a run. Nothing below unfolds it. -/
theorem runGraph_ok (h : (runGraph grammars tree now r json).status = 0) :
    ∃ root found files, tree.resolve (projectRoot tree r.project) = .ok root ∧
      ImportGraph.ofScope r.scope ⟨tree, root⟩ (cacheOf root r.noCache) now (builder grammars) =
        .ok found ∧
      listedFiles found.tree root r.scope found.graph = .ok files ∧
      (runGraph grammars tree now r json).output =
        if json then documentText (graphData r.scope found.graph files)
        else linesText (files.map String.toList) := by
  unfold runGraph at h ⊢
  split at h
  · exact absurd h (Outcome.fails_status_ne_zero _ _)
  · rename_i root hroot
    split at h
    · exact absurd h (Outcome.fails_status_ne_zero _ _)
    · rename_i found hfound
      split at h
      · exact absurd h (Outcome.fails_status_ne_zero _ _)
      · rename_i files hfiles
        refine ⟨root, found, files, hroot, hfound, hfiles, ?_⟩
        cases json <;> rfl

/-- A command line about a graph that ends with status 0 shows a list of files. If the graph is a
    new one, and if on the way to no source of the project a link leads back to itself, then the
    list stands for what the scope leads to, and the scope matches just the spellings of what is
    listed, however the folder of the project is given. From its spelling the user can tell which
    module a listed file is. -/
theorem run_lists_reached {readers : Readers} (hsound : tree.root.IsSound)
    (hhere : ∃ entries, tree.root.find? tree.here = some (.folder entries))
    (hwords : Request.ofWords tree words = .ok (.graph r json))
    (hstatus : (run readers tree now words).status = 0) :
    ∃ root found files, tree.resolve (projectRoot tree r.project) = .ok root ∧
      ImportGraph.ofScope r.scope ⟨tree, root⟩ (cacheOf root r.noCache) now (builder readers.grammars) =
        .ok found ∧
      (run readers tree now words).output =
        (if json then documentText (graphData r.scope found.graph files)
        else linesText (files.map String.toList)) ∧
      (builder readers.grammars (r.scope.request ⟨tree, root⟩) = .ok found.graph →
        Project.SourcesSettle ⟨tree, root⟩ r.scope.exclude readers.grammars.suffixes →
          ∃ reached, IsListing found.graph r.scope ⟨found.tree, root⟩ reached files ∧
            ∀ given, found.tree.Settles given → found.tree.resolve given = .ok root →
              IsListing found.graph r.scope ⟨found.tree, given⟩ reached files) := by
  have hrun : run readers tree now words = runGraph readers.grammars tree now r json := by
    rw [run, hwords]
    rfl
  rw [hrun] at hstatus ⊢
  obtain ⟨root, found, files, hresolve, hfound, hfiles, houtput⟩ := runGraph_ok hstatus
  refine ⟨root, found, files, hresolve, hfound, houtput, fun hbuilt hsettle => ?_⟩
  have hroot := isRealPath_projectRoot hsound hhere hwords hresolve
  -- The real paths are the same after the graph has been kept.
  have hlinks : ∀ place target, found.tree.root.find? place = some (.link target) →
      tree.root.find? place = some (.link target) := by
    intro place target hlink
    have hspelled : ∀ used, cacheOf root r.noCache = some used → used.store.folder.IsSpelled :=
      fun used hused => isSpelled_cacheOf hroot.isRooted.isSpelled hused
    exact (ImportGraph.link_of_ofScope hspelled hfound hlink :)
  have hnodes : ∀ path ∈ found.graph.nodes.keys,
      ∃ p : Path, path = p.text ∧ found.tree.IsRealPath p := by
    intro path hpath
    obtain ⟨p, hp, hreal⟩ := ImportGraph.isRealPath_of_build hsound hroot hsettle hbuilt hpath
    exact ⟨p, hp, hreal.mono hlinks⟩
  have hroot' := hroot.mono hlinks
  obtain ⟨reached, hlisting⟩ := isListing_of_listedFiles hroot' hnodes hfiles
  refine ⟨reached, hlisting root fun _ => rfl, fun given hgiven hgivenroot => hlisting given fun f => ?_⟩
  rw [Project.resolve, Project.resolve, hroot'.resolve_join hgiven hgivenroot]

/-! ### Two trees of files without imports

In both there is a link with the name of a source; in the one it leads to a file, in the other back to
itself, so that it is taken as it is written. -/

/-- A command line about the files that a link is connected to. -/
def linkWords : List String := ["graph", "l.py", "--no-cache"]

/-- What it asks for. -/
def linkRequest : GraphRequest := ⟨⟨["l.py"], .connected, none, []⟩, none, true⟩

/-- What the command line of the examples asks for. -/
theorem ofWords_linkWords (tree : FileTree) :
    Request.ofWords tree linkWords = .ok (.graph linkRequest false) := by
  have hmain : readArguments mainOptions false linkWords = .ok ⟨[], linkWords⟩ := by
    decide +kernel
  have hoptions : readArguments graphOptions true linkWords.tail =
      .ok ⟨[(.noCache, .switch true)], ["l.py"]⟩ := by
    decide +kernel
  exact ofWords_graph hmain hoptions rfl rfl

/-- The graph of files that import nothing. -/
def looseGraph (files : List Path) (entry : Path) : ImportGraph :=
  .ofModules (files.map fun file => ⟨file.text, []⟩) [entry.text] none (.zero false)

/-- A tree with such files at its top, in which the link has some real path. -/
structure IsLoose (tree : FileTree) (files : List Path) (entry : Path) : Prop where
  here_eq : tree.here = []
  top : ∃ entries, tree.stat "/" = .ok (.folder entries)
  sources : Project.sourceFiles ⟨tree, ⟨1, []⟩⟩ [] Grammars.all.suffixes = .ok files
  empty : ∀ file ∈ files, Grammars.all.language? file.suffix = some .python ∧
    tree.stat file.text = .ok (.file [] 0)
  link : tree.resolve ⟨1, ["l.py"]⟩ = .ok entry

section

variable {tree : FileTree} {files : List Path} {entry : Path}

/-- The project of a loose tree is the whole of it. -/
theorem IsLoose.projectRoot (h : IsLoose tree files entry) :
    tree.resolve (projectRoot tree linkRequest.project) = .ok ⟨1, []⟩ := by
  obtain ⟨_, hroot⟩ := h.top
  show tree.resolve (Path.absolute tree.here) = _
  rw [h.here_eq]
  exact (Project.realRoot_ok_iff.mp (Project.realRoot_top hroot)).1

/-- Its entry point leads to the file that the tree names. -/
theorem IsLoose.resolveEntries (h : IsLoose tree files entry) :
    Project.resolveEntries ⟨tree, ⟨1, []⟩⟩ ["l.py"] = .ok [entry.text] := by
  rw [Project.resolveEntries, List.mapM_cons, Project.resolve_top (by decide) h.link]
  rfl

theorem IsLoose.builder (h : IsLoose tree files entry) (hne : files ≠ []) :
    builder .all (linkRequest.scope.request ⟨tree, ⟨1, []⟩⟩) = .ok (looseGraph files entry) := by
  obtain ⟨_, hroot⟩ := h.top
  have hmodules : (Project.mk tree ⟨1, []⟩).modules .all Grammars.all.suffixes [] =
      .ok (files.map fun file => ⟨file.text, []⟩) :=
    Project.modules_of_no_imports (Project.realRoot_top hroot) (by decide) h.sources
      fun file hfile => FileTree.imports_of_empty (h.empty file hfile).1 (h.empty file hfile).2
  exact ImportGraph.build_ok_iff.mpr ⟨_, _, hmodules, by simpa using hne, h.resolveEntries, rfl⟩

/-- No cache is used in the examples, so the tree stays as it is. -/
theorem IsLoose.ofScope (h : IsLoose tree files entry) (hne : files ≠ []) :
    ImportGraph.ofScope linkRequest.scope ⟨tree, ⟨1, []⟩⟩ (cacheOf ⟨1, []⟩ linkRequest.noCache) 0
      (Command.builder .all) = .ok ⟨looseGraph files entry, tree⟩ := by
  obtain ⟨_, hroot⟩ := h.top
  have hcache : cacheOf ⟨1, []⟩ linkRequest.noCache = none := rfl
  have hkey : GraphKey.ofScope linkRequest.scope ⟨tree, ⟨1, []⟩⟩ =
      .ok ⟨.connected, ["l.py"], none, Path.text ⟨1, []⟩, []⟩ :=
    bind_ok_iff.mpr ⟨_, (Project.realRoot_ok_iff.mp (Project.realRoot_top hroot)).1, rfl⟩
  simp [ImportGraph.ofScope, hcache, hkey, h.builder hne, mapError_ok, bind, Except.bind, pure,
    Except.pure]

/-- What is reached is the file of the link alone. For there are no edges to go along. -/
theorem IsLoose.scopeReach (h : IsLoose tree files entry)
    (hreach : (looseGraph files entry).reach [entry.text] .connected none = [entry.text]) :
    (looseGraph files entry).scopeReach linkRequest.scope ⟨tree, ⟨1, []⟩⟩ = .ok [entry.text] := by
  refine bind_ok_iff.mpr ⟨_, h.resolveEntries, ?_⟩
  exact congrArg Except.ok hreach

/-- The run shows this file. Both examples are such runs. -/
theorem IsLoose.run (h : IsLoose tree files entry) (hne : files ≠ [])
    (hreach : (looseGraph files entry).reach [entry.text] .connected none = [entry.text])
    {shown : String} (hshown : shownModule tree ⟨1, []⟩ entry.text = .ok shown) :
    (Command.run .all tree 0 linkWords).status = 0 ∧
      (Command.run .all tree 0 linkWords).output = linesText [shown.toList] := by
  have hrun : Command.run .all tree 0 linkWords = runGraph .all tree 0 linkRequest false := by
    rw [Command.run, ofWords_linkWords]
    rfl
  -- One file is in order however it is sorted.
  have hlisted : listedFiles tree ⟨1, []⟩ linkRequest.scope (looseGraph files entry) =
      .ok [shown] := by
    rw [listedFiles, h.scopeReach hreach]
    show ([entry.text].mapM (shownModule tree ⟨1, []⟩) >>= _) = _
    rw [List.mapM_cons, List.mapM_nil, hshown]
    show Except.ok (sortedTexts [shown]) = _
    rw [sortedTexts, List.mergeSort_singleton]
  rw [hrun]
  unfold runGraph
  simp only [h.projectRoot, h.ofScope hne, hlisted]
  exact ⟨rfl, rfl⟩

end

/-- A link to a file. -/
def linkedTree : FileTree := ⟨.folder [("l.py", .link "y.py"), ("y.py", .file [] 0)], []⟩

/-- What is in the tree of the first example: a link to a file beside it. -/
theorem stat_linkedTree : linkedTree.stat "/" = .ok linkedTree.root ∧
    ∀ name ∈ ["l.py", "y.py"], linkedTree.stat (Path.text ⟨1, [name]⟩) = .ok (.file [] 0) := by
  rw [List.forall_mem_cons, List.forall_mem_singleton]
  exact ⟨FileTree.stat_of_walk [] (by decide) (by cbv),
    FileTree.stat_of_walk ["y.py"] (by decide) (by cbv),
    FileTree.stat_of_walk ["y.py"] (by decide) (by cbv)⟩

theorem settle_linkedTree : ∀ name ∈ ["l.py", "y.py"],
    FileTree.settle linkedTree.root (linkedTree.root.linkCount + 1) [] []
      (linkedTree.namesFromRoot ⟨1, [name]⟩) = (["y.py"], true) := by
  rw [List.forall_mem_cons, List.forall_mem_singleton]
  exact ⟨by cbv, by cbv⟩

theorem resolve_linkedTree : ∀ name ∈ ["l.py", "y.py"],
    linkedTree.resolve ⟨1, [name]⟩ = .ok ⟨1, ["y.py"]⟩ := by
  intro name hname
  refine FileTree.resolve_of_settle ?_ (by decide) (settle_linkedTree name hname)
  revert name
  decide

theorem sourceNames_linkedTree :
    Project.sourceNames ⟨linkedTree, ⟨1, []⟩⟩ .empty Grammars.all.suffixes = [["l.py"], ["y.py"]] := by
  obtain ⟨hroot, hstat⟩ := stat_linkedTree
  have hfile : ∀ name ∈ ["l.py", "y.py"],
      linkedTree.isFolder (Path.text ⟨1, [name]⟩) = .ok false :=
    fun name hname => FileTree.leadsTo_of_stat (hstat name hname)
  refine Project.sourceNames_top hroot ?_ ?_ ?_
  · decide
  · exact fun e he => hfile e.1 (List.mem_map_of_mem he)
  · decide

/-- The tree of the first example is loose, with one file. -/
theorem isLoose_linkedTree : IsLoose linkedTree [⟨1, ["y.py"]⟩] ⟨1, ["y.py"]⟩ := by
  obtain ⟨hroot, hstat⟩ := stat_linkedTree
  have hreal : ∀ name ∈ ["l.py", "y.py"],
      linkedTree.realFile? ⟨1, [name]⟩ = .ok (some ⟨1, ["y.py"]⟩) := fun name hname =>
    FileTree.realFile?_some_iff.mpr ⟨resolve_linkedTree name hname,
      FileTree.leadsTo_of_stat (hstat "y.py" (by decide))⟩
  refine ⟨rfl, ⟨_, hroot⟩, ?_, ?_, resolve_linkedTree "l.py" (by decide)⟩
  · have hplace : ∀ name, (Files.Path.mk 1 []).join ⟨0, [name]⟩ = ⟨1, [name]⟩ := fun _ => rfl
    simp only [List.forall_mem_cons] at hreal
    refine Project.sourceFiles_ok_iff.mpr ⟨.empty, [some ⟨1, ["y.py"]⟩, some ⟨1, ["y.py"]⟩], rfl, ?_,
      by cbv⟩
    rw [sourceNames_linkedTree]
    simp only [List.mapM_cons, List.mapM_nil, hplace, hreal]
    rfl
  · exact List.forall_mem_singleton.mpr ⟨by decide, hstat "y.py" (by decide)⟩

/-- The link is listed by the name of the file that it leads to. -/
theorem run_lists_linkedTree : linkedTree.root.IsSound ∧
    Request.ofWords linkedTree linkWords = .ok (.graph linkRequest false) ∧
    (Command.run .all linkedTree 0 linkWords).status = 0 ∧
    (Command.run .all linkedTree 0 linkWords).output = "y.py\n" ∧
    ∃ reached files, (Command.run .all linkedTree 0 linkWords).output =
        linesText (files.map String.toList) ∧
      IsListing (looseGraph [⟨1, ["y.py"]⟩] ⟨1, ["y.py"]⟩) linkRequest.scope ⟨linkedTree, ⟨1, []⟩⟩
        reached files := by
  have hsound : linkedTree.root.IsSound :=
    Node.isSound_folder (by decide) (by decide) (by simp [Node.isSound_file, Node.isSound_link])
  have hloose := isLoose_linkedTree
  have hshown : shownModule linkedTree ⟨1, []⟩ (Path.text ⟨1, ["y.py"]⟩) = .ok "y.py" := by cbv
  obtain ⟨hstatus, houtput⟩ := hloose.run (by simp) (by cbv) hshown
  have hsettle : Project.SourcesSettle ⟨linkedTree, ⟨1, []⟩⟩ [] Grammars.all.suffixes := by
    intro excluded hexcluded
    obtain rfl : GlobSet.empty = excluded := Except.ok.inj hexcluded
    rw [sourceNames_linkedTree, List.forall_mem_cons, List.forall_mem_singleton]
    exact ⟨congrArg Prod.snd (settle_linkedTree "l.py" (by decide)),
      congrArg Prod.snd (settle_linkedTree "y.py" (by decide))⟩
  refine ⟨hsound, ofWords_linkWords _, hstatus, houtput.trans (by decide), ?_⟩
  obtain ⟨root, found, files, hroot, hfound, hshows, hlisting⟩ :=
    run_lists_reached hsound ⟨_, rfl⟩ (ofWords_linkWords linkedTree) hstatus
  obtain rfl := Except.ok.inj (hloose.projectRoot.symm.trans hroot)
  obtain rfl := Except.ok.inj ((hloose.ofScope (by simp)).symm.trans hfound)
  obtain ⟨reached, hreached, _⟩ := hlisting (hloose.builder (by simp)) hsettle
  exact ⟨reached, files, hshows, hreached⟩

/-- A link that leads back to itself, and from there to another link. -/
def strayTree : FileTree :=
  ⟨.folder [("l.py", .link "l.py/../x.py"), ("x.py", .link "y.py"), ("y.py", .file [] 0)], []⟩

/-- What is in the tree of the second example: a link by way of itself, a link and a file. -/
theorem stat_strayTree : strayTree.stat "/" = .ok strayTree.root ∧
    ∀ name ∈ ["x.py", "y.py"], strayTree.stat (Path.text ⟨1, [name]⟩) = .ok (.file [] 0) := by
  rw [List.forall_mem_cons, List.forall_mem_singleton]
  exact ⟨FileTree.stat_of_walk [] (by decide) (by cbv),
    FileTree.stat_of_walk ["y.py"] (by decide) (by cbv),
    FileTree.stat_of_walk ["y.py"] (by decide) (by cbv)⟩

/-- The one link is taken as it is written, the other is followed. So the first link leads to what
    is no real path. -/
theorem resolve_strayTree : strayTree.resolve ⟨1, ["l.py"]⟩ = .ok ⟨1, ["x.py"]⟩ ∧
    ∀ name ∈ ["x.py", "y.py"], strayTree.resolve ⟨1, [name]⟩ = .ok ⟨1, ["y.py"]⟩ := by
  have hstray : FileTree.settle strayTree.root (strayTree.root.linkCount + 1) [] []
      (strayTree.namesFromRoot ⟨1, ["l.py"]⟩) = (["x.py", "..", "l.py"], false) := by cbv
  have hsettle : ∀ name ∈ ["x.py", "y.py"],
      FileTree.settle strayTree.root (strayTree.root.linkCount + 1) [] []
        (strayTree.namesFromRoot ⟨1, [name]⟩) = (["y.py"], true) := by
    rw [List.forall_mem_cons, List.forall_mem_singleton]
    exact ⟨by cbv, by cbv⟩
  refine ⟨FileTree.resolve_of_stray (by decide) hstray (by decide +kernel)
    (stat_strayTree.2 "x.py" (by decide)), fun name hname => ?_⟩
  refine FileTree.resolve_of_settle ?_ (by decide) (hsettle name hname)
  revert name
  decide

theorem sourceNames_strayTree :
    Project.sourceNames ⟨strayTree, ⟨1, []⟩⟩ .empty Grammars.all.suffixes =
      [["l.py"], ["x.py"], ["y.py"]] := by
  obtain ⟨hroot, hstat⟩ := stat_strayTree
  -- The first link leads nowhere, since it cannot be followed to an end.
  have hstray : strayTree.isFolder (Path.text ⟨1, ["l.py"]⟩) = .ok false := by cbv
  have hfile : ∀ name ∈ ["l.py", "x.py", "y.py"],
      strayTree.isFolder (Path.text ⟨1, [name]⟩) = .ok false :=
    List.forall_mem_cons.mpr ⟨hstray, fun name hname => FileTree.leadsTo_of_stat (hstat name hname)⟩
  refine Project.sourceNames_top hroot ?_ ?_ ?_
  · decide
  · exact fun e he => hfile e.1 (List.mem_map_of_mem he)
  · decide

/-- The tree of the second example is loose, with two files, one of which is a link. -/
theorem isLoose_strayTree : IsLoose strayTree [⟨1, ["x.py"]⟩, ⟨1, ["y.py"]⟩] ⟨1, ["x.py"]⟩ := by
  obtain ⟨hroot, hstat⟩ := stat_strayTree
  obtain ⟨hstray, hresolve⟩ := resolve_strayTree
  have hisFile : ∀ name ∈ ["x.py", "y.py"],
      strayTree.isFile (Path.text ⟨1, [name]⟩) = .ok true :=
    fun name hname => FileTree.leadsTo_of_stat (hstat name hname)
  have hreal : ∀ name ∈ ["x.py", "y.py"],
      strayTree.realFile? ⟨1, [name]⟩ = .ok (some ⟨1, ["y.py"]⟩) := fun name hname =>
    FileTree.realFile?_some_iff.mpr ⟨hresolve name hname, hisFile "y.py" (by decide)⟩
  have hstrayReal : strayTree.realFile? ⟨1, ["l.py"]⟩ = .ok (some ⟨1, ["x.py"]⟩) :=
    FileTree.realFile?_some_iff.mpr ⟨hstray, hisFile "x.py" (by decide)⟩
  refine ⟨rfl, ⟨_, hroot⟩, ?_, ?_, hstray⟩
  · have hplace : ∀ name, (Files.Path.mk 1 []).join ⟨0, [name]⟩ = ⟨1, [name]⟩ := fun _ => rfl
    simp only [List.forall_mem_cons] at hreal
    refine Project.sourceFiles_ok_iff.mpr
      ⟨.empty, [some ⟨1, ["x.py"]⟩, some ⟨1, ["y.py"]⟩, some ⟨1, ["y.py"]⟩], rfl, ?_, by cbv⟩
    rw [sourceNames_strayTree]
    simp only [List.mapM_cons, List.mapM_nil, hplace, hstrayReal, hreal]
    rfl
  · rw [List.forall_mem_cons, List.forall_mem_singleton]
    exact ⟨⟨by decide, hstat "x.py" (by decide)⟩, ⟨by decide, hstat "y.py" (by decide)⟩⟩

/-- A link that leads back to itself stands for another link, and so does the name that is listed:
    it resolves to no module that is reached. -/
theorem not_isListing_strayTree : strayTree.root.IsSound ∧
    Request.ofWords strayTree linkWords = .ok (.graph linkRequest false) ∧
    (Command.run .all strayTree 0 linkWords).status = 0 ∧
    (Command.run .all strayTree 0 linkWords).output = "x.py\n" ∧
    builder .all (linkRequest.scope.request ⟨strayTree, ⟨1, []⟩⟩) =
      .ok (looseGraph [⟨1, ["x.py"]⟩, ⟨1, ["y.py"]⟩] ⟨1, ["x.py"]⟩) ∧
    (looseGraph [⟨1, ["x.py"]⟩, ⟨1, ["y.py"]⟩] ⟨1, ["x.py"]⟩).scopeReach linkRequest.scope
      ⟨strayTree, ⟨1, []⟩⟩ = .ok ["/x.py"] ∧
    Project.resolve ⟨strayTree, ⟨1, []⟩⟩ "x.py" = .ok "/y.py" ∧
    ∀ reached, ¬IsListing (looseGraph [⟨1, ["x.py"]⟩, ⟨1, ["y.py"]⟩] ⟨1, ["x.py"]⟩)
      linkRequest.scope ⟨strayTree, ⟨1, []⟩⟩ reached ["x.py"] := by
  have hsound : strayTree.root.IsSound :=
    Node.isSound_folder (by decide) (by decide) (by simp [Node.isSound_file, Node.isSound_link])
  have hloose := isLoose_strayTree
  have hreach : (looseGraph [⟨1, ["x.py"]⟩, ⟨1, ["y.py"]⟩] ⟨1, ["x.py"]⟩).reach
      [Path.text ⟨1, ["x.py"]⟩] .connected none = [Path.text ⟨1, ["x.py"]⟩] := by cbv
  have hshown : shownModule strayTree ⟨1, []⟩ (Path.text ⟨1, ["x.py"]⟩) = .ok "x.py" := by cbv
  obtain ⟨hstatus, houtput⟩ := hloose.run (by simp) hreach hshown
  have hresolve : Project.resolve ⟨strayTree, ⟨1, []⟩⟩ "x.py" = .ok "/y.py" :=
    Project.resolve_top (by decide) (resolve_strayTree.2 "x.py" (by decide))
  have hscope := hloose.scopeReach hreach
  refine ⟨hsound, ofWords_linkWords _, hstatus, houtput.trans (by decide), hloose.builder (by simp),
    hscope, hresolve, fun reached hlisting => ?_⟩
  obtain rfl := Except.ok.inj (hscope.symm.trans hlisting.reach)
  -- The module that is reached has the name of the link, not that of its file.
  obtain ⟨path, hpath, heq⟩ := hlisting.leads "x.py" (List.mem_singleton_self _)
  rw [List.mem_singleton.mp hpath, hresolve] at heq
  exact absurd heq (by decide)

end Command

end Backlog
