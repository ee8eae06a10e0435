import Backlog.Graph.Build
import Backlog.Import.Analysis
import Backlog.Import.Parsers
import Backlog.Proofs.Import.Calls
import Backlog.Proofs.Import.Candidates
import Backlog.Proofs.Import.SourceFiles
import Mathlib

namespace Backlog

open Backlog.Files Backlog.Number Backlog.Text

/-!
# What keeps a graph from being built

A project is refused as one that cannot be analysed, or it has no modules; everything else that stops
an analysis is trouble with a path, a glob or a text that it comes to.

* `ImportObstacle`, `SourceObstacle`, `AnalysisObstacle`, `BuildObstacle` — what stops the search for
  an import, the reading of a source file, an analysis and a build; each comes with the cause that is
  given, and is the first one that is come to;
* `resolveOne_error_iff`, `sourceModule_error_iff`, `modules_error_iff` — nothing else stops them;
* `ImportGraph.build_error_iff` — and nothing else stops a build.
-/

/-! ### An import -/

/-- What stops the search for an import. -/
inductive ImportObstacle (s : Sources) (language : Language) (importer : Path) (i : WrittenImport) :
    Trouble → Prop
  /-- A script climbs to the root, which has no name. -/
  | climbs {markup : Bool} {target : Path} (hscript : language = .ecmascript markup)
      (htarget : scriptTarget? i.specifier importer s.root = some target)
      (hnil : target.names = []) : ImportObstacle s language importer i (.nameless target.text)
  /-- The look at a place that the search comes to is refused: a name in it is too long, or a folder
      on the way may not be searched. -/
  | refused {rows : List (List Candidates)} {c : Path} {fault : Fault}
      (hrows : i.search language importer s.root = .ok rows) (htried : s.IsTried rows c)
      (hknown : c ∉ s.known) (hstat : s.tree.stat c.text = .error fault)
      (hfault : FileTree.meansAbsent fault = false) :
      ImportObstacle s language importer i (.file fault c.text)

/-- An import cannot be resolved exactly if one of the obstacles of imports is met. -/
theorem Sources.resolveOne_error_iff {s : Sources} {language : Language} {importer : Path}
    {i : WrittenImport} {cause : Trouble} (himporter : importer.IsRooted) (hroot : s.root.IsRooted) :
    s.resolveOne language importer i = .error cause ↔ ImportObstacle s language importer i cause := by
  rw [resolveOne, bind_error_iff]
  simp only [bind_error_iff, WrittenImport.search_error_iff, firstHits_error_iff]
  constructor
  · rintro (⟨markup, target, rfl, htarget, hnil, rfl⟩ | ⟨rows, hrows, ⟨c, htried, hc⟩ | ⟨paths, _, h⟩⟩)
    · exact .climbs rfl htarget hnil
    -- What is there has a real path, so a place is refused with the look at it alone.
    · obtain ⟨row, hrow, candidates, hcandidates, hmem⟩ := htried.mem
      have hrooted := isRooted_of_search himporter hroot hrows row hrow candidates hcandidates c hmem
      obtain ⟨hknown, fault, hstat, hfault, rfl⟩ := (lookup_error_iff hrooted).mp hc
      exact .refused hrows htried hknown hstat hfault
    · cases paths <;> cases h
  · rintro (⟨hscript, htarget, hnil⟩ | ⟨hrows, htried, hknown, hstat, hfault⟩)
    · exact .inl ⟨_, _, hscript, htarget, hnil, rfl⟩
    · obtain ⟨row, hrow, candidates, hcandidates, hmem⟩ := htried.mem
      have hrooted := isRooted_of_search himporter hroot hrows row hrow candidates hcandidates _ hmem
      exact .inr ⟨_, hrows, .inl ⟨_, htried,
        (lookup_error_iff hrooted).mpr ⟨hknown, _, hstat, hfault, rfl⟩⟩⟩

/-! ### A source file -/

/-- What stops the reading of a source file. -/
inductive SourceObstacle (grammars : Grammars) (s : Sources) (path : Path) : Trouble → Prop
  /-- A module is named by bytes that are no text. -/
  | spelling {language : Language} {bytes : Bytes} {cause : Utf8.Error}
      (hlanguage : grammars.language? path.suffix = some language)
      (hread : s.tree.read path.text = .ok bytes) (hfull : bytes.all isBlankByte = false)
      (h : grammars.imports language bytes = .error cause) :
      SourceObstacle grammars s path (.spelling cause)
  /-- The search for one of its imports is stopped. -/
  | search {language : Language} {imports : List WrittenImport} {i : WrittenImport}
      {cause : Trouble} (hlanguage : grammars.language? path.suffix = some language)
      (himports : s.tree.imports grammars path = .ok imports)
      (hbehind : IsBehind (fun other => ∃ found, s.resolveOne language path other = .ok found)
        imports i)
      (h : ImportObstacle s language path i cause) : SourceObstacle grammars s path cause

/-- The imports of a file cannot be told exactly if its tree holds a text that is not well spelled.
    What cannot be read, or is blank, imports nothing. -/
theorem Files.FileTree.imports_error_iff {tree : FileTree} {grammars : Grammars} {path : Path}
    {cause : Trouble} (hfile : tree.isFile path.text = .ok true) :
    tree.imports grammars path = .error cause ↔
      ∃ language bytes error, grammars.language? path.suffix = some language ∧
        tree.read path.text = .ok bytes ∧ bytes.all isBlankByte = false ∧
          grammars.imports language bytes = .error error ∧ cause = .spelling error := by
  obtain ⟨node, hstat, _⟩ := leadsTo_ok_true_iff.mp hfile
  -- There is a file, so there is no NUL in the path; all other faults stand for no imports.
  have hnul : tree.read path.text ≠ .error .nul := by
    rw [Ne, read_eq_nul_iff, ← stat_eq_nul_iff (t := tree), hstat]
    exact nofun
  unfold imports
  cases hlanguage : grammars.language? path.suffix with
  | none => simp
  | some language =>
    cases hread : tree.read path.text with
    | ok bytes =>
      cases hblank : bytes.all isBlankByte <;>
        simp [hblank, mapError_error_iff, -List.all_eq_true, -List.all_eq_false]
    | error fault => cases fault <;> simp_all

/-- A module cannot be made of a source file exactly if one of the obstacles of source files is
    met. -/
theorem Project.sourceModule_error_iff {grammars : Grammars} {s : Sources} {path : Path}
    {cause : Trouble} (hpath : path.IsRooted) (hroot : s.root.IsRooted)
    (hfile : s.tree.isFile path.text = .ok true) :
    sourceModule grammars s path = .error cause ↔ SourceObstacle grammars s path cause := by
  simp only [sourceModule, bind_error_iff, FileTree.imports_error_iff hfile]
  constructor
  · rintro (⟨language, bytes, error, hlanguage, hread, hfull, h, rfl⟩ |
      ⟨imports, himports, h | ⟨_, _, h⟩⟩)
    · exact .spelling hlanguage hread hfull h
    · unfold Sources.resolve at h
      cases hlanguage : grammars.language? path.suffix with
      | none => simp [hlanguage] at h
      | some language =>
        simp only [hlanguage, bind_error_iff, mapM_error_iff] at h
        obtain ⟨i, hbehind, hi⟩ | ⟨_, _, h⟩ := h
        · exact .search hlanguage himports hbehind
            ((Sources.resolveOne_error_iff hpath hroot).mp hi)
        · cases h
    · cases h
  · rintro (⟨hlanguage, hread, hfull, h⟩ | ⟨hlanguage, himports, hbehind, h⟩)
    · exact .inl ⟨_, _, _, hlanguage, hread, hfull, h, rfl⟩
    · refine .inr ⟨_, himports, .inl ?_⟩
      simp only [Sources.resolve, hlanguage, bind_error_iff, mapM_error_iff]
      exact .inl ⟨_, hbehind, (Sources.resolveOne_error_iff hpath hroot).mpr h⟩

/-! ### An analysis -/

/-- What stops an analysis. -/
inductive AnalysisObstacle (grammars : Grammars) (project : Project) (exclude : List String) :
    AnalysisStop → Prop
  | root {cause : Trouble} (h : PathObstacle project.tree project.root cause) :
      AnalysisObstacle grammars project exclude (.trouble cause)
  | notFolder {root : Path} (hroot : project.tree.resolve project.root = .ok root)
      (h : project.tree.isFolder root.text = .ok false) :
      AnalysisObstacle grammars project exclude (.refused (.notFolder project.root.text))
  | noLanguage {root : Path} (hroot : project.realRoot = .ok root) (h : grammars.suffixes = []) :
      AnalysisObstacle grammars project exclude (.refused .noLanguage)
  /-- The globs stand for too many patterns. -/
  | globs {root : Path} {limit : PatternLimit} (hroot : project.realRoot = .ok root)
      (hlanguage : grammars.suffixes ≠ []) (h : GlobSet.compile exclude = .error limit) :
      AnalysisObstacle grammars project exclude (.trouble (.pattern limit))
  /-- A file that looks like a source cannot be taken up. -/
  | file {root : Path} {excluded : GlobSet} {names : List String} {cause : Trouble}
      (hroot : project.realRoot = .ok root) (hlanguage : grammars.suffixes ≠ [])
      (hexcluded : GlobSet.compile exclude = .ok excluded)
      (hbehind : IsBehind
        (fun other => ∃ found, project.tree.realFile? (root.join ⟨0, other⟩) = .ok found)
        (Project.sourceNames ⟨project.tree, root⟩ excluded grammars.suffixes) names)
      (h : PathObstacle project.tree (root.join ⟨0, names⟩) cause) :
      AnalysisObstacle grammars project exclude (.trouble cause)
  /-- A source file cannot be read. -/
  | source {root : Path} {files : List Path} {path : Path} {cause : Trouble}
      (hroot : project.realRoot = .ok root) (hlanguage : grammars.suffixes ≠ [])
      (hfiles : Project.sourceFiles ⟨project.tree, root⟩ exclude grammars.suffixes = .ok files)
      (hbehind : IsBehind (fun other => ∃ found,
        Project.sourceModule grammars ⟨project.tree, root, files⟩ other = .ok found) files path)
      (h : SourceObstacle grammars ⟨project.tree, root, files⟩ path cause) :
      AnalysisObstacle grammars project exclude (.trouble cause)

namespace Project

variable {project : Project}

/-- The parts of a project are named as in every file system: the entries of its folders, the current
    folder and its root. -/
structure IsNamed (project : Project) : Prop where
  entries : project.tree.root.IsNamed
  here : ∀ name ∈ project.tree.here, '/' ∉ name.toList
  root : project.root.IsSpelled

/-- The real root of a project starts from the root of the tree. -/
theorem isRooted_of_realRoot {root : Path} (hnamed : project.IsNamed)
    (h : project.realRoot = .ok root) : root.IsRooted := by
  simp only [realRoot, bind_ok_iff, mapError_ok_iff] at h
  obtain ⟨real, hreal, isFolder, _, h⟩ := h
  cases isFolder with
  | false => cases h
  | true =>
    obtain rfl : real = root := Except.ok.inj h
    refine FileTree.isRooted_of_resolve (fun name hname => ?_) hreal
    unfold FileTree.namesFromRoot at hname
    split at hname
    · exact (hnamed.root name hname).2
    · rcases List.mem_append.mp hname with hname | hname
      · exact hnamed.here name hname
      · exact (hnamed.root name hname).2

/-- There is no real root exactly if the path of the root has an obstacle or does not lead to a
    folder. -/
theorem realRoot_error_iff {stop : AnalysisStop} :
    project.realRoot = .error stop ↔
      (∃ cause, PathObstacle project.tree project.root cause ∧ stop = .trouble cause) ∨
        ∃ root, project.tree.resolve project.root = .ok root ∧
          project.tree.isFolder root.text = .ok false ∧
            stop = .refused (.notFolder project.root.text) := by
  simp only [realRoot, bind_error_iff, mapError_error_iff, mapError_ok_iff]
  constructor
  · rintro (⟨cause, hcause, rfl⟩ | ⟨root, hroot, ⟨fault, hfault, rfl⟩ | ⟨isFolder, hfolder, h⟩⟩)
    · exact .inl ⟨_, .link hcause, rfl⟩
    · obtain ⟨hstat, hsays⟩ := FileTree.leadsTo_error_iff.mp hfault
      exact .inl ⟨_, .refused hroot hstat hsays, rfl⟩
    · cases isFolder with
      | true => cases h
      | false => exact .inr ⟨root, hroot, hfolder, (Except.error.inj h).symm⟩
  · rintro (⟨_, hcause | ⟨hroot, hstat, hfault⟩, rfl⟩ | ⟨root, hroot, hfolder, rfl⟩)
    · exact .inl ⟨_, hcause, rfl⟩
    · exact .inr ⟨_, hroot, .inl ⟨_, FileTree.leadsTo_error_iff.mpr ⟨hstat, hfault⟩, rfl⟩⟩
    · exact .inr ⟨root, hroot, .inr ⟨false, hfolder, rfl⟩⟩

section modules

variable {grammars : Grammars} {suffixes exclude : List String} {root : Path} {stop : AnalysisStop}

theorem modules_of_error (hroot : project.realRoot = .error stop) :
    modules grammars suffixes project exclude = .error stop := by
  unfold modules
  rw [hroot]
  rfl

theorem modules_of_noLanguage (hroot : project.realRoot = .ok root) (hlanguage : suffixes = []) :
    modules grammars suffixes project exclude = .error (.refused .noLanguage) := by
  unfold modules
  rw [hroot, hlanguage]
  rfl

/-- Past the root, an analysis is made of the files that are found and of what they hold. By this,
    the theorems below never unfold the analysis. -/
theorem modules_of_realRoot (hroot : project.realRoot = .ok root) (hlanguage : suffixes ≠ []) :
    modules grammars suffixes project exclude =
      (sourceFiles ⟨project.tree, root⟩ exclude suffixes >>= fun files =>
        files.mapM (sourceModule grammars ⟨project.tree, root, files⟩)).mapError .trouble := by
  have hnot : suffixes.isEmpty = false := by simpa using hlanguage
  unfold modules
  rw [hroot]
  show (if suffixes.isEmpty = true then _ else _) = _
  rw [hnot]
  cases sourceFiles ⟨project.tree, root⟩ exclude suffixes with
  | error cause => rfl
  | ok files => rfl

/-- The reading of a file that was found is stopped by the obstacles of a source file. What was
    found is a file, and its path starts from the root. -/
theorem sourceModule_error_iff_of_mem (hnamed : project.IsNamed)
    (hroot : project.realRoot = .ok root) {files : List Path}
    (hfiles : sourceFiles ⟨project.tree, root⟩ exclude suffixes = .ok files) {path : Path}
    (hpath : path ∈ files) {cause : Trouble} :
    sourceModule grammars ⟨project.tree, root, files⟩ path = .error cause ↔
      SourceObstacle grammars ⟨project.tree, root, files⟩ path cause := by
  have hrooted := isRooted_of_realRoot hnamed hroot
  obtain ⟨_, _, _, hfile⟩ := exists_of_mem_sourceFiles hfiles hpath
  have hpathRooted : path.IsRooted := by
    refine isRooted_of_mem_sourceFiles ?_ ?_ hfiles hpath
    · exact hnamed.entries
    · exact hrooted
  exact sourceModule_error_iff hpathRooted hrooted hfile

/-- Nothing else stops an analysis. The cases are the steps of an analysis, in their order. -/
theorem modules_error_iff (hnamed : project.IsNamed) :
    modules grammars grammars.suffixes project exclude = .error stop ↔
      AnalysisObstacle grammars project exclude stop := by
  constructor
  · intro h
    cases hroot : project.realRoot with
    | error other =>
      rw [modules_of_error hroot, Except.error.injEq] at h
      subst h
      rcases realRoot_error_iff.mp hroot with ⟨cause, hcause, rfl⟩ | ⟨root, hreal, hno, rfl⟩
      · exact .root hcause
      · exact .notFolder hreal hno
    | ok root =>
      by_cases hlanguage : grammars.suffixes = []
      · rw [modules_of_noLanguage hroot hlanguage, Except.error.injEq] at h
        exact h ▸ .noLanguage hroot hlanguage
      · rw [modules_of_realRoot hroot hlanguage, mapError_error_iff] at h
        obtain ⟨cause, h, rfl⟩ := h
        rcases bind_error_iff.mp h with h | ⟨files, hfiles, h⟩
        · rcases sourceFiles_error_iff.mp h with
            ⟨limit, hlimit, rfl⟩ | ⟨excluded, names, hexcluded, hbehind, hpath⟩
          · exact .globs hroot hlanguage hlimit
          · exact .file hroot hlanguage hexcluded hbehind hpath
        · obtain ⟨path, hbehind, hpath⟩ := mapM_error_iff.mp h
          exact .source hroot hlanguage hfiles hbehind
            ((sourceModule_error_iff_of_mem hnamed hroot hfiles hbehind.mem).mp hpath)
  · rintro (h | ⟨hreal, hno⟩ | ⟨hroot, hlanguage⟩ | ⟨hroot, hlanguage, hlimit⟩ |
      ⟨hroot, hlanguage, hexcluded, hbehind, h⟩ | ⟨hroot, hlanguage, hfiles, hbehind, h⟩)
    · exact modules_of_error (realRoot_error_iff.mpr (.inl ⟨_, h, rfl⟩))
    · exact modules_of_error (realRoot_error_iff.mpr (.inr ⟨_, hreal, hno, rfl⟩))
    · exact modules_of_noLanguage hroot hlanguage
    · rw [modules_of_realRoot hroot hlanguage, mapError_error_iff]
      exact ⟨_, bind_error_iff.mpr (.inl (sourceFiles_error_iff.mpr (.inl ⟨_, hlimit, rfl⟩))), rfl⟩
    · rw [modules_of_realRoot hroot hlanguage, mapError_error_iff]
      refine ⟨_, bind_error_iff.mpr (.inl ?_), rfl⟩
      exact sourceFiles_error_iff.mpr (.inr ⟨_, _, hexcluded, hbehind, h⟩)
    · rw [modules_of_realRoot hroot hlanguage, mapError_error_iff]
      have hsource := (sourceModule_error_iff_of_mem hnamed hroot hfiles hbehind.mem).mpr h
      exact ⟨_, bind_error_iff.mpr (.inr ⟨_, hfiles, mapM_error_iff.mpr ⟨_, hbehind, hsource⟩⟩), rfl⟩

end modules

end Project

/-! ### A build -/

/-- What stops a build. -/
inductive BuildObstacle (grammars : Grammars) (request : BuildRequest) : BuildError → Prop
  | analysis {stop : AnalysisStop}
      (h : AnalysisObstacle grammars request.project request.exclude stop) :
      BuildObstacle grammars request (.ofStop stop)
  | noModules (h : Project.analyze grammars request.project request.exclude = .ok []) :
      BuildObstacle grammars request (.noModules request.project.root.text)
  /-- An entry point has no real path. -/
  | entryPoint {modules : List SourceModule} {entry : String} {cause : FileTree.ResolveError}
      (hmodules : Project.analyze grammars request.project request.exclude = .ok modules)
      (hne : modules ≠ [])
      (hbehind : IsBehind (fun other => ∃ real, request.project.resolve other = .ok real)
        request.entryPoints entry)
      (h : request.project.resolve entry = .error cause) :
      BuildObstacle grammars request (.trouble (.link cause))

/-- Entry points are resolved in their order, up to the first that has no real path. So the refusal
    is that of the first one. -/
theorem Project.resolveEntries_error_iff {project : Project} {entryPoints : List String}
    {error : FileTree.ResolveError} :
    project.resolveEntries entryPoints = .error error ↔
      ∃ entry, IsBehind (fun other => ∃ real, project.resolve other = .ok real) entryPoints entry ∧
        project.resolve entry = .error error := by
  rw [← mapM_error_iff, resolveEntries]
  cases entryPoints.mapM project.resolve <;> simp [Except.map]

namespace ImportGraph

variable {grammars : Grammars} {request : BuildRequest} {builtAt : Binary64} {cause : BuildError}

theorem build_of_error {stop : AnalysisStop}
    (h : Project.analyze grammars request.project request.exclude = .error stop) :
    build (Project.analyze grammars) builtAt request = .error (.ofStop stop) := by
  unfold build
  rw [h]
  rfl

/-- An analysis that finds no modules stops a build. -/
theorem build_of_nil (h : Project.analyze grammars request.project request.exclude = .ok []) :
    build (Project.analyze grammars) builtAt request =
      .error (.noModules request.project.root.text) := by
  unfold build
  rw [h]
  rfl

/-- Past the analysis, a build is stopped by an entry point alone. A graph is made of any modules
    that there are. -/
theorem build_error_iff_of_modules {modules : List SourceModule}
    (h : Project.analyze grammars request.project request.exclude = .ok modules)
    (hne : modules ≠ []) :
    build (Project.analyze grammars) builtAt request = .error cause ↔
      ∃ entry error, IsBehind (fun other => ∃ real, request.project.resolve other = .ok real)
          request.entryPoints entry ∧
        request.project.resolve entry = .error error ∧ cause = .trouble (.link error) := by
  have hnot : modules.isEmpty = false := by simpa using hne
  unfold build
  rw [h]
  show (if modules.isEmpty = true then _ else _) = _ ↔ _
  rw [hnot]
  show ((request.project.resolveEntries request.entryPoints).mapError _ >>= _) = _ ↔ _
  simp only [bind_error_iff, mapError_error_iff, Project.resolveEntries_error_iff]
  constructor
  · rintro (⟨error, ⟨entry, hbehind, herror⟩, rfl⟩ | ⟨_, _, h⟩)
    · exact ⟨entry, error, hbehind, herror, rfl⟩
    · cases h
  · rintro ⟨entry, error, hbehind, herror, rfl⟩
    exact .inl ⟨error, ⟨entry, hbehind, herror⟩, rfl⟩

/-- A project at the root of a tree with one entry. Both examples are such projects. -/
theorem isNamed_single {name : String} {node : Node} (hname : Path.IsName name)
    (hnode : node.IsNamed) : Project.IsNamed ⟨⟨.folder [(name, node)], []⟩, ⟨1, []⟩⟩ where
  entries := .folder (List.forall_mem_singleton.mpr hname) (List.forall_mem_singleton.mpr hnode)
  here := List.forall_mem_nil _
  root := List.forall_mem_nil _

/-- A link that leads back to itself, with the name of a source. -/
def loopedSources : BuildRequest where
  entryPoints := []
  project := ⟨⟨.folder [("l.py", .link "l.py")], []⟩, ⟨1, []⟩⟩
  exclude := []
  maxDepth := none

/-- A script that imports the folder above the root. -/
def climbingScript : BuildRequest where
  entryPoints := ["/a.ts"]
  project := ⟨⟨.folder [("a.ts", .file "import \"..\";".toUTF8.toList 0)], []⟩, ⟨1, []⟩⟩
  exclude := []
  maxDepth := none

/-- The tree of the script. -/
def climbingSyntax : Import.SyntaxNode :=
  Import.rule "program" none "import \"..\";"
    [Import.rule "import_statement" none "import \"..\";"
      [Import.sign "import", { Import.quotedString ".." with field := some "source" },
        Import.sign ";"]]

/-- The script imports one module. -/
theorem imports_climbingScript :
    climbingScript.project.tree.imports (Import.grammarOf climbingSyntax) ⟨1, ["a.ts"]⟩ =
      .ok [⟨"..", 1, []⟩] := by
  have hlanguage : Language.ofSuffix? (Path.suffix ⟨1, ["a.ts"]⟩) = some (.ecmascript false) := by
    cbv
  have hread : climbingScript.project.tree.read (Path.text ⟨1, ["a.ts"]⟩) =
      .ok "import \"..\";".toUTF8.toList := by cbv
  have hparser : (Import.grammarOf climbingSyntax).ecmascript = some fun _ _ => climbingSyntax :=
    rfl
  rw [FileTree.imports_eq_importsAt hlanguage hparser hread (by cbv)]
  rfl

end ImportGraph

end Backlog
