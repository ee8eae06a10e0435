import Backlog.Import.Discovery
import Backlog.Import.Resolution

namespace Backlog

open Backlog.Files

/-!
# The modules of a project

The modules of a project are its source files with what they import, each import being answered by
the files that it stands for. A file that nobody imports is a module too, and so is one without any
imports of its own.

* `Project.modules` — the source files of a project with their imports;
* `Project.analyze` — the same for all languages that can be read.
-/

namespace Project

/-- The folder that an analysis begins at, by its real path. -/
def realRoot (project : Project) : Except AnalysisStop Path := do
  let root ← (project.tree.resolve project.root).mapError (fun e => .trouble (.link e))
  let isFolder ← (project.tree.isFolder root.text).mapError
    (fun fault => .trouble (.file fault root.text))
  if isFolder then return root else throw (.refused (.notFolder project.root.text))

/-- A source file with its imports. -/
def sourceModule (grammars : Grammars) (sources : Sources) (path : Path) :
    Except Trouble SourceModule := do
  let imports ← sources.tree.imports grammars path
  return ⟨path.text, ← sources.resolve grammars path imports⟩

/-- The source files of a project that have one of some suffixes, with their imports. -/
def modules (grammars : Grammars) (suffixes : List String) (project : Project)
    (exclude : List String) : Except AnalysisStop (List SourceModule) := do
  let root ← project.realRoot
  -- A root that is no folder is refused before it matters whether any language can be read.
  if suffixes.isEmpty then throw (.refused .noLanguage)
  let files ← (sourceFiles ⟨project.tree, root⟩ exclude suffixes).mapError .trouble
  (files.mapM (sourceModule grammars ⟨project.tree, root, files⟩)).mapError .trouble

/-- The source files of a project with their imports. -/
def analyze (grammars : Grammars) : Analyzer := modules grammars grammars.suffixes

end Project

end Backlog
