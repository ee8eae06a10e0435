import Backlog.Glob.GlobSet
import Backlog.Graph.Reach

namespace Backlog

open Backlog.Files Backlog.Number

/-!
# Building import graphs

The analysis of the source files is handed in, so that a graph may be built from whatever tells the
modules of a project and their imports. All that is left to do is to find the real paths of the
entry points and to lay out the nodes.

* `ImportGraph.build` — analyses the modules of a project and makes their graph;
* `BuildError` — why there is none.
-/

/-- Why the modules of a folder cannot be listed. -/
inductive AnalysisError where
  | notFolder (root : String)
  | noLanguage
  /-- A reason given by another analysis. -/
  | reported (reason : String)
  deriving DecidableEq, Repr

/-- The wording of a refusal. -/
def AnalysisError.message : AnalysisError → String
  | .notFolder root => s!"Cannot analyze modules: {root} is not a directory"
  | .noLanguage => "Cannot analyze modules: no tree-sitter grammar is installed"
  | .reported reason => reason

/-- What can go wrong with globs, paths and source texts, whatever they are used for. -/
inductive Trouble where
  | pattern (cause : PatternLimit)
  | link (cause : FileTree.ResolveError)
  | file (fault : Fault) (path : String)
  /-- A path without a last name would need one. -/
  | nameless (path : String)
  /-- A module is named by bytes that are no text. -/
  | spelling (cause : Text.Utf8.Error)
  deriving DecidableEq, Repr

/-- The wording of a trouble. -/
def Trouble.message : Trouble → String
  | .pattern cause => cause.message
  | .link cause => cause.message
  | .file fault path => fault.message path
  | .nameless path => s!"PosixPath({Text.quoted path}) has an empty name"
  | .spelling cause => cause.message

/-- Why there is no graph. -/
inductive BuildError where
  | analysis (cause : AnalysisError)
  | noModules (root : String)
  | trouble (cause : Trouble)
  deriving DecidableEq, Repr

/-- The wording of a refusal. -/
def BuildError.message : BuildError → String
  | .analysis cause => s!"Dependency analysis failed: {cause.message}"
  | .noModules root => s!"Dependency analysis found no modules under {root}"
  | .trouble cause => cause.message

/-- Why an analysis stops: it has nothing to list, or it meets trouble on the way. -/
inductive AnalysisStop where
  | refused (cause : AnalysisError)
  | trouble (cause : Trouble)
  deriving DecidableEq, Repr

/-- An analysis stops a build. -/
def BuildError.ofStop : AnalysisStop → BuildError
  | .refused cause => .analysis cause
  | .trouble cause => .trouble cause

/-- Lists the modules of a project, some globs left out. -/
abbrev Analyzer := Project → List String → Except AnalysisStop (List SourceModule)

/-- What a graph is built from. -/
structure BuildRequest where
  entryPoints : List String
  project : Project
  exclude : List String
  maxDepth : Option Int

/-- The request that a scope stands for. -/
def DependencyScope.request (scope : DependencyScope) (project : Project) : BuildRequest :=
  ⟨scope.entryPoints, project, scope.exclude, scope.maxDepth⟩

/-- Makes the graph that is requested. -/
abbrev Builder := BuildRequest → Except BuildError ImportGraph

/-- Analyses a project and makes its graph. -/
def ImportGraph.build (analyze : Analyzer) (builtAt : Binary64) : Builder := fun request => do
  let modules ← (analyze request.project request.exclude).mapError .ofStop
  -- Entry points are resolved only once there are modules, so an empty project is refused first.
  if modules.isEmpty then throw (.noModules request.project.root.text)
  let entries ← (request.project.resolveEntries request.entryPoints).mapError
    (fun e => .trouble (.link e))
  return .ofModules modules entries request.maxDepth builtAt

end Backlog
