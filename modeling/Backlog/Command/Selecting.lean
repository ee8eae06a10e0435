import Backlog.Cache.GraphCache
import Backlog.Command.Request
import Backlog.Import.Analysis
import Backlog.Load
import Backlog.Selection.Choice

namespace Backlog.Command

open Backlog.Files

/-!
# Making a selection for a command line

* `SelectionRequest.config` — the settings of a project, replaced by those of the command line;
* `SelectionRequest.inputs` — everything that a selection is made from;
* `SelectionRequest.run` — the selection; an import graph that it needs is kept in the cache.

A failure is a `RunError`. `RunError.isReported` tells the ones that speak about the input from those
that the program does not expect.
-/

/-- Why a command ends early. -/
inductive RunError where
  | config (cause : ConfigLoadError)
  | override (cause : OverrideError)
  | ledger (cause : LedgerLoadError)
  | rules (path : Path) (cause : RulesLoadError)
  | select (cause : SelectError)
  | graph (cause : ScopeGraphError)
  | link (cause : FileTree.ResolveError)
  | file (fault : Fault) (path : String)
  /-- A ledger cannot be written down. -/
  | text (cause : Json.Obstacle)
  /-- A graph holds a module without a path. -/
  | pathless

/-- Whether a refusal to load rule metadata is one of the file system, or of what the file holds. -/
def isExpected : RulesLoadError → Bool
  | .read _ => true
  | .json cause => cause != .halfPair
  | .shape _ => true
  | .yaml cause =>
    -- The reader of such documents refuses these in its own way, which is not expected here.
    match cause with
    | .malformed => false
    | .notABool _ => false
    | .emptyNumber => false
    | .notATime => false
    -- A longer code does not even fit the number that a character is made from.
    | .badCode code => code < Nat.pow 2 31
    | .halfPair => false
    | _ => true

/-- Whether a graph is refused because of the project, and not because of trouble on the way. -/
def isAnalysed : BuildError → Bool
  | .analysis _ => true
  | .noModules _ => true
  | .trouble _ => false

namespace RunError

/-- Whether a failure is told to the user as one of the input. -/
def isReported : RunError → Bool
  | .config cause =>
    match cause with
    | .malformed => true
    | .shape _ => true
    -- A document that is no text, or holds a value that cannot be made, is not expected.
    | _ => false
  | .override (.limitKind _) => true
  | .override (.limitCount _) => false
  | .ledger cause =>
    match cause with
    | .unreadable .. => true
    | .notJson .. => true
    | .shape _ => true
    | _ => false
  | .rules _ cause => isExpected cause
  | .select (.config _) => true
  | .select (.build cause) => isAnalysed cause
  | .select (.candidates _) => false
  | .graph (.build cause) => isAnalysed cause
  | .graph _ => false
  | .link _ => false
  | .file _ _ => false
  | .text _ => false
  | .pathless => false

/-- The wording of a failure. -/
def message : RunError → String
  | .config cause => cause.message
  | .override (.limitKind cause) => cause.message
  | .override (.limitCount cause) => cause.message
  | .ledger cause => cause.message
  | .rules path cause => s!"cannot load rule metadata from {path.text}: {cause.message}"
  | .select (.config cause) => cause.message
  | .select (.build cause) => cause.message
  | .select (.candidates cause) => cause.message
  | .graph (.build cause) => cause.message
  | .graph (.root cause) => cause.message
  | .graph (.cache cause) => cause.message
  | .link cause => cause.message
  | .file fault path => fault.message path
  | .text cause => cause.message
  | .pathless => "no path specified"

end RunError

/-- The scope of a project, replaced by what the command line gives; globs to leave out cannot be
    given there. -/
def SelectionRequest.scope (r : SelectionRequest) (scope : Option DependencyScope) :
    Option DependencyScope :=
  if r.entryPoints.isEmpty && r.mode.isNone && r.maxDepth.isNone then scope
  else
    let base := scope.getD ⟨[], .connected, none, []⟩
    some { base with
      entryPoints := if r.entryPoints.isEmpty then base.entryPoints else r.entryPoints
      mode := r.mode.getD base.mode
      maxDepth := r.maxDepth.or base.maxDepth }

/-- A list that counts only if there is something in it. -/
def unlessEmpty (texts : List String) : Option (List String) :=
  if texts.isEmpty then none else some texts

/-- The settings that replace others. -/
def SelectionRequest.overrides (r : SelectionRequest) (scope : Option DependencyScope) :
    Overrides where
  limitKind := r.limitKind.map (fun kind => .text kind.name)
  limitCount := r.limitCount.map .int
  onlyAutoFixable := r.onlyAutoFixable
  allowPartial := r.allowPartial
  excludeRules := unlessEmpty r.excludeRules
  includeRules := unlessEmpty r.includeRules
  excludeGlobs := unlessEmpty r.excludeGlobs
  includeGlobs := unlessEmpty r.includeGlobs
  scope := r.scope scope

/-- The settings of a project, replaced by those of the command line. -/
def SelectionRequest.config (r : SelectionRequest) (config : Config) : Except OverrideError Config :=
  config.override (r.overrides config.options.scope)

/-- The current folder. -/
def currentFolder (tree : FileTree) : Path := .absolute tree.here

/-- The folder of the project. -/
def projectRoot (tree : FileTree) (project : Option Path) : Path :=
  project.getD (currentFolder tree)

/-- The file with the rule metadata of a project. -/
def rulesPath (root : Path) : Path := (root.child configFolder).child "rules.yml"

/-- The rule metadata in a file. -/
def loadRules (yaml : Yaml.Reader) (tree : FileTree) (path : Path) : Except RunError Rules :=
  (Rules.load yaml tree path).mapError (.rules path)

/-- The rule metadata for a selection: in the file that is given, or in that of the project if there
    is one. -/
def SelectionRequest.loadRules (r : SelectionRequest) (yaml : Yaml.Reader) (tree : FileTree)
    (root : Path) : Except RunError Rules :=
  match r.rules with
  | some path => Command.loadRules yaml tree path
  | none => do
    let path := rulesPath root
    let isThere ← (tree.isFile path.text).mapError (fun fault => .file fault path.text)
    if isThere then Command.loadRules yaml tree path else return .empty

/-- What a selection is made from. -/
structure Inputs where
  config : Config
  ledger : Ledger
  rules : Rules

/-- Loads what a selection is made from. -/
def SelectionRequest.inputs (r : SelectionRequest) (yaml : Yaml.Reader) (tree : FileTree)
    (root : Path) : Except RunError Inputs := do
  -- The settings come first, so that a fault in them is reported before one in the ledger.
  let loaded ← (Config.load yaml tree root).mapError .config
  let config ← (r.config loaded).mapError .override
  let ledger ← (Ledger.load tree r.ledger).mapError .ledger
  let rules ← r.loadRules yaml tree root
  return ⟨config, ledger, rules⟩

/-- The readers that the program takes from elsewhere. -/
structure Readers where
  /-- The parsers of sources. -/
  grammars : Grammars
  /-- The reader of settings, and of rule metadata that is not JSON. -/
  yaml : Yaml.Reader

/-- The builder of the program: it reads the sources of the project. -/
def builder (grammars : Grammars) : Builder := ImportGraph.build (Project.analyze grammars) (.zero false)

/-- The cache that a command uses. -/
def cacheOf (root : Path) (noCache : Bool) : Option GraphCache :=
  if noCache then none else some (.ofProject root)

/-- The import graph that the settings need, if they need one. A limit that cannot be used is
    refused before. -/
def neededGraph (grammars : Grammars) (now : Int) (cache : Option GraphCache) (config : Config)
    (project : Project) : Except RunError (Option (DependencyScope × ScopeGraph)) := do
  let _ ← config.limit.validate.mapError (fun c => .select (.config c))
  match Eligibility.activeScope config.options with
  | none => return none
  | some scope =>
    let graph ← (ImportGraph.ofScope scope project cache now (builder grammars)).mapError .graph
    return some (scope, graph)

/-- The paths that a graph allows. -/
def allowedPaths (needed : Option (DependencyScope × ScopeGraph)) (project : Project) :
    Except RunError (Option (List String)) :=
  match needed with
  | none => .ok none
  | some (scope, found) => (found.graph.scopeReach scope project).mapError .link |>.map some

/-- A ledger and what is selected from it. -/
structure Selected where
  ledger : Ledger
  selection : Option Selection

/-- Selects from some inputs, the graph being there. -/
def Inputs.select (inputs : Inputs) (project : Project)
    (needed : Option (DependencyScope × ScopeGraph)) : Except RunError Selected := do
  let kind ← inputs.config.limit.validate.mapError (fun c => .select (.config c))
  let paths ← allowedPaths needed project
  let selection ← (selectAmong paths kind inputs.ledger inputs.rules inputs.config project).mapError
    .select
  return ⟨inputs.ledger, selection⟩

/-- The selection that is asked for, and the file system after it. -/
def SelectionRequest.run (r : SelectionRequest) (readers : Readers) (tree : FileTree)
    (now : Int) : FileTree × Except RunError Selected :=
  let root := projectRoot tree r.project
  match r.inputs readers.yaml tree root with
  | .error e => (tree, .error e)
  | .ok inputs =>
    match neededGraph readers.grammars now (cacheOf root r.noCache) inputs.config ⟨tree, root⟩ with
    -- Whatever stops the graph stops it before anything is kept.
    | .error e => (tree, .error e)
    | .ok needed =>
      let tree := (needed.map (fun found => found.2.tree)).getD tree
      (tree, inputs.select ⟨tree, root⟩ needed)

end Backlog.Command
