import Backlog.Graph.Build
import Backlog.Rules

namespace Backlog

open Backlog.Files

/-!
# Eligible violations

Which violations of a rule may be selected: first the rule has to pass, then each of its files.

* `Eligibility.ofOptions` — the filters of one run;
* `Eligibility.filter` — the eligible violations of a rule, or the reason why there are none;
* `filterRule` — the same for one rule and a given import graph.
-/

/-- Why a rule is left out of a selection. -/
inductive Reason where
  | notFixable
  | excluded
  | notIncluded
  | noFiles
  deriving DecidableEq, Repr

/-- The wording of a reason. -/
def Reason.text : Reason → String
  | notFixable => "not auto-fixable"
  | excluded => "rule excluded"
  | notIncluded => "rule not included"
  | noFiles => "no eligible files"

/-- What becomes of the violations of a rule. -/
inductive Verdict where
  /-- These violations may be selected; they are in ledger order. -/
  | eligible (counts : Counts)
  | ineligible (reason : Reason)
  deriving DecidableEq

/-- What is missing for a scope to be applied. -/
inductive ScopeGap where
  | noReachableSet
  | noRoot
  | noGraphOrRoot
  deriving DecidableEq, Repr

/-- The wording of a gap. -/
def ScopeGap.message : ScopeGap → String
  | noReachableSet => "a dependency scope with entry points needs the reachable file set"
  | noRoot => "root_dir is required to match ledger paths against reachable files"
  | noGraphOrRoot => "a dependency scope with entry points needs a dependency graph and root_dir"

/-- Why violations cannot be filtered. -/
inductive FilterError where
  | gap (cause : ScopeGap)
  | trouble (cause : Trouble)
  deriving DecidableEq, Repr

/-- The wording of a refusal. -/
def FilterError.message : FilterError → String
  | .gap cause => cause.message
  | .trouble cause => cause.message

/-- The files that a scope restricts a selection to: real paths, seen from a project. -/
structure Reach where
  paths : List String
  project : Project

/-- The filters of one run. -/
structure Eligibility where
  rules : Rules
  options : Options
  /-- The files that the scope allows, if there is an active one. -/
  reach : Option Reach
  excluded : GlobSet
  included : GlobSet

namespace Eligibility

/-- The scope of some options, if it restricts anything. -/
def activeScope (options : Options) : Option DependencyScope :=
  options.scope.filter DependencyScope.active

/-- What an active scope needs: the files that can be reached, and the project they are seen
    from. -/
def reachOf (options : Options) (paths : Option (List String)) (project : Option Project) :
    Except FilterError (Option Reach) :=
  match activeScope options with
  | none => .ok none
  | some _ =>
    match paths, project with
    | none, _ => .error (.gap .noReachableSet)
    | some _, none => .error (.gap .noRoot)
    | some paths, some project => .ok (some ⟨paths, project⟩)

/-- The filters that some options ask for. -/
def ofOptions (rules : Rules) (options : Options) (paths : Option (List String))
    (project : Option Project) : Except FilterError Eligibility := do
  let reach ← reachOf options paths project
  let excluded ← (GlobSet.compile options.excludeGlobs).mapError (fun e => .trouble (.pattern e))
  let included ← (GlobSet.compile options.includeGlobs).mapError (fun e => .trouble (.pattern e))
  return ⟨rules, options, reach, excluded, included⟩

/-- The first guard that a rule does not pass. -/
def ruleReason? (e : Eligibility) (rule : String) : Option Reason :=
  -- The order of the guards decides which reason is given.
  if e.options.onlyAutoFixable && !e.rules.isFixable rule then some .notFixable
  else if e.options.excludeRules.contains rule then some .excluded
  else if !e.options.includeRules.isEmpty && !e.options.includeRules.contains rule then
    some .notIncluded
  else none

/-- The files that the scope allows. -/
def reachedFiles (e : Eligibility) (files : List String) : Except FilterError (List String) :=
  match e.reach with
  | none => .ok files
  | some reach =>
    (filterFiles (reach.project.isAmong reach.paths) files).mapError (fun c => .trouble (.link c))

/-- Whether the globs allow a file. -/
def globsAllow (e : Eligibility) (file : String) : Bool :=
  (e.excluded.isEmpty || !e.excluded.matches file) &&
    (e.included.isEmpty || e.included.matches file)

/-- The files that pass, in order. -/
def files (e : Eligibility) (files : List String) : Except FilterError (List String) :=
  (e.reachedFiles files).map (fun reached => reached.filter e.globsAllow)

/-- The violations of a rule that may be selected. -/
def filter (e : Eligibility) (rule : String) (counts : Counts) : Except FilterError Verdict :=
  match e.ruleReason? rule with
  | some reason => .ok (.ineligible reason)
  | none => do
    let files ← e.files counts.keys
    return if files.isEmpty then .ineligible .noFiles
      else .eligible (counts.filter (fun file _ => files.contains file))

end Eligibility

/-- The violations of one rule that may be selected, given the import graph that its scope needs. -/
def filterRule (rule : String) (counts : Counts) (rules : Rules) (options : Options)
    (graph : Option ImportGraph) (project : Option Project) : Except FilterError Verdict := do
  let paths ← match Eligibility.activeScope options with
    | none => pure none
    | some scope =>
      match graph, project with
      | some graph, some project =>
        ((graph.scopeReach scope project).mapError (fun c => .trouble (.link c))).map some
      -- The graph is needed only for an active scope.
      | _, _ => throw (.gap .noGraphOrRoot)
  let eligibility ← Eligibility.ofOptions rules options paths project
  eligibility.filter rule counts

end Backlog
