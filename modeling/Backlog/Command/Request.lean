import Backlog.Command.Arguments
import Backlog.Config

namespace Backlog.Command

open Backlog.Files Backlog.Text

/-!
# What a command line asks for

Each command has its options, some of which it shares with the others, and its arguments. A request
is made of their values only after all of them have been checked, so that whoever carries it out
need not look at words again.

* `Request` — one of the commands with its options;
* `Request.ofWords` — the request of a command line.
-/

/-- What a selection is made from, and the settings that replace those of the project. -/
structure SelectionRequest where
  ledger : Path
  /-- The file with rule metadata, unless it is the one of the project. -/
  rules : Option Path
  /-- The folder of the project, unless it is the current one. -/
  project : Option Path
  noCache : Bool
  limitKind : Option LimitKind
  limitCount : Option Int
  allowPartial : Option Bool
  onlyAutoFixable : Option Bool
  includeRules : List String
  excludeRules : List String
  includeGlobs : List String
  excludeGlobs : List String
  entryPoints : List String
  mode : Option DependencyMode
  maxDepth : Option Int
  deriving DecidableEq, Repr

/-- Which part of the import graph is listed. -/
structure GraphRequest where
  scope : DependencyScope
  project : Option Path
  noCache : Bool

/-- What a command line asks for. -/
inductive Request where
  | select (selection : SelectionRequest) (json : Bool)
  | apply (selection : SelectionRequest) (write : Bool)
  | graph (graph : GraphRequest) (json : Bool)
  | clearCache (project : Option Path)
  | help
  | version

/-- Why there is no request. -/
inductive RequestError where
  | argument (cause : ArgumentError)
  /-- A command is missing altogether. -/
  | nothing

/-- A refusal of the command line itself. -/
def RequestError.usage (cause : UsageError) : RequestError := .argument (.usage cause)

/-! ### Options -/

/-- An option with a value. -/
def valueOption (name : String) (key : Key) : OptionSpec := ⟨name, key, .value⟩

/-- An option without a value. -/
def switchOption (name : String) (key : Key) : OptionSpec := ⟨name, key, .switch true⟩

/-- The option that every command has. -/
def helpOption : OptionSpec := switchOption "--help" .help

/-- The options in front of a command. -/
def mainOptions : List OptionSpec :=
  [switchOption "--version" .version, switchOption "--verbose" .verbose, switchOption "-v" .verbose,
    switchOption "--quiet" .quiet, switchOption "-q" .quiet, helpOption]

/-- The options of a selection. -/
def selectionOptions : List OptionSpec :=
  [valueOption "--rules" .rules, valueOption "--limit-type" .limitType, valueOption "--limit" .limit,
    ⟨"--partial", .slices, .switch true⟩, ⟨"--no-partial", .slices, .switch false⟩,
    ⟨"--auto-fixable-only", .fixableOnly, .switch true⟩, ⟨"--all-rules", .fixableOnly, .switch false⟩,
    valueOption "--include-rule" .includeRule, valueOption "--exclude-rule" .excludeRule,
    valueOption "--include-file" .includeFile, valueOption "--exclude-file" .excludeFile,
    valueOption "--entry-point" .entryPoint, valueOption "--graph-mode" .graphMode,
    valueOption "--graph-depth" .graphDepth, switchOption "--no-cache" .noCache,
    valueOption "--project" .project]

/-- The options of the selecting command. -/
def selectOptions : List OptionSpec :=
  selectionOptions ++ [switchOption "--json" .json, helpOption]

/-- The options of the applying command. -/
def applyOptions : List OptionSpec :=
  selectionOptions ++ [switchOption "--write" .write, helpOption]

/-- The options of the graph command. -/
def graphOptions : List OptionSpec :=
  [valueOption "--mode" .mode, valueOption "--depth" .depth, valueOption "--exclude" .exclude,
    switchOption "--no-cache" .noCache, switchOption "--json" .json,
    valueOption "--project" .project, helpOption]

/-- The options of the command that clears the cache. -/
def clearOptions : List OptionSpec := [valueOption "--project" .project, helpOption]

/-! ### Requests -/

/-- The request of a command whose words are sorted. A call for help comes before all checks. -/
def requestOf (options : List OptionSpec) (words : List String)
    (request : Reading → Except ArgumentError Request) : Except RequestError Request := do
  let reading ← (readArguments options true words).mapError .usage
  if reading.isOn .help then return .help
  else (request reading).mapError .argument

/-- The word in a place of its own, and those behind it. -/
def firstWord (name : String) : List String → Except ArgumentError (String × List String)
  | [] => .error (.usage (.missingArgument name))
  | word :: rest => .ok (word, rest)

/-- The selection that some options and words ask for. -/
def selectionOf (tree : FileTree) (r : Reading) (options : List OptionSpec) :
    Except ArgumentError SelectionRequest := do
  r.checkOptions tree options
  -- Options first, then the argument, then what is left over: the first fault is the one reported.
  let (ledger, rest) ← firstWord "LEDGER" r.words
  checkValue tree "LEDGER" ledger Key.ledger.form
  checkRest rest
  return {
    ledger := .ofText ledger
    rules := r.path? .rules
    project := r.path? .project
    noCache := r.isOn .noCache
    limitKind := (r.text? .limitType).bind LimitKind.ofName?
    limitCount := r.int? .limit
    allowPartial := r.switch? .slices
    onlyAutoFixable := r.switch? .fixableOnly
    includeRules := r.texts .includeRule
    excludeRules := r.texts .excludeRule
    includeGlobs := r.texts .includeFile
    excludeGlobs := r.texts .excludeFile
    entryPoints := r.texts .entryPoint
    mode := (r.text? .graphMode).bind DependencyMode.ofName?
    maxDepth := r.int? .graphDepth }

/-- The part of the graph that some options and words ask for. -/
def graphOf (tree : FileTree) (r : Reading) : Except ArgumentError GraphRequest := do
  r.checkOptions tree graphOptions
  let _ ← firstWord "ENTRY_POINTS..." r.words
  return {
    scope := ⟨r.words, ((r.text? .mode).bind DependencyMode.ofName?).getD .connected, r.int? .depth,
      r.texts .exclude⟩
    project := r.path? .project
    noCache := r.isOn .noCache }

/-- The project whose cache is cleared. -/
def clearOf (tree : FileTree) (r : Reading) : Except ArgumentError Request := do
  r.checkOptions tree clearOptions
  checkRest r.words
  return .clearCache (r.path? .project)

/-- The commands. -/
def commandNames : List String := ["apply", "cache", "graph", "select"]

/-- The commands about the cache. -/
def cacheCommandNames : List String := ["clear"]

/-- What is asked of a group of commands: the options in front, then the name of a command. A name
    that looks like an option is read as one. -/
def dispatch (options : List OptionSpec) (names words : List String)
    (command : String → List String → Option (Except RequestError Request)) :
    Except RequestError Request := do
  if words.isEmpty then throw .nothing
  let reading ← (readArguments options false words).mapError .usage
  -- The first of the two that is given decides.
  match (reading.given.map Prod.fst).find? (fun key => key = .help || key = .version) with
  | some .version => return .version
  | some _ => return .help
  | none =>
    match reading.words with
    | [] => throw (.usage .missingCommand)
    | name :: rest =>
      match command name rest with
      | some request => request
      | none =>
        let again ← if isOption name then
          (readArguments options false (name :: rest)).mapError .usage else pure ⟨[], []⟩
        if again.isOn .version then return .version
        else if again.isOn .help then return .help
        else throw (.usage (.noSuchCommand name (similarTexts name names)))

/-- What is asked about the cache. -/
def cacheRequest (tree : FileTree) (words : List String) : Except RequestError Request :=
  dispatch [helpOption] cacheCommandNames words fun name rest =>
    if name = "clear" then some (requestOf clearOptions rest (clearOf tree)) else none

/-- The request of a command line. -/
def Request.ofWords (tree : FileTree) (words : List String) : Except RequestError Request :=
  dispatch mainOptions commandNames words fun name rest =>
    match name with
    | "select" => some <| requestOf selectOptions rest fun r => do
      return .select (← selectionOf tree r selectOptions) (r.isOn .json)
    | "apply" => some <| requestOf applyOptions rest fun r => do
      return .apply (← selectionOf tree r applyOptions) (r.isOn .write)
    | "graph" => some <| requestOf graphOptions rest fun r => do
      return .graph (← graphOf tree r) (r.isOn .json)
    | "cache" => some (cacheRequest tree rest)
    | _ => none

end Backlog.Command
