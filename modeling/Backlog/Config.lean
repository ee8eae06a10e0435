import Backlog.Ledger.Basic

namespace Backlog

open Backlog.Number Backlog.Text

/-!
# Configuration of a selection

What a selection run is asked to do: the limit on its size, the rule and file filters, and the part
of the import graph it is restricted to.

* `Config.ofData` — checks a decoded document; what it does not give takes its default;
* `Limit.validate` — a limit is only checked when it is used, so that settings from elsewhere can
  still replace it;
* `Config.override` — replaces the settings that are given.
-/

/-- What is wrong with a configuration. -/
inductive ConfigError where
  | notAMapping
  | sectionNotAMapping (name : String)
  | countNotAnInteger
  | unknownLimitKind (given : Data)
  | limitNotPositive (kind : LimitKind)
  | depthNotAnInteger
  | unknownMode (given : Data)
  | notTexts (part key : String)
  | notABool (key : String)

/-- The wording of a refusal. -/
def ConfigError.message : ConfigError → String
  | .notAMapping => "config.yml must be a YAML mapping"
  | .sectionNotAMapping name => s!"config.yml: '{name}' must be a mapping"
  | .countNotAnInteger => "config.yml: 'limit.count' must be an integer"
  | .unknownLimitKind given => given.shownIn fun shown => s!"Got unknown limit type: {shown}"
  | .limitNotPositive kind => s!"The {kind.name} limit must be greater than 0."
  | .depthNotAnInteger => "config.yml: 'import_graph.depth' must be an integer"
  | .unknownMode given => given.shownIn fun shown =>
    s!"config.yml: unknown import_graph mode {shown}, expected one of " ++
      quotedList (DependencyMode.all.map DependencyMode.name)
  | .notTexts part key => s!"config.yml: '{part}.{key}' must be a list of strings"
  | .notABool key => s!"config.yml: '{key}' must be a boolean"

/-- The value that a refusal shows, if it shows one. -/
def ConfigError.given? : ConfigError → Option Data
  | .unknownLimitKind given => some given
  | .unknownMode given => some given
  | _ => none

/-- What a limit counts, as it was given. -/
inductive LimitUnit where
  | known (kind : LimitKind)
  | unknown (given : Data)

/-- The size of a set of violations in a kind of unit. -/
def LimitKind.measure : LimitKind → Counts → Int
  | .file, counts => counts.size
  | .violation, counts => counts.total

/-- The refusal to measure in a unit that is none. -/
structure UnknownUnit where
  given : Data

/-- The first characters of a text that is too long to show. -/
def shortened (limit : Nat) (text : String) : String := String.ofList (text.toList.take limit)

/-- The wording of the refusal; a long value is cut. -/
def UnknownUnit.message (e : UnknownUnit) : String :=
  e.given.shownIn fun shown =>
    let shown := if 100 < shown.length then shortened 100 shown ++ "..." else shown
    s!"Expected code to be unreachable, but got: {shown}"

/-- The size of a set of violations in a unit. -/
def LimitUnit.measure : LimitUnit → Counts → Except UnknownUnit Int
  | .known kind, counts => .ok (kind.measure counts)
  | .unknown given, _ => .error ⟨given⟩

/-- The upper bound on the size of one selection. -/
structure Limit where
  unit : LimitUnit
  count : Int

namespace Limit

/-- A hundred violations. -/
def default : Limit := ⟨.known .violation, 100⟩

/-- What a usable limit counts; its count is positive. -/
def validate (limit : Limit) : Except ConfigError LimitKind :=
  match limit.unit with
  | .unknown given => .error (.unknownLimitKind given)
  | .known kind => if limit.count ≤ 0 then .error (.limitNotPositive kind) else .ok kind

end Limit

/-- The part of the import graph that a selection is restricted to. -/
structure DependencyScope where
  entryPoints : List String
  mode : DependencyMode
  /-- The greatest number of hops, if there is one. -/
  maxDepth : Option Int
  /-- Globs of the modules to leave out of the graph. -/
  exclude : List String
  deriving DecidableEq, Repr

namespace DependencyScope

/-- No entry points, both directions, any number of hops. -/
def default : DependencyScope := ⟨[], .connected, none, []⟩

/-- A scope without entry points restricts nothing. -/
def active (scope : DependencyScope) : Bool := !scope.entryPoints.isEmpty

end DependencyScope

/-- The filters and switches of a selection. -/
structure Options where
  onlyAutoFixable : Bool
  allowPartial : Bool
  excludeRules : List String
  includeRules : List String
  excludeGlobs : List String
  includeGlobs : List String
  scope : Option DependencyScope
  deriving DecidableEq, Repr

/-- Only fixable rules, whole rules only, and no filter. -/
def Options.default : Options := ⟨true, false, [], [], [], [], none⟩

/-- All settings of a selection. -/
structure Config where
  limit : Limit
  options : Options

namespace Config

/-- The settings without any document. -/
def default : Config := ⟨.default, .default⟩

/-- A kind of limit from a word or from the kind itself. -/
def readLimitKind (given : Data) : Except ConfigError LimitKind :=
  match given with
  | .scalar (.limitKind kind) => .ok kind
  | .text word => match LimitKind.ofName? word with
    | some kind => .ok kind
    | none => .error (.unknownLimitKind given)
  | _ => .error (.unknownLimitKind given)

/-- A mode from a word or from the mode itself. -/
def readMode (given : Data) : Except ConfigError DependencyMode :=
  match given with
  | .scalar (.mode mode) => .ok mode
  | .text word => match DependencyMode.ofName? word with
    | some mode => .ok mode
    | none => .error (.unknownMode given)
  | _ => .error (.unknownMode given)

/-- The entries of a section. A section that is missing or blank has none. A mapping inside itself
    can only be the document, which is then a section of itself. -/
def readSection (entries : List (Scalar × Data)) (name : String) :
    Except ConfigError (List (Scalar × Data)) :=
  match Data.field? entries name with
  | none => .ok []
  | some value =>
    -- Every blank value counts as a missing section, not only null.
    if value.isBlank then .ok []
    else match value with
      | .map part => .ok part
      | .loopedMap => .ok entries
      | _ => .error (.sectionNotAMapping name)

/-- What a value stands for under a key; without one it is the default. -/
def readField {α : Type} (entries : List (Scalar × Data)) (key : String) (fallback : α)
    (read : Data → Except ConfigError α) : Except ConfigError α :=
  match Data.field? entries key with
  | none => .ok fallback
  | some value => read value

/-- A whole number. -/
def readCount : Data → Except ConfigError Int
  | .int n => .ok n
  | _ => .error .countNotAnInteger

/-- A greatest number of hops; null is none. -/
def readDepth : Data → Except ConfigError (Option Int)
  | .null => .ok none
  | .int n => .ok (some n)
  | _ => .error .depthNotAnInteger

/-- A list of texts; null holds none. -/
def readItems (part key : String) : Data → Except ConfigError (List String)
  | .null => .ok []
  | .list items => match Data.texts? items with
    | some texts => .ok texts
    | none => .error (.notTexts part key)
  | _ => .error (.notTexts part key)

/-- The texts under a key of a section. -/
def readTexts (entries : List (Scalar × Data)) (part key : String) :
    Except ConfigError (List String) :=
  readField entries key [] (readItems part key)

/-- A truth value. -/
def readSwitch (key : String) : Data → Except ConfigError Bool
  | .bool b => .ok b
  | _ => .error (.notABool key)

/-- A switch with its default. -/
def readBool (entries : List (Scalar × Data)) (key : String) (fallback : Bool) :
    Except ConfigError Bool :=
  readField entries key fallback (readSwitch key)

/-- The limit of a document. -/
def readLimit (entries : List (Scalar × Data)) : Except ConfigError Limit := do
  let part ← readSection entries "limit"
  let count ← readField part "count" Limit.default.count readCount
  let kind ← readField part "type" .violation readLimitKind
  return ⟨.known kind, count⟩

/-- The scope of a document; an empty section gives none. -/
def readScope (part : List (Scalar × Data)) : Except ConfigError (Option DependencyScope) :=
  if part.isEmpty then .ok none
  else do
    let maxDepth ← readField part "depth" none readDepth
    let entryPoints ← readTexts part "import_graph" "entry_points"
    let mode ← readField part "mode" .connected readMode
    let exclude ← readTexts part "import_graph" "exclude"
    return some ⟨entryPoints, mode, maxDepth, exclude⟩

/-- The settings of a document's entries. -/
def readEntries (entries : List (Scalar × Data)) : Except ConfigError Config := do
  -- Of several faults the first in this order is reported; a section is checked before its entries.
  let limit ← readLimit entries
  let included ← readSection entries "include"
  let excluded ← readSection entries "exclude"
  let graph ← readSection entries "import_graph"
  let scope ← readScope graph
  let onlyAutoFixable ← readBool entries "auto_fixable_only" true
  let allowPartial ← readBool entries "partial_selection" false
  let excludeRules ← readTexts excluded "exclude" "rules"
  let includeRules ← readTexts included "include" "rules"
  let excludeGlobs ← readTexts excluded "exclude" "files"
  let includeGlobs ← readTexts included "include" "files"
  return ⟨limit, ⟨onlyAutoFixable, allowPartial, excludeRules, includeRules, excludeGlobs,
    includeGlobs, scope⟩⟩

/-- The settings that a document gives; an empty document gives none. -/
def ofData : Data → Except ConfigError Config
  | .null => .ok default
  | .map entries => readEntries entries
  | _ => .error .notAMapping

end Config

/-- Why a value is no whole number. -/
inductive WholeNumberError where
  /-- A text, or some bytes, as they are shown. -/
  | numeral (shown : String) (cause : NumeralError)
  | infinite
  | notANumber
  /-- A value of a kind that has no whole number. -/
  | wrongKind (kind : String)

/-- The wording of a refusal. -/
def WholeNumberError.message : WholeNumberError → String
  | .numeral _ (.tooLong digits) => tooLongMessage digits
  | .numeral shown .malformed =>
    s!"invalid literal for int() with base 10: {shortened 200 shown}"
  | .infinite => "cannot convert float infinity to integer"
  | .notANumber => "cannot convert float NaN to integer"
  | .wrongKind kind =>
    "int() argument must be a string, a bytes-like object or a real number, " ++ s!"not '{kind}'"

/-- The word for the kind of a value that is not a number. -/
def wrongKindName : Data → String
  | .scalar .null => "NoneType"
  | .scalar (.date _) => "datetime.date"
  | .scalar (.moment _) => "datetime.datetime"
  | .scalar (.limitKind _) => "LimitKind"
  | .scalar (.mode _) => "DependencyMode"
  | .list _ => "list"
  | .tuple _ => "tuple"
  | .set _ => "set"
  | .loopedList => "list"
  | _ => "dict"

/-- Bytes as the text that a numeral is read from. Only ASCII counts in bytes, and of its separators
    none is a blank; what does not count stands for no digit. -/
def numeralText (bytes : List UInt8) : String :=
  String.ofList (bytes.map fun b =>
    if b < 28 || (32 ≤ b && b < 128) then Char.ofNat b.toNat else '?')

/-- The whole number of a value: numbers lose what is behind the point, texts and bytes are read. -/
def Data.toInt : Data → Except WholeNumberError Int
  | .int n => .ok n
  | .bool b => .ok (if b then 1 else 0)
  | .float .nan => .error .notANumber
  | .float x => match x.truncate? with
    | some n => .ok n
    -- Only an infinite float has no whole number before its point.
    | none => .error .infinite
  | .text s => (readInt s).mapError (.numeral (quoted s))
  | .scalar (.bytes b) => (readInt (numeralText b)).mapError (.numeral (quotedBytes b))
  | value => .error (.wrongKind (wrongKindName value))

/-- Settings that replace those of a configuration where they are given. -/
structure Overrides where
  limitKind : Option Data := none
  limitCount : Option Data := none
  onlyAutoFixable : Option Bool := none
  allowPartial : Option Bool := none
  excludeRules : Option (List String) := none
  includeRules : Option (List String) := none
  excludeGlobs : Option (List String) := none
  includeGlobs : Option (List String) := none
  scope : Option DependencyScope := none

/-- Why settings cannot replace others. -/
inductive OverrideError where
  | limitKind (cause : ConfigError)
  | limitCount (cause : WholeNumberError)

/-- The options with the given ones replaced. -/
def Options.override (options : Options) (o : Overrides) : Options where
  onlyAutoFixable := o.onlyAutoFixable.getD options.onlyAutoFixable
  allowPartial := o.allowPartial.getD options.allowPartial
  excludeRules := o.excludeRules.getD options.excludeRules
  includeRules := o.includeRules.getD options.includeRules
  excludeGlobs := o.excludeGlobs.getD options.excludeGlobs
  includeGlobs := o.includeGlobs.getD options.includeGlobs
  scope := o.scope.or options.scope

/-- The settings with the given ones replaced. -/
def Config.override (config : Config) (o : Overrides) : Except OverrideError Config := do
  let unit ← match o.limitKind with
    | none => pure config.limit.unit
    | some given => (Config.readLimitKind given).mapError .limitKind |>.map .known
  let count ← match o.limitCount with
    | none => pure config.limit.count
    | some given => given.toInt.mapError .limitCount
  return ⟨⟨unit, count⟩, config.options.override o⟩

end Backlog
