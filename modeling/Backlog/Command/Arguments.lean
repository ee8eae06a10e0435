import Backlog.Files.Tree
import Backlog.Number.Numeral
import Backlog.Setting
import Backlog.Text.Similar

namespace Backlog.Command

open Backlog.Files Backlog.Number Backlog.Text

/-!
# Options and arguments

* `readArguments` — sorts the words of a command line into options and arguments;
* `Reading.checkOptions` — whether their values can be used;
* `UsageError.message` — the wording of a refusal.

Words are read from left to right; values are checked only when all words have been read, in the
order in which their options come first.
-/

/-- What an option or an argument tells. -/
inductive Key where
  | ledger | entryPoints
  | rules | limitType | limit | slices | fixableOnly | includeRule | excludeRule | includeFile
  | excludeFile | entryPoint | graphMode | graphDepth | noCache | project
  | json | write
  | mode | depth | exclude
  | help | version | verbose | quiet
  deriving DecidableEq, Repr

/-- What an option takes: a value of its own, or none because it is one. -/
inductive OptionForm where
  | value
  | switch (on : Bool)
  deriving DecidableEq, Repr

/-- An option. -/
structure OptionSpec where
  name : String
  key : Key
  form : OptionForm
  deriving DecidableEq, Repr

/-- Why a command line cannot be followed. -/
inductive UsageError where
  | noSuchOption (name : String) (similar : List String)
  | noSuchCommand (name : String) (similar : List String)
  | needsValue (option : String)
  | takesNoValue (option : String)
  | notAnInteger (place value : String)
  | notAChoice (place value : String) (words : List String)
  | noSuchPath (place value kind : String)
  | wrongPath (place value kind actual : String)
  | missingArgument (name : String)
  | missingCommand
  | extraArguments (words : List String)
  deriving DecidableEq, Repr

/-- Words in quotes, with commas between them. -/
def quotedWords (words : List String) : String := ", ".intercalate (words.map quoted)

/-- A hint at what may have been meant. -/
def hint (similar : List String) : String :=
  match similar with
  | [] => ""
  | [word] => s!" Did you mean {quoted word}?"
  | words => s!" (Did you mean one of: {quotedWords (words.mergeSort (fun a b => !(b < a)))}?)"

/-- The wording of a refusal. -/
def UsageError.message : UsageError → String
  | .noSuchOption name similar => s!"No such option {quoted name}." ++ hint similar
  | .noSuchCommand name similar => s!"No such command {quoted name}." ++ hint similar
  | .needsValue option => s!"Option {quoted option} requires an argument."
  | .takesNoValue option => s!"Option {quoted option} does not take a value."
  | .notAnInteger place value =>
    s!"Invalid value for '{place}': {quoted value} is not a valid integer."
  | .notAChoice place value words =>
    s!"Invalid value for '{place}': {quoted value} is not one of {quotedWords words}."
  | .noSuchPath place value kind =>
    s!"Invalid value for '{place}': {kind} {quoted value} does not exist."
  | .wrongPath place value kind actual =>
    s!"Invalid value for '{place}': {kind} {quoted value} is a {actual}."
  | .missingArgument name => s!"Missing argument '{name}'."
  | .missingCommand => "Missing command."
  | .extraArguments words =>
    let noun := if words.length = 1 then "argument" else "arguments"
    let list := " ".intercalate words
    s!"Got unexpected extra {noun} ({list})"

/-! ### Reading -/

/-- What is given for a key. -/
inductive Given where
  | text (value : String)
  | switch (on : Bool)
  deriving DecidableEq, Repr

/-- The words of a command line, sorted. -/
structure Reading where
  /-- The options in order. -/
  given : List (Key × Given)
  /-- All other words. -/
  words : List String
  deriving DecidableEq, Repr

namespace Reading

/-- Adds an option in front. -/
def withOption (r : Reading) (key : Key) (value : Given) : Reading :=
  { r with given := (key, value) :: r.given }

/-- Adds a word in front. -/
def withWord (r : Reading) (word : String) : Reading := { r with words := word :: r.words }

end Reading

/-- The parts of a word before and behind its first equals sign. -/
def splitEquals (word : String) : String × Option String :=
  let cs := word.toList
  match cs.dropWhile (· ≠ '=') with
  | [] => (word, none)
  | _ :: value => (String.ofList (cs.takeWhile (· ≠ '=')), some (String.ofList value))

/-- Whether an option is a single dash and a character. -/
def OptionSpec.isShort (o : OptionSpec) : Bool := o.name.length = 2

/-- The options that a row of characters behind a dash stands for. -/
def readShort (options : List OptionSpec) : List Char → Except UsageError (List (Key × Given))
  | [] => .ok []
  | c :: rest =>
    let name := String.ofList ['-', c]
    -- A short option with a value does not exist, so what is no switch is unknown.
    match options.find? (fun o => o.isShort && o.name = name) with
    | some ⟨_, key, .switch on⟩ => do return (key, .switch on) :: (← readShort options rest)
    | _ => .error (.noSuchOption name [])

/-- Whether a word is an option. -/
def isOption (word : String) : Bool := word.startsWith "-" && word ≠ "-"

/-- The options that can be written out. -/
def longOptions (options : List OptionSpec) : List OptionSpec := options.filter (fun o => !o.isShort)

/-- The refusal of an option. -/
def unknownOption (options : List OptionSpec) (name : String) : UsageError :=
  .noSuchOption name (similarTexts name ((longOptions options).map OptionSpec.name))

/-- Sorts the words of a command line. Behind two dashes, and where `mixed` is false behind the
    first word that is no option, nothing is an option. -/
def readArguments (options : List OptionSpec) (mixed : Bool) :
    List String → Except UsageError Reading
  | [] => .ok ⟨[], []⟩
  | word :: rest =>
    if word = "--" then .ok ⟨[], rest⟩
    else if !isOption word then
      -- Commands take options and arguments in any order; in front of a command, its name ends the
      -- options.
      if mixed then do return (← readArguments options mixed rest).withWord word
      else .ok ⟨[], word :: rest⟩
    else
      let (name, value) := splitEquals word
      match (longOptions options).find? (fun o => o.name = name), value, rest with
      | some ⟨_, key, .value⟩, some value, rest => do
        return (← readArguments options mixed rest).withOption key (.text value)
      -- The next word is the value, whatever it looks like.
      | some ⟨_, key, .value⟩, none, value :: rest => do
        return (← readArguments options mixed rest).withOption key (.text value)
      | some ⟨_, _, .value⟩, none, [] => .error (.needsValue name)
      | some ⟨_, _, .switch _⟩, some _, _ => .error (.takesNoValue name)
      | some ⟨_, key, .switch on⟩, none, rest => do
        return (← readArguments options mixed rest).withOption key (.switch on)
      | none, _, rest =>
        if word.startsWith "--" then .error (unknownOption options name)
        else do
          let found ← readShort options (word.toList.drop 1)
          let reading ← readArguments options mixed rest
          return { reading with given := found ++ reading.given }

namespace Reading

/-- The last value that is given for a key. -/
def last? (r : Reading) (key : Key) : Option Given :=
  ((r.given.filter (fun g => g.1 = key)).getLast?).map Prod.snd

/-- The text that is given for a key. -/
def text? (r : Reading) (key : Key) : Option String :=
  match r.last? key with
  | some (.text value) => some value
  | _ => none

/-- Whether a switch is on or off, if it is given. -/
def switch? (r : Reading) (key : Key) : Option Bool :=
  match r.last? key with
  | some (.switch on) => some on
  | _ => none

/-- Whether a switch is on. -/
def isOn (r : Reading) (key : Key) : Bool := (r.switch? key).getD false

/-- All texts that are given for a key. -/
def texts (r : Reading) (key : Key) : List String :=
  r.given.filterMap fun g => if g.1 = key then
    match g.2 with
    | .text value => some value
    | .switch _ => none
    else none

/-- The whole number that is given for a key. -/
def int? (r : Reading) (key : Key) : Option Int :=
  (r.text? key).bind fun value => (readInt value).toOption

/-- The path that is given for a key. -/
def path? (r : Reading) (key : Key) : Option Path := (r.text? key).map Path.ofText

end Reading

/-! ### Checking -/

/-- What the value for a key has to be. -/
inductive ValueForm where
  | anything
  | integer
  | choice (words : List String)
  | file
  | folder
  deriving DecidableEq, Repr

/-- What the value for a key has to be. -/
def Key.form : Key → ValueForm
  | .limit => .integer
  | .graphDepth => .integer
  | .depth => .integer
  | .limitType => .choice (LimitKind.all.map LimitKind.name)
  | .graphMode => .choice (DependencyMode.all.map DependencyMode.name)
  | .mode => .choice (DependencyMode.all.map DependencyMode.name)
  | .ledger => .file
  | .rules => .file
  | .project => .folder
  | _ => .anything

/-- Why the arguments of a command cannot be used. -/
inductive ArgumentError where
  | usage (cause : UsageError)
  /-- A path cannot even be looked up. -/
  | path (fault : Fault)
  deriving DecidableEq, Repr

/-- Checks that a path leads to a file, or to a folder. -/
def checkPath (tree : FileTree) (place value : String) (folder : Bool) :
    Except ArgumentError Unit :=
  let kind := if folder then "Directory" else "File"
  match tree.stat value with
  | .error .nul => .error (.path .nul)
  | .error _ => .error (.usage (.noSuchPath place value kind))
  | .ok node =>
    let isFolder := FileTree.isFolderNode node
    if isFolder = folder then .ok ()
    else .error (.usage (.wrongPath place value kind (if isFolder then "directory" else "file")))

/-- Checks a value that is given in a place. -/
def checkValue (tree : FileTree) (place value : String) : ValueForm → Except ArgumentError Unit
  | .anything => .ok ()
  | .integer =>
    match readInt value with
    | .ok _ => .ok ()
    | .error _ => .error (.usage (.notAnInteger place value))
  | .choice words =>
    if words.contains value then .ok () else .error (.usage (.notAChoice place value words))
  | .file => checkPath tree place value false
  | .folder => checkPath tree place value true

/-- The distinct keys that are given, in order. -/
def Reading.keys (r : Reading) : List Key :=
  (r.given.map Prod.fst).foldl (fun keys key => if keys.contains key then keys else keys ++ [key])
    []

/-- Checks the value that counts for each option. -/
def Reading.checkOptions (r : Reading) (tree : FileTree) (options : List OptionSpec) :
    Except ArgumentError Unit :=
  r.keys.forM fun key =>
    match r.text? key, options.find? (fun o => o.key = key) with
    | some value, some option => checkValue tree option.name value key.form
    | _, _ => .ok ()

/-- Checks that no words are left over. -/
def checkRest (words : List String) : Except ArgumentError Unit :=
  if words.isEmpty then .ok () else .error (.usage (.extraArguments words))

end Backlog.Command
