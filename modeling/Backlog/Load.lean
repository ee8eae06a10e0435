import Backlog.Config
import Backlog.Files.Tree
import Backlog.Ledger.Codec
import Backlog.Rules
import Backlog.Yaml.Value

namespace Backlog

open Backlog.Files Backlog.Text

/-!
# Loading ledgers, rules and settings

* `Ledger.load` — a ledger from a JSON file;
* `Rules.load` — rule metadata from a JSON file, or from a YAML file, whatever its name ends in;
* `Config.load` — the settings of a project; without a file the defaults hold.

Text files are UTF-8, and all their line ends count as line feeds. The reader of YAML comes from
elsewhere, so it is handed in: whatever it is, what it refuses a text with decides what becomes of the
refusal. `Yaml.parse` is such a reader.
-/

/-- Why a text file cannot be read. -/
inductive ReadError where
  | file (fault : Fault) (path : String)
  | encoding (cause : Utf8.Error)
  deriving DecidableEq, Repr

/-- The wording of a refusal. -/
def ReadError.message : ReadError → String
  | .file fault path => fault.message path
  | .encoding cause => cause.message

/-- The text of a file. -/
def Files.FileTree.readText (tree : FileTree) (path : Path) : Except ReadError String := do
  let bytes ← (tree.read path.text).mapError (fun fault => .file fault path.text)
  let text ← (Utf8.decode bytes).mapError .encoding
  return String.ofList (unifyLineEnds text.toList)

/-- Why a ledger cannot be loaded. -/
inductive LedgerLoadError where
  /-- The file cannot be read. -/
  | unreadable (path : String) (cause : ReadError)
  /-- Its bytes are no text. -/
  | notText (cause : ReadError)
  | notJson (path : String) (cause : Json.Error)
  /-- A number in it has too many digits. -/
  | tooLong (digits : Nat)
  /-- A string in it has half of a surrogate pair. -/
  | halfPair
  | shape (cause : LedgerError)

/-- The wording of a refusal. -/
def LedgerLoadError.message : LedgerLoadError → String
  | .unreadable path cause => s!"ledger: cannot read {path}: {cause.message}"
  | .notText cause => cause.message
  | .notJson path cause => s!"ledger: {path} is not valid JSON: {cause.message}"
  | .tooLong digits => Number.tooLongMessage digits
  | .halfPair => Json.Error.halfPair.message
  | .shape cause => cause.message

namespace LedgerLoadError

/-- A refusal to read a file as the refusal of a ledger. -/
def ofRead (path : String) (cause : ReadError) : LedgerLoadError :=
  match cause with
  -- No system call takes such a path, so this refusal is not about a file.
  | .file .nul _ => .notText cause
  | .file _ _ => .unreadable path cause
  | .encoding _ => .notText cause

/-- A refusal of JSON as the refusal of a ledger. -/
def ofJson (path : String) (cause : Json.Error) : LedgerLoadError :=
  match cause with
  | .tooLong digits => .tooLong digits
  | .halfPair => .halfPair
  | .malformed .. => .notJson path cause

end LedgerLoadError

/-- The ledger that a text holds. -/
def Ledger.ofText (path text : String) : Except LedgerLoadError Ledger := do
  let data ← (Json.parse text).mapError (LedgerLoadError.ofJson path)
  (Ledger.ofData data).mapError .shape

/-- The ledger in a file. -/
def Ledger.load (tree : FileTree) (path : Path) : Except LedgerLoadError Ledger := do
  let text ← (tree.readText path).mapError (LedgerLoadError.ofRead path.text)
  Ledger.ofText path.text text

/-- Why rule metadata cannot be loaded. -/
inductive RulesLoadError where
  | read (cause : ReadError)
  | json (cause : Json.Error)
  | yaml (cause : Yaml.Error)
  | shape (cause : RulesError)

/-- The wording of a refusal. -/
def RulesLoadError.message : RulesLoadError → String
  | .read cause => cause.message
  | .json cause => cause.message
  | .yaml cause => cause.message
  | .shape cause => cause.message

/-- The rule metadata in a file. -/
def Rules.load (yaml : Yaml.Reader) (tree : FileTree) (path : Path) :
    Except RulesLoadError Rules := do
  let text ← (tree.readText path).mapError .read
  -- The name alone decides, whatever the text looks like.
  let data ← if path.suffix = ".json" then (Json.parse text).mapError .json
    else (yaml text).mapError .yaml
  (Rules.ofData data).mapError .shape

/-- Why settings cannot be loaded. -/
inductive ConfigLoadError where
  | file (fault : Fault) (path : String)
  | read (cause : ReadError)
  /-- The document does not follow the grammar. -/
  | malformed
  /-- A text in it does not have the value that its form or its tag promises. -/
  | value (cause : Yaml.Error)
  /-- A refusal cannot be put into words: it would show a number that is too long to be written. -/
  | unwritable
  | shape (cause : ConfigError)

/-- The wording of a refusal. What the reader says about the place of a break of the grammar is left
    out. -/
def ConfigLoadError.message : ConfigLoadError → String
  | .file fault path => fault.message path
  | .read cause => cause.message
  | .malformed => "config.yml: invalid YAML"
  | .value cause => cause.message
  | .unwritable => Number.tooLongToWrite
  | .shape cause => cause.message

/-- A refusal of settings, if the value that it shows can be written. -/
def ConfigLoadError.ofShape (cause : ConfigError) : ConfigLoadError :=
  if cause.given?.any Data.isTooLong then .unwritable else .shape cause

/-- The folder in which a project keeps what belongs to this program. -/
def configFolder : String := ".paydown"

/-- The file with the settings of a project. -/
def configPath (root : Path) : Path := (root.child configFolder).child "config.yml"

/-- The settings that a text holds. -/
def Config.ofText (yaml : Yaml.Reader) (text : String) : Except ConfigLoadError Config :=
  match yaml text with
  | .error .malformed => .error .malformed
  | .error cause => .error (.value cause)
  | .ok data => (Config.ofData data).mapError .ofShape

/-- The settings of a project. -/
def Config.load (yaml : Yaml.Reader) (tree : FileTree) (root : Path) :
    Except ConfigLoadError Config := do
  let path := configPath root
  let isThere ← (tree.isFile path.text).mapError (fun fault => .file fault path.text)
  -- Only a file counts: a folder of that name leaves the defaults.
  if isThere then
    let text ← (tree.readText path).mapError .read
    Config.ofText yaml text
  else return .default

end Backlog
