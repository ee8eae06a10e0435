import Backlog.Ledger.Basic
import Backlog.Json.Canonical
import Backlog.Json.Parser

namespace Backlog

open Backlog.Number Backlog.Text

/-!
# Ledgers as documents

A document gives each file a mapping from its rules to counts, each count either a number or a
mapping with the number under `count`; a ledger is written in the second form.

* `Ledger.ofData` — checks a decoded document and builds the ledger, or says what is wrong with the
  first entry at fault;
* `Ledger.toData`, `Ledger.dump?` — the ledger as a document and as text;
* `Ledger.label` — how a ledger shows inside a message.
-/

/-- What is wrong with a document that should be a ledger. -/
inductive LedgerError where
  | notAMapping
  | badPath (key : Scalar)
  | entryNotAMapping (path : String)
  | badRule (path : String)
  | missingCount (path rule : String)
  | notAnInteger (path rule : String) (value : Data)
  | notPositive (path rule : String) (count : Int)

/-- The wording of a refusal. -/
def LedgerError.message : LedgerError → String
  | .notAMapping => "ledger: top level must be a mapping of file paths"
  | .badPath key => Data.keyShownIn key fun shown =>
    s!"ledger: file path must be a non-empty string, got {shown}"
  | .entryNotAMapping path => s!"ledger: entry for {quoted path} must be a mapping of rule ids"
  | .badRule path => s!"ledger: rule id in {quoted path} must be a non-empty string"
  | .missingCount path rule => s!"ledger: {quoted path} / {quoted rule} is missing 'count'"
  | .notAnInteger path rule value => value.shownIn fun shown =>
    s!"ledger: count for {quoted path} / {quoted rule} must be an integer, got {shown}"
  | .notPositive path rule count => (Data.int count).shownIn fun shown =>
    s!"ledger: count for {quoted path} / {quoted rule} must be positive, got {shown}"

namespace Ledger

/-- The key under which a mapping holds its count. -/
def countKey : String := "count"

/-- A count that stands for itself. -/
def readPlainCount (path rule : String) : Data → Except LedgerError Int
  | .int n => if n ≤ 0 then .error (.notPositive path rule n) else .ok n
  | value => .error (.notAnInteger path rule value)

/-- A count, taken directly or from the mapping that holds it. -/
def readCount (path rule : String) : Data → Except LedgerError Int
  | .map entries =>
    -- Other members of the mapping are passed over.
    match Data.field? entries countKey with
    | none => .error (.missingCount path rule)
    | some value => readPlainCount path rule value
  | value => readPlainCount path rule value

/-- The text of a key that is a text and not empty. -/
def name? : Scalar → Option String
  | .text s => if s.isEmpty then none else some s
  | _ => none

/-- The rules of one file. -/
def readRules (path : String) : List (Scalar × Data) → Except LedgerError (List (String × Int))
  | [] => .ok []
  | (key, value) :: rest =>
    match name? key with
    | none => .error (.badRule path)
    | some rule => do
      let count ← readCount path rule value
      let counts ← readRules path rest
      return (rule, count) :: counts

/-- The files of a document. -/
def readFiles : List (Scalar × Data) → Except LedgerError (List (String × Counts))
  | [] => .ok []
  | (key, value) :: rest =>
    match name? key with
    | none => .error (.badPath key)
    | some path =>
      match value with
      | .map rules => do
        let counts ← readRules path rules
        let files ← readFiles rest
        return (path, OrderedMap.ofList counts) :: files
      | _ => .error (.entryNotAMapping path)

/-- The ledger that a document holds. -/
def ofData : Data → Except LedgerError Ledger
  | .map entries => do
    let files ← readFiles entries
    -- A file whose mapping is empty is checked like the others, and dropped only here.
    return ofFiles (OrderedMap.ofList files)
  | _ => .error .notAMapping

/-- One count as a document holds it. -/
def countData (count : Int) : Data := .map [(.text countKey, .int count)]

/-- The ledger as a document. -/
def toData (ledger : Ledger) : Data :=
  .map (ledger.files.entries.map fun e =>
    (.text e.1, .map (e.2.entries.map fun r => (.text r.1, countData r.2))))

/-- The ledger as the characters of a file: a document in lines, in ASCII, and a line end. -/
def dumpChars (ledger : Ledger) : List Char := Json.write .asciiLines ledger.toData ++ ['\n']

/-- The ledger as the text of a file; a count with too many digits cannot be written. -/
def dump? (ledger : Ledger) : Except Json.Obstacle String :=
  match Json.obstacle? false ledger.toData with
  | some cause => .error cause
  | none => .ok (String.ofList ledger.dumpChars)

/-- The ledger as plain data, each count standing for itself. -/
def plainData (files : FileCounts) : Data :=
  .map (files.entries.map fun e =>
    (.text e.1, .map (e.2.entries.map fun r => (.text r.1, .int r.2))))

/-- How a ledger shows inside a message. -/
def label (ledger : Ledger) : String := s!"Ledger({(plainData ledger.files).label})"

end Ledger

end Backlog
