import Backlog.Calendar
import Backlog.Setting
import Backlog.Number.Binary64
import Backlog.Text.Quoted

namespace Backlog

open Backlog.Number

/-!
# Decoded documents

The values that a JSON or YAML document decodes to, before anything is known about their shape.

* `Scalar` — the values without parts; only these are keys of a mapping;
* `Data` — scalars, lists, mappings and the few other collections;
* `Data.ofPairs` — a mapping from its pairs: equal keys are one key, which keeps its first place and
  takes its last value;
* `Data.label` — how a value shows inside a message;
* `Data.shownIn` — the message, unless a number in the value has more digits than may be written.
-/

/-- A value without parts. -/
inductive Scalar where
  | null
  | bool (b : Bool)
  | int (n : Int)
  | float (x : Binary64)
  | text (s : String)
  | bytes (b : List UInt8)
  | date (d : Date)
  | moment (m : Moment)
  | limitKind (k : LimitKind)
  | mode (m : DependencyMode)
  deriving DecidableEq, Repr

/-- A decoded value. -/
inductive Data where
  | scalar (s : Scalar)
  | list (items : List Data)
  | tuple (items : List Data)
  | map (entries : List (Scalar × Data))
  | set (members : List Scalar)
  /-- A list inside itself. -/
  | loopedList
  /-- A mapping inside itself. -/
  | loopedMap
  deriving Repr

namespace Data

@[match_pattern] abbrev null : Data := .scalar .null
@[match_pattern] abbrev bool (b : Bool) : Data := .scalar (.bool b)
@[match_pattern] abbrev int (n : Int) : Data := .scalar (.int n)
@[match_pattern] abbrev float (x : Binary64) : Data := .scalar (.float x)
@[match_pattern] abbrev text (s : String) : Data := .scalar (.text s)

instance : Inhabited Data := ⟨null⟩

end Data

namespace Scalar

/-- The whole number that a scalar counts as when it is a key: truth values count as 0 and 1. -/
def wholeNumber? : Scalar → Option Int
  | .bool b => some (if b then 1 else 0)
  | .int n => some n
  | _ => none

/-- Whether two scalars are the same key: numbers are compared by value, whatever their kind. -/
def sameKey (a b : Scalar) : Bool :=
  match a.wholeNumber?, b.wholeNumber? with
  | some m, some n => m = n
  | some m, none => match b with
    | .float y => y.equalsInt m
    | _ => false
  | none, some n => match a with
    -- A whole number and a float are one key if they have the same value.
    | .float x => x.equalsInt n
    | _ => false
  | none, none => match a, b with
    | .float x, .float y => x.sameValue y
    | .float _, _ => false
    | _, _ => a = b

/-- How a scalar shows inside a message. -/
def label : Scalar → String
  | .null => "None"
  | .bool b => if b then "True" else "False"
  | .int n => intText n
  | .float x => x.text
  | .text s => Text.quoted s
  | .bytes b => Text.quotedBytes b
  | .date d => d.label
  | .moment m => m.label
  | .limitKind k => k.label
  | .mode m => m.label

/-- Whether a scalar is a number with more digits than may be written. -/
def isTooLong : Scalar → Bool
  | .int n => Number.isTooLong n
  | _ => false

/-- Two texts are the same key exactly when they are equal. -/
@[simp] theorem sameKey_text (s t : String) : sameKey (.text s) (.text t) = decide (s = t) := by
  simp [sameKey, wholeNumber?]

end Scalar

/-- Sets the value of a key among pairs: in place when an equal key is there, at the end
    otherwise. -/
def setPair (key : Scalar) (value : Data) : List (Scalar × Data) → List (Scalar × Data)
  | [] => [(key, value)]
  | e :: rest =>
    if e.1.sameKey key then (e.1, value) :: rest else e :: setPair key value rest

namespace Data

/-- The mapping with these pairs, inserted from left to right. -/
def ofPairs (pairs : List (Scalar × Data)) : Data :=
  .map (pairs.foldl (fun entries e => setPair e.1 e.2 entries) [])

/-- The value under a text key. -/
def field? (entries : List (Scalar × Data)) (key : String) : Option Data :=
  (entries.find? (fun e => e.1.sameKey (.text key))).map Prod.snd

/-- Whether the value is nothing, false, zero or empty. -/
def isBlank : Data → Bool
  | .scalar .null => true
  | .scalar (.bool b) => !b
  | .scalar (.int n) => n = 0
  | .scalar (.float (.finite _ m _)) => m = 0
  | .scalar (.text s) => s.isEmpty
  | .scalar (.bytes b) => b.isEmpty
  | .scalar _ => false
  | .list items => items.isEmpty
  | .tuple items => items.isEmpty
  | .map entries => entries.isEmpty
  | .set members => members.isEmpty
  | .loopedList => false
  | .loopedMap => false

/-- The texts of a list that holds texts only. -/
def texts? : List Data → Option (List String)
  | [] => some []
  | .scalar (.text s) :: rest => (texts? rest).map (s :: ·)
  | _ :: _ => none

/-- The inside of a tuple: a single item is followed by a comma. -/
def tupleInner : List String → String
  | [item] => item ++ ","
  | items => ", ".intercalate items

mutual

/-- How a value shows inside a message. -/
def label : Data → String
  | .scalar s => s.label
  | .list items => "[" ++ ", ".intercalate (labels items) ++ "]"
  | .tuple items => "(" ++ tupleInner (labels items) ++ ")"
  | .map entries => "\x7b" ++ ", ".intercalate (entryLabels entries) ++ "\x7d"
  | .set members => match members with
    | [] => "set()"
    | _ => "\x7b" ++ ", ".intercalate (members.map Scalar.label) ++ "\x7d"
  | .loopedList => "[...]"
  | .loopedMap => "\x7b...\x7d"

/-- The labels of the items of a list. -/
def labels : List Data → List String
  | [] => []
  | item :: rest => item.label :: labels rest

/-- The labels of the entries of a mapping. -/
def entryLabels : List (Scalar × Data) → List String
  | [] => []
  | (k, v) :: rest => (k.label ++ ": " ++ v.label) :: entryLabels rest

end

mutual

/-- Whether a number with more digits than may be written shows in the label of a value. -/
def isTooLong : Data → Bool
  | .scalar s => s.isTooLong
  | .list items => itemsTooLong items
  | .tuple items => itemsTooLong items
  | .map entries => entriesTooLong entries
  | .set members => members.any Scalar.isTooLong
  | .loopedList => false
  | .loopedMap => false

/-- Whether such a number shows in an item of a list. -/
def itemsTooLong : List Data → Bool
  | [] => false
  | item :: rest => item.isTooLong || itemsTooLong rest

/-- Whether such a number shows in an entry of a mapping. -/
def entriesTooLong : List (Scalar × Data) → Bool
  | [] => false
  | (k, v) :: rest => k.isTooLong || v.isTooLong || entriesTooLong rest

end

/-- A message that shows a value. Where a number in it is too long to be written, what is said is
    that, and not the message. -/
def shownIn (value : Data) (message : String → String) : String :=
  if value.isTooLong then tooLongToWrite else message value.label

/-- A message that shows a key, likewise. -/
def keyShownIn (key : Scalar) (message : String → String) : String :=
  (scalar key).shownIn message

end Data

end Backlog
