import Backlog.Json.Printer

namespace Backlog.Json

open Backlog.Number

/-!
# Canonical JSON

One text for all values that differ only in the order of members: the members of every object are
sorted by their keys, texts by code point and numbers by value, and nothing is laid out in lines.

* `canonical` — the text;
* `sortMembers` — the value with its members sorted;
* `obstacle?` — why a value has no canonical text: a part that JSON cannot write, or keys that have
  no order among each other.
-/

/-- Whether one number is less than another; the infinities lie outside all others. -/
def numberLess : Binary64 → Binary64 → Bool
  | .nan, _ => false
  | _, .nan => false
  | .infinity s, y => s && y ≠ .infinity true
  | .finite .., .infinity s => !s
  | x, y => match x.toRatio?, y.toRatio? with
    | some (n, d), some (n', d') => n * d' < n' * d
    | _, _ => false

/-- Whether a whole number is less than another number. -/
def intLessFloat (n : Int) (x : Binary64) : Bool :=
  match x with
  | .nan => false
  | .infinity s => !s
  | x => match x.toRatio? with
    | some (num, den) => n * den < num
    | none => false

/-- Whether a number is less than a whole number. -/
def floatLessInt (x : Binary64) (n : Int) : Bool :=
  match x with
  | .nan => false
  | .infinity s => s
  | x => match x.toRatio? with
    | some (num, den) => num < n * den
    | none => false

/-- Whether one key comes before another; `none` if the two have no order. -/
def keyLess? (a b : Scalar) : Option Bool :=
  match a, b with
  | .text s, .text t => some (s < t)
  | a, b => match a.wholeNumber?, b.wholeNumber?, a, b with
    | some m, some n, _, _ => some (m < n)
    | some m, none, _, .float y => some (intLessFloat m y)
    | none, some n, .float x, _ => some (floatLessInt x n)
    | none, none, .float x, .float y => some (numberLess x y)
    | _, _, _, _ => none

/-- Whether one entry may stand before another: its key is not greater. -/
def entryLe {α : Type} (a b : Scalar × α) : Bool := keyLess? b.1 a.1 ≠ some true

/-- Entries sorted by their keys. -/
def sortEntries {α : Type} (entries : List (Scalar × α)) : List (Scalar × α) :=
  entries.mergeSort entryLe

mutual

/-- The value with the members of every object sorted. -/
def sortMembers : Data → Data
  | .list items => .list (sortItems items)
  | .tuple items => .tuple (sortItems items)
  | .map entries => .map (sortEntries (sortValues entries))
  | v => v

/-- The items of a list, each with its members sorted. -/
def sortItems : List Data → List Data
  | [] => []
  | item :: rest => sortMembers item :: sortItems rest

/-- The entries of a mapping in their order, each value with its members sorted. -/
def sortValues : List (Scalar × Data) → List (Scalar × Data)
  | [] => []
  | (key, value) :: rest => (key, sortMembers value) :: sortValues rest

end

/-- Why a value has no canonical text. -/
inductive Obstacle where
  /-- A value of a kind that JSON has no form for. -/
  | unwritable (kind : String)
  /-- A key of a kind that JSON has no form for. -/
  | unwritableKey (kind : String)
  /-- Two keys without an order, by their kinds. -/
  | unordered (later earlier : String)
  /-- A whole number with more digits than may be written. -/
  | tooLong
  deriving DecidableEq, Repr

/-- The wording of an obstacle. -/
def Obstacle.message : Obstacle → String
  | .unwritable kind => s!"Object of type {kind} is not JSON serializable"
  | .unwritableKey kind => s!"keys must be str, int, float, bool or None, not {kind}"
  | .unordered later earlier =>
    s!"'<' not supported between instances of '{later}' and '{earlier}'"
  | .tooLong => tooLongToWrite

/-- The word for the kind of a scalar. -/
def kindName : Scalar → String
  | .null => "NoneType"
  | .bool _ => "bool"
  | .int _ => "int"
  | .float _ => "float"
  | .text _ => "str"
  | .bytes _ => "bytes"
  | .date _ => "date"
  | .moment _ => "datetime"
  | .limitKind _ => "LimitKind"
  | .mode _ => "DependencyMode"

/-- The word for the kind of a value. -/
def dataKindName : Data → String
  | .scalar s => kindName s
  | .list _ => "list"
  | .tuple _ => "tuple"
  | .map _ => "dict"
  | .set _ => "set"
  | .loopedList => "list"
  | .loopedMap => "dict"

/-- The length of the run that sorting starts from: ascending, or strictly descending. -/
def startingRun : List Scalar → Nat
  | a :: b :: rest =>
    let descending : Bool := keyLess? b a = some true
    let rec extend (last : Scalar) : List Scalar → Nat
      | [] => 0
      | c :: more =>
        -- In a descending run the next key is less than the last, in an ascending one it is not.
        if keyLess? c last = some descending then extend c more + 1 else 0
    extend b rest + 2
  | keys => keys.length

/-- The first pair of keys that sorting compares in vain. Keys are inserted one by one into what is
    sorted so far: as long as the starting run lasts each is compared with the one before it, from
    there on first with the middle one. -/
def unorderedPair? (keys : List Scalar) : Option (Scalar × Scalar) :=
  let run := startingRun keys
  let rec search (seen : List Scalar) (count : Nat) : List Scalar → Option (Scalar × Scalar)
    | [] => none
    | key :: rest =>
      match seen with
      | [] => search [key] 1 rest
      | last :: _ =>
        if (keyLess? key last).isNone then
          if count ≤ run then some (key, last)
          else
            let sorted := (sortEntries (seen.reverse.map (fun k => (k, ())))).map Prod.fst
            some (key, sorted.getD (count / 2) last)
        else search (key :: seen) (count + 1) rest
  search [] 0 keys

/-- Why JSON cannot write a scalar; `refusal` speaks about the kinds that it has no form for. -/
def scalarObstacle? (refusal : String → Obstacle) : Scalar → Option Obstacle
  | .null | .bool _ | .float _ | .text _ => none
  | .int n => if isTooLong n then some .tooLong else none
  | s => some (refusal (kindName s))

mutual

/-- The first obstacle to writing a value, in the order of writing. If the members of objects are
    sorted, their keys need an order. -/
def obstacle? (sorting : Bool) : Data → Option Obstacle
  | .scalar s => scalarObstacle? .unwritable s
  | .list items => itemsObstacle? sorting items
  | .tuple items => itemsObstacle? sorting items
  | .map entries =>
    match (if sorting then unorderedPair? (entries.map Prod.fst) else none) with
    | some (later, earlier) => some (.unordered (kindName later) (kindName earlier))
    | none => entriesObstacle? sorting entries
  | v => some (.unwritable (dataKindName v))

/-- The first obstacle among the items of a list. -/
def itemsObstacle? (sorting : Bool) : List Data → Option Obstacle
  | [] => none
  | item :: rest => (obstacle? sorting item).or (itemsObstacle? sorting rest)

/-- The first obstacle among the entries of a mapping. -/
def entriesObstacle? (sorting : Bool) : List (Scalar × Data) → Option Obstacle
  | [] => none
  | (key, value) :: rest =>
    (scalarObstacle? .unwritableKey key).or
      ((obstacle? sorting value).or (entriesObstacle? sorting rest))

end

/-- The canonical text of a value. -/
def canonical (value : Data) : String := writeText .dense (sortMembers value)

end Backlog.Json
