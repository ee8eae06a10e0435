import Backlog.Text.Utf8

namespace Backlog.Files

/-!
# File paths

A path as it is written, split at its slashes. Splitting drops empty names and `.`, which mean
nothing, and keeps `..`, which may lead through a link.

* `Path.ofText`, `Path.text` — between a path and its text;
* `Path.join` — a path seen from another one;
* `Path.suffix`, `Path.parent` — the last name and what is before it;
* `Path.collapsed` — the path without `..`, as if there were no links;
* `Path.from` — how to get from one path to another.
-/

/-- Splits at slashes. -/
def splitSlashes : List Char → List (List Char)
  | [] => [[]]
  | c :: rest =>
    if c = '/' then [] :: splitSlashes rest
    else match splitSlashes rest with
      | name :: names => (c :: name) :: names
      | [] => [[c]]

/-- The names of a text between its slashes, empty ones among them. -/
def namesOf (text : String) : List String := (splitSlashes text.toList).map String.ofList

/-- A file path. -/
structure Path where
  /-- The number of slashes in front: none for a relative path, two only if there are exactly two. -/
  slashes : Nat
  /-- The names, without empty ones and `.`. -/
  names : List String
  deriving DecidableEq, Repr, Inhabited

namespace Path

/-- Whether a name says nothing. -/
def isIdle (name : String) : Bool := name = "" || name = "."

/-- The number of slashes that a path keeps in front. -/
def leadingSlashes (text : String) : Nat :=
  match text.toList with
  | '/' :: '/' :: '/' :: _ => 1
  -- Exactly two slashes are kept; any other number of them says no more than one.
  | '/' :: '/' :: _ => 2
  | '/' :: _ => 1
  | _ => 0

/-- The path that a text spells. -/
def ofText (text : String) : Path :=
  ⟨leadingSlashes text, (namesOf text).filter (fun n => !isIdle n)⟩

/-- The path of these names from the root. -/
def absolute (names : List String) : Path := ⟨1, names⟩

/-- Whether a path starts from the root. -/
def isAbsolute (p : Path) : Bool := p.slashes ≠ 0

/-- The text of a path; a path without names is a dot. -/
def text (p : Path) : String :=
  if p.slashes = 0 && p.names.isEmpty then "."
  else String.ofList (List.replicate p.slashes '/') ++ "/".intercalate p.names

/-- A path seen from another: an absolute one stands for itself. -/
def join (p q : Path) : Path := if q.isAbsolute then q else ⟨p.slashes, p.names ++ q.names⟩

/-- A file or directory right below a path. -/
def child (p : Path) (name : String) : Path := ⟨p.slashes, p.names ++ [name]⟩

/-- The last name; empty if there is none. -/
def name (p : Path) : String := p.names.getLastD ""

/-- The path without its last name. -/
def parent (p : Path) : Path := ⟨p.slashes, p.names.dropLast⟩

/-- The characters of a name from its last dot on, in reverse, and those before the dot. -/
def splitSuffix (name : String) : List Char × List Char :=
  let reversed := name.toList.reverse
  (reversed.takeWhile (· ≠ '.'), (reversed.dropWhile (· ≠ '.')).drop 1)

/-- The end of a name from its last dot on, if there is something on both sides of the dot. -/
def suffixOf (name : String) : String :=
  let (behind, before) := splitSuffix name
  if behind.isEmpty || before.isEmpty then "" else String.ofList ('.' :: behind.reverse)

/-- The end of the last name from its last dot on. -/
def suffix (p : Path) : String := suffixOf p.name

/-- A name without its suffix. -/
def stemOf (name : String) : String :=
  String.ofList (name.toList.take (name.length - (suffixOf name).length))

/-- The path with another suffix. -/
def withSuffix (p : Path) (suffix : String) : Path := p.parent.child (stemOf p.name ++ suffix)

/-- Takes one name of a path, the names so far being in reverse: `..` takes back the name before it.
    At the root there is nothing to take back; a relative path keeps what it cannot take back. -/
def collapseStep (absolute : Bool) (reversed : List String) (name : String) : List String :=
  if name = ".." then
    match reversed with
    | [] => if absolute then [] else [".."]
    -- A `..` that is left over has no name before it to take back.
    | ".." :: rest => ".." :: ".." :: rest
    | _ :: rest => rest
  else name :: reversed

/-- The names without `..`, as far as they can be taken back. -/
def collapseNames (absolute : Bool) (names : List String) : List String :=
  (names.foldl (collapseStep absolute) []).reverse

/-- The path without `..`. -/
def collapsed (p : Path) : Path := ⟨p.slashes, collapseNames p.isAbsolute p.names⟩

/-- The names that two rows begin with in common. -/
def commonStart : List String → List String → Nat
  | a :: as, b :: bs => if a = b then commonStart as bs + 1 else 0
  | _, _ => 0

/-- The relative path that leads from one absolute path without `..` to another. -/
def «from» (target start : Path) : Path :=
  let common := commonStart start.names target.names
  ⟨0, List.replicate (start.names.length - common) ".." ++ target.names.drop common⟩

/-- The components of a path: its slashes in front, if there are any, and its names. -/
def components (p : Path) : List String :=
  if p.isAbsolute then String.ofList (List.replicate p.slashes '/') :: p.names else p.names

/-- The order of paths: component by component, each by code point. -/
def before (p q : Path) : Bool := decide (p.components < q.components)

end Path

end Backlog.Files
