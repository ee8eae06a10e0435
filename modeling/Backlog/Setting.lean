namespace Backlog

/-!
# Settings with a closed set of values

* `LimitKind` — what a limit counts;
* `DependencyMode` — the direction in which imports are followed.

Each has a `name`, the word it is written as, and `ofName?`, which reads that word.
-/

/-- What the limit on one selection counts. -/
inductive LimitKind where
  /-- Each file counts once. -/
  | file
  /-- Each violation counts. -/
  | violation
  deriving DecidableEq, Repr, Inhabited

namespace LimitKind

/-- The word for a kind. -/
def name : LimitKind → String
  | .file => "file"
  | .violation => "violation"

/-- All kinds, in the order in which they are listed to the user. -/
def all : List LimitKind := [.file, .violation]

/-- The kind that a word names. -/
def ofName? (word : String) : Option LimitKind := all.find? (fun k => k.name = word)

/-- How a kind shows inside a message. -/
def label : LimitKind → String
  | .file => "<LimitKind.FILE: 'file'>"
  | .violation => "<LimitKind.VIOLATION: 'violation'>"

end LimitKind

/-- The direction in which the import graph is followed from the entry points. -/
inductive DependencyMode where
  /-- Both directions, each on its own. -/
  | connected
  /-- From a module to what it imports. -/
  | dependencies
  /-- From a module to what imports it. -/
  | dependents
  deriving DecidableEq, Repr, Inhabited

namespace DependencyMode

/-- The word for a mode. -/
def name : DependencyMode → String
  | .connected => "connected"
  | .dependencies => "dependencies"
  | .dependents => "dependents"

/-- All modes, in the order in which they are listed to the user. -/
def all : List DependencyMode := [.connected, .dependencies, .dependents]

/-- The mode that a word names. -/
def ofName? (word : String) : Option DependencyMode := all.find? (fun m => m.name = word)

/-- How a mode shows inside a message. -/
def label : DependencyMode → String
  | .connected => "<DependencyMode.CONNECTED: 'connected'>"
  | .dependencies => "<DependencyMode.DEPENDENCIES: 'dependencies'>"
  | .dependents => "<DependencyMode.DEPENDENTS: 'dependents'>"

end DependencyMode

end Backlog
