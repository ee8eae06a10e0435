import Backlog.Digest.Sha256
import Backlog.Graph.Reach
import Backlog.Json.Canonical

namespace Backlog

open Backlog.Files Backlog.Text

/-!
# Keys of cached graphs

What the shape of an import graph depends on.

* `GraphKey.ofScope` — the key of a scope in a project;
* `GraphKey.canonicalText` — the key as text, in which the order of its lists does not show;
* `GraphKey.digest` — the hash of that text.
-/

/-- The key of an import graph. -/
structure GraphKey where
  mode : DependencyMode
  entryPoints : List String
  maxDepth : Option Int
  /-- The real path of the project's folder. -/
  root : String
  exclude : List String
  deriving DecidableEq, Repr

namespace GraphKey

/-- The key of a scope in a project. -/
def ofScope (scope : DependencyScope) (project : Project) :
    Except FileTree.ResolveError GraphKey := do
  let root ← project.tree.resolve project.root
  return ⟨scope.mode, scope.entryPoints, scope.maxDepth, root.text, scope.exclude⟩

/-- The key as a document, its lists sorted. -/
def toData (key : GraphKey) : Data :=
  .map [
    (.text "mode", .text key.mode.name),
    (.text "entryPoints", .list ((sortedTexts key.entryPoints).map Data.text)),
    (.text "maxDepth", match key.maxDepth with
      | none => .null
      | some n => .int n),
    (.text "rootDirectory", .text key.root),
    (.text "exclude", .list ((sortedTexts key.exclude).map Data.text))]

/-- The text that is hashed. -/
def canonicalText (key : GraphKey) : String := Json.canonical key.toData

/-- The hash of a key; a limit with too many digits cannot be written down. -/
def digest (key : GraphKey) : Except Json.Obstacle String :=
  match Json.obstacle? true key.toData with
  | some cause => .error cause
  | none => .ok (Digest.sha256Hex key.canonicalText)

end GraphKey

end Backlog
