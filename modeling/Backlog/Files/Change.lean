import Backlog.Files.Tree

namespace Backlog.Files

open Backlog.Text

/-!
# Changes to a file tree

* `Change` — one step that is made on a disk;
* `FileTree.changesTo` — the steps that lead from one file tree to another.

Links are never made, nor folders that may not be searched, because nothing that a command does makes
one.
-/

/-- One step. Its names lead from the root to where it is made. -/
inductive Change where
  | makeFolder (names : List String)
  | write (names : List String) (content : Bytes)
  | remove (names : List String)
  deriving DecidableEq, Repr

namespace Node

/-- The entries that are gone. -/
def removals (place : List String) (was entries : List (String × Node)) : List Change :=
  (was.filter (fun e => (childNamed? e.1 entries).isNone)).map (fun e => .remove (place ++ [e.1]))

mutual

/-- The steps that put a node where another one was, or nothing. -/
def changes (place : List String) (was : Option Node) : Node → List Change
  | .file content time =>
    match was with
    | none => [.write place content]
    | some (.file before since) =>
      if before = content && since = time then [] else [.write place content]
    -- What is no file has to go first, since it cannot be written over.
    | some _ => [.remove place, .write place content]
  | .link _ | .sealed _ => []
  | .folder entries =>
    match was with
    | none => .makeFolder place :: entryChanges place [] entries
    | some (.folder before) => removals place before entries ++ entryChanges place before entries
    | some _ => .remove place :: .makeFolder place :: entryChanges place [] entries

/-- The steps for the entries of a folder. -/
def entryChanges (place : List String) (was : List (String × Node)) :
    List (String × Node) → List Change
  | [] => []
  | (name, node) :: rest =>
    changes (place ++ [name]) (childNamed? name was) node ++ entryChanges place was rest

end

end Node

/-- The steps that lead from one file tree to another. -/
def FileTree.changesTo (before after : FileTree) : List Change :=
  after.root.changes [] (some before.root)

end Backlog.Files
