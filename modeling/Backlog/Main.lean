import Backlog.Command.Run
import Backlog.Files.Change
import Backlog.Import.Parsers

namespace Backlog.Program

open Backlog.Files

/-!
# The command line

The program proper works on a tree of files and gives back another one. This is the layer around it
that touches the disk: it loads what a command line can be about, and makes the changes afterwards.

* `loadTree` — the part of the disk that a command line can be about;
* `perform` — a step on the disk;
* `main` — runs a command line on what is loaded, then makes the changes and shows the rest.
-/

/-- When something was last changed, in nanoseconds. -/
def timeOf (facts : IO.FS.Metadata) : Int :=
  facts.modified.sec * Int.pow 10 9 + (facts.modified.nsec.toNat : Int)

/-- What is found at a place on the disk; what cannot be read counts as absent. -/
partial def loadNode (place : String) : IO (Option Node) := do
  try
    let path := System.mkFilePath [place]
    let facts ← path.symlinkMetadata
    match facts.type with
    | .dir =>
      let entries ← (← path.readDir).toList.filterMapM fun entry => do
        let node ← loadNode s!"{place}/{entry.fileName}"
        return node.map (fun n => (entry.fileName, n))
      return some (.folder entries)
    | .file => return some (.file (← IO.FS.readBinFile path).toList (timeOf facts))
    | .symlink => return some (.link (← IO.FS.realPath path).toString)
    | .other => return none
  catch _ => return none

/-- Adds what a text leads to on the disk, if it leads anywhere. -/
def addPlace (tree : FileTree) (text : String) : IO FileTree := do
  try
    let place := (← IO.FS.realPath (System.mkFilePath [text])).toString
    -- What is below the current folder is there already, and need not be loaded again.
    if (tree.stat place).toOption.isSome then return tree
    match ← loadNode place, tree.makeFolders (Path.ofText place).parent with
    | some node, .ok made =>
      return { made with root := made.root.put (some node) (Path.ofText place).names }
    | _, _ => return tree
  catch _ => return tree

/-- The texts in a word of a command line that may be paths. -/
def pathsIn (word : String) : List String := word :: (Command.splitEquals word).2.toList

/-- What is below the current folder, and what the words of a command line lead to. -/
def loadTree (words : List String) : IO FileTree := do
  let here := (← IO.currentDir).toString
  (here :: words.flatMap pathsIn).foldlM addPlace ⟨.folder [], (Path.ofText here).names⟩

/-- The path of these names from the root. -/
def diskPath (names : List String) : String := (Path.absolute names).text

/-- Makes a change on the disk. -/
def perform : Change → IO Unit
  | .makeFolder names => IO.FS.createDirAll (diskPath names)
  | .write names content => IO.FS.writeBinFile (diskPath names) ⟨content.toArray⟩
  | .remove names => do
    let path := System.mkFilePath [diskPath names]
    match (← path.symlinkMetadata).type with
    | .dir => IO.FS.removeDirAll path
    | _ => IO.FS.removeFile path

end Backlog.Program

open Backlog in
/-- Runs a command line. The time of the files that it writes is the disk's own. -/
def main (words : List String) : IO UInt32 := do
  let tree ← Program.loadTree words
  let outcome := Command.run .all tree 0 words
  -- The changes are made even if the command fails, as it may have made some before it failed.
  (tree.changesTo outcome.tree).forM Program.perform
  IO.print outcome.output
  outcome.messages.forM IO.eprintln
  if let some failure := outcome.failure then IO.eprintln failure.message
  return outcome.status.toUInt32
