import Backlog.Import.Source

namespace Backlog

open Backlog.Files

/-!
# Finding the source files of a project

Whatever has the name of a source is found, wherever it is in a project, but for the folders of
tools and of installed packages. Links to files are followed and stand for what they lead to, so
that a file is found once, however many ways lead to it.

* `FileTree.candidates` — the files below a folder, without following links to folders and without
  the folders that never hold sources;
* `Project.sourceFiles` — the real paths of the source files of a project, in order.
-/

/-- The names of folders that never hold sources of a project. -/
def skippedFolders : List String :=
  [".git", ".hg", ".svn", ".paydown", ".mypy_cache", ".pytest_cache", ".ruff_cache", ".tox", ".venv",
    "venv", "__pycache__", "node_modules"]

/-- The rows of names of some folders in the order of the folders' names. -/
def inOrder (folders : List (String × List (List String))) : List (List String) :=
  (folders.mergeSort (fun a b => !(b.1 < a.1))).flatMap Prod.snd

namespace Files.FileTree

/-- Whether an entry of a folder counts as a file: a link does unless it leads to a folder. -/
def isEntryFile (tree : FileTree) (path : Path) : Node → Bool
  | .file _ _ => true
  | .folder _ => false
  | .sealed _ => false
  | .link _ =>
    match tree.isFolder path.text with
    | .ok leadsToFolder => !leadsToFolder
    -- What cannot be looked up is not known to be a folder.
    | .error _ => true

mutual

/-- The files below a folder, each by its names from `names` on: those of the folder itself first,
    then those of its folders by name. -/
def candidatesBelow (tree : FileTree) (root : Path) (names : List String) :
    Node → List (List String)
  | .folder entries =>
    (entries.filter (fun e => tree.isEntryFile ((root.join ⟨0, names⟩).child e.1) e.2)).map
        (fun e => names ++ [e.1]) ++
      inOrder (candidatesOfFolders tree root names entries)
  -- What is listed here cannot be looked up, so that all of it counts.
  | .sealed listed => listed.map (fun name => names ++ [name])
  | _ => []

/-- The files below each folder among some entries. -/
def candidatesOfFolders (tree : FileTree) (root : Path) (names : List String) :
    List (String × Node) → List (String × List (List String))
  | [] => []
  | (name, node) :: rest =>
    let others := candidatesOfFolders tree root names rest
    -- The name decides alone: such a folder is not entered whatever it holds.
    if skippedFolders.contains name then others
    else (name, candidatesBelow tree root (names ++ [name]) node) :: others

end

/-- The files that may be sources below a folder, each by its names from there. -/
def candidates (tree : FileTree) (root : Path) : List (List String) :=
  match tree.stat root.text with
  | .ok node => candidatesBelow tree root [] node
  | .error _ => []

/-- The real path of a file; nothing if it leads nowhere. -/
def realFile? (tree : FileTree) (path : Path) : Except Trouble (Option Path) := do
  let real ← (tree.resolve path).mapError .link
  -- A link that leads nowhere is left out, while a look that is refused stops the analysis.
  let isThere ← (tree.isFile real.text).mapError (fun fault => .file fault real.text)
  return if isThere then some real else none

end Files.FileTree

/-- The distinct paths of some, in order. -/
def sortedPaths (paths : List Path) : List Path :=
  (paths.mergeSort (fun p q => !(q.before p))).foldr
    (fun p rest => if rest.head? = some p then rest else p :: rest) []

namespace Project

/-- Whether a file, by its names from the project's folder, counts as a source. -/
def isSource (excluded : GlobSet) (suffixes : List String) (names : List String) : Bool :=
  suffixes.contains (Path.suffixOf (names.getLastD "")) && !excluded.matches ("/".intercalate names)

/-- The real paths of a project's files whose names have one of some suffixes, in order. -/
def sourceFiles (project : Project) (exclude suffixes : List String) :
    Except Trouble (List Path) := do
  let excluded ← (GlobSet.compile exclude).mapError .pattern
  let found := (project.tree.candidates project.root).filter (isSource excluded suffixes)
  let files ← found.mapM (fun names => project.tree.realFile? (project.root.join ⟨0, names⟩))
  return sortedPaths (files.filterMap id)

end Project

end Backlog
