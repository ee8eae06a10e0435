import Backlog.Config
import Backlog.Files.Tree
import Backlog.Graph.Basic

namespace Backlog

open Backlog.Files Backlog.Text

/-!
# What entry points are connected to

Entry points are followed through the graph in one direction at a time, row by row, for as many rows
as the limit allows. What comes of it is compared with ledger paths, which are as users have written
them, by their real paths.

* `ImportGraph.reach` — the modules that some entry points lead to;
* `Project.resolve` — the real path of a ledger path or entry point;
* `ImportGraph.scopeReach` — the modules that a scope restricts a selection to;
* `ImportGraph.sortFiles` — sorts files by whether they are among those modules.
-/

/-- One way of following imports. -/
inductive Direction where
  | toDependencies
  | toDependents
  deriving DecidableEq, Repr

/-- The directions that a mode allows. They are never mixed on one way. -/
def DependencyMode.directions : DependencyMode → List Direction
  | .connected => [.toDependencies, .toDependents]
  | .dependencies => [.toDependencies]
  | .dependents => [.toDependents]

/-- The neighbours of a node in one direction. -/
def ModuleNode.neighbours (node : ModuleNode) : Direction → List String
  | .toDependencies => node.dependencies
  | .toDependents => node.dependents

namespace ImportGraph

/-- The nodes one step away from a path. -/
def next (g : ImportGraph) (direction : Direction) (path : String) : List String :=
  match g.nodes.lookup path with
  | none => []
  | some node => (node.neighbours direction).filter g.contains

/-- The nodes that a node leads to in one direction. -/
def reachFrom (g : ImportGraph) (direction : Direction) (maxDepth : Option Int) (start : String) :
    List String :=
  (layers (g.next direction) (hopCount g.nodes.size maxDepth) [start] [start]).flatten

/-- The nodes that the entry points lead to. Entry points that are no nodes are left aside, and each
    direction has the whole number of hops for itself. -/
def reach (g : ImportGraph) (entryPoints : List String) (mode : DependencyMode)
    (maxDepth : Option Int) : List String :=
  distinctTexts ((entryPoints.filter g.contains).flatMap
    fun e => mode.directions.flatMap (fun d => g.reachFrom d maxDepth e))

end ImportGraph

/-- A project: a folder in a file system. -/
structure Project where
  tree : FileTree
  /-- The path of the folder, as it was given. -/
  root : Path

namespace Project

/-- The real path of a path seen from the project's folder. -/
def resolve (p : Project) (path : String) : Except FileTree.ResolveError String :=
  (p.tree.resolve (p.root.join (.ofText path))).map Path.text

/-- The distinct real paths of some entry points. -/
def resolveEntries (p : Project) (entryPoints : List String) :
    Except FileTree.ResolveError (List String) :=
  (entryPoints.mapM p.resolve).map distinctTexts

end Project

namespace ImportGraph

/-- The nodes that a scope's entry points lead to. -/
def scopeReach (g : ImportGraph) (scope : DependencyScope) (project : Project) :
    Except FileTree.ResolveError (List String) := do
  let entries ← project.resolveEntries scope.entryPoints
  return g.reach entries scope.mode scope.maxDepth

end ImportGraph

/-- The files that pass a test, which may be refused for a file. -/
def filterFiles {ε : Type} (test : String → Except ε Bool) : List String → Except ε (List String)
  | [] => .ok []
  | f :: rest => do
    let passes ← test f
    let kept ← filterFiles test rest
    return if passes then f :: kept else kept

/-- Whether a ledger path is among some real paths. -/
def Project.isAmong (project : Project) (paths : List String) (file : String) :
    Except FileTree.ResolveError Bool :=
  (project.resolve file).map paths.contains

/-- Files sorted by whether a scope reaches them. -/
structure SortedFiles where
  reached : List String
  unreached : List String

/-- Sorts files, both parts in order. -/
def ImportGraph.sortFiles (g : ImportGraph) (scope : DependencyScope) (project : Project)
    (files : List String) : Except FileTree.ResolveError SortedFiles := do
  let paths ← g.scopeReach scope project
  let reached ← filterFiles (project.isAmong paths) files
  let unreached ← filterFiles (fun f => (project.isAmong paths f).map not) files
  return ⟨reached, unreached⟩

end Backlog
