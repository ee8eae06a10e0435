import Backlog.Number.Binary64
import Backlog.OrderedMap
import Backlog.Text.Sorted

namespace Backlog

open Backlog.Number Backlog.Text

/-!
# Import graphs

Which modules of a project import which others.

* `SourceModule` — a module with its imports, each leading to a file of the project or out of it;
* `ImportGraph` — the modules as nodes, each with its neighbours in both directions and its distance
  from the entry points;
* `ImportGraph.ofModules` — the graph of these modules.
-/

/-- An import and where it leads. -/
structure ResolvedImport where
  /-- What is imported, as it is written. -/
  specifier : String
  line : Nat
  /-- The file that it stands for; none if that is not part of the project. -/
  target : Option String
  deriving DecidableEq, Repr

/-- A module and its imports. -/
structure SourceModule where
  /-- The path of its file. -/
  source : String
  imports : List ResolvedImport
  deriving DecidableEq, Repr

/-- The targets of a module in the order of its imports, without the module itself. -/
def SourceModule.targets (m : SourceModule) : List String :=
  distinctTexts ((m.imports.filterMap ResolvedImport.target).filter (· ≠ m.source))

/-- A module in the graph. -/
structure ModuleNode where
  path : String
  /-- The modules that it imports. -/
  dependencies : List String
  /-- The modules that import it. -/
  dependents : List String
  isEntry : Bool
  /-- The number of imports to follow from the nearest entry point; none if there is no way. -/
  depth : Option Nat
  deriving DecidableEq, Repr

/-- The import graph of a project. -/
structure ImportGraph where
  nodes : OrderedMap String ModuleNode
  entryPoints : List String
  /-- When the graph was built, in seconds. -/
  builtAt : Binary64
  /-- The number of imports that lead out of the graph. -/
  excludedImports : Int

/-! ### Spreading out from a start -/

/-- The rows of nodes that are 0, 1, 2, … steps away from `row`, for at most `hops` steps. Each node
    is in the first row that it can be in; `seen` holds the nodes of earlier rows and of `row`. -/
def layers (next : String → List String) (hops : Nat) (row seen : List String) :
    List (List String) :=
  match hops with
  | 0 => [row]
  | hops + 1 =>
    -- Only nodes that no earlier row holds go on, so the row of a node is its distance.
    match newTexts seen (row.flatMap next) with
    | [] => [row]
    | fresh => row :: layers next hops fresh (seen ++ fresh)

/-- The number of the first row that holds a node. -/
def layerOf? (rows : List (List String)) (x : String) : Option Nat :=
  rows.findIdx? (fun row => row.contains x)

/-- How many steps to make: no more than a limit allows, and never more than there are nodes, since
    a shortest way visits no node twice. -/
def hopCount (size : Nat) : Option Int → Nat
  | none => size
  | some limit => min limit.toNat size

namespace ImportGraph

/-- Whether a path is a node. -/
def contains (g : ImportGraph) (path : String) : Bool := g.nodes.contains path

/-- The imports of some modules that lead to one of the sources. -/
def isKnown (sources : List String) (i : ResolvedImport) : Bool :=
  i.target.any sources.contains

/-- The sources that the modules of one source import, without the source itself. -/
def dependenciesOf (modules : List SourceModule) (sources : List String) (source : String) :
    List String :=
  let imports := (modules.filter (fun m => m.source = source)).flatMap SourceModule.imports
  distinctTexts ((imports.filterMap ResolvedImport.target).filter
    (fun t => sources.contains t && t ≠ source))

/-- The sources whose dependencies hold a path. -/
def dependentsOf (edges : OrderedMap String (List String)) (path : String) : List String :=
  (edges.entries.filter (fun e => e.2.contains path)).map Prod.fst

/-- The distances from the entry points along the dependencies. -/
def depthRows (edges : OrderedMap String (List String)) (entryPoints : List String)
    (maxDepth : Option Int) : List (List String) :=
  let start := distinctTexts (entryPoints.filter edges.contains)
  layers (fun x => (edges.lookup x).getD []) (hopCount edges.size maxDepth) start start

/-- The graph of these modules. Modules of one source are one node; imports that lead to no source
    are only counted. -/
def ofModules (modules : List SourceModule) (entryPoints : List String) (maxDepth : Option Int)
    (builtAt : Binary64) : ImportGraph :=
  let sources := distinctTexts (modules.map SourceModule.source)
  let edges := OrderedMap.ofList (sources.map (fun s => (s, dependenciesOf modules sources s)))
  let rows := depthRows edges entryPoints maxDepth
  { nodes := edges.map fun path dependencies =>
      ⟨path, dependencies, dependentsOf edges path, entryPoints.contains path, layerOf? rows path⟩
    entryPoints := entryPoints
    builtAt := builtAt
    excludedImports := (modules.flatMap SourceModule.imports).countP (fun i => !isKnown sources i) }

end ImportGraph

end Backlog
