import Backlog.Graph.Basic
import Backlog.Data

namespace Backlog

open Backlog.Number Backlog.Text

/-!
# Import graphs as documents

A graph is written with all that it has, and read with all that has to hold of it: nodes are filed
under their own paths, and edges lead to nodes. Numbers become doubles on the way, which is where a
document can be refused for being too large.

* `ImportGraph.toData?` — the graph as a document; a distance that no double can hold is refused;
* `ImportGraph.ofData` — checks a document and builds the graph, or says what is wrong first.
-/

/-- What is wrong with a document that should be a graph. -/
inductive GraphError where
  | notAMapping
  | nodesNotAMapping
  | entriesNotTexts
  | builtAtNotANumber
  | excludedNotAnInteger
  | nodeNotAMapping (key : Scalar)
  | mismatchedPath (key : Scalar)
  | entryFlagNotABool (key : Scalar)
  | badDepth (key : Scalar)
  | notTexts (key : Scalar) (part : String)
  | unknownEdge (source target : String)
  /-- A number is too large for a double. -/
  | tooLarge
  deriving DecidableEq

/-- The wording of a refusal. -/
def GraphError.message : GraphError → String
  | .notAMapping => "graph: expected a mapping"
  | .nodesNotAMapping => "graph: 'nodes' must be a mapping"
  | .entriesNotTexts => "graph: 'entryPoints' must be a list of strings"
  | .builtAtNotANumber => "graph: 'builtAt' must be a number"
  | .excludedNotAnInteger => "graph: 'excludedImports' must be an integer"
  | .nodeNotAMapping key => Data.keyShownIn key fun shown =>
    s!"graph: node {shown} must be a mapping"
  | .mismatchedPath key => Data.keyShownIn key fun shown =>
    s!"graph: node {shown} has mismatched path"
  | .entryFlagNotABool key => Data.keyShownIn key fun shown =>
    s!"graph: node {shown} 'isEntryPoint' must be a boolean"
  | .badDepth key => Data.keyShownIn key fun shown =>
    s!"graph: node {shown} 'depth' must be a non-negative integer or null"
  | .notTexts key part => Data.keyShownIn key fun shown =>
    s!"graph: node {shown} {part} must be a list of strings"
  | .unknownEdge source target =>
    s!"graph: edge from {quoted source} to unknown node {quoted target}"
  | .tooLarge => "int too large to convert to float"

namespace ModuleNode

/-- A distance as a document holds it. -/
def depthData? : Option Nat → Except GraphError Data
  | none => .ok .null
  | some n => match Binary64.ofInt? n with
    | some _ => .ok (.int n)
    | none => .error .tooLarge

/-- A node as a document. -/
def toData? (node : ModuleNode) : Except GraphError Data := do
  let depth ← depthData? node.depth
  return .map [
    (.text "path", .text node.path),
    (.text "dependencies", .list (node.dependencies.map Data.text)),
    (.text "dependents", .list (node.dependents.map Data.text)),
    (.text "isEntryPoint", .bool node.isEntry),
    (.text "depth", depth)]

/-- The texts under a key of a node. -/
def readTexts (key : Scalar) (fields : List (Scalar × Data)) (part : String) :
    Except GraphError (List String) :=
  match Data.field? fields part with
  | some (.list items) => match Data.texts? items with
    | some texts => .ok texts
    | none => .error (.notTexts key part)
  | _ => .error (.notTexts key part)

/-- The distance of a node; missing or null there is none. -/
def readDepth (key : Scalar) (fields : List (Scalar × Data)) : Except GraphError (Option Nat) :=
  match Data.field? fields "depth" with
  | none => .ok none
  | some .null => .ok none
  | some (.int n) => if n < 0 then .error (.badDepth key) else .ok (some n.toNat)
  | some _ => .error (.badDepth key)

/-- The node that a document holds; it repeats its key as its path. -/
def ofData (key : Scalar) : Data → Except GraphError ModuleNode
  | .map fields => do
    -- A document may have keys that are no texts, and such a key is no path.
    let path ← match key, Data.field? fields "path" with
      | .text k, some (.text path) =>
        if path = k then pure path else throw (.mismatchedPath key)
      | _, _ => throw (.mismatchedPath key)
    let isEntry ← match Data.field? fields "isEntryPoint" with
      | some (.bool b) => pure b
      | _ => throw (.entryFlagNotABool key)
    let depth ← readDepth key fields
    let dependencies ← readTexts key fields "dependencies"
    let dependents ← readTexts key fields "dependents"
    return ⟨path, dependencies, dependents, isEntry, depth⟩
  | _ => .error (.nodeNotAMapping key)

end ModuleNode

namespace ImportGraph

/-- The graph as a document. -/
def toData? (g : ImportGraph) : Except GraphError Data := do
  let nodes ← g.nodes.entries.mapM fun e => do
    let node ← e.2.toData?
    return (Scalar.text e.1, node)
  return .map [
    (.text "nodes", .map nodes),
    (.text "entryPoints", .list (g.entryPoints.map Data.text)),
    (.text "builtAt", .float g.builtAt),
    (.text "excludedImports", .int g.excludedImports)]

/-- The nodes of a document. -/
def readNodes : List (Scalar × Data) → Except GraphError (List (String × ModuleNode))
  | [] => .ok []
  | (key, value) :: rest => do
    let node ← ModuleNode.ofData key value
    let nodes ← readNodes rest
    return (node.path, node) :: nodes

/-- The first neighbour of a node that is no node itself. -/
def unknownEdge? (nodes : OrderedMap String ModuleNode) (node : ModuleNode) : Option String :=
  (node.dependencies ++ node.dependents).find? (fun edge => !nodes.contains edge)

/-- Refuses nodes with neighbours that are no nodes. -/
def checkEdges (nodes : OrderedMap String ModuleNode) :
    List ModuleNode → Except GraphError Unit
  | [] => .ok ()
  | node :: rest =>
    match unknownEdge? nodes node with
    | some edge => .error (.unknownEdge node.path edge)
    | none => checkEdges nodes rest

/-- A number of a document that is to be a double. -/
def readTime : Option Data → Except GraphError Data
  | some (.int n) => .ok (.int n)
  | some (.float x) => .ok (.float x)
  | _ => .error .builtAtNotANumber

/-- A number as a double. -/
def toBinary64 : Data → Except GraphError Binary64
  | .int n => match Binary64.ofInt? n with
    | some x => .ok x
    | none => .error .tooLarge
  | .float x => .ok x
  | _ => .error .builtAtNotANumber

/-- The graph that a document holds. -/
def ofData : Data → Except GraphError ImportGraph
  | .map fields => do
    let rawNodes ← match Data.field? fields "nodes" with
      | some (.map nodes) => pure nodes
      | _ => throw .nodesNotAMapping
    let entryPoints ← match Data.field? fields "entryPoints" with
      | some (.list items) => match Data.texts? items with
        | some texts => pure texts
        | none => throw .entriesNotTexts
      | _ => throw .entriesNotTexts
    let time ← readTime (Data.field? fields "builtAt")
    let excluded ← match Data.field? fields "excludedImports" with
      | none => pure 0
      | some (.int n) => pure n
      | some _ => throw .excludedNotAnInteger
    let nodes ← readNodes rawNodes
    let nodes := OrderedMap.ofList nodes
    -- Edges are checked against all nodes of the document, so the order of the nodes does not
    -- matter.
    checkEdges nodes nodes.values
    -- The conversion comes last: a number that is too large is reported only if nothing else is
    -- wrong.
    let builtAt ← toBinary64 time
    return ⟨nodes, entryPoints, builtAt, excluded⟩
  | _ => .error .notAMapping

end ImportGraph

end Backlog
