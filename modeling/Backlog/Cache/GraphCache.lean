import Backlog.Cache.Key
import Backlog.Cache.Sample
import Backlog.Cache.Store
import Backlog.Graph.Build
import Backlog.Graph.Codec

namespace Backlog

open Backlog.Files

/-!
# The cache of import graphs

A graph is found again by a key that says what it was asked for, and only for as long as the files
that guard it have the times that they had when it was stored. Not all files of a graph guard it,
but a sample of bounded size, so that a look-up does not have to ask for the times of them all.

* `GraphCache.get?`, `GraphCache.set` — graphs under their keys, guarded by a sample of their files;
* `ImportGraph.ofScope` — the graph of a scope, from the cache if it is there, else built and kept.
-/

/-- A cache of graphs. -/
structure GraphCache where
  store : CacheStore
  /-- How many files guard a graph, at most. -/
  maxSample : Int := 50

/-- Why a graph cannot be taken from a cache or kept in it. -/
inductive GraphCacheError where
  | cache (cause : CacheError)
  /-- A number of the graph is too large. -/
  | graph (cause : GraphError)
  deriving DecidableEq

/-- The wording of a refusal. -/
def GraphCacheError.message : GraphCacheError → String
  | .cache cause => cause.message
  | .graph cause => cause.message

namespace GraphCache

/-- The entries behind the graphs. -/
def entries (cache : GraphCache) : JsonCache := ⟨cache.store, "dependency-graph", "1"⟩

/-- The cache of a project. -/
def ofProject (root : Path) : GraphCache := ⟨⟨(root.child ".paydown").child "cache"⟩, 50⟩

/-- The hash of a key. -/
def digest (key : GraphKey) : Except GraphCacheError String :=
  key.digest.mapError (fun cause => .cache (.unwritable cause))

/-- The graph that some data holds; data that hold none are a miss, but for a number that is too
    large. -/
def decode (data : Data) : Except GraphCacheError (Option ImportGraph) :=
  match ImportGraph.ofData data with
  | .ok graph => .ok (some graph)
  -- The one refusal that is passed on: every other defect of the data makes it a miss.
  | .error .tooLarge => .error (.graph .tooLarge)
  | .error _ => .ok none

/-- The graph that is stored for a key. -/
def get? (cache : GraphCache) (tree : FileTree) (key : GraphKey) :
    Except GraphCacheError (Option ImportGraph) := do
  let digest ← GraphCache.digest key
  match ← (cache.entries.get? tree digest).mapError .cache with
  | none => return none
  -- Data that are null cannot be told from no entry.
  | some .null => return none
  | some data => decode data

/-- Stores a graph for a key; unless some files are given, a sample of its own guards it. -/
def set (cache : GraphCache) (tree : FileTree) (now : Int) (key : GraphKey) (graph : ImportGraph)
    (tracked : Option (List String) := none) : Except GraphCacheError FileTree := do
  let digest ← GraphCache.digest key
  let data ← graph.toData?.mapError .graph
  (cache.entries.set tree now digest data
    (tracked.getD (graph.sample cache.maxSample))).mapError .cache

/-- Removes all graphs. -/
def clear (cache : GraphCache) (tree : FileTree) : FileTree := cache.entries.clear tree

end GraphCache

/-- Why there is no graph for a scope. -/
inductive ScopeGraphError where
  | root (cause : FileTree.ResolveError)
  | cache (cause : GraphCacheError)
  | build (cause : BuildError)
  deriving DecidableEq

/-- A graph, and the file system after it has been kept. -/
structure ScopeGraph where
  graph : ImportGraph
  tree : FileTree

/-- The graph of a scope: from the cache, or else from the builder, and then kept in the cache. -/
def ImportGraph.ofScope (scope : DependencyScope) (project : Project) (cache : Option GraphCache)
    (now : Int) (builder : Builder) : Except ScopeGraphError ScopeGraph := do
  let key ← (GraphKey.ofScope scope project).mapError .root
  let cached ← match cache with
    | none => pure none
    | some cache => (cache.get? project.tree key).mapError .cache
  match cached with
  | some graph => return ⟨graph, project.tree⟩
  | none =>
    -- Nothing has been written so far: a builder that fails leaves the files as they are.
    let graph ← (builder (scope.request project)).mapError .build
    match cache with
    | none => return ⟨graph, project.tree⟩
    | some cache =>
      let tree ← (cache.set project.tree now key graph).mapError .cache
      return ⟨graph, tree⟩

end Backlog
