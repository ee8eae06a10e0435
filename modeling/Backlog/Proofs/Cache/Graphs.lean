import Backlog.Cache.GraphCache
import Backlog.Proofs.Cache.Answers
import Backlog.Proofs.Cache.Run
import Backlog.Proofs.Cache.Writing

namespace Backlog

open Backlog.Files Backlog.Text

/-!
# What a cache of graphs writes

What runs of a cache do is followed through the tree of files, so all that matters of storing a
graph is the one write that it comes down to. The same goes for the graph of a scope: what it does
to the tree is either nothing or that write.

* `GraphCache.set_ok_iff` — storing a graph is one write to the section of the graphs, under the name
  of the key's hash;
* `ImportGraph.ofScope_ok` — the graph of a scope is found, and nothing is written, or it is built,
  and then it is stored; `ofScope_of_hit`, `ofScope_of_miss`, `ofScope_of_refusal` — when each of these
  is so.
-/

namespace Text

/-- No hexadecimal digit is a slash or a NUL, which are what a name may not contain. -/
theorem hexDigit_not_special : ∀ n < 16, hexDigit n ≠ '/' ∧ hexDigit n ≠ '\x00' := by decide

theorem isSpecial_not_mem_hexDigits (width n : Nat) :
    '/' ∉ hexDigits width n ∧ '\x00' ∉ hexDigits width n := by
  induction width generalizing n with
  | zero => exact ⟨List.not_mem_nil, List.not_mem_nil⟩
  | succ width ih =>
    have hdigit := hexDigit_not_special (n % 16) (Nat.mod_lt _ (by decide))
    simp only [hexDigits, List.mem_append, List.mem_singleton, not_or]
    exact ⟨⟨(ih _).1, hdigit.1.symm⟩, ⟨(ih _).2, hdigit.2.symm⟩⟩

end Text

/-- A hash in hexadecimal digits is the name of a slot. So whatever a key says, it does not lead out
    of the section. -/
theorem CacheStore.isSlot_sha256Hex (text : String) : IsSlot (Digest.sha256Hex text) := by
  rw [IsSlot, Digest.sha256Hex, String.toList_ofList]
  simp only [List.mem_flatMap, not_exists, not_and]
  exact ⟨fun b _ => (isSpecial_not_mem_hexDigits 2 b.toNat).1,
    fun b _ => (isSpecial_not_mem_hexDigits 2 b.toNat).2⟩

theorem CacheStore.isPart_graphs : IsPart "dependency-graph" := ⟨by decide, by decide⟩

namespace GraphCache

/-- The name under which the graph of a key is stored. -/
def slotName (key : GraphKey) : String := JsonCache.nameOf (Digest.sha256Hex key.canonicalText)

/-- The entry of a key with the document of a graph and the times of its files. -/
def entryOf (key : GraphKey) (data : Data) (times : List (Scalar × Option Int)) : CacheEntry :=
  ⟨data, Digest.sha256Hex key.canonicalText, times, "1"⟩

/-- The name under which a graph is stored is that of a slot. -/
theorem isSlot_slotName (key : GraphKey) : CacheStore.IsSlot (slotName key) :=
  CacheStore.IsSlot.nameOf (CacheStore.isSlot_sha256Hex _)

variable {cache : GraphCache} {tree after : FileTree} {now : Int} {key : GraphKey}
  {graph : ImportGraph} {tracked : Option (List String)}

/-- Storing a graph is one write to the section of the graphs, if the key and the graph can be
    written down and the times of the files can be asked for. A write that fails leaves a tree as
    well, and is no refusal. -/
theorem set_ok_iff :
    cache.set tree now key graph tracked = .ok after ↔
      (∀ n ∈ key.maxDepth, Number.isTooLong n = false) ∧ ∃ data times, graph.toData? = .ok data ∧
        JsonCache.timesOf tree (distinctTexts (tracked.getD (graph.sample cache.maxSample))) =
          .ok times ∧
        Json.obstacle? false (entryOf key data times).toData = none ∧
        after = (cache.store.write tree "dependency-graph" (slotName key)
          (JsonCache.encode (entryOf key data times)) now).tree := by
  -- The steps come in this order: the hash of the key, the document of the graph, the times.
  simp only [set, digest, JsonCache.set, JsonCache.record, bind_ok_iff, mapError_ok_iff, map_ok_iff,
    GraphKey.digest_ok_iff, entries]
  constructor
  · rintro ⟨_, ⟨hdepth, rfl⟩, data, hdata, written, ⟨times, htimes, h⟩, rfl⟩
    refine ⟨hdepth, data, times, hdata, htimes, ?_⟩
    split at h
    · cases h
    · rename_i hobstacle
      obtain rfl := pure_ok_iff.mp h
      exact ⟨hobstacle, rfl⟩
  · rintro ⟨hdepth, data, times, hdata, htimes, hobstacle, rfl⟩
    refine ⟨_, ⟨hdepth, rfl⟩, data, hdata, _, ⟨times, htimes, ?_⟩, rfl⟩
    rw [entryOf] at hobstacle
    rw [hobstacle]
    rfl

end GraphCache

namespace ImportGraph

/-- The graph of a scope is found, and nothing is written, or it is built, and then it is stored if
    there is a cache. What comes after may be another tree, as storing changes it. -/
theorem ofScope_ok {scope : DependencyScope} {project : Project} {cache : Option GraphCache}
    {now : Int} {builder : Builder} {found : ScopeGraph}
    (h : ofScope scope project cache now builder = .ok found) :
    ∃ key, GraphKey.ofScope scope project = .ok key ∧
      ((∃ used, cache = some used ∧ used.get? project.tree key = .ok (some found.graph) ∧
          found.tree = project.tree) ∨
        builder (scope.request project) = .ok found.graph ∧
          (cache = none ∧ found.tree = project.tree ∨
            ∃ used, cache = some used ∧ used.get? project.tree key = .ok none ∧
              used.set project.tree now key found.graph = .ok found.tree)) := by
  obtain ⟨key, hkey, h⟩ := bind_ok_iff.mp h
  refine ⟨key, mapError_ok_iff.mp hkey, ?_⟩
  cases cache with
  | none =>
    -- Without a cache a look-up finds nothing, and what is built is not stored.
    obtain ⟨_, hnone, h⟩ := bind_ok_iff.mp h
    obtain rfl := pure_ok_iff.mp hnone
    obtain ⟨graph, hgraph, h⟩ := bind_ok_iff.mp h
    obtain rfl := pure_ok_iff.mp h
    exact .inr ⟨mapError_ok_iff.mp hgraph, .inl ⟨rfl, rfl⟩⟩
  | some used =>
    obtain ⟨cached, hcached, h⟩ := bind_ok_iff.mp h
    have hget := mapError_ok_iff.mp hcached
    cases cached with
    | some graph =>
      obtain rfl := pure_ok_iff.mp h
      exact .inl ⟨used, rfl, hget, rfl⟩
    | none =>
      obtain ⟨graph, hgraph, h⟩ := bind_ok_iff.mp h
      obtain ⟨tree, htree, h⟩ := bind_ok_iff.mp h
      obtain rfl := pure_ok_iff.mp h
      exact .inr ⟨mapError_ok_iff.mp hgraph, .inr ⟨used, rfl, hget, mapError_ok_iff.mp htree⟩⟩

section

variable {scope : DependencyScope} {project : Project} {cache : GraphCache} {now : Int}
  {builder : Builder} {key : GraphKey} {graph : ImportGraph}

/-- A graph that is in the cache is given out. The builder is not asked. -/
theorem ofScope_of_hit (hkey : GraphKey.ofScope scope project = .ok key)
    (hhit : cache.get? project.tree key = .ok (some graph)) :
    ofScope scope project (some cache) now builder = .ok ⟨graph, project.tree⟩ := by
  simp [ofScope, hkey, hhit, mapError_ok, bind, Except.bind, pure, Except.pure]

/-- A graph that is not in the cache is built and stored. The tree is then the one with the graph in
    it. -/
theorem ofScope_of_miss (hkey : GraphKey.ofScope scope project = .ok key)
    (hmiss : cache.get? project.tree key = .ok none) {after : FileTree}
    (hbuilt : builder (scope.request project) = .ok graph)
    (hset : cache.set project.tree now key graph = .ok after) :
    ofScope scope project (some cache) now builder = .ok ⟨graph, after⟩ := by
  simp [ofScope, hkey, hmiss, hbuilt, hset, mapError_ok, bind, Except.bind, pure, Except.pure]

/-- That a graph cannot be built is passed on. Nothing is stored in that case. -/
theorem ofScope_of_refusal (hkey : GraphKey.ofScope scope project = .ok key)
    (hmiss : cache.get? project.tree key = .ok none) {cause : BuildError}
    (hbuilt : builder (scope.request project) = .error cause) :
    ofScope scope project (some cache) now builder = .error (.build cause) := by
  simp [ofScope, hkey, hmiss, hbuilt, mapError_ok, mapError_error, bind, Except.bind]

end

end ImportGraph

end Backlog
