import Backlog.Proofs.Cache.Graphs
import Backlog.Proofs.Cache.Sampling
import Backlog.Proofs.Files.Outlines
import Backlog.Proofs.Graph.Building

namespace Backlog

open Backlog.Files Backlog.Files.FileTree Backlog.Number Backlog.Text

/-!
# Graphs, stored and found again

Storing a graph and finding it again are far apart, with writes and changes of other files in
between. What connects them are the bytes. So this says, in one place, what bytes are written for a
graph, and what a look-up makes of such bytes, wherever it comes upon them.

* `GraphCache.IsRecord` — the bytes that are written when a graph is stored for a key;
* `GraphCache.set_ok_iff_exists_record` — storing a graph writes them, if there are any;
* `GraphCache.IsRecord.get?` — a look-up that comes upon such bytes finds the graph, with some time,
  if it was stored for a key of the same hash, if the graph is consistent, and if the files that guard
  it are as they were.
-/

/-- No time of a file is too long to be written down. -/
def Files.FileTree.IsDated (t : FileTree) : Prop :=
  ∀ names content time, t.root.find? names = some (.file content time) → isTooLong time = false

/-- The time that a path is asked for is not too long in a tree that is dated. -/
theorem Files.FileTree.IsDated.time? {t : FileTree} (h : t.IsDated) {path : String} {time : Int}
    (htime : t.time? path = .ok (some time)) : isTooLong time = false := by
  obtain ⟨names, node, hlocate⟩ := exists_locate_of_time? htime
  have hnode : t.root.find? names = some node := (node_of_locate hlocate).1.symm
  rw [FileTree.time?, stat_ok_iff.mpr ⟨names, hlocate⟩] at htime
  cases node with
  | file content since =>
    obtain rfl := Option.some.inj (Except.ok.inj htime)
    exact h names content since hnode
  | link _ | folder _ | sealed _ =>
    obtain rfl := Option.some.inj (Except.ok.inj htime)
    decide

namespace GraphCache

/-- The times of the files that guard a graph. -/
def timesFor (cache : GraphCache) (t : FileTree) (graph : ImportGraph) :
    List (String × Option Int) :=
  (distinctTexts (graph.sample cache.maxSample)).map fun path => (path, JsonCache.timeAt t path)

/-- The entry of a key with a graph at some time, guarded by its files. -/
def recordOf (cache : GraphCache) (t : FileTree) (key : GraphKey) (graph : ImportGraph)
    (builtAt : Binary64) : CacheEntry :=
  entryOf key (Json.mapOf (graph.members builtAt)) (CacheEntry.trackedOf (cache.timesFor t graph))

/-- The bytes that are written when a graph is stored for a key, in a given state of the files. -/
structure IsRecord (cache : GraphCache) (t : FileTree) (key : GraphKey) (graph : ImportGraph)
    (bytes : Bytes) : Prop where
  key_short : ∀ n ∈ key.maxDepth, isTooLong n = false
  depths : graph.HasDepths
  tracked : ∀ path ∈ graph.sample cache.maxSample, '\x00' ∉ path.toList
  writable : Json.obstacle? false (cache.recordOf t key graph graph.builtAt).toData = none
  bytes_eq : bytes = JsonCache.encode (cache.recordOf t key graph graph.builtAt)

variable {cache : GraphCache} {t tree after : FileTree} {now : Int} {key other : GraphKey}
  {graph : ImportGraph} {bytes : Bytes}

theorem timesOf_eq {paths : List String} (h : ∀ path ∈ paths, '\x00' ∉ path.toList) :
    JsonCache.timesOf t paths =
      .ok (CacheEntry.trackedOf (paths.map fun path => (path, JsonCache.timeAt t path))) := by
  induction paths with
  | nil => rfl
  | cons path paths ih =>
    obtain ⟨hpath, hpaths⟩ := List.forall_mem_cons.mp h
    rw [JsonCache.timesOf, JsonCache.time?_eq hpath]
    simp only [ih hpaths]
    rfl

/-- Storing a graph is writing its record to the section of the graphs. What the record holds is
    said of the record, once. -/
theorem set_ok_iff_exists_record :
    cache.set tree now key graph = .ok after ↔ ∃ bytes, cache.IsRecord tree key graph bytes ∧
      after = (cache.store.write tree "dependency-graph" (slotName key) bytes now).tree := by
  rw [set_ok_iff]
  constructor
  · rintro ⟨hshort, data, times, hdata, htimes, hobstacle, rfl⟩
    obtain ⟨hdepths, rfl⟩ := ImportGraph.toData?_ok_iff.mp hdata
    obtain ⟨hnuls, rfl⟩ := JsonCache.timesOf_ok htimes
    exact ⟨JsonCache.encode (cache.recordOf tree key graph graph.builtAt),
      ⟨hshort, hdepths, fun path hpath => hnuls path (mem_distinctTexts.mpr hpath), hobstacle, rfl⟩,
      rfl⟩
  · rintro ⟨bytes, hrecord, rfl⟩
    refine ⟨hrecord.key_short, Json.mapOf (graph.members graph.builtAt),
      CacheEntry.trackedOf (cache.timesFor tree graph),
      ImportGraph.toData?_ok_iff.mpr ⟨hrecord.depths, rfl⟩,
      timesOf_eq fun path hpath => hrecord.tracked path (mem_distinctTexts.mp hpath),
      hrecord.writable, ?_⟩
    rw [hrecord.bytes_eq, recordOf]

/-- What can be written as a graph has no number that is too long. The numbers are the depths of
    nodes and how many imports lead out. -/
theorem isShort_of_obstacle? {builtAt : Binary64}
    (h : Json.obstacle? false (Json.mapOf (graph.members builtAt)) = none) :
    (∀ e ∈ graph.nodes.entries, ∀ n ∈ e.2.depth, isTooLong n = false) ∧
      isTooLong graph.excludedImports = false := by
  rw [Json.obstacle?_mapOf_iff] at h
  have hnodes := h ("nodes", Json.mapOf (ImportGraph.nodeMembers graph.nodes.entries))
    (by simp [ImportGraph.members])
  have hexcluded := h ("excludedImports", .int graph.excludedImports) (by simp [ImportGraph.members])
  rw [Json.obstacle?_mapOf_iff] at hnodes
  refine ⟨fun e he n hn => ?_, by simpa [Json.obstacle?, Json.scalarObstacle?] using hexcluded⟩
  have hnode := hnodes (e.1, Json.mapOf e.2.members) (List.mem_map_of_mem he)
  rw [Json.obstacle?_mapOf_iff] at hnode
  have hdepth := hnode ("depth", ModuleNode.depthMember e.2.depth) (by simp [ModuleNode.members])
  rw [Option.mem_def] at hn
  simpa [hn, ModuleNode.depthMember, Json.obstacle?, Json.scalarObstacle?] using hdepth

/-- There is a record of a graph for a key if their numbers are not too long, and neither are the
    times of the files that guard the graph. Nothing else of a graph can keep it from being written
    down. -/
theorem exists_isRecord (hkey : ∀ n ∈ key.maxDepth, isTooLong n = false) (hfits : graph.HasDepths)
    (hdepths : ∀ e ∈ graph.nodes.entries, ∀ n ∈ e.2.depth, isTooLong n = false)
    (hexcluded : isTooLong graph.excludedImports = false)
    (hnul : ∀ path ∈ graph.sample cache.maxSample, '\x00' ∉ path.toList)
    (hdated : t.IsDated) : ∃ bytes, cache.IsRecord t key graph bytes := by
  refine ⟨_, hkey, hfits, hnul, ?_, rfl⟩
  rw [recordOf, entryOf, CacheEntry.toData_eq_mapOf, Json.obstacle?_mapOf_iff]
  intro e he
  simp only [CacheEntry.members, List.mem_cons, List.not_mem_nil, or_false] at he
  -- The version and the hash are texts; only the times and the graph hold numbers.
  rcases he with rfl | rfl | rfl | rfl
  · rfl
  · rfl
  · refine (CacheEntry.isDocument_timeMembers ?_ ?_).obstacle?_eq_none
    · simpa [timesFor, Function.comp_def] using nodup_distinctTexts (graph.sample cache.maxSample)
    · refine List.forall_mem_map.mpr fun path hpath time htime => ?_
      have hfound : t.time? path = .ok (some time) :=
        (JsonCache.time?_eq (hnul path (mem_distinctTexts.mp hpath))).trans
          (congrArg Except.ok htime)
      exact hdated.time? hfound
  · exact ImportGraph.obstacle?_members hdepths hexcluded

/-- There is a record of a graph that is built from not too many modules. A graph of modules has as
    many nodes as there are modules, at most, and no depth is greater than that. -/
theorem exists_isRecord_ofModules {modules : List SourceModule} {entryPoints : List String}
    {maxDepth : Option Int} {builtAt : Binary64} (hkey : ∀ n ∈ key.maxDepth, isTooLong n = false)
    (hmodules : IsListSize modules.length)
    (himports : IsListSize (modules.flatMap SourceModule.imports).length)
    (hnul : ∀ m ∈ modules, '\x00' ∉ m.source.toList)
    (hdated : t.IsDated) :
    ∃ bytes, cache.IsRecord t key (.ofModules modules entryPoints maxDepth builtAt) bytes := by
  obtain ⟨hfits, hdepths, hexcluded⟩ := ImportGraph.fits_ofModules hmodules
    (isTooLong_of_isListSize himports)
  refine exists_isRecord hkey hfits hdepths hexcluded (fun path hpath => ?_) hdated
  have hkeys := ImportGraph.mem_keys_of_mem_sample hpath
  rw [ImportGraph.keys_ofModules, mem_distinctTexts] at hkeys
  obtain ⟨m, hm, rfl⟩ := List.mem_map.mp hkeys
  exact hnul m hm

/-- A record holds the graph, with some time, and the times of the files that guard it. The time of
    building is a double and may be read as another one, if it is no number. -/
theorem IsRecord.exists_decode? (h : cache.IsRecord t key graph bytes) :
    ∃ builtAt, JsonCache.decode? bytes = some (cache.recordOf t key graph builtAt) := by
  have hwritable := h.writable
  have htimes := CacheEntry.isTooLong_of_obstacle? hwritable
  rw [recordOf, entryOf, CacheEntry.toData_eq_mapOf, Json.obstacle?_mapOf_iff] at hwritable
  obtain ⟨hdepths, hexcluded⟩ := isShort_of_obstacle?
    (hwritable ("data", Json.mapOf (graph.members graph.builtAt)) (by simp [CacheEntry.members]))
  obtain ⟨builtAt, hreading⟩ := graph.exists_isReading hdepths hexcluded true
  refine ⟨builtAt, ?_⟩
  rw [h.bytes_eq]
  refine JsonCache.decode?_encode_of_reading hreading ?_ htimes
  simpa [timesFor, Function.comp_def] using nodup_distinctTexts (graph.sample cache.maxSample)

/-- The files that guard a graph are as they were if each of them has the time that it had. The
    trees may differ everywhere else. -/
theorem IsRecord.isFresh_iff (h : cache.IsRecord t key graph bytes) (tree : FileTree) :
    ∃ fresh, JsonCache.isFresh tree (CacheEntry.trackedOf (cache.timesFor t graph)) = .ok fresh ∧
      (fresh = true ↔ ∀ path ∈ graph.sample cache.maxSample, tree.time? path = t.time? path) := by
  have hnul : ∀ path ∈ distinctTexts (graph.sample cache.maxSample), '\x00' ∉ path.toList :=
    fun path hpath => h.tracked path (mem_distinctTexts.mp hpath)
  refine ⟨_, JsonCache.isFresh_trackedOf hnul _, ?_⟩
  rw [decide_eq_true_eq]
  refine forall_congr' fun path => ?_
  rw [mem_distinctTexts]
  refine forall_congr' fun hpath => ?_
  have hpath := h.tracked path hpath
  rw [JsonCache.time?_eq hpath, JsonCache.time?_eq hpath, Except.ok.injEq]

/-- The data of a record are those of a graph if the graph is consistent, and else a miss. The other
    direction of reading what was written: here the text is left out. -/
theorem exists_decode (graph : ImportGraph) (builtAt : Binary64) :
    ∃ result, decode (Json.mapOf (graph.members builtAt)) = .ok result ∧
      ∀ found, result = some found ↔
        graph.IsConsistent ∧ found = { graph with builtAt := builtAt } := by
  unfold decode
  cases hdata : ImportGraph.ofData (Json.mapOf (graph.members builtAt)) with
  | ok read =>
    obtain ⟨hconsistent, rfl⟩ := ImportGraph.ofData_members_iff.mp hdata
    exact ⟨_, rfl, fun found => by simp [hconsistent, eq_comm]⟩
  | error cause =>
    have hnot : ¬graph.IsConsistent := by
      intro hconsistent
      rw [ImportGraph.ofData_members_iff.mpr ⟨hconsistent, rfl⟩] at hdata
      cases hdata
    -- What is written as a time is a floating-point number, so it is not too large to be one.
    have hcause : cause ≠ .tooLarge := by
      rintro rfl
      obtain ⟨fields, n, heq, hfield, _⟩ := ImportGraph.ofData_tooLarge_iff.mp hdata
      obtain rfl := Data.map.inj heq
      simp [ImportGraph.members, Data.field?] at hfield
    refine ⟨none, ?_, fun found => by simp [hnot]⟩
    cases cause <;> first | rfl | exact absurd rfl hcause

/-- A look-up that reads nothing is a miss. For a miss nothing is asked of what else is stored. -/
theorem get?_of_read_none (hshort : ∀ n ∈ key.maxDepth, isTooLong n = false)
    (hread : cache.store.read tree "dependency-graph" (slotName key) = .ok none) :
    cache.get? tree key = .ok none := by
  have hlookup : cache.entries.lookup? tree (Digest.sha256Hex key.canonicalText) = .ok none := by
    unfold JsonCache.lookup?
    rw [show cache.entries.store.read tree cache.entries.part
      (JsonCache.nameOf (Digest.sha256Hex key.canonicalText)) = .ok none from hread]
  rw [get?_eq (GraphKey.digest_ok_iff.mpr ⟨hshort, rfl⟩), hlookup]

/-- A look-up that is answered reads what is stored, if anything is. So looking up a key whose limit
    has too many digits is never answered. -/
theorem exists_read_of_get? {result : Option ImportGraph} (h : cache.get? tree key = .ok result) :
    (∀ n ∈ key.maxDepth, isTooLong n = false) ∧ ∃ stored,
      cache.store.read tree "dependency-graph" (slotName key) = .ok stored ∧
        (stored = none → result = none) := by
  obtain ⟨digest, hdigest, _⟩ := bind_ok_iff.mp h
  have hhash := mapError_ok_iff.mp hdigest
  obtain ⟨hshort, rfl⟩ := GraphKey.digest_ok_iff.mp hhash
  refine ⟨hshort, ?_⟩
  cases hread : cache.store.read tree "dependency-graph" (slotName key) with
  | error fault =>
    have hlookup : cache.entries.lookup? tree (Digest.sha256Hex key.canonicalText) =
        .error (.file fault (slotName key)) := by
      unfold JsonCache.lookup?
      rw [show cache.entries.store.read tree cache.entries.part
        (JsonCache.nameOf (Digest.sha256Hex key.canonicalText)) = .error fault from hread]
      rfl
    rw [get?_eq hhash, hlookup] at h
    cases h
  | ok stored =>
    refine ⟨stored, rfl, ?_⟩
    rintro rfl
    rw [get?_of_read_none hshort hread] at h
    exact (Except.ok.inj h).symm

/-- A look-up that comes upon the record of a graph finds the graph, with some time, if its key has
    the same hash, if the graph is consistent, and if the files that guard it are as they were. The
    key that asks may be another one than the key that was stored for. -/
theorem IsRecord.get? (hrecord : cache.IsRecord t key graph bytes)
    (hshort : ∀ n ∈ other.maxDepth, isTooLong n = false)
    (hread : cache.store.read tree "dependency-graph" (slotName other) = .ok (some bytes)) :
    ∃ builtAt result, cache.get? tree other = .ok result ∧ ∀ found, result = some found ↔
      (Digest.sha256Hex key.canonicalText = Digest.sha256Hex other.canonicalText ∧
        graph.IsConsistent ∧
        ∀ path ∈ graph.sample cache.maxSample, tree.time? path = t.time? path) ∧
      found = { graph with builtAt := builtAt } := by
  obtain ⟨builtAt, hdecode⟩ := hrecord.exists_decode?
  obtain ⟨fresh, hfresh, hfresh_iff⟩ := hrecord.isFresh_iff tree
  obtain ⟨result, hresult, hresult_iff⟩ := exists_decode graph builtAt
  have hdigest : other.digest = .ok (Digest.sha256Hex other.canonicalText) :=
    GraphKey.digest_ok_iff.mpr ⟨hshort, rfl⟩
  -- The version of the record is that of the cache, so what counts is its hash and its files.
  have hlookup : cache.entries.lookup? tree (Digest.sha256Hex other.canonicalText) =
      if Digest.sha256Hex key.canonicalText = Digest.sha256Hex other.canonicalText ∧ fresh = true
        then .ok (some (cache.recordOf t key graph builtAt)) else .ok none := by
    unfold JsonCache.lookup?
    rw [show cache.entries.store.read tree cache.entries.part
      (JsonCache.nameOf (Digest.sha256Hex other.canonicalText)) = .ok (some bytes) from hread]
    simp only [hdecode]
    by_cases hhash : Digest.sha256Hex key.canonicalText = Digest.sha256Hex other.canonicalText
    · cases fresh <;> simp [recordOf, entryOf, entries, hhash, hfresh, Except.map]
    · simp [recordOf, entryOf, entries, hhash]
  rw [get?_eq hdigest, hlookup, ← hfresh_iff]
  by_cases hgood : Digest.sha256Hex key.canonicalText = Digest.sha256Hex other.canonicalText ∧
      fresh = true
  · rw [if_pos hgood]
    refine ⟨builtAt, result, hresult, fun found => ?_⟩
    rw [hresult_iff, and_iff_right hgood.1, and_iff_left hgood.2]
  · rw [if_neg hgood]
    refine ⟨builtAt, none, rfl, fun found => ?_⟩
    constructor
    · intro h
      cases h
    · rintro ⟨⟨hhash, _, htrue⟩, _⟩
      exact absurd ⟨hhash, htrue⟩ hgood

end GraphCache

end Backlog
