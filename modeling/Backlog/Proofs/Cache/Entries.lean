import Backlog.Cache.Store
import Backlog.Proofs.Files.Places
import Backlog.Proofs.Json.RoundTrip
import Backlog.Proofs.Outcome
import Backlog.Proofs.Text.Distinct
import Backlog.Proofs.Text.Utf8

namespace Backlog

open Backlog.Files Backlog.Number Backlog.Text

/-!
# Cache entries, written and read

An entry goes through three forms on its way to the disk: the entry, its document, and the bytes of
its text. Each step is undone by the reader, as long as no path is tracked twice and no number has
too many digits. The data may be any document, and come back as far as a text can hold them.

* `CacheEntry.ofData_toData` — the document of an entry is the entry's;
* `JsonCache.decode?_encode` — the bytes of an entry hold the entry;
* `JsonCache.record_ok` — what is stored when data are recorded;
* `JsonCache.isFresh_trackedOf` — an entry is fresh if every file that it tracks is as it was.
-/

namespace CacheEntry

/-- Times of files by their paths, as an entry tracks them. -/
def trackedOf (times : List (String × Option Int)) : List (Scalar × Option Int) :=
  times.map fun e => (.text e.1, e.2)

/-- Times of files as the members of a document. -/
def timeMembers (times : List (String × Option Int)) : List (String × Data) :=
  times.map fun e => (e.1, timeData e.2)

/-- The members of an entry's document. -/
def members (data : Data) (hash version : String) (times : List (String × Option Int)) :
    List (String × Data) :=
  [("formatVersion", .text version), ("configHash", .text hash),
    ("trackedFileMtimes", Json.mapOf (timeMembers times)), ("data", data)]

variable {data : Data} {hash version : String} {times : List (String × Option Int)}

theorem toData_eq_mapOf :
    toData ⟨data, hash, trackedOf times, version⟩ =
      Json.mapOf (members data hash version times) := by
  simp [toData, members, timeMembers, trackedOf, Json.mapOf, Json.pairsOf]

theorem readTimes_timeMembers :
    readTimes (Json.pairsOf (timeMembers times)) = .ok (trackedOf times) := by
  induction times with
  | nil => rfl
  | cons e times ih =>
    obtain ⟨path, time⟩ := e
    rw [timeMembers, List.map_cons, ← timeMembers, Json.pairsOf_cons]
    cases time with
    | none =>
      rw [timeData, readTimes, ih]
      rfl
    | some n =>
      rw [timeData, readTimes, ih]
      rfl

/-- The document of an entry is the entry's. This says nothing of texts yet, which come next. -/
theorem ofData_toData :
    ofData (toData ⟨data, hash, trackedOf times, version⟩) =
      .ok ⟨data, hash, trackedOf times, version⟩ := by
  have hkeys : hasItsKeys (Json.pairsOf (members data hash version times)) = true := by
    simp [hasItsKeys, members, keyNames, Json.pairsOf, Data.field?]
  have hread : readTimes (Json.pairsOf (timeMembers times)) = .ok (trackedOf times) :=
    readTimes_timeMembers
  rw [toData_eq_mapOf, Json.mapOf, ofData, hkeys]
  simp [members, Data.field?, Json.mapOf, hread, bind, Except.bind, pure, Except.pure]

/-- The document of the times is read as it was written, if they are not too long. A path that is
    there twice would be one member only. -/
theorem isDocument_timeMembers (hpaths : (times.map Prod.fst).Nodup)
    (htimes : ∀ e ∈ times, ∀ n ∈ e.2, isTooLong n = false) :
    Json.IsDocument Json.IsExact (Json.mapOf (timeMembers times)) := by
  refine .map (by simpa [timeMembers, Function.comp_def] using hpaths) fun m hm => ?_
  obtain ⟨⟨path, time⟩, he, rfl⟩ := List.mem_map.mp hm
  cases time with
  | none => exact .scalar trivial
  | some n => exact .scalar (htimes _ he n rfl)

/-- The document of an entry is read with other data if its data are. What is not data comes back
    exactly. Data may come back as another number. -/
theorem isReading_toData {data' : Data} {rel : Scalar → Scalar → Prop}
    (hexact : ∀ s, Json.IsExact s → rel s s) (hdata : Json.IsReading rel data data')
    (hpaths : (times.map Prod.fst).Nodup)
    (htimes : ∀ e ∈ times, ∀ n ∈ e.2, isTooLong n = false) :
    Json.IsReading rel (toData ⟨data, hash, trackedOf times, version⟩)
      (toData ⟨data', hash, trackedOf times, version⟩) := by
  have htracked := (isDocument_timeMembers hpaths htimes).isReading hexact
  rw [toData_eq_mapOf, toData_eq_mapOf]
  -- Only the data may differ; every other member is read as it was written.
  refine @Json.IsReading.map _ [("formatVersion", .text version, .text version),
    ("configHash", .text hash, .text hash),
    ("trackedFileMtimes", Json.mapOf (timeMembers times), Json.mapOf (timeMembers times)),
    ("data", data, data')] (by simp) fun m hm => ?_
  simp only [List.mem_cons, List.not_mem_nil, or_false] at hm
  rcases hm with rfl | rfl | rfl | rfl
  · exact .scalar (hexact _ trivial)
  · exact .scalar (hexact _ trivial)
  · exact htracked
  · exact hdata

/-- An entry that can be written has no time that is too long. Writing such a number is what the
    obstacle would be. -/
theorem isTooLong_of_obstacle?
    (h : Json.obstacle? false (toData ⟨data, hash, trackedOf times, version⟩) = none) :
    ∀ e ∈ times, ∀ n ∈ e.2, isTooLong n = false := by
  rw [toData_eq_mapOf, Json.obstacle?_mapOf_iff] at h
  -- A time stands in the mapping of the times, and this in that of the entry.
  have htracked := h ("trackedFileMtimes", Json.mapOf (timeMembers times)) (by simp [members])
  rw [Json.obstacle?_mapOf_iff] at htracked
  intro e he n hn
  have htime := htracked (e.1, timeData e.2) (List.mem_map.mpr ⟨e, he, rfl⟩)
  obtain ⟨path, time⟩ := e
  obtain rfl : time = some n := hn
  simpa [timeData, Json.obstacle?, Json.scalarObstacle?] using htime

end CacheEntry

namespace JsonCache

open CacheEntry

variable {data : Data} {hash version : String} {times : List (String × Option Int)}

/-- The bytes of an entry hold the entry with the data that are read. This is where the text of an
    entry is read back. -/
theorem decode?_encode_of_reading {data' : Data}
    (hdata : Json.IsReading (Json.ReadsAs true) data data')
    (hpaths : (times.map Prod.fst).Nodup)
    (htimes : ∀ e ∈ times, ∀ n ∈ e.2, isTooLong n = false) :
    decode? (encode ⟨data, hash, trackedOf times, version⟩) =
      some ⟨data', hash, trackedOf times, version⟩ := by
  have hparse :
      Json.parse (Json.writeText .asciiLines (toData ⟨data, hash, trackedOf times, version⟩)) =
        .ok (toData ⟨data', hash, trackedOf times, version⟩) := by
    rw [Json.parse, Json.writeText, String.toList_ofList]
    rw [← List.append_nil (Json.write _ _)]
    exact Json.parseChars_write_of_reading Json.isReadable_asciiLines
      (isReading_toData (fun _ hs => hs.readsBack _) hdata hpaths htimes) nofun
  rw [decode?, encode, Utf8.decode_encode]
  simp [hparse, ofData_toData, Except.toOption]

/-- The bytes of an entry hold the entry. This is the case of data that are read back as they
    are. -/
theorem decode?_encode (hdata : Json.IsDocument Json.IsExact data)
    (hpaths : (times.map Prod.fst).Nodup)
    (htimes : ∀ e ∈ times, ∀ n ∈ e.2, isTooLong n = false) :
    decode? (encode ⟨data, hash, trackedOf times, version⟩) =
      some ⟨data, hash, trackedOf times, version⟩ :=
  decode?_encode_of_reading (hdata.isReading fun _ hs => hs.readsBack _) hpaths htimes

/-! ### Times -/

/-- When a file was last changed, nothing being told of a path that cannot be asked about. -/
def timeAt (t : FileTree) (path : String) : Option Int := (t.time? path).toOption.join

variable {t : FileTree} {paths : List String}

/-- A path without a NUL can be asked for its time. -/
theorem time?_eq {path : String} (h : '\x00' ∉ path.toList) :
    t.time? path = .ok (timeAt t path) := by
  cases htime : t.time? path with
  | ok time => simp [timeAt, htime, Except.toOption]
  | error fault => exact absurd (FileTree.time?_error_iff.mp htime).2 h

/-- Times are taken of paths without a NUL. So no entry tracks a path that cannot be asked for. -/
theorem timesOf_ok {found : List (Scalar × Option Int)} (h : timesOf t paths = .ok found) :
    (∀ path ∈ paths, '\x00' ∉ path.toList) ∧
      found = trackedOf (paths.map fun path => (path, timeAt t path)) := by
  induction paths generalizing found with
  | nil => exact ⟨by simp, (Except.ok.inj h).symm⟩
  | cons path paths ih =>
    rw [timesOf] at h
    cases htime : t.time? path with
    | error fault =>
      rw [htime] at h
      cases h
    | ok time =>
      simp only [htime] at h
      obtain ⟨rest, hrest, rfl⟩ := map_ok_iff.mp h
      obtain ⟨hnuls, rfl⟩ := ih hrest
      have hnul := FileTree.nul_not_mem_of_time? htime
      refine ⟨List.forall_mem_cons.mpr ⟨hnul, hnuls⟩, ?_⟩
      rw [time?_eq hnul] at htime
      rw [List.map_cons, Except.ok.inj htime]
      rfl

/-- Files are as they were if each of them is. The times may be those of another tree than the one
    that is asked. -/
theorem isFresh_trackedOf (hnul : ∀ path ∈ paths, '\x00' ∉ path.toList)
    (time : String → Option Int) :
    isFresh t (trackedOf (paths.map fun path => (path, time path))) =
      .ok (decide (∀ path ∈ paths, timeAt t path = time path)) := by
  induction paths with
  | nil => simp [trackedOf, isFresh]
  | cons path paths ih =>
    obtain ⟨hpath, hpaths⟩ := List.forall_mem_cons.mp hnul
    have hrest : isFresh t (trackedOf (paths.map fun path => (path, time path))) =
        .ok (decide (∀ path ∈ paths, timeAt t path = time path)) := ih hpaths
    rw [trackedOf, List.map_cons, List.map_cons, ← trackedOf, isFresh, trackedPath, time?_eq hpath]
    by_cases hsame : timeAt t path = time path
    · simp [hsame, hrest]
    · simp [hsame]

/-! ### Recording -/

/-- What is recorded is stored as an entry with the times of the files, and these are not too long.
    A path that is tracked twice is recorded once. -/
theorem record_ok {cache : JsonCache} {now : Int} {tracked : List String}
    {written : CacheStore.Written} (h : cache.record t now hash data tracked = .ok written) :
    (∀ path ∈ tracked, '\x00' ∉ path.toList ∧ ∀ n ∈ timeAt t path, isTooLong n = false) ∧
      written = cache.store.write t cache.part (nameOf hash)
        (encode ⟨data, hash,
          trackedOf ((distinctTexts tracked).map fun path => (path, timeAt t path)),
          cache.version⟩) now := by
  obtain ⟨times, htimes, h⟩ := bind_ok_iff.mp h
  obtain ⟨hnul, rfl⟩ := timesOf_ok htimes
  dsimp only at h
  split at h
  · cases h
  · rename_i hobstacle
    refine ⟨fun path hpath => ?_, (Except.ok.inj h).symm⟩
    have hpath' := mem_distinctTexts.mpr hpath
    have htime := isTooLong_of_obstacle? hobstacle (path, timeAt t path)
      (List.mem_map.mpr ⟨path, hpath', rfl⟩)
    exact ⟨hnul path hpath', htime⟩

end JsonCache

end Backlog
