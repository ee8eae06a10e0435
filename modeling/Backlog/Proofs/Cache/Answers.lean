import Backlog.Cache.GraphCache
import Backlog.Proofs.Cache.Entries
import Backlog.Proofs.Cache.Keys

namespace Backlog

open Backlog.Files Backlog.Number Backlog.Text

/-!
# When caches give an answer

A cache that is asked for a graph gives one, or says that it has none; but a few documents, keys and
places make it refuse.

* `JsonCache.lookup?_error_iff` — an entry is refused for a NUL in a path: in that of the store, or in
  that of a file which it tracks, those before this one being as they were;
* `ImportGraph.ofData_tooLarge_iff` — a graph is refused as too large for its time alone;
* `GraphCache.get?_answers_iff` — there are no other reasons.
-/

/-! ### Entries -/

/-- Reading a slot is refused for a NUL in its path, and for nothing else: a file that is not there
    or cannot be read is nothing stored. -/
theorem CacheStore.read_error_iff {store : CacheStore} {t : FileTree} {part name : String}
    {fault : Fault} :
    store.read t part name = .error fault ↔
      fault = .nul ∧ '\x00' ∈ (store.path part name).text.toList := by
  rw [← FileTree.read_eq_nul_iff (t := t)]
  unfold CacheStore.read
  generalize t.read (store.path part name).text = result
  cases result with
  | ok bytes => simp
  | error cause => cases cause <;> simp [eq_comm]

/-- So where something was read, or nothing, the path has no NUL. -/
theorem CacheStore.nul_not_mem_of_read {store : CacheStore} {t : FileTree} {part name : String}
    {stored : Option Bytes} (h : store.read t part name = .ok stored) :
    '\x00' ∉ (store.path part name).text.toList := by
  intro hmem
  rw [read_error_iff.mpr ⟨rfl, hmem⟩] at h
  cases h

namespace JsonCache

variable {cache : JsonCache} {t : FileTree} {hash : String} {tracked : List (Scalar × Option Int)}

/-- One of the files has a NUL in its path, and those before it are as they were. -/
def AsksInVain (t : FileTree) (tracked : List (Scalar × Option Int)) : Prop :=
  ∃ same key time rest, tracked = same ++ (key, time) :: rest ∧
    (∀ e ∈ same, t.time? (trackedPath e.1) = .ok e.2) ∧ '\x00' ∈ (trackedPath key).toList

/-- Files are asked about in order, and one that is not as it was ends the questions. -/
theorem asksInVain_cons {key : Scalar} {time : Option Int} :
    AsksInVain t ((key, time) :: tracked) ↔
      '\x00' ∈ (trackedPath key).toList ∨
        t.time? (trackedPath key) = .ok time ∧ AsksInVain t tracked := by
  constructor
  · rintro ⟨same, key', time', rest, heq, hsame, hnul⟩
    cases same with
    | nil =>
      cases heq
      exact .inl hnul
    | cons e same =>
      cases heq
      obtain ⟨hfirst, hsame⟩ := List.forall_mem_cons.mp hsame
      exact .inr ⟨hfirst, same, key', time', rest, rfl, hsame, hnul⟩
  · rintro (hnul | ⟨hfirst, same, key', time', rest, rfl, hsame, hnul⟩)
    · exact ⟨[], key, time, tracked, rfl, nofun, hnul⟩
    · exact ⟨(key, time) :: same, key', time', rest, rfl,
        List.forall_mem_cons.mpr ⟨hfirst, hsame⟩, hnul⟩

/-- Whether files are as they were cannot be told if one is asked about in vain. A file that is
    missing or cannot be reached has no time, and that is an answer. -/
theorem isFresh_error_iff : (∃ cause, isFresh t tracked = .error cause) ↔ AsksInVain t tracked := by
  induction tracked with
  | nil =>
    constructor
    · rintro ⟨_, ⟨⟩⟩
    · rintro ⟨same, _, _, _, heq, _⟩
      cases same <;> cases heq
  | cons e tracked ih =>
    obtain ⟨key, time⟩ := e
    rw [asksInVain_cons, isFresh, ← ih]
    cases htime : t.time? (trackedPath key) with
    | error fault => simp [(FileTree.time?_error_iff.mp htime).2]
    | ok now =>
      have hnul := FileTree.nul_not_mem_of_time? htime
      by_cases hsame : now = time
      · simp [hsame, hnul]
      · simp [hsame, hnul]

/-- An entry is fresh if every file that it tracks has the time that is recorded. -/
theorem isFresh_true_iff :
    isFresh t tracked = .ok true ↔ ∀ e ∈ tracked, t.time? (trackedPath e.1) = .ok e.2 := by
  induction tracked with
  | nil => simp [isFresh]
  | cons e tracked ih =>
    obtain ⟨key, time⟩ := e
    rw [List.forall_mem_cons, ← ih, isFresh]
    cases t.time? (trackedPath key) with
    | error fault => simp
    | ok now =>
      by_cases hsame : now = time
      · simp [hsame]
      · simp [hsame]

/-- The bytes under the name of a hash hold an entry of the cache's version for the very hash. -/
def IsStored (cache : JsonCache) (t : FileTree) (hash : String) (entry : CacheEntry) : Prop :=
  ∃ bytes, cache.store.read t cache.part (nameOf hash) = .ok (some bytes) ∧
    decode? bytes = some entry ∧ entry.version = cache.version ∧ entry.hash = hash

/-- What a lookup does with what is stored. Either an entry is stored for the hash, and its
    freshness decides, or none is and it is a miss. -/
theorem lookup?_of_read {stored : Option Bytes}
    (h : cache.store.read t cache.part (nameOf hash) = .ok stored) :
    (∃ entry, cache.IsStored t hash entry ∧ cache.lookup? t hash =
        (isFresh t entry.tracked).map fun fresh => if fresh then some entry else none) ∨
      (∀ entry, ¬cache.IsStored t hash entry) ∧ cache.lookup? t hash = .ok none := by
  unfold lookup? IsStored
  rw [h]
  cases stored with
  | none => exact .inr ⟨by simp, rfl⟩
  | some bytes =>
    cases hdecode : decode? bytes with
    | none => exact .inr ⟨by simp [hdecode], by simp [hdecode]⟩
    | some entry =>
      by_cases hright : entry.version = cache.version ∧ entry.hash = hash
      · refine .inl ⟨entry, ⟨bytes, rfl, hdecode, hright⟩, ?_⟩
        simp [hdecode, hright]
      · refine .inr ⟨?_, ?_⟩
        · rintro other ⟨_, heq, hother, hversion⟩
          obtain rfl := Option.some.inj (Except.ok.inj heq)
          rw [hdecode] at hother
          exact hright (Option.some.inj hother ▸ hversion)
        · rw [Classical.not_and_iff_not_or_not] at hright
          simp [hdecode, hright]

theorem IsStored.unique {entry other : CacheEntry} (h : cache.IsStored t hash entry)
    (h' : cache.IsStored t hash other) : other = entry := by
  obtain ⟨bytes, hread, hdecode, _⟩ := h
  obtain ⟨bytes', hread', hdecode', _⟩ := h'
  rw [hread] at hread'
  obtain rfl := Option.some.inj (Except.ok.inj hread')
  rw [hdecode] at hdecode'
  exact (Option.some.inj hdecode').symm

/-- An entry is found if it is stored and all files that it tracks are as they were. Nothing else is
    asked of the entry, so its data may be anything. -/
theorem lookup?_eq_some_iff {entry : CacheEntry} :
    cache.lookup? t hash = .ok (some entry) ↔
      cache.IsStored t hash entry ∧ ∀ e ∈ entry.tracked, t.time? (trackedPath e.1) = .ok e.2 := by
  rw [← isFresh_true_iff]
  cases hread : cache.store.read t cache.part (nameOf hash) with
  | error fault =>
    unfold lookup? IsStored
    simp [hread]
  | ok stored =>
    rcases lookup?_of_read hread with ⟨found, hstored, heq⟩ | ⟨hno, heq⟩
    · rw [heq, map_ok_iff]
      constructor
      · rintro ⟨fresh, hfresh, hsome⟩
        cases fresh with
        | false => cases hsome
        | true =>
          obtain rfl := Option.some.inj hsome
          exact ⟨hstored, hfresh⟩
      · rintro ⟨hother, hfresh⟩
        obtain rfl := hstored.unique hother
        exact ⟨true, hfresh, rfl⟩
    · rw [heq]
      constructor
      · intro h
        cases h
      · exact fun h => absurd h.1 (hno entry)

/-- An entry is refused for a NUL in a path. The path is that of the slot, or one of those that the
    entry tracks. -/
theorem lookup?_error_iff :
    (∃ cause, cache.lookup? t hash = .error cause) ↔
      '\x00' ∈ (cache.store.path cache.part (nameOf hash)).text.toList ∨
        ∃ entry, cache.IsStored t hash entry ∧ AsksInVain t entry.tracked := by
  cases hread : cache.store.read t cache.part (nameOf hash) with
  | error fault =>
    have hnul := (CacheStore.read_error_iff.mp hread).2
    unfold lookup?
    simp [hread, hnul]
  | ok stored =>
    rw [or_iff_right (CacheStore.nul_not_mem_of_read hread)]
    rcases lookup?_of_read hread with ⟨found, hstored, heq⟩ | ⟨hno, heq⟩
    · rw [heq]
      constructor
      · rintro ⟨cause, herror⟩
        refine ⟨found, hstored, isFresh_error_iff.mp ?_⟩
        cases hfresh : isFresh t found.tracked with
        | error cause => exact ⟨cause, rfl⟩
        | ok fresh =>
          rw [hfresh] at herror
          cases herror
      · rintro ⟨entry, hentry, hvain⟩
        obtain rfl := hstored.unique hentry
        obtain ⟨cause, hcause⟩ := isFresh_error_iff.mpr hvain
        exact ⟨cause, by rw [hcause]; rfl⟩
    · rw [heq]
      constructor
      · rintro ⟨_, ⟨⟩⟩
      · rintro ⟨entry, hentry, _⟩
        exact absurd hentry (hno entry)

end JsonCache

/-! ### Graphs -/

namespace ModuleNode

/-- A list of texts is refused for what it is, and not as too large. -/
theorem readTexts_ne_tooLarge {key : Scalar} {fields : List (Scalar × Data)} {part : String} :
    readTexts key fields part ≠ .error .tooLarge := by
  unfold readTexts
  repeat' split
  all_goals exact nofun

theorem readDepth_ne_tooLarge {key : Scalar} {fields : List (Scalar × Data)} :
    readDepth key fields ≠ .error .tooLarge := by
  unfold readDepth
  repeat' split
  all_goals exact nofun

theorem ofData_ne_tooLarge {key : Scalar} {data : Data} : ofData key data ≠ .error .tooLarge := by
  intro h
  unfold ofData at h
  simp only [bind, Except.bind, pure, Except.pure, throw, throwThe, MonadExceptOf.throw] at h
  repeat' split at h
  all_goals cases h
  all_goals first
    | exact readDepth_ne_tooLarge ‹_›
    | exact readTexts_ne_tooLarge ‹_›

end ModuleNode

namespace ImportGraph

theorem readNodes_ne_tooLarge {nodes : List (Scalar × Data)} :
    readNodes nodes ≠ .error .tooLarge := by
  induction nodes with
  | nil => exact nofun
  | cons e nodes ih =>
    obtain ⟨key, value⟩ := e
    intro h
    rw [readNodes] at h
    rcases bind_error_iff.mp h with hnode | ⟨_, _, h⟩
    · exact ModuleNode.ofData_ne_tooLarge hnode
    · rcases bind_error_iff.mp h with hnodes | ⟨_, _, ⟨⟩⟩
      exact ih hnodes

theorem checkEdges_ne_tooLarge {known : OrderedMap String ModuleNode} {nodes : List ModuleNode} :
    checkEdges known nodes ≠ .error .tooLarge := by
  induction nodes with
  | nil => exact nofun
  | cons node nodes ih =>
    rw [checkEdges]
    split
    · exact nofun
    · exact ih

/-- The parts of a document that should be a graph, apart from its time. -/
structure HasParts (fields : List (Scalar × Data)) (nodes : OrderedMap String ModuleNode)
    (entryPoints : List String) (excluded : Int) : Prop where
  hasNodes : ∃ raw found, Data.field? fields "nodes" = some (.map raw) ∧
    readNodes raw = .ok found ∧ nodes = OrderedMap.ofList found
  hasEntryPoints : ∃ items, Data.field? fields "entryPoints" = some (.list items) ∧
    Data.texts? items = some entryPoints
  hasExcluded : Data.field? fields "excludedImports" = some (.int excluded) ∨
    Data.field? fields "excludedImports" = none ∧ excluded = 0
  edges : checkEdges nodes nodes.values = .ok ()

variable {fields : List (Scalar × Data)} {nodes : OrderedMap String ModuleNode}
  {entryPoints : List String} {excluded : Int} {time : Data}

/-- With all its parts, a document is a graph as soon as its time is a double. Turning the time into
    a double is the last step. -/
theorem HasParts.ofData_eq (h : HasParts fields nodes entryPoints excluded)
    (htime : readTime (Data.field? fields "builtAt") = .ok time) :
    ofData (.map fields) =
      (toBinary64 time).map fun builtAt => ⟨nodes, entryPoints, builtAt, excluded⟩ := by
  obtain ⟨⟨raw, found, hnodes, hfound, rfl⟩, ⟨items, hitems, hentries⟩, hexcluded, hedges⟩ := h
  unfold ofData
  rcases hexcluded with hexcluded | ⟨hexcluded, rfl⟩
  · simp only [hnodes, hitems, hentries, htime, hexcluded, hfound, hedges, bind, Except.bind, pure,
      Except.pure]
    cases toBinary64 time <;> rfl
  · simp only [hnodes, hitems, hentries, htime, hexcluded, hfound, hedges, bind, Except.bind, pure,
      Except.pure]
    cases toBinary64 time <;> rfl

/-- Without nodes, or with edges to others, a document is refused, but not as too large. So where
    nothing but the time can be at fault, the nodes and edges are in order. -/
theorem exists_checked {raw : List (Scalar × Data)}
    {next : List (String × ModuleNode) → Except GraphError ImportGraph}
    (h : ∀ cause, (do
      let found ← readNodes raw
      checkEdges (OrderedMap.ofList found) (OrderedMap.ofList found).values
      next found) = .error cause → cause = .tooLarge) :
    ∃ found, readNodes raw = .ok found ∧
      checkEdges (OrderedMap.ofList found) (OrderedMap.ofList found).values = .ok () := by
  cases hfound : readNodes raw with
  | error cause =>
    rw [hfound] at h
    obtain rfl := h cause rfl
    exact absurd hfound readNodes_ne_tooLarge
  | ok found =>
    refine ⟨found, rfl, ?_⟩
    cases hedges : checkEdges (OrderedMap.ofList found) (OrderedMap.ofList found).values with
    | error cause =>
      have hcause : cause = .tooLarge := h cause (by simp [hfound, hedges, bind, Except.bind])
      rw [hcause] at hedges
      exact absurd hedges checkEdges_ne_tooLarge
    | ok _ => rfl

/-- A time is refused for not being a number, and a number is not too large yet. -/
theorem readTime_ne_tooLarge {time : Option Data} : readTime time ≠ .error .tooLarge := by
  unfold readTime
  split <;> exact nofun

/-- A time is read as a whole number just if it is one. -/
theorem readTime_eq_int_iff {time : Option Data} {n : Int} :
    readTime time = .ok (.int n) ↔ time = some (.int n) := by
  unfold readTime
  split
  · simp
  · simp
  · rename_i hint _
    constructor
    · intro h
      cases h
    · exact fun h => absurd h (hint n)

/-- A document without all parts is refused, but not as too large. The parts are read one after
    another, and every refusal but the last is another one. -/
theorem exists_hasParts (h : ∀ cause, ofData (.map fields) = .error cause → cause = .tooLarge) :
    ∃ nodes entryPoints excluded time, HasParts fields nodes entryPoints excluded ∧
      readTime (Data.field? fields "builtAt") = .ok time := by
  unfold ofData at h
  simp only [bind, Except.bind, pure, Except.pure, throw, throwThe, MonadExceptOf.throw] at h
  -- Part by part: where one is missing, the refusal has another cause.
  split at h
  · rename_i raw hraw
    split at h
    · rename_i items hitems
      split at h
      · rename_i texts htexts
        split at h
        · rename_i cause htime
          obtain rfl := h cause rfl
          exact absurd htime readTime_ne_tooLarge
        · rename_i time htime
          split at h
          · rename_i hexcluded
            obtain ⟨found, hfound, hedges⟩ := exists_checked h
            exact ⟨.ofList found, texts, 0, time, ⟨⟨raw, found, hraw, hfound, rfl⟩,
              ⟨items, hitems, htexts⟩, .inr ⟨hexcluded, rfl⟩, hedges⟩, htime⟩
          · rename_i n hexcluded
            obtain ⟨found, hfound, hedges⟩ := exists_checked h
            exact ⟨.ofList found, texts, n, time, ⟨⟨raw, found, hraw, hfound, rfl⟩,
              ⟨items, hitems, htexts⟩, .inl hexcluded, hedges⟩, htime⟩
          · cases h _ rfl
      · cases h _ rfl
    · cases h _ rfl
  · cases h _ rfl

/-- A document that would be a graph, were its time not a whole number that no double can hold. -/
def IsTooLarge (data : Data) : Prop :=
  ∃ fields n, data = .map fields ∧ Data.field? fields "builtAt" = some (.int n) ∧
    Binary64.ofInt? n = none ∧ ∃ g, ofData (.map ((.text "builtAt", .int 0) :: fields)) = .ok g

/-- A time in front of the fields is the one that is found. -/
theorem field?_builtAt_cons (fields : List (Scalar × Data)) (value : Data) (key : String) :
    Data.field? ((.text "builtAt", value) :: fields) key =
      if key = "builtAt" then some value else Data.field? fields key := by
  by_cases h : key = "builtAt"
  · simp [Data.field?, h]
  · simp [Data.field?, h, Ne.symm h]

/-- Another time changes no other part. So the example of a graph that is refused may differ from a
    good one by its time alone. -/
theorem hasParts_builtAt_cons_iff {value : Data} :
    HasParts ((.text "builtAt", value) :: fields) nodes entryPoints excluded ↔
      HasParts fields nodes entryPoints excluded := by
  have hother : ∀ key, key ≠ "builtAt" →
      Data.field? ((.text "builtAt", value) :: fields) key = Data.field? fields key := by
    intro key hkey
    rw [field?_builtAt_cons, if_neg hkey]
  have hnodes := hother "nodes" (by decide)
  have hentries := hother "entryPoints" (by decide)
  have hexcluded := hother "excludedImports" (by decide)
  constructor
  · rintro ⟨h, h', h'', hedges⟩
    exact ⟨hnodes ▸ h, hentries ▸ h', hexcluded ▸ h'', hedges⟩
  · rintro ⟨h, h', h'', hedges⟩
    exact ⟨hnodes ▸ h, hentries ▸ h', hexcluded ▸ h'', hedges⟩

/-- Only a whole number can be too large for a double; a fraction was read as a double or as
    infinite. -/
theorem toBinary64_tooLarge_iff {time : Data} :
    toBinary64 time = .error .tooLarge ↔ ∃ n, time = .int n ∧ Binary64.ofInt? n = none := by
  constructor
  · intro h
    unfold toBinary64 at h
    split at h
    · rename_i n
      split at h
      · cases h
      · rename_i hnone
        exact ⟨n, rfl, hnone⟩
    · cases h
    · cases h
  · rintro ⟨n, rfl, hnone⟩
    rw [toBinary64, hnone]

/-- A graph is refused as too large for its time alone. All the rest of it has to be a graph, since
    it is read before. -/
theorem ofData_tooLarge_iff {data : Data} : ofData data = .error .tooLarge ↔ IsTooLarge data := by
  constructor
  · intro h
    cases data with
    | map fields =>
      have honly : ∀ cause, ofData (.map fields) = .error cause → cause = .tooLarge := by
        intro cause hcause
        rw [h] at hcause
        exact (Except.error.inj hcause).symm
      obtain ⟨nodes, entryPoints, excluded, time, hparts, htime⟩ := exists_hasParts honly
      rw [hparts.ofData_eq htime] at h
      have hbinary : toBinary64 time = .error .tooLarge := by
        cases hbinary : toBinary64 time with
        | ok x => rw [hbinary] at h; cases h
        | error cause => rw [hbinary] at h; exact congrArg _ (Except.error.inj h)
      obtain ⟨n, rfl, hnone⟩ := toBinary64_tooLarge_iff.mp hbinary
      have hfield : Data.field? fields "builtAt" = some (.int n) := readTime_eq_int_iff.mp htime
      -- With another time the same document is read, so nothing else is wrong with it.
      have hzero : readTime (Data.field? ((.text "builtAt", .int 0) :: fields) "builtAt") =
          .ok (.int 0) := by
        rw [field?_builtAt_cons]
        rfl
      refine ⟨fields, n, rfl, hfield, hnone, ⟨nodes, entryPoints, .zero false, excluded⟩, ?_⟩
      rw [(hasParts_builtAt_cons_iff.mpr hparts).ofData_eq hzero]
      rfl
    | _ => cases h
  · rintro ⟨fields, n, rfl, hfield, hnone, g, hg⟩
    have honly : ∀ cause, ofData (.map ((.text "builtAt", .int 0) :: fields)) = .error cause →
        cause = .tooLarge := by
      intro cause hcause
      rw [hg] at hcause
      cases hcause
    obtain ⟨nodes, entryPoints, excluded, _, hparts, _⟩ := exists_hasParts honly
    have hread : readTime (Data.field? fields "builtAt") = .ok (.int n) := by
      rw [hfield]
      rfl
    rw [(hasParts_builtAt_cons_iff.mp hparts).ofData_eq hread,
      toBinary64_tooLarge_iff.mpr ⟨n, rfl, hnone⟩]
    rfl

end ImportGraph

/-! ### Cached graphs -/

namespace GraphCache

/-- A document makes decoding fail just if it is refused as too large. Every other refusal makes it
    no graph. -/
theorem decode_error_iff {data : Data} :
    (∃ cause, decode data = .error cause) ↔ ImportGraph.IsTooLarge data := by
  rw [← ImportGraph.ofData_tooLarge_iff, decode]
  cases h : ImportGraph.ofData data with
  | ok graph => simp
  | error cause => cases cause <;> simp

/-- What a cache does with the entry that it finds. The cases are those of the lookup. -/
theorem get?_eq {cache : GraphCache} {tree : FileTree} {key : GraphKey} {hash : String}
    (h : key.digest = .ok hash) :
    cache.get? tree key = match cache.entries.lookup? tree hash with
      | .error cause => .error (.cache cause)
      | .ok none => .ok none
      | .ok (some entry) => decode entry.data := by
  unfold get? digest JsonCache.get?
  rw [h]
  simp only [mapError_ok, bind, Except.bind]
  generalize cache.entries.lookup? tree hash = found
  rcases found with cause | _ | entry
  · rfl
  · rfl
  · simp only [Except.map, mapError_ok, Option.map_some]
    split
    · rename_i heq
      cases heq
    · rename_i heq
      rw [Option.some.inj heq]
      rfl
    · rename_i heq
      rw [Option.some.inj heq]

/-- A cache that is asked for the graph of a key gives a graph or says that it has none, unless the
    key's limit has too many digits, a path holds a NUL, or the stored graph has a time that no
    double can hold. -/
theorem get?_answers_iff (cache : GraphCache) (tree : FileTree) (key : GraphKey) :
    (∃ result, cache.get? tree key = .ok result) ↔
      (∀ n ∈ key.maxDepth, isTooLong n = false) ∧
        ∀ digest, key.digest = .ok digest →
          '\x00' ∉ (cache.store.path cache.entries.part (JsonCache.nameOf digest)).text.toList ∧
          ∀ entry, cache.entries.IsStored tree digest entry →
            ¬JsonCache.AsksInVain tree entry.tracked ∧
            ((∀ e ∈ entry.tracked, tree.time? (JsonCache.trackedPath e.1) = .ok e.2) →
              ¬ImportGraph.IsTooLarge entry.data) := by
  cases hdigest : key.digest with
  | error cause =>
    constructor
    · rintro ⟨result, h⟩
      unfold get? digest at h
      rw [hdigest] at h
      cases h
    · rintro ⟨hshort, _⟩
      rw [GraphKey.digest_ok_iff.mpr ⟨hshort, rfl⟩] at hdigest
      cases hdigest
  | ok hash =>
    rw [and_iff_right (GraphKey.digest_ok_iff.mp hdigest).1, get?_eq hdigest]
    cases hlookup : cache.entries.lookup? tree hash with
    | error cause =>
      constructor
      · rintro ⟨_, ⟨⟩⟩
      · intro h
        obtain ⟨hnul, hentries⟩ := h hash rfl
        rcases JsonCache.lookup?_error_iff.mp ⟨cause, hlookup⟩ with hmem | ⟨entry, hstored, hvain⟩
        · exact absurd hmem hnul
        · exact absurd hvain (hentries entry hstored).1
    | ok found =>
      have hanswer : ¬∃ cause, cache.entries.lookup? tree hash = .error cause := by
        rw [hlookup]
        rintro ⟨_, ⟨⟩⟩
      rw [JsonCache.lookup?_error_iff, not_or] at hanswer
      obtain ⟨hnul, hvain⟩ := hanswer
      cases found with
      | none =>
        refine ⟨fun _ digest heq => ?_, fun _ => ⟨none, rfl⟩⟩
        obtain rfl := Except.ok.inj heq
        refine ⟨hnul, fun entry hstored => ⟨fun h => hvain ⟨entry, hstored, h⟩, fun hfresh => ?_⟩⟩
        -- An entry that is fresh would have been found.
        rw [JsonCache.lookup?_eq_some_iff.mpr ⟨hstored, hfresh⟩] at hlookup
        cases hlookup
      | some entry =>
        obtain ⟨hstored, hfresh⟩ := JsonCache.lookup?_eq_some_iff.mp hlookup
        have hdecode : (∃ result, decode entry.data = .ok result) ↔
            ¬ImportGraph.IsTooLarge entry.data := by
          rw [← decode_error_iff]
          cases decode entry.data <;> simp
        show (∃ result, decode entry.data = .ok result) ↔ _
        rw [hdecode]
        constructor
        · intro hsmall digest heq
          obtain rfl := Except.ok.inj heq
          refine ⟨hnul, fun other hother => ⟨fun h => hvain ⟨other, hother, h⟩, fun _ => ?_⟩⟩
          obtain rfl := hstored.unique hother
          exact hsmall
        · intro h
          exact ((h hash rfl).2 entry hstored).2 hfresh

/-! ### A graph from the far future -/

/-- A key and its hash. -/
def sampleKey : GraphKey := ⟨.connected, ["a.py"], none, "/p", []⟩

def sampleHash : String := "b3819494b54e43a61cef8fa6cc58da1e63d9e3fd5a4b26a4f9460045b3b729cc"

theorem sampleKey_digest : sampleKey.digest = .ok sampleHash := by
  have hmembers : sampleKey.sortedMembers = [("entryPoints", .list [.text "a.py"]),
      ("exclude", .list []), ("maxDepth", .null), ("mode", .text "connected"),
      ("rootDirectory", .text "/p")] := by
    simp [sampleKey, GraphKey.sortedMembers, GraphKey.limitMember, DependencyMode.name, sortedTexts]
  have hshort : ∀ n ∈ sampleKey.maxDepth, isTooLong n = false := by simp [sampleKey]
  refine GraphKey.digest_ok_iff.mpr ⟨hshort, ?_⟩
  rw [GraphKey.canonicalText, Json.canonical, GraphKey.sortMembers_toData, hmembers]
  decide +kernel

/-- A graph without nodes, built at a time that no double can hold. -/
def lateGraph : List (String × Data) :=
  [("nodes", Json.mapOf []), ("entryPoints", .list []), ("builtAt", .int (10 ^ 400)),
    ("excludedImports", .int 0)]

def lateEntry : CacheEntry := ⟨Json.mapOf lateGraph, sampleHash, CacheEntry.trackedOf [], "1"⟩

/-- A cache in a folder, with the graph in it. -/
def lateTree : FileTree :=
  ⟨.folder [("cache", .folder [("dependency-graph",
    .folder [("b3819494b54e43a6.json", .file (JsonCache.encode lateEntry) 0)])])], []⟩

/-- The graph of the example is read back as it was written. -/
theorem isDocument_lateGraph : Json.IsDocument Json.IsExact (Json.mapOf lateGraph) := by
  refine .map (by decide) fun e he => ?_
  simp only [lateGraph, List.mem_cons, List.not_mem_nil, or_false] at he
  rcases he with rfl | rfl | rfl | rfl
  · exact .map List.nodup_nil nofun
  · exact .list nofun
  · exact .scalar (show isTooLong (10 ^ 400) = false by decide +kernel)
  · exact .scalar (show isTooLong 0 = false by decide)

/-- The names on the way to the graph of the example. -/
theorem late_names : ∀ name ∈ ["cache", "dependency-graph", "b3819494b54e43a6.json"],
    (Path.isIdle name = false ∧ '/' ∉ name.toList ∧ '\x00' ∉ name.toList) ∧ name ≠ ".." ∧
      name.utf8ByteSize ≤ FileTree.maxNameSize := by
  decide

/-- Each leads downwards, without a link or a way up. -/
theorem late_isDown {name : String}
    (h : name ∈ ["cache", "dependency-graph", "b3819494b54e43a6.json"]) : Path.IsDown name :=
  ⟨(late_names name h).1.1, (late_names name h).2.1, (late_names name h).2.2⟩

/-- The way to the graph. Both folders are there. -/
theorem late_reaches : lateTree.Reaches (fun _ => True) ⟨0, ["cache", "dependency-graph"]⟩
    ["dependency-graph", "cache"] := by
  refine ⟨FileTree.maxLinks, .down ?_ trivial (late_isDown (by simp)) ?_ trivial
    (.down ?_ trivial (late_isDown (by simp)) ?_ trivial .here)⟩
  all_goals
    simp [lateTree, FileTree.startOf, Path.isAbsolute, Node.passageAt?, Node.find?,
      Node.childNamed?, Node.passage?]

theorem read_lateTree : CacheStore.read ⟨⟨0, ["cache"]⟩⟩ lateTree "dependency-graph"
    (JsonCache.nameOf sampleHash) = .ok (some (JsonCache.encode lateEntry)) := by
  have hname : JsonCache.nameOf sampleHash = "b3819494b54e43a6" := by decide
  have hpath : CacheStore.path ⟨⟨0, ["cache"]⟩⟩ "dependency-graph" "b3819494b54e43a6" =
      Path.child ⟨0, ["cache", "dependency-graph"]⟩ "b3819494b54e43a6.json" := by decide
  have hfolder : lateTree.root.find? ["dependency-graph", "cache"].reverse = some
      (.folder [("b3819494b54e43a6.json", .file (JsonCache.encode lateEntry) 0)]) := by
    simp [lateTree, Node.find?, Node.childNamed?]
  have hlocate := late_reaches.locate_child hfolder
    ⟨by decide, fun name hmem => (late_names name hmem).1⟩ (late_isDown (by simp))
    (by decide) true (.inr (by simp [Node.childNamed?]))
  rw [Node.childNamed?, if_pos rfl] at hlocate
  unfold CacheStore.read
  rw [hname, hpath, FileTree.read_ok_iff.mpr ⟨_, 0, hlocate⟩]

/-- A cached graph is refused for a time that no double can hold. -/
theorem get?_of_late_graph :
    get? ⟨⟨⟨0, ["cache"]⟩⟩, 50⟩ lateTree sampleKey = .error (.graph .tooLarge) := by
  have hstored :
      JsonCache.IsStored (entries ⟨⟨⟨0, ["cache"]⟩⟩, 50⟩) lateTree sampleHash lateEntry :=
    ⟨JsonCache.encode lateEntry, read_lateTree,
      JsonCache.decode?_encode isDocument_lateGraph List.nodup_nil nofun, rfl, rfl⟩
  have hlookup := JsonCache.lookup?_eq_some_iff.mpr ⟨hstored, nofun⟩
  have hparts : ImportGraph.HasParts (Json.pairsOf lateGraph) (OrderedMap.ofList []) [] 0 :=
    ⟨⟨[], [], rfl, rfl, rfl⟩, ⟨[], rfl, rfl⟩, .inl rfl, rfl⟩
  have hbinary : Binary64.ofInt? (10 ^ 400) = none := by decide +kernel
  have hdata : ImportGraph.ofData lateEntry.data = .error .tooLarge := by
    rw [lateEntry, Json.mapOf, hparts.ofData_eq rfl,
      ImportGraph.toBinary64_tooLarge_iff.mpr ⟨10 ^ 400, rfl, hbinary⟩]
    rfl
  rw [get?_eq sampleKey_digest, hlookup]
  show decode lateEntry.data = _
  rw [decode, hdata]

end GraphCache

end Backlog
