import Backlog.Json.Canonical

namespace Backlog

open Backlog.Text

/-!
# Cache entries

What a cache keeps on disk is an envelope around some data: the version of the cache, the full hash
that the data belong to, and the files that guard them with the times that they had. The data are
not looked into here. Reading is strict, and whatever is not such an envelope is no entry.

* `CacheEntry.ofData` — checks a document and reads the entry that it holds;
* `CacheEntry.toData` — the entry as a document.
-/

/-- What is kept in a cache: some data, the hash that it belongs to, and the state of the files that
    it was made from. -/
structure CacheEntry where
  data : Data
  hash : String
  /-- When each of the files was last changed; none for a file that was not there. -/
  tracked : List (Scalar × Option Int)
  version : String

/-- What is wrong with a document that should be a cache entry. -/
inductive EntryError where
  | notAMapping
  | wrongKeys (keys : List Scalar)
  /-- The keys are wrong, and not even to be listed, two of them having no order. -/
  | unorderedKeys (cause : Json.Obstacle)
  | namesNotTexts
  | trackedNotAMapping
  | badTime (key : Scalar)

namespace CacheEntry

/-- The keys of an entry, sorted. -/
def keyNames : List String := ["configHash", "data", "formatVersion", "trackedFileMtimes"]

end CacheEntry

/-- The wording of a refusal. -/
def EntryError.message : EntryError → String
  | .notAMapping => "cache entry must be a mapping"
  | .wrongKeys keys => (Data.list (keys.map Data.scalar)).shownIn fun shown =>
    s!"cache entry keys {shown} != " ++ quotedList CacheEntry.keyNames
  | .unorderedKeys cause => cause.message
  | .namesNotTexts => "cache entry 'formatVersion' and 'configHash' must be strings"
  | .trackedNotAMapping => "cache entry 'trackedFileMtimes' must be a mapping"
  | .badTime key => Data.keyShownIn key fun shown =>
    s!"cache entry mtime for {shown} must be an integer or null"

namespace CacheEntry

/-- Whether the keys of a document are those of an entry. -/
def hasItsKeys (fields : List (Scalar × Data)) : Bool :=
  -- No key occurs twice in a mapping, so that as many keys and all of these are just these.
  fields.length = keyNames.length && keyNames.all (fun k => (Data.field? fields k).isSome)

/-- The refusal of a document with other keys. -/
def wrongKeys (fields : List (Scalar × Data)) : EntryError :=
  let keys := fields.map Prod.fst
  -- The refusal lists the keys in order, and two of them that cannot be compared stop it first.
  match Json.unorderedPair? keys with
  | some (later, earlier) =>
    .unorderedKeys (.unordered (Json.kindName later) (Json.kindName earlier))
  | none => .wrongKeys ((Json.sortEntries (keys.map (fun k => (k, ())))).map Prod.fst)

/-- The times of the tracked files. -/
def readTimes : List (Scalar × Data) → Except EntryError (List (Scalar × Option Int))
  | [] => .ok []
  | (key, value) :: rest => do
    let time ← match value with
      | .null => pure none
      | .int n => pure (some n)
      | _ => throw (.badTime key)
    let times ← readTimes rest
    return (key, time) :: times

/-- The entry that a document holds. -/
def ofData : Data → Except EntryError CacheEntry
  | .map fields =>
    if !hasItsKeys fields then .error (wrongKeys fields)
    else
      match Data.field? fields "formatVersion", Data.field? fields "configHash",
        Data.field? fields "trackedFileMtimes" with
      | some (.text version), some (.text hash), some (.map times) => do
        let tracked ← readTimes times
        return ⟨(Data.field? fields "data").getD .null, hash, tracked, version⟩
      -- The version and the hash are checked together, before the times are looked at.
      | some (.text _), some (.text _), _ => .error .trackedNotAMapping
      | _, _, _ => .error .namesNotTexts
  | _ => .error .notAMapping

/-- A time as a document holds it. -/
def timeData : Option Int → Data
  | none => .null
  | some n => .int n

/-- The entry as a document. -/
def toData (entry : CacheEntry) : Data :=
  .map [
    (.text "formatVersion", .text entry.version),
    (.text "configHash", .text entry.hash),
    (.text "trackedFileMtimes", .map (entry.tracked.map fun e => (e.1, timeData e.2))),
    (.text "data", entry.data)]

end CacheEntry

end Backlog
