import Backlog.Cache.Entry
import Backlog.Files.Tree
import Backlog.Json.Parser
import Backlog.Text.Sorted

namespace Backlog

open Backlog.Files Backlog.Text

/-!
# Caches in a folder

A cache writes to a folder that other programs may write to as well, and that may be removed at any
time. So nothing is taken for granted about what is there: a file is read as a whole, checked, and
otherwise passed over. A write goes to a file beside the one that it is for, which then takes its
place.

* `CacheStore` — named byte strings, each in a file of its own;
* `JsonCache` — entries under their hashes in one part of a store; an entry is only given out as long
  as it is of the right version, belongs to the very hash, and all files that it tracks are as they
  were. Everything else is a miss.
-/

/-- A folder with cached byte strings: `<folder>/<section>/<name>.json`. -/
structure CacheStore where
  folder : Path

namespace CacheStore

/-- The folder of one section. -/
def sectionPath (store : CacheStore) (part : String) : Path := store.folder.join (.ofText part)

/-- The file of one name. -/
def path (store : CacheStore) (part name : String) : Path :=
  (store.sectionPath part).join (.ofText (name ++ ".json"))

/-- What is stored under a name, if it can be read. -/
def read (store : CacheStore) (tree : FileTree) (part name : String) :
    Except Fault (Option Bytes) :=
  match tree.read (store.path part name).text with
  | .ok bytes => .ok (some bytes)
  -- A NUL is refused before the system is asked; what the system refuses counts as absent.
  | .error .nul => .error .nul
  | .error _ => .ok none

/-- What becomes of a file system when something is written to it: the write may fail after folders
    have been made. -/
structure Written where
  tree : FileTree
  failure : Option (Fault × String)

/-- Stores bytes under a name. They are written to a hidden file beside the final one, which is then
    replaced. -/
def write (store : CacheStore) (tree : FileTree) (part name : String) (bytes : Bytes)
    (time : Int) : Written :=
  let path := store.path part name
  match tree.makeFolders path.parent with
  | .error (fault, where_) => ⟨tree, some (fault, where_.text)⟩
  | .ok made =>
    let hidden := (path.parent.child ("." ++ name ++ ".tmp")).text
    -- The hidden name is the longer one, so it can be too long where the final one is not.
    match made.locate hidden with
    | .error fault => ⟨made, some (fault, hidden)⟩
    | .ok _ =>
      match made.replace path.text bytes time with
      | .error fault => ⟨made, some (fault, path.text)⟩
      | .ok written => ⟨written, none⟩

/-- Removes one section, or everything. -/
def clear (store : CacheStore) (tree : FileTree) : Option String → FileTree
  | none => tree.removeTree store.folder.text
  | some part => tree.removeTree (store.sectionPath part).text

end CacheStore

/-- Why a cache cannot be used. -/
inductive CacheError where
  | file (fault : Fault) (path : String)
  | unwritable (cause : Json.Obstacle)
  deriving DecidableEq, Repr

/-- The wording of a refusal. -/
def CacheError.message : CacheError → String
  | .file fault path => fault.message path
  | .unwritable cause => cause.message

/-- One section of a store, for entries of one version. -/
structure JsonCache where
  store : CacheStore
  part : String
  version : String

namespace JsonCache

/-- The name under which a hash is stored: its first characters. -/
def nameOf (hash : String) : String := String.ofList (hash.toList.take 16)

/-- The entry that some bytes hold. -/
def decode? (bytes : Bytes) : Option CacheEntry := do
  let text ← (Utf8.decode bytes).toOption
  let value ← (Json.parse text).toOption
  (CacheEntry.ofData value).toOption

/-- The path of a tracked file. -/
def trackedPath : Scalar → String
  | .text path => path
  | key => key.label

/-- Whether all tracked files are as they were. -/
def isFresh (tree : FileTree) : List (Scalar × Option Int) → Except CacheError Bool
  | [] => .ok true
  | (key, time) :: rest =>
    -- The files are asked for one after another, and the first that has changed ends the search.
    match tree.time? (trackedPath key) with
    | .error fault => .error (.file fault (trackedPath key))
    | .ok now => if now = time then isFresh tree rest else .ok false

/-- The entry that is stored for a hash; anything but a valid entry is a miss. -/
def lookup? (cache : JsonCache) (tree : FileTree) (hash : String) :
    Except CacheError (Option CacheEntry) :=
  match cache.store.read tree cache.part (nameOf hash) with
  | .error fault => .error (.file fault (nameOf hash))
  | .ok none => .ok none
  | .ok (some bytes) =>
    match decode? bytes with
    | none => .ok none
    | some entry =>
      if entry.version ≠ cache.version || entry.hash ≠ hash then .ok none
      else (isFresh tree entry.tracked).map (fun fresh => if fresh then some entry else none)

/-- The data that is stored for a hash. -/
def get? (cache : JsonCache) (tree : FileTree) (hash : String) :
    Except CacheError (Option Data) :=
  (cache.lookup? tree hash).map (fun entry => entry.map CacheEntry.data)

/-- The times of some files, each file once. -/
def timesOf (tree : FileTree) : List String → Except CacheError (List (Scalar × Option Int))
  | [] => .ok []
  | path :: rest =>
    match tree.time? path with
    | .error fault => .error (.file fault path)
    | .ok time => (timesOf tree rest).map ((.text path, time) :: ·)

/-- The text of an entry. -/
def encode (entry : CacheEntry) : Bytes := Utf8.encode (Json.writeText .asciiLines entry.toData)

/-- Writes data down for a hash together with the state of some files. -/
def record (cache : JsonCache) (tree : FileTree) (now : Int) (hash : String) (data : Data)
    (tracked : List String) : Except CacheError CacheStore.Written := do
  let times ← timesOf tree (distinctTexts tracked)
  let entry : CacheEntry := ⟨data, hash, times, cache.version⟩
  -- Nothing is written unless the whole entry can be, its times included.
  match Json.obstacle? false entry.toData with
  | some cause => throw (.unwritable cause)
  | none => return cache.store.write tree cache.part (nameOf hash) (encode entry) now

/-- Stores data for a hash together with the state of some files. That the store cannot be written
    to is no failure. -/
def set (cache : JsonCache) (tree : FileTree) (now : Int) (hash : String) (data : Data)
    (tracked : List String) : Except CacheError FileTree :=
  (cache.record tree now hash data tracked).map CacheStore.Written.tree

/-- Removes all entries of the section. -/
def clear (cache : JsonCache) (tree : FileTree) : FileTree :=
  cache.store.clear tree (some cache.part)

end JsonCache

end Backlog
