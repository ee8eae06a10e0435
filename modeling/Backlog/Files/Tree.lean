import Backlog.Files.Path
import Backlog.Text.Quoted

namespace Backlog.Files

open Backlog.Text

/-!
# File trees

A whole file system as a value: folders, files with their time of change, and symbolic links.

A folder that may not be searched is a node of its own. The names in it may still be listed, but no
path leads through it, and what is asked about a path below it is refused. That is all that
permissions are here: every file may be read and written, and what is in any other folder may be
listed and changed. Times are those of files; of a folder none is kept.

* `FileTree.locate` — finds what a path leads to, through links;
* `FileTree.resolve` — the real path of a path, which need not exist;
* `FileTree.read`, `FileTree.write`, `FileTree.makeFolders`, `FileTree.removeTree` and the like —
  the operations on files;
* `Fault.message` — the wording of a refusal.
-/

/-- A file, a symbolic link or a folder. -/
inductive Node where
  /-- A file, and when it was last changed, in nanoseconds. -/
  | file (content : Bytes) (time : Int)
  /-- A link and the path that it holds. -/
  | link (target : String)
  | folder (entries : List (String × Node))
  /-- A folder that may not be searched, and the names in it, other than those of folders, that may
  be listed nevertheless. -/
  | sealed (listed : List String)
  deriving Repr, Inhabited

/-- Why an operation on a file is refused. -/
inductive Fault where
  | missing
  | notFolder
  | isFolder
  | exists
  | notEmpty
  | tooManyLinks
  | nameTooLong
  /-- The path leads through a folder that may not be searched. -/
  | denied
  /-- The path holds a NUL character. -/
  | nul
  deriving DecidableEq, Repr

namespace Fault

/-- The number and the name of a refusal. -/
def numberAndName : Fault → Nat × String
  | missing => (2, "No such file or directory")
  | notFolder => (20, "Not a directory")
  | isFolder => (21, "Is a directory")
  | «exists» => (17, "File exists")
  | notEmpty => (39, "Directory not empty")
  | tooManyLinks => (40, "Too many levels of symbolic links")
  | nameTooLong => (36, "File name too long")
  | denied => (13, "Permission denied")
  | nul => (22, "Invalid argument")

/-- The wording of a refusal for a path. -/
def message (fault : Fault) (path : String) : String :=
  match fault with
  | nul => "embedded null byte"
  | _ =>
    let (number, name) := fault.numberAndName
    s!"[Errno {number}] {name}: {quoted path}"

end Fault

namespace Node

/-- The entry of this name. -/
def childNamed? (name : String) : List (String × Node) → Option Node
  | [] => none
  | e :: rest => if e.1 = name then some e.2 else childNamed? name rest

/-- Sets or drops the entry of this name. -/
def setEntry (name : String) (value : Option Node) :
    List (String × Node) → List (String × Node)
  | [] => (value.map (fun v => (name, v))).toList
  | e :: rest =>
    if e.1 = name then (value.map (fun v => (name, v))).toList ++ rest
    else e :: setEntry name value rest

/-- What is found below a node at these names, without following links. -/
def find? (node : Node) : List String → Option Node
  | [] => some node
  | name :: rest =>
    match node with
    | .folder entries => (childNamed? name entries).bind (fun n => find? n rest)
    | _ => none

/-- Puts a node in a place, or removes what is there; a place whose folder does not exist is left
    alone. -/
def put (value : Option Node) (node : Node) : List String → Node
  | [] => value.getD node
  | [name] =>
    match node with
    | .folder entries => .folder (setEntry name value entries)
    -- The entry was a file or a link, and nothing can be put below it.
    | _ => node
  | name :: rest =>
    match node with
    | .folder entries =>
      match childNamed? name entries with
      | some inner => .folder (setEntry name (some (put value inner rest)) entries)
      | none => node
    | _ => node

mutual

/-- The number of links in a tree. -/
def linkCount : Node → Nat
  | .file _ _ => 0
  | .link _ => 1
  | .folder entries => entryLinkCount entries
  | .sealed _ => 0

/-- The number of links below the entries of a folder. -/
def entryLinkCount : List (String × Node) → Nat
  | [] => 0
  | (_, node) :: rest => linkCount node + entryLinkCount rest

end

end Node

/-- A file system and the current folder in it. -/
structure FileTree where
  root : Node
  /-- The names of the current folder from the root. -/
  here : List String

/-- Where a path leads: the names from the root, without links on the way, and what is there. -/
structure Place where
  names : List String
  node : Option Node

namespace FileTree

/-- A file system without anything in it. -/
def empty : FileTree := ⟨.folder [], []⟩

/-- How many links may be followed for one path. -/
def maxLinks : Nat := 40

/-- The longest name, in bytes. -/
def maxNameSize : Nat := 255

/-- The longest path is one byte shorter. -/
def maxPathSize : Nat := 4096

/-- Goes along a row of names. `reversed` is where one stands, `links` how many links may still be
    followed; the last name may be missing, and is followed as a link only on demand. -/
def walk (root : Node) (followLast : Bool) (links : Nat) (reversed rest : List String) :
    Except Fault Place :=
  match rest with
  | [] => .ok ⟨reversed.reverse, root.find? reversed.reverse⟩
  | name :: rest =>
    match root.find? reversed.reverse with
    | none => .error .missing
    | some (.folder entries) =>
      if Path.isIdle name then walk root followLast links reversed rest
      else if name = ".." then walk root followLast links reversed.tail rest
      else if maxNameSize < name.utf8ByteSize then .error .nameTooLong
      else
        match Node.childNamed? name entries with
        | none =>
          -- Only the last name may be missing: there a file or a folder can be made.
          if rest.isEmpty then .ok ⟨(name :: reversed).reverse, none⟩ else .error .missing
        | some (.link target) =>
          if rest.isEmpty && !followLast then
            .ok ⟨(name :: reversed).reverse, some (.link target)⟩
          else
            match links with
            | 0 => .error .tooManyLinks
            | links + 1 =>
              -- The names of the target come before those that are left; an absolute one begins
              -- anew.
              walk root followLast links
                (if target.startsWith "/" then [] else reversed) (namesOf target ++ rest)
        | some _ => walk root followLast links (name :: reversed) rest
    | some (.sealed _) =>
      -- Slashes behind its name ask for nothing in it.
      if name = "" then walk root followLast links reversed rest else .error .denied
    | some _ => .error .notFolder
termination_by (links, rest.length)

/-- Where the text of a path leads. -/
def locate (t : FileTree) (path : String) (followLast : Bool := true) : Except Fault Place :=
  if path.toList.contains '\x00' then .error .nul
  else if path.isEmpty then .error .missing
  else if maxPathSize ≤ path.utf8ByteSize then .error .nameTooLong
  else walk t.root followLast maxLinks (if path.startsWith "/" then [] else t.here.reverse)
    (namesOf path)

/-- What the text of a path leads to. -/
def stat (t : FileTree) (path : String) : Except Fault Node := do
  match (← t.locate path).node with
  | some node => .ok node
  | none => .error .missing

/-- The refusals that only mean that there is nothing. -/
def meansAbsent : Fault → Bool
  | .nameTooLong => false
  | .denied => false
  | _ => true

/-- Whether a path leads to a node that passes a test. A refusal is passed on only if it says more
    than that there is nothing. -/
def leadsTo (t : FileTree) (path : String) (test : Node → Bool) : Except Fault Bool :=
  match t.stat path with
  | .ok node => .ok (test node)
  | .error fault => if meansAbsent fault then .ok false else .error fault

/-- Whether a node is a file. -/
def isFileNode : Node → Bool
  | .file _ _ => true
  | _ => false

/-- Whether a node is a folder. -/
def isFolderNode : Node → Bool
  | .folder _ => true
  | .sealed _ => true
  | _ => false

/-- Whether a path leads to a file. -/
def isFile (t : FileTree) (path : String) : Except Fault Bool := t.leadsTo path isFileNode

/-- Whether a path leads to a folder. -/
def isFolder (t : FileTree) (path : String) : Except Fault Bool := t.leadsTo path isFolderNode

/-- Whether a path leads anywhere. -/
def present (t : FileTree) (path : String) : Except Fault Bool := t.leadsTo path (fun _ => true)

/-- When a file was last changed; nothing if it cannot be found. Folders count as never changed. -/
def time? (t : FileTree) (path : String) : Except Fault (Option Int) :=
  match t.stat path with
  | .ok (.file _ time) => .ok (some time)
  | .ok _ => .ok (some 0)
  | .error .nul => .error .nul
  | .error _ => .ok none

/-! ### Real paths -/

/-- What is left to follow behind a place, in reverse and as it is written. Where it begins with a
    slash, it begins anew at the root. -/
def leftOver (found rest : List String) : List String :=
  match rest with
  | "" :: _ :: _ => rest.reverse
  | _ => rest.reverse ++ found

/-- Follows a row of names through links as far as it goes; `reversed` is where one stands, and
    `active` holds the links that are being followed. A name that is no link is taken as it is,
    whether it exists or not. The verdict is false if a link leads back to itself; what is left to
    follow is then taken as it is. -/
def settle (root : Node) (fuel : Nat) (active : List (List String)) (reversed rest : List String) :
    List String × Bool :=
  match rest with
  | [] => (reversed, true)
  | name :: rest =>
    if Path.isIdle name then settle root fuel active reversed rest
    else if name = ".." then settle root fuel active reversed.tail rest
    else
      let next := name :: reversed
      match root.find? next.reverse with
      | some (.link target) =>
        match fuel with
        -- Each link in `active` is another one, so the fuel lasts for as many links as there are.
        | 0 => (leftOver next rest, false)
        | fuel + 1 =>
          if active.contains next then (leftOver next rest, false)
          else
            let start := if target.startsWith "/" then [] else reversed
            match settle root fuel (next :: active) start (namesOf target) with
            -- The link is done with: it may be followed once more by the names behind it.
            | (found, true) => settle root (fuel + 1) active found rest
            | (found, false) => (leftOver found rest, false)
      | _ => settle root fuel active next rest
termination_by (fuel, rest.length)

/-- Why a path has no real path. -/
inductive ResolveError where
  /-- A link leads back to itself. -/
  | loop (path : String)
  | nul
  deriving DecidableEq, Repr

/-- The wording of a refusal. -/
def ResolveError.message : ResolveError → String
  | .loop path => s!"Symlink loop from {quoted path}"
  | .nul => Fault.nul.message ""

/-- The names of a path from the root. -/
def namesFromRoot (t : FileTree) (p : Path) : List String :=
  if p.isAbsolute then p.names else t.here ++ p.names

/-- The absolute path of some names as they are written. -/
def writtenPath (names : List String) : Path :=
  let text := "/".intercalate names
  Path.ofText (if text.startsWith "/" then text else "/" ++ text)

/-- The real path of a path: absolute, without links and without `..`. What does not exist is taken
    as it is. -/
def resolve (t : FileTree) (p : Path) : Except ResolveError Path :=
  if p.names.any (fun n => n.toList.contains '\x00') then .error .nul
  else
    let (reversed, settled) :=
      settle t.root (t.root.linkCount + 1) [] [] (t.namesFromRoot p)
    if settled then .ok (Path.absolute (Path.collapseNames true reversed.reverse))
    else
      let real := (writtenPath reversed.reverse).collapsed
      -- Where the loop is still on the way the system refuses; where a `..` has led past it, it
      -- does not.
      match t.stat real.text with
      | .error .tooManyLinks => .error (.loop real.text)
      | _ => .ok real

/-! ### Changing files -/

/-- The content of a file. -/
def read (t : FileTree) (path : String) : Except Fault Bytes := do
  match ← t.stat path with
  | .file content _ => .ok content
  | _ => .error .isFolder

/-- Puts a file in a place, or replaces the file that is there. -/
def write (t : FileTree) (path : String) (content : Bytes) (time : Int) :
    Except Fault FileTree := do
  let place ← t.locate path
  match place.node with
  | some (.folder _) => .error .isFolder
  | some (.sealed _) => .error .isFolder
  | _ => .ok { t with root := t.root.put (some (.file content time)) place.names }

/-- Puts a file in a place even if a link is there, which it then replaces. -/
def replace (t : FileTree) (path : String) (content : Bytes) (time : Int) :
    Except Fault FileTree := do
  let place ← t.locate path false
  match place.node with
  | some (.folder _) => .error .isFolder
  | some (.sealed _) => .error .isFolder
  | _ => .ok { t with root := t.root.put (some (.file content time)) place.names }

/-- Makes a link. -/
def makeLink (t : FileTree) (path target : String) : Except Fault FileTree := do
  let place ← t.locate path false
  match place.node with
  | some _ => .error .exists
  | none => .ok { t with root := t.root.put (some (.link target)) place.names }

/-- Makes a folder where there is nothing yet. -/
def makeFolder (t : FileTree) (path : String) : Except Fault FileTree := do
  let place ← t.locate path false
  match place.node with
  | some _ => .error .exists
  | none => .ok { t with root := t.root.put (some (.folder [])) place.names }

/-- Makes a folder and the folders above it; a folder that is there already is fine. The refusal
    names the path that it is about. -/
def makeFolders (t : FileTree) (p : Path) : Except (Fault × Path) FileTree :=
  let whenThere (fault : Fault) : Except (Fault × Path) FileTree :=
    match t.isFolder p.text with
    | .ok true => .ok t
    | .ok false => .error (fault, p)
    | .error other => .error (other, p)
  match t.makeFolder p.text with
  | .ok made => .ok made
  | .error .missing =>
    -- Above a path without names there is nothing that could be made.
    if _h : p.names = [] then .error (.missing, p)
    else do
      let made ← makeFolders t p.parent
      match made.makeFolder p.text with
      | .ok made => .ok made
      -- It may have come into being with the folders above, if the path leads back through `..`.
      | .error fault =>
        match made.isFolder p.text with
        | .ok true => .ok made
        | _ => .error (fault, p)
  | .error fault => whenThere fault
termination_by p.names.length
decreasing_by
  simp only [Path.parent, List.length_dropLast]
  have : p.names.length ≠ 0 := fun h => _h (List.length_eq_zero_iff.mp h)
  omega

/-- Removes a file or a link. -/
def remove (t : FileTree) (path : String) : Except Fault FileTree := do
  let place ← t.locate path false
  match place.node with
  | none => .error .missing
  | some (.folder _) => .error .isFolder
  | some (.sealed _) => .error .isFolder
  | some _ => .ok { t with root := t.root.put none place.names }

/-- Whether a path ends with a name that something has in a folder. -/
def endsInName (path : String) : Bool :=
  match (namesOf path).getLast? with
  | some name => !Path.isIdle name && name ≠ ".."
  | none => false

/-- Removes a folder with everything in it; a folder that the end of its path does not name is only
    emptied. What is no folder, or may not be searched, is left alone. -/
def removeTree (t : FileTree) (path : String) : FileTree :=
  match t.locate path false with
  | .ok ⟨names, some (.folder _)⟩ =>
    { t with root := t.root.put (if endsInName path then none else some (.folder [])) names }
  | _ => t

/-- Sets when a file was last changed. -/
def setTime (t : FileTree) (path : String) (time : Int) : Except Fault FileTree := do
  let place ← t.locate path
  match place.node with
  | none => .error .missing
  | some (.file content _) =>
    .ok { t with root := t.root.put (some (.file content time)) place.names }
  | some _ => .ok t

end FileTree

end Backlog.Files
