import Backlog.Import.Source

namespace Backlog

open Backlog.Files

/-!
# The files that imports stand for

Both families of languages look for an import in several places, one after another. The places are
laid out first, as rows of lists, and then looked at in order; so where an import is looked for can
be said without a file system.

* `WrittenImport.search` — where an import is looked for: rows of candidates, of which the first row
  that leads to files of the project counts;
* `Sources.resolve` — the imports of a file with the files that they lead to.
-/

/-- Some places to look for one file: the first that leads to a file of the project counts. -/
abbrev Candidates := List Path

/-! ### Python -/

/-- The folders, seen from the root of a project, in which modules are looked for. -/
def pythonFolders : List String := ["src", "lib", "app", ""]

/-- The number of dots in front of a text, and what follows on them. -/
def leadingDots : List Char → Nat × List Char
  | '.' :: rest => let (n, after) := leadingDots rest; (n + 1, after)
  | cs => (0, cs)

/-- The names of a text between its dots, without empty ones. -/
def splitDots (cs : List Char) : List String :=
  (((String.ofList cs).splitOn ".")).filter (· ≠ "")

/-- The folder some steps above a path. -/
def above (p : Path) : Nat → Path
  | 0 => p
  | n + 1 => above p.parent n

/-- The files of a module with a dotted name: a file of its own, or that of a package. -/
def moduleFiles (base : Path) (dotted : String) : Candidates :=
  match splitDots dotted.toList with
  -- Dots alone name the package of the folder itself.
  | [] => [base.child "__init__.py"]
  | names =>
    let target := names.foldl (fun p name => p.join (.ofText name)) base
    [target.parent.child (target.name ++ ".py"), target.child "__init__.py"]

/-- The folders that an import begins at, with what is looked for there: leading dots name a folder
    above the importing file, and without dots each of the project's folders counts. -/
def pythonBases (specifier : String) (importer root : Path) : List (Path × String) :=
  match leadingDots specifier.toList with
  | (0, _) => pythonFolders.map (fun folder => (root.join (.ofText folder), specifier))
  | (level, rest) => [(above importer.parent (level - 1), String.ofList rest)]

/-- The places of the module itself, and of each name that is imported from it. -/
def pythonCandidates (names : List String) (base : Path) (module : String) : List Candidates :=
  moduleFiles base module :: names.map (fun name => moduleFiles base s!"{module}.{name}")

/-! ### JavaScript and TypeScript -/

/-- The suffixes that an import may leave out. -/
def scriptSuffixes : List String :=
  [".ts", ".tsx", ".mts", ".cts", ".js", ".jsx", ".mjs", ".cjs"]

/-- The suffixes of the sources from which a file with a suffix is made. -/
def sourceSuffixes (suffix : String) : List String :=
  match suffix with
  | ".js" => [".ts", ".tsx"]
  | ".jsx" => [".tsx"]
  | ".mjs" => [".mts"]
  | ".cjs" => [".cts"]
  | _ => []

/-- The beginnings that stand for a folder of the project. -/
def scriptAliases : List (String × String) := [("@/", "src/"), ("~/", "src/")]

/-- A text with a beginning exchanged for another. -/
def exchangeStart (text start replacement : String) : Option String :=
  if text.startsWith start then
    some (replacement ++ String.ofList (text.toList.drop start.length))
  else none

/-- The path that an import names, if it names one: all others are packages. -/
def scriptTarget? (specifier : String) (importer root : Path) : Option Path :=
  if specifier.startsWith "./" || specifier.startsWith "../" || specifier = "." || specifier = ".."
  then some ((importer.parent.join (.ofText specifier)).collapsed)
  else
    (scriptAliases.findSome? fun a => exchangeStart specifier a.1 a.2).map
      (fun text => (root.join (.ofText text)).collapsed)

/-- The files that a path can stand for: the file itself, the sources that it is made from, the file
    without its suffix, and the index of a folder. -/
def scriptCandidates (target : Path) : Except Trouble Candidates :=
  -- Such a path, as that of the root, has nothing to put a suffix behind.
  if target.names.isEmpty then .error (.nameless target.text)
  else .ok (target :: (sourceSuffixes target.suffix).map target.withSuffix ++
    scriptSuffixes.map (fun suffix => target.parent.child (target.name ++ suffix)) ++
    scriptSuffixes.map (fun suffix => target.child ("index" ++ suffix)))

/-! ### Both -/

/-- Where an import is looked for. Each row stands for one folder to begin at. -/
def WrittenImport.search (i : WrittenImport) (language : Language) (importer root : Path) :
    Except Trouble (List (List Candidates)) :=
  match language with
  | .python =>
    .ok ((pythonBases i.specifier importer root).map
      (fun base => pythonCandidates i.names base.1 base.2))
  | .ecmascript _ =>
    match scriptTarget? i.specifier importer root with
    | none => .ok []
    | some target => (scriptCandidates target).map (fun candidates => [[candidates]])

/-- The source files of a project. -/
structure Sources where
  tree : FileTree
  root : Path
  /-- The real paths of the files. -/
  known : List Path

namespace Sources

/-- The source file that a path leads to. -/
def lookup (s : Sources) (candidate : Path) : Except Trouble (Option Path) :=
  -- A candidate that is spelled as a source file is one, without a look at the tree.
  if s.known.contains candidate then .ok (some candidate)
  else do
    let isThere ← (s.tree.present candidate.text).mapError
      (fun fault => .file fault candidate.text)
    if isThere then
      let real ← (s.tree.resolve candidate).mapError .link
      return if s.known.contains real then some real else none
    else return none

/-- The first source file that some paths lead to. -/
def firstOf (s : Sources) : Candidates → Except Trouble (Option Path)
  | [] => .ok none
  | candidate :: rest => do
    match ← s.lookup candidate with
    | some path => return some path
    | none => s.firstOf rest

/-- The distinct source files that a row of places leads to. -/
def hits (s : Sources) (row : List Candidates) : Except Trouble (List Path) := do
  let found ← row.mapM s.firstOf
  return (found.filterMap id).foldl
    (fun paths p => if paths.contains p then paths else paths ++ [p]) []

/-- The source files of the first row that leads to any. -/
def firstHits (s : Sources) : List (List Candidates) → Except Trouble (List Path)
  | [] => .ok []
  | row :: rest => do
    match ← s.hits row with
    | [] => s.firstHits rest
    | paths => return paths

/-- An import with each file that it leads to, or with none. -/
def resolveOne (s : Sources) (language : Language) (importer : Path) (i : WrittenImport) :
    Except Trouble (List ResolvedImport) := do
  match ← s.firstHits (← i.search language importer s.root) with
  | [] => return [⟨i.specifier, i.line, none⟩]
  | paths => return paths.map (fun p => ⟨i.specifier, i.line, some p.text⟩)

/-- The imports of a file with the files that they lead to. -/
def resolve (s : Sources) (grammars : Grammars) (importer : Path) (imports : List WrittenImport) :
    Except Trouble (List ResolvedImport) :=
  match grammars.language? importer.suffix with
  | none => .ok []
  | some language => do return (← imports.mapM (s.resolveOne language importer)).flatten

end Sources

end Backlog
