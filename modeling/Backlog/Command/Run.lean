import Backlog.Command.Selecting
import Backlog.Console.Markup
import Backlog.Console.Table
import Backlog.Import.Parsers
import Backlog.Ledger.Apply

namespace Backlog.Command

open Backlog.Files Backlog.Text

/-!
# Running a command line

* `run` — what a command line shows, the status that it ends with, and the file system after it.

The status is 0 if all goes well, 1 if no rule can be selected or something unexpected happens, and 2
if the command line or the input cannot be used.
-/

/-- What a run comes to. -/
structure Outcome where
  status : Nat
  /-- What is written to the output. -/
  output : String
  /-- What is told beside the output. -/
  messages : List String
  tree : FileTree
  /-- A failure that the program does not expect. -/
  failure : Option RunError

namespace Outcome

/-- A run that shows something. -/
def shows (tree : FileTree) (output : String) : Outcome := ⟨0, output, [], tree, none⟩

/-- A run that ends with a refusal. -/
def refuses (tree : FileTree) (reason : String) : Outcome :=
  ⟨2, "", [s!"Error: {reason}"], tree, none⟩

/-- A run that fails. -/
def fails (tree : FileTree) (e : RunError) : Outcome :=
  if e.isReported then refuses tree e.message else ⟨1, "", [], tree, some e⟩

end Outcome

/-! ### Showing -/

/-- The number of cells in a line. -/
def lineWidth : Nat := 80

/-- Lines as text. -/
def linesText (lines : List (List Char)) : String :=
  String.ofList (lines.flatMap (fun line => line ++ ['\n']))

/-- A document in lines. -/
def documentText (data : Data) : String := String.ofList (Json.write .lines data ++ ['\n'])

/-- What is said when no rule can be selected. -/
def nothingSelected : String := "No rule can be selected within the current limit."

/-- A value as it shows in a cell or a line that is marked up. -/
def cellText (text : String) : List Char := Console.shown (Console.escaped text.toList)

/-- The line about the rule that is selected. -/
def headline (s : Selection) : List Char :=
  Console.shown ("Selected [bold]".toList ++ Console.escaped s.rule.toList ++
    s!"[/] ({s.extent.name})".toList)

/-- The table of the violations that are selected. -/
def violationTable (counts : Counts) : List (List Char) :=
  Console.tableLines lineWidth
    [⟨"file".toList, .left, counts.entries.map (fun e => cellText e.1)⟩,
      ⟨"violations".toList, .right, counts.entries.map (fun e => (toString e.2).toList)⟩]

/-- A selection as it shows: the violations are listed if they are only a part of a rule's. -/
def selectionText : Option Selection → String
  | none => linesText [nothingSelected.toList]
  | some s =>
    let counts := s.violations.getD .empty
    linesText (Console.paragraph lineWidth (headline s) ++
      if counts.isEmpty then [] else violationTable counts)

/-! ### Commands -/

/-- Shows a selection. -/
def runSelect (readers : Readers) (tree : FileTree) (now : Int) (r : SelectionRequest)
    (json : Bool) : Outcome :=
  match r.run readers tree now with
  | (tree, .error e) => .fails tree e
  | (tree, .ok selected) =>
    let selection := selected.selection
    let output := if json then documentText (selectionData selection) else selectionText selection
    { Outcome.shows tree output with status := if selection.isSome then 0 else 1 }

/-- Makes a selection and removes it from the ledger, on paper or in its file. -/
def runApply (readers : Readers) (tree : FileTree) (now : Int) (r : SelectionRequest)
    (write : Bool) : Outcome :=
  match r.run readers tree now with
  | (tree, .error e) => .fails tree e
  | (tree, .ok selected) =>
    match selected.selection with
    | none => ⟨1, "", [nothingSelected], tree, none⟩
    | some s =>
      -- The new ledger is written down as a whole before its file is touched.
      match (selected.ledger.apply (some s)).dump? with
      | .error cause => .fails tree (.text cause)
      | .ok text =>
        if write then
          let path := r.ledger.text
          match tree.write path (Utf8.encode text) now with
          | .ok written =>
            ⟨0, "", [s!"Removed {s.rule} ({s.extent.name}) from {path}"], written, none⟩
          | .error fault => .fails tree (.file fault path)
        else .shows tree text

/-- The path of a module seen from a project. -/
def shownModule (tree : FileTree) (root : Path) (path : String) : Except RunError String :=
  if path = "" then .error .pathless
  else
    let full := ((currentFolder tree).join (.ofText path)).collapsed
    .ok (full.from root).text

/-- The files that are listed for a graph, in order. -/
def listedFiles (tree : FileTree) (root : Path) (scope : DependencyScope) (graph : ImportGraph) :
    Except RunError (List String) := do
  let paths ← (graph.scopeReach scope ⟨tree, root⟩).mapError .link
  return sortedTexts (← paths.mapM (shownModule tree root))

/-- The document about a graph. -/
def graphData (scope : DependencyScope) (graph : ImportGraph) (files : List String) : Data :=
  .map [
    (.text "entryPoints", .list (scope.entryPoints.map .text)),
    (.text "mode", .text scope.mode.name),
    (.text "depth", (scope.maxDepth.map Data.int).getD .null),
    (.text "modules", .int graph.nodes.size),
    (.text "files", .list (files.map .text))]

/-- Lists the modules that entry points are connected to. -/
def runGraph (grammars : Grammars) (tree : FileTree) (now : Int) (r : GraphRequest) (json : Bool) :
    Outcome :=
  match tree.resolve (projectRoot tree r.project) with
  | .error e => .fails tree (.link e)
  | .ok root =>
    match ImportGraph.ofScope r.scope ⟨tree, root⟩ (cacheOf root r.noCache) now (builder grammars) with
    | .error e => .fails tree (.graph e)
    | .ok found =>
      -- The graph is in the cache by now, and stays there if the listing is refused.
      match listedFiles found.tree root r.scope found.graph with
      | .error e => .fails found.tree e
      | .ok files =>
        if json then .shows found.tree (documentText (graphData r.scope found.graph files))
        else
          { Outcome.shows found.tree (linesText (files.map String.toList)) with
            messages := [s!"{files.length} of {found.graph.nodes.size} modules reachable"] }

/-- The version of the program. -/
def versionText : String := "paydown, version 0.4.0\n"

/-- What a request comes to. The pages that explain the command line are left out. -/
def runRequest (readers : Readers) (tree : FileTree) (now : Int) : Request → Outcome
  | .select selection json => runSelect readers tree now selection json
  | .apply selection write => runApply readers tree now selection write
  | .graph graph json => runGraph readers.grammars tree now graph json
  | .clearCache project =>
    .shows ((GraphCache.ofProject (projectRoot tree project)).clear tree)
      "Import graph cache cleared.\n"
  | .help => .shows tree ""
  | .version => .shows tree versionText

/-- The readers of this project. -/
def Readers.all : Readers := ⟨.all, Yaml.parse⟩

/-- What a command line comes to. `now` is the time that files which are written get. -/
def run (readers : Readers) (tree : FileTree) (now : Int) (words : List String) : Outcome :=
  match Request.ofWords tree words with
  | .ok request => runRequest readers tree now request
  | .error .nothing => ⟨2, "", [], tree, none⟩
  | .error (.argument (.usage cause)) => .refuses tree cause.message
  | .error (.argument (.path fault)) => .fails tree (.file fault "")

end Backlog.Command
