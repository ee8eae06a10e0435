import Backlog.Import.Syntax
import Backlog.Import.Python.Token

namespace Backlog.Import.Python

open Backlog.Text

/-!
# Import statements of Python

As much of the tree of a source as imports are read from: below its root there are the statements that
import, each with the names that are written in it, and nothing else.

* `statements` — the tokens of a source, statement by statement;
* `statementNode?` — the node of a statement, if it is one that imports;
* `parse` — the tree of a source.
-/

/-- Whether a statement can begin after a token. -/
def Token.endsStatement (t : Token) : Bool :=
  t.role = .lineEnd || (t.role = .mark && (t.looks ";" || t.looks ":"))

/-- Splits at the tokens that pass a test, which are dropped. -/
def splitTokens (test : Token → Bool) : List Token → List (List Token)
  | [] => [[]]
  | t :: rest =>
    match splitTokens test rest with
    | part :: parts => if test t then [] :: part :: parts else (t :: part) :: parts
    -- Never so: there is always a part, even of no tokens.
    | [] => [[t]]

/-- The statements of a source. What comes after a colon counts as one: where it is none, it does
    not begin as an import does. -/
def statements (tokens : List Token) : List (List Token) := splitTokens Token.endsStatement tokens

/-- The bytes of some tokens with everything between them. -/
def span : List Token → Bytes
  | [] => []
  | t :: rest => (t.letters ++ rest.flatMap (fun u => u.gap ++ u.letters)).flatMap Letter.bytes

/-- The line on which some tokens begin. -/
def rowOf (tokens : List Token) : Nat := (tokens.head?.map Token.row).getD 0

/-- A named node that some tokens make. -/
def node (kind : String) (field : Option String) (tokens : List Token)
    (children : List SyntaxNode) : SyntaxNode :=
  ⟨kind, field, true, rowOf tokens, span tokens, children⟩

/-- The tokens inside of parentheses, or all if there are none. -/
def unwrapped (tokens : List Token) : List Token :=
  match tokens with
  | t :: rest => if t.looks "(" then rest.takeWhile (fun u => !u.looks ")") else tokens
  | [] => []

/-- The node of one part of an import list: a name, and maybe what it is called afterwards. -/
def nameNode (part : List Token) : SyntaxNode :=
  let name := node "dotted_name" (some "name") (part.takeWhile fun t => !t.looks "as") []
  match part.dropWhile fun t => !t.looks "as" with
  | [] => name
  | _ :: called =>
    node "aliased_import" (some "name") part [name, node "identifier" (some "alias") called []]

/-- The nodes of an import list. -/
def nameNodes (tokens : List Token) : List SyntaxNode :=
  (splitTokens (fun t => t.looks ",") (unwrapped tokens)).map nameNode

/-- Whether an import list takes everything. -/
def isWildcard (tokens : List Token) : Bool :=
  match tokens with
  | t :: _ => t.looks "*"
  | [] => false

/-- What a list that takes names from a module holds. A wildcard is no name. -/
def memberNodes (list : List Token) : List SyntaxNode :=
  if isWildcard list then [node "wildcard_import" none list []] else nameNodes list

/-- The node of a module that names are imported from. -/
def moduleNode (tokens : List Token) : SyntaxNode :=
  let isRelative := tokens.head?.any fun t => t.looks "."
  node (if isRelative then "relative_import" else "dotted_name") (some "module_name") tokens []

/-- The node of a statement that imports. One that sets what the language itself means is written in
    the same way, but imports nothing. -/
def statementNode? (statement : List Token) : Option SyntaxNode :=
  match statement with
  | [] => none
  | t :: rest =>
    if t.looks "import" then some (node "import_statement" none statement (nameNodes rest))
    else if t.looks "from" then
      let module := moduleNode (rest.takeWhile fun t => !t.looks "import")
      let list := (rest.dropWhile fun t => !t.looks "import").drop 1
      if module.text = Utf8.encode "__future__" then none
      else some (node "import_from_statement" none statement (module :: memberNodes list))
    else none

/-- The tree of a source, as far as imports are read from it. -/
def parse : SourceParser := fun source =>
  ⟨"module", none, true, 0, source,
    (statements (tokens (lettersOf source))).filterMap statementNode?⟩

end Backlog.Import.Python
