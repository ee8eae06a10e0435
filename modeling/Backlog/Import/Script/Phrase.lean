import Backlog.Import.Syntax
import Backlog.Import.Script.Token

namespace Backlog.Import.Script

open Backlog.Text

/-!
# Import statements and calls of JavaScript and TypeScript

The tokens of a source as a tree: what is in brackets is one phrase, and so are statements that name
a module to import or export from, and calls of `require` and `import`.

The tree that is made of these phrases is no more than what imports are read from. Whatever else there
is in a source is a group, an operand or a mark, and a node has a text only where somebody may ask
for it.

* `phrases` — the phrases that some tokens make;
* `Phrase.nodes` — the nodes of a phrase;
* `parse` — the tree of a source.
-/

/-- A part of a source. -/
inductive Phrase where
  | token (t : Token)
  /-- What is between brackets. -/
  | group (bracket : Char) (parts : List Phrase)
  /-- A statement that imports or exports from a module: its first word, the line that it begins on,
  and the string that names the module, unless the module is assigned. -/
  | source (keyword : String) (row : Nat) (name : Option (List Letter))
  /-- A call of `require` or `import`: its first word, the line that it begins on, and what is
  between its parentheses. -/
  | call (callee : String) (row : Nat) (arguments : List Phrase)

/-! ### Recognising statements and calls -/

/-- What stands before a word, as far as it can keep the word from being called. -/
inductive Before where
  | dot
  | newWord
  | functionWord
  | anything
  deriving DecidableEq, Repr

/-- A word. -/
def Phrase.word? : Phrase → Option String
  | .token ⟨_, .word text _⟩ => some (String.ofList text)
  | _ => none

/-- A mark. -/
def Phrase.mark? : Phrase → Option String
  | .token ⟨_, .mark text⟩ => some text
  | _ => none

/-- A string. -/
def Phrase.string? : Phrase → Option (List Letter)
  | .token ⟨_, .text letters⟩ => some letters
  | _ => none

/-- Whether a phrase is a group in these brackets. -/
def Phrase.isGroup (bracket : Char) : Phrase → Bool
  | .group b _ => b = bracket
  | _ => false

/-- What stands before the phrase after `p`. -/
def Before.after (before : Before) (p : Phrase) : Before :=
  if p.mark? = some "." || p.mark? = some "?." then .dot
  else if before ≠ .dot && p.word? = some "new" then .newWord
  else if before ≠ .dot && p.word? = some "function" then .functionWord
  else if before = .functionWord && p.mark? = some "*" then .functionWord
  else .anything

/-- The marks that can stand among the arguments of a type. -/
def typeMarks : List String := [".", ",", "|", "&", "=>", "?", ":", "-", "..."]

/-- Whether a phrase can stand among the arguments of a type. -/
def Phrase.isTyping : Phrase → Bool
  | .token ⟨_, .word _ _⟩ => true
  | .token ⟨_, .text _⟩ => true
  | .token ⟨_, .mark text⟩ => typeMarks.contains text
  | .token _ => false
  | _ => true

/-- The number of phrases up to the end of `depth` angle brackets. -/
def anglesSize (depth : Nat) : List Phrase → Option Nat
  | [] => none
  | p :: rest =>
    if p.mark? = some "<" then (anglesSize (depth + 1) rest).map (· + 1)
    else if p.mark? = some ">" then
      if depth ≤ 1 then some 1 else (anglesSize (depth - 1) rest).map (· + 1)
    else if p.isTyping then (anglesSize depth rest).map (· + 1)
    else none

/-- The number of phrases that the arguments of a type take. -/
def typeArgumentsSize : List Phrase → Nat
  | [] => 0
  | p :: rest => if p.mark? = some "<" then ((anglesSize 1 rest).map (· + 1)).getD 0 else 0

/-- The parentheses of a call behind the arguments of a type: the number of phrases, and what is
    between them. -/
def parenthesised? (phrases : List Phrase) : Option (Nat × List Phrase) :=
  let size := typeArgumentsSize phrases
  match phrases.drop size with
  | .group '(' arguments :: _ => some (size + 1, arguments)
  | _ => none

/-- The arguments of a call behind the name that is called. A template instead of arguments is no
    argument itself. -/
def arguments? (phrases : List Phrase) : Option (Nat × List Phrase) :=
  match phrases with
  -- The text of the template is no string that could name a module.
  | .group '`' _ :: _ => some (1, [])
  | p :: rest =>
    if p.mark? = some "?." then (parenthesised? rest).map (fun found => (found.1 + 1, found.2))
    else parenthesised? phrases
  | [] => none

/-- The number of phrases of the attributes behind the name of a module. -/
def attributesSize : List Phrase → Nat
  | p :: .group '{' _ :: _ => if p.word? = some "with" || p.word? = some "assert" then 2 else 0
  | _ => 0

/-- The module behind `from`: the number of phrases and its name. -/
def from? : List Phrase → Option (Nat × List Letter)
  | p :: q :: rest =>
    -- `from` can be a name that is imported as well, so it counts only before a string.
    if p.word? = some "from" then
      q.string?.map (fun name => (2 + attributesSize rest, name))
    else none
  | _ => none

/-- Whether the module that is required is assigned to a name. -/
def isAssignment : List Phrase → Bool
  | p :: q :: .group '(' _ :: _ => p.mark? = some "=" && q.word? = some "require"
  | _ => false

/-- Whether a phrase can stand between `import` and `from`. -/
def Phrase.isClause (p : Phrase) : Bool :=
  p.word?.isSome || p.isGroup '{' || p.mark? = some "*" || p.mark? = some ","

/-- What follows on `import` in a statement: the number of phrases, and the name of the module
    unless it is assigned. -/
def clause? : List Phrase → Option (Nat × Option (List Letter))
  | [] => none
  | p :: rest =>
    match from? (p :: rest) with
    | some (size, name) => some (size, some name)
    | none =>
      if isAssignment (p :: rest) then some (3, none)
      else if p.isClause then (clause? rest).map (fun found => (found.1 + 1, found.2))
      else none

/-- The rest of an import statement. -/
def importSource? (phrases : List Phrase) : Option (Nat × Option (List Letter)) :=
  match phrases with
  | [] => none
  | p :: rest =>
    match p.string? with
    | some name => some (1 + attributesSize rest, some name)
    | none => clause? phrases

/-- What is exported from a module: everything, everything under a name, or some names. -/
def exportedSize : List Phrase → Option Nat
  | [] => none
  | p :: rest =>
    if p.isGroup '{' then some 1
    else if p.mark? = some "*" then
      if (rest.head?.bind Phrase.word?) = some "as" then some 3 else some 1
    else none

/-- The rest of an export statement that names a module. -/
def exportSource? (phrases : List Phrase) : Option (Nat × List Letter) := do
  let typeSize := if (phrases.head?.bind Phrase.word?) = some "type" then 1 else 0
  let size ← exportedSize (phrases.drop typeSize)
  let (fromSize, name) ← from? (phrases.drop (typeSize + size))
  return (typeSize + size + fromSize, name)

/-- The statement or call that begins with a word, and the number of phrases that belong to it. -/
def recognise (before : Before) (word : String) (row : Nat) (rest : List Phrase) :
    Option (Phrase × Nat) :=
  if before = .dot then none
  else match word with
    | "import" =>
      match importSource? rest with
      | some (size, name) => some (.source word row name, size)
      | none => (arguments? rest).map (fun found => (.call word row found.2, found.1))
    | "export" =>
      (exportSource? rest).map (fun found => (.source word row (some found.2), found.1))
    | "require" =>
      if before = .anything then
        (arguments? rest).map (fun found => (.call word row found.2, found.1))
      else none
    | _ => none

/-- A row of phrases with its statements and calls put together. -/
def assemble (before : Before) : List Phrase → List Phrase
  | [] => []
  | .token ⟨commented, .word text row⟩ :: rest =>
    match recognise before (String.ofList text) row rest with
    | some (found, size) => found :: assemble .anything (rest.drop size)
    | none =>
      -- A word that begins nothing stays, and decides whether the next one can be called.
      let p := Phrase.token ⟨commented, .word text row⟩
      p :: assemble (before.after p) rest
  | p :: rest => p :: assemble (before.after p) rest
termination_by phrases => phrases.length
decreasing_by all_goals simp only [List.length_cons, List.length_drop]; omega

/-! ### The tree -/

/-- The groups that are open at a place. -/
structure Nesting where
  /-- The phrases of the innermost group so far, in reverse. -/
  parts : List Phrase
  /-- The brackets that are open, innermost first, each with the phrases before it in reverse. -/
  around : List (Char × List Phrase)

namespace Nesting

/-- Closes the innermost group. A bracket that closes nothing is passed over. -/
def close (n : Nesting) : Nesting :=
  match n.around with
  | (bracket, before) :: around =>
    ⟨.group bracket (assemble .anything n.parts.reverse) :: before, around⟩
  | [] => n

/-- Adds a token. -/
def add (n : Nesting) (t : Token) : Nesting :=
  match t.piece with
  | .opening bracket => ⟨[], (bracket, n.parts) :: n.around⟩
  | .closing => n.close
  | _ => { n with parts := .token t :: n.parts }

/-- The phrases when all brackets are closed. -/
def phrases (n : Nesting) : List Phrase :=
  -- Brackets that are still open at the end are closed there.
  assemble .anything (n.around.foldl (fun n _ => n.close) n).parts.reverse

end Nesting

/-- The phrases that some tokens make. -/
def phrases (tokens : List Token) : List Phrase := (tokens.foldl Nesting.add ⟨[], []⟩).phrases

/-! ### Strings -/

/-- The number of letters that a backslash in a string hides. -/
def escapeSize (letters : List Letter) : Nat :=
  match letters.map Letter.look with
  | [] => 0
  | 'x' :: _ => 3
  | 'u' :: '{' :: rest => (rest.takeWhile (· ≠ '}')).length + 3
  | 'u' :: _ => 5
  | '\r' :: c :: _ => if c = '\n' || c = '\u2028' || c = '\u2029' then 2 else 1
  | cs => max 1 ((cs.take 3).takeWhile (fun c => '0' ≤ c && c ≤ '7')).length

/-- The letters of a string behind the escapes that it begins with. -/
def afterEscapes : List Letter → List Letter
  | [] => []
  | l :: rest => if l.look = '\\' then afterEscapes (rest.drop (escapeSize rest)) else l :: rest
termination_by letters => letters.length
decreasing_by simp only [List.length_cons, List.length_drop]; omega

/-- The first part of a string that is written without escapes: it is what the string counts for. -/
def fragment (letters : List Letter) : List Letter :=
  (afterEscapes letters).takeWhile (fun l => l.look ≠ '\\')

/-! ### The nodes of the tree -/

/-- A node with a name. -/
def node (kind : String) (field : Option String) (row : Nat) (children : List SyntaxNode) :
    SyntaxNode :=
  ⟨kind, field, true, row, [], children⟩

/-- A node without anything below. -/
def leaf (kind : String) (field : Option String) (isNamed : Bool) (letters : List Letter) :
    SyntaxNode :=
  ⟨kind, field, isNamed, 0, letters.flatMap Letter.bytes, []⟩

/-- The node of a string, between its quotes. Of a string with escapes only one part is told. -/
def stringNode (field : Option String) (letters : List Letter) : SyntaxNode :=
  let part := fragment letters
  let quote := leaf "\"" none false []
  node "string" field 0 (
    if part.isEmpty then [quote, quote]
    else [quote, leaf "string_fragment" none true part, quote])

/-- The node of what is called. -/
def calleeNode (callee : String) : SyntaxNode :=
  let kind := if callee = "import" then "import" else "identifier"
  leaf kind (some "function") true (callee.toList.map .char)

/-- The node of the operand that some nodes make. -/
def operandNodes (nodes : List SyntaxNode) : List SyntaxNode :=
  match nodes with
  | [] => []
  | [operand] => [operand]
  | _ => [node "expression" none 0 nodes]

/-- Whether a node stands in front of an argument without being part of it. -/
def leads (n : SyntaxNode) : Bool := n.kind = "," || n.kind = "comment"

/-- Puts the first of some arguments together. Those behind it stay as they are. -/
def argumentNodes (nodes : List SyntaxNode) : List SyntaxNode :=
  let rest := nodes.dropWhile leads
  let first := rest.takeWhile fun n => n.kind ≠ ","
  -- A comment behind the argument is no part of it either.
  nodes.takeWhile leads ++ operandNodes (first.filter fun n => n.kind ≠ "comment") ++
    rest.dropWhile fun n => n.kind ≠ ","

/-- The node of a token. -/
def Piece.node : Piece → SyntaxNode
  | .word letters _ => leaf "identifier" none true (letters.map .char)
  | .text letters => stringNode none letters
  | .mark sign => leaf sign none false []
  | _ => leaf "expression" none true []

/-- The nodes of a token: a comment in front of it has one of its own. -/
def Token.nodes (t : Token) : List SyntaxNode :=
  if t.commented then [leaf "comment" none true [], t.piece.node] else [t.piece.node]

mutual

/-- The nodes of a phrase. -/
def Phrase.nodes : Phrase → List SyntaxNode
  | .token t => t.nodes
  | .group _ parts => [node "expression" none 0 (nodesOf parts)]
  | .source keyword row name =>
    [node (keyword ++ "_statement") none row (name.map (stringNode (some "source"))).toList]
  | .call callee row arguments =>
    [node "call_expression" none row
      [calleeNode callee, node "arguments" (some "arguments") 0 (argumentNodes (nodesOf arguments))]]

/-- The nodes of some phrases. -/
def nodesOf : List Phrase → List SyntaxNode
  | [] => []
  | p :: rest => p.nodes ++ nodesOf rest

end

/-- The tree of a source, as far as imports are read from it. -/
def parse (markup : Bool) : SourceParser := fun source =>
  node "program" none 0 (nodesOf (phrases (tokens markup (lettersOf source))))

end Backlog.Import.Script
