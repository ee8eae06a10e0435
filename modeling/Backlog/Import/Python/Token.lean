import Backlog.Text.Letter

namespace Backlog.Import.Python

open Backlog.Text

/-!
# Words and marks of Python sources

Only as much of the language as it takes to find statements: what is a word, what is a mark, what is
inside a string or a comment, and which line ends end a statement.

* `roles` — what each character of a source is part of;
* `tokens` — the words and marks of a source, each with its line and with the text before it.
-/

/-- What a character is part of. -/
inductive Role where
  /-- A name, a keyword or a number. -/
  | word
  | mark
  /-- A string, replacement fields included. -/
  | literal
  /-- White space, a comment, or a line end that does not count. -/
  | blank
  /-- A line end that ends a statement. -/
  | lineEnd
  deriving DecidableEq, Repr

/-- What a character can be inside of, apart from brackets. -/
inductive Frame where
  | comment
  /-- A string: its quote, whether there are three of them, whether backslashes mean themselves, and
  whether braces hold fields. -/
  | text (quote : Char) (triple raw formatted : Bool)
  /-- A replacement field, with the number of open brackets in it. -/
  | field (depth : Nat)
  /-- The format of a replacement field. -/
  | format
  deriving DecidableEq, Repr

/-- What the characters so far say about those that follow. -/
structure State where
  /-- What encloses the next character, innermost first. -/
  frames : List Frame
  /-- The number of open brackets outside of strings. -/
  depth : Nat
  /-- The word that ends right before the next character, in reverse. -/
  word : List Char
  /-- The roles of the next characters, as far as they are settled already. -/
  ahead : List Role
  deriving Repr

/-- The state at the start of a source. -/
def State.start : State := ⟨[], 0, [], []⟩

/-- Whether a character is space between words. -/
def isBlank (c : Char) : Bool :=
  c = ' ' || ('\t' ≤ c && c ≤ '\r') || c = '\uFEFF' || c = '\u2060' || c = '\u200B'

/-- Whether a character can be part of a word. -/
def isWordChar (c : Char) : Bool :=
  !isBlank c && (c.isAlphanum || c = '_' || '\x7f' < c)

/-- Whether a word in front of a quote is part of the string. -/
def opensString (word : List Char) : Bool :=
  word.all (fun c => ['f', 'r', 'b', 'u', 't'].contains c.toLower)

/-- Whether one of some letters, small or large, is in front of a quote. -/
def marked (word letters : List Char) : Bool := word.any (fun c => letters.contains c.toLower)

/-- The frame of a string that begins with a quote after a word. -/
def stringFrame (word : List Char) (quote : Char) (triple : Bool) : Frame :=
  let letters := if opensString word then word else []
  .text quote triple (marked letters ['r']) (marked letters ['f', 't'])

/-- Whether a text begins with a quote twice. -/
def beginsTwice (quote : Char) : List Char → Bool
  | a :: b :: _ => a = quote && b = quote
  | _ => false

/-- Enters a string at its first quote. -/
def State.enterString (s : State) (quote : Char) (rest : List Char) : State :=
  let triple := beginsTwice quote rest
  { s with
    frames := stringFrame s.word quote triple :: s.frames
    word := []
    ahead := if triple then [.literal, .literal] else [] }

/-- The blanks that a backslash at the end of a line makes of the line end. -/
def continuedLine : List Char → Option (List Role)
  | '\n' :: _ => some [.blank]
  | '\r' :: '\n' :: _ => some [.blank, .blank]
  | _ => none

/-- A character outside of strings and comments. -/
def codeStep (s : State) (c : Char) (rest : List Char) : Role × State :=
  let s' := { s with word := [] }
  match c with
  | '#' => (.blank, { s' with frames := .comment :: s.frames })
  | '"' => (.literal, s.enterString c rest)
  | '\'' => (.literal, s.enterString c rest)
  -- Inside brackets a line end separates words like any other blank.
  | '\n' => (if s.depth = 0 then .lineEnd else .blank, s')
  | '(' => (.mark, { s' with depth := s.depth + 1 })
  | '[' => (.mark, { s' with depth := s.depth + 1 })
  | '{' => (.mark, { s' with depth := s.depth + 1 })
  | ')' => (.mark, { s' with depth := s.depth - 1 })
  | ']' => (.mark, { s' with depth := s.depth - 1 })
  | '}' => (.mark, { s' with depth := s.depth - 1 })
  | '\\' =>
    match continuedLine rest with
    | some ahead => (.blank, { s' with ahead := ahead })
    | none => (.mark, s')
  | _ =>
    if isBlank c then (.blank, s')
    -- The word is kept while it grows, since a quote right behind it asks for its letters.
    else if isWordChar c then (.word, { s with word := c :: s.word })
    else (.mark, s')

/-- How many characters after a backslash belong to it: a quote or a backslash is hidden by it, and
    so is a character's name, braces included. -/
def escapedCount (raw formatted : Bool) (quote : Char) (rest : List Char) : Nat :=
  match rest with
  | [] => 0
  | c :: more =>
    -- Even where backslashes mean themselves, one before a quote keeps it from ending the string.
    if raw then if c = quote || c = '\\' || c = '\n' || c = '\r' then 1 else 0
    else if formatted && c = 'N' && more.head? = some '{' then
      (more.takeWhile (· ≠ '}')).length + 2
    else if ['"', '\'', '\\', '\n', '\r'].contains c then 1
    else 0

/-- A character inside a string. -/
def textStep (s : State) (outer : List Frame) (quote : Char) (triple raw formatted : Bool) (c : Char)
    (rest : List Char) : State :=
  if c = '\\' then
    { s with ahead := List.replicate (escapedCount raw formatted quote rest) .literal }
  else if c = quote && (!triple || beginsTwice quote rest) then
    { s with frames := outer, ahead := if triple then [.literal, .literal] else [] }
  else if formatted && c = '{' then
    -- A doubled brace is a brace of the text.
    if rest.head? = some '{' then { s with ahead := [.literal] }
    else { s with frames := .field 0 :: s.frames }
  else s

/-- A character inside a replacement field. -/
def fieldStep (s : State) (outer : List Frame) (depth : Nat) (c : Char) (rest : List Char) : State :=
  let s' := { s with word := [] }
  match c with
  | '#' => { s' with frames := .comment :: s.frames }
  | '"' => s.enterString c rest
  | '\'' => s.enterString c rest
  | '(' => { s' with frames := .field (depth + 1) :: outer }
  | '[' => { s' with frames := .field (depth + 1) :: outer }
  | '{' => { s' with frames := .field (depth + 1) :: outer }
  | ')' => { s' with frames := .field (depth - 1) :: outer }
  | ']' => { s' with frames := .field (depth - 1) :: outer }
  | '}' => { s' with frames := if depth = 0 then outer else .field (depth - 1) :: outer }
  | ':' => if depth = 0 then { s' with frames := .format :: outer } else s'
  | _ => if isWordChar c then { s with word := c :: s.word } else s'

/-- A character inside the format of a field. -/
def formatStep (s : State) (outer : List Frame) (c : Char) : State :=
  match c with
  | '{' => { s with frames := .field 0 :: s.frames }
  | '}' => { s with frames := outer }
  | _ => s

/-- The role of a character, and what follows from it. -/
def step (s : State) (c : Char) (rest : List Char) : Role × State :=
  match s.ahead with
  | role :: ahead => (role, { s with ahead := ahead })
  | [] =>
    match s.frames with
    | [] => codeStep s c rest
    | .comment :: outer =>
      if c ≠ '\n' then (.blank, s)
      -- The line end is no part of the comment: outside of strings it may end a statement.
      else if outer.isEmpty then codeStep { s with frames := [] } c rest
      else (.literal, { s with frames := outer })
    | .text quote triple raw formatted :: outer =>
      (.literal, textStep s outer quote triple raw formatted c rest)
    | .field depth :: outer => (.literal, fieldStep s outer depth c rest)
    | .format :: outer => (.literal, formatStep s outer c)

/-- The roles of the characters of a source from a state on. -/
def rolesFrom (s : State) : List Char → List Role
  | [] => []
  | c :: rest => let (role, next) := step s c rest; role :: rolesFrom next rest

/-- The roles of the characters of a source. -/
def roles (source : List Char) : List Role := rolesFrom .start source

/-- A word, a mark, a string or a line end. -/
structure Token where
  /-- The line on which it begins, counted from zero. -/
  row : Nat
  role : Role
  /-- What is between it and the token before it. -/
  gap : List Letter
  letters : List Letter
  deriving DecidableEq, Repr

namespace Token

/-- Whether a token looks like a text. -/
def looks (t : Token) (text : String) : Bool := t.letters.map Letter.look = text.toList

/-- Puts a letter in front of some tokens. Letters of a word grow together, and so do those of a
    string; blanks belong to the gap before the token that follows. -/
def attach (row : Nat) (letter : Letter) (role : Role) (tokens : List Token) : List Token :=
  match role, tokens with
  | .blank, [] => []
  | .blank, t :: rest => { t with gap := letter :: t.gap } :: rest
  | _, [] => [⟨row, role, [], [letter]⟩]
  | _, t :: rest =>
    -- Tokens are built from the end, so a gap in front of `t` keeps the letter apart from it.
    if (role = .word || role = .literal) && t.role = role && t.gap.isEmpty then
      { t with row := row, letters := letter :: t.letters } :: rest
    else ⟨row, role, [], [letter]⟩ :: t :: rest

end Token

/-- The tokens of some letters whose roles are known, from a line on. -/
def tokensFrom (row : Nat) : List (Letter × Role) → List Token
  | [] => []
  | (letter, role) :: rest =>
    Token.attach row letter role
      (tokensFrom (if letter.look = '\n' then row + 1 else row) rest)

/-- The tokens of a source. -/
def tokens (source : List Letter) : List Token :=
  tokensFrom 0 (source.zip (roles (source.map Letter.look)))

end Backlog.Import.Python
