namespace Backlog.Yaml

/-!
# Reading position

Positions are kept because the grammar speaks of them: indentation is a column, and a key has to be
on one line. What may stand in a name, in a plain scalar or between tokens is told by classes of
characters, which are the same wherever they are asked for.

* `Cursor` — what is left of a document, and where that begins;
* the classes of characters that the grammar of documents is made of.
-/

/-- What is wrong with a document. -/
inductive Fault where
  /-- It does not follow the grammar. -/
  | malformed
  /-- An escape names a code point that does not exist. -/
  | badCode (code : Nat)
  /-- An escape names half of a surrogate pair. -/
  | halfPair
  deriving DecidableEq, Repr

/-- Whether a character ends a line. -/
def isBreak (c : Char) : Bool :=
  c = '\n' || c = '\r' || c = '\x85' || c = '\u2028' || c = '\u2029'

/-- Whether a character is a space, a tab or a line end. -/
def isBlank (c : Char) : Bool := c = ' ' || c = '\t' || isBreak c

/-- Whether nothing, or a character of a class, comes next. -/
def endsOr (p : Char → Bool) : Option Char → Bool
  | none => true
  | some c => p c

/-- Whether a character may stand in an anchor or the name of a directive. -/
def isNameChar (c : Char) : Bool := c.isAlphanum || c = '-' || c = '_'

/-- Whether a character may stand in a document at all. -/
def isAllowed (c : Char) : Bool :=
  let n := c.toNat
  n = 0x09 || n = 0x0a || n = 0x0d || (0x20 ≤ n && n ≤ 0x7e) || n = 0x85 ||
    (0xa0 ≤ n && n ≤ 0xd7ff) || (0xe000 ≤ n && n ≤ 0xfffd) || 0x10000 ≤ n

/-- A position in a document. Line and column count from 0; a byte order mark takes no column. -/
structure Cursor where
  rest : List Char
  index : Nat
  line : Nat
  column : Nat

namespace Cursor

/-- The beginning of a document. -/
def start (cs : List Char) : Cursor := ⟨cs, 0, 0, 0⟩

/-- The next character. -/
def peek (k : Cursor) : Option Char := k.rest.head?

/-- The character after the next one. -/
def second (k : Cursor) : Option Char := (k.rest.drop 1).head?

/-- Passes one character. -/
def advance (k : Cursor) : Cursor :=
  match k.rest with
  | [] => k
  | c :: rest =>
    if isBreak c then ⟨rest, k.index + 1, k.line + 1, 0⟩
    -- A byte order mark takes no column, so a line that it begins is not indented by it.
    else ⟨rest, k.index + 1, k.line, if c = '\ufeff' then k.column else k.column + 1⟩

/-- Passes some characters. -/
def advanceBy : Nat → Cursor → Cursor
  | 0, k => k
  | n + 1, k => advanceBy n k.advance

/-- Passes the characters of a class. -/
def skipWhile (p : Char → Bool) (k : Cursor) : Cursor := k.advanceBy (k.rest.takeWhile p).length

/-- Takes the characters of a class. -/
def takeWhile (p : Char → Bool) (k : Cursor) : List Char × Cursor :=
  let taken := k.rest.takeWhile p
  (taken, k.advanceBy taken.length)

/-- The line end that comes next, as the character that it stands for: the two separators for
    themselves, all others for a line feed. -/
def lineEnd? (k : Cursor) : Option (Char × Cursor) :=
  match k.rest with
  | c :: _ =>
    if c = '\u2028' || c = '\u2029' then some (c, k.advance)
    else if isBreak c then some ('\n', k.advance)
    else none
  | [] => none

/-- Passes spaces and a comment up to the end of the line. -/
def skipComment (k : Cursor) : Cursor :=
  let k := k.skipWhile (· = ' ')
  if k.peek = some '#' then k.skipWhile (fun c => !isBreak c) else k

/-- Whether three hyphens or three points come next that stand for themselves. -/
def atSeparator (k : Cursor) : Bool :=
  match k.rest with
  -- With anything else behind them the three characters belong to a plain text.
  | '-' :: '-' :: '-' :: rest => endsOr isBlank rest.head?
  | '.' :: '.' :: '.' :: rest => endsOr isBlank rest.head?
  | _ => false

end Cursor

end Backlog.Yaml
