import Backlog.Text.Digit
import Backlog.Yaml.Cursor

namespace Backlog.Yaml

open Backlog.Text

/-!
# Texts in documents

The ways of writing a text: plain, in quotes, or as a block of lines.

* `readPlain`, `readQuoted`, `readBlock` — read one, after its first indicator if it has one.
-/

/-! ### Plain texts -/

/-- Whether a character of a plain text ends it, given the one after it. Inside brackets more
    characters end it. -/
def endsPlain (inFlow : Bool) (c : Char) (after : Option Char) : Bool :=
  isBlank c ||
    (c = ':' && endsOr (fun d => isBlank d || (inFlow && ",[]\x7b\x7d".toList.contains d)) after) ||
    (inFlow && ",?[]\x7b\x7d".toList.contains c)

/-- The next piece of a plain text, without blanks. -/
def plainRun (inFlow : Bool) : List Char → List Char
  | [] => []
  | c :: rest => if endsPlain inFlow c rest.head? then [] else c :: plainRun inFlow rest

/-- The blank lines of a plain text: spaces and line ends, up to a separator of documents. The flag
    says whether there is one. -/
def plainBreaks (fuel : Nat) (breaks : List Char) (k : Cursor) : List Char × Bool × Cursor :=
  match fuel with
  | 0 => (breaks, false, k)
  | fuel + 1 =>
    match k.lineEnd? with
    | some (b, next) =>
      -- A separator behind the line end closes the text, and its blank lines are lost.
      if next.atSeparator then (breaks, true, next) else plainBreaks fuel (breaks ++ [b]) next
    | none =>
      if k.peek = some ' ' then plainBreaks fuel breaks k.advance else (breaks, false, k)

/-- What separates two lines: a line end stands for a space if no blank line follows it. -/
def foldBreaks (first : Char) (breaks : List Char) : List Char :=
  -- The two separators stand for themselves and are never folded into a space.
  (if first ≠ '\n' then [first] else if breaks.isEmpty then [' '] else []) ++ breaks

/-- The blanks between two pieces of a plain text, and whether a line ends in them. -/
def plainBlanks (k : Cursor) : List Char × Bool × Cursor :=
  let (spaces, k) := k.takeWhile (· = ' ')
  match k.lineEnd? with
  | none => (spaces, false, k)
  | some (b, next) =>
    if next.atSeparator then ([], true, next)
    else
      let (breaks, separated, next) := plainBreaks (next.rest.length + 1) [] next
      (if separated then [] else foldBreaks b breaks, true, next)

/-- A text that has been read. -/
structure ReadText where
  text : List Char
  /-- Whether a key may begin after it, a line having ended. -/
  keyAfter : Bool
  cursor : Cursor

/-- Reads a plain text that goes on after `before`; `blanks` comes between the two. Outside brackets
    the text ends at a line that is less indented than `indent`. -/
def readPlainFrom (fuel : Nat) (inFlow : Bool) (indent : Int) (before blanks : List Char)
    (keyAfter : Bool) (k : Cursor) : ReadText :=
  match fuel with
  | 0 => ⟨before, keyAfter, k⟩
  | fuel + 1 =>
    if k.peek = some '#' then ⟨before, keyAfter, k⟩
    else
      match plainRun inFlow k.rest with
      | [] => ⟨before, keyAfter, k⟩
      | run =>
        let text := before ++ blanks ++ run
        let (spaces, broken, next) := plainBlanks (k.advanceBy run.length)
        -- If no blank separates the piece from what follows, the text ends.
        if spaces.isEmpty || next.peek = some '#' || (!inFlow && (next.column : Int) < indent) then
          ⟨text, broken, next⟩
        else readPlainFrom fuel inFlow indent text spaces broken next

/-- Reads a plain text. -/
def readPlain (inFlow : Bool) (indent : Int) (k : Cursor) : ReadText :=
  readPlainFrom (k.rest.length + 1) inFlow indent [] [] false k

/-! ### Quoted texts -/

/-- The character that a short escape stands for. -/
def escaped? (c : Char) : Option Char :=
  ([('0', '\x00'), ('a', '\x07'), ('b', '\x08'), ('t', '\t'), ('\t', '\t'), ('n', '\n'),
    ('v', '\x0b'), ('f', '\x0c'), ('r', '\r'), ('e', '\x1b'), (' ', ' '), ('"', '"'), ('\\', '\\'),
    ('/', '/'), ('N', '\x85'), ('_', '\xa0'), ('L', '\u2028'), ('P', '\u2029')].find?
    (fun e => e.1 = c)).map Prod.snd

/-- The number of digits of an escape by code point. -/
def codeWidth? (c : Char) : Option Nat :=
  if c = 'x' then some 2 else if c = 'u' then some 4 else if c = 'U' then some 8 else none

/-- The blank lines of a quoted text. -/
def quotedBreaks (fuel : Nat) (breaks : List Char) (k : Cursor) :
    Except Fault (List Char × Cursor) :=
  match fuel with
  | 0 => .ok (breaks, k)
  | fuel + 1 =>
    if k.atSeparator then .error .malformed
    else
      let k := k.skipWhile (fun c => c = ' ' || c = '\t')
      match k.lineEnd? with
      | some (b, next) => quotedBreaks fuel (breaks ++ [b]) next
      | none => .ok (breaks, k)

/-- Blanks and line ends inside a quoted text. -/
def quotedBlanks (k : Cursor) : Except Fault (List Char × Cursor) := do
  let (spaces, k) := k.takeWhile (fun c => c = ' ' || c = '\t')
  match k.lineEnd? with
  | some (b, next) =>
    let (breaks, next) ← quotedBreaks (next.rest.length + 1) [] next
    return (foldBreaks b breaks, next)
  | none => if k.peek.isNone then throw .malformed else return (spaces, k)

/-- An escape, after its backslash. -/
def readEscape (k : Cursor) : Except Fault (List Char × Cursor) :=
  match k.peek with
  | none => .error .malformed
  | some c =>
    match escaped? c, codeWidth? c with
    | some d, _ => .ok ([d], k.advance)
    | none, some width =>
      let digits := k.advance.rest.take width
      if digits.length < width || !digits.all (fun d => (hexValue? d).isSome) then
        .error .malformed
      else
        let code := digits.foldl (fun n d => 16 * n + (hexValue? d).getD 0) 0
        if 0x10ffff < code then .error (.badCode code)
        -- Two escapes are never one character, so that both halves of a pair stay halves.
        else if 0xd800 ≤ code && code < 0xe000 then .error .halfPair
        else .ok ([Char.ofNat code], k.advance.advanceBy width)
    | none, none =>
      match k.lineEnd? with
      -- An escaped line end stands for nothing, and only blank lines behind it stay.
      | some (_, next) => quotedBreaks (next.rest.length + 1) [] next
      | none => .error .malformed

/-- Reads a quoted text up to its closing quote. In single quotes a quote is written twice, in
    double quotes a backslash escapes. -/
def readQuotedFrom (fuel : Nat) (double : Bool) (before : List Char) (k : Cursor) :
    Except Fault (List Char × Cursor) :=
  match fuel with
  | 0 => .error .malformed
  | fuel + 1 =>
    match k.peek with
    | none => .error .malformed
    | some c =>
      if isBlank c then do
        let (blanks, next) ← quotedBlanks k
        readQuotedFrom fuel double (before ++ blanks) next
      else if double && c = '\\' then do
        let (text, next) ← readEscape k.advance
        readQuotedFrom fuel double (before ++ text) next
      else if double && c = '"' then .ok (before, k.advance)
      else if !double && c = '\'' then
        if k.second = some '\'' then readQuotedFrom fuel double (before ++ [c]) (k.advanceBy 2)
        else .ok (before, k.advance)
      else readQuotedFrom fuel double (before ++ [c]) k.advance

/-- Reads a quoted text, after its opening quote. -/
def readQuoted (double : Bool) (k : Cursor) : Except Fault (List Char × Cursor) :=
  readQuotedFrom (k.rest.length + 1) double [] k

/-! ### Blocks of lines -/

/-- What becomes of the line ends at the end of a block. -/
inductive Chomping where
  /-- One of them stays. -/
  | clip
  | strip
  | keep
  deriving DecidableEq

/-- The indicators of a block: what happens at its end, and how far it is indented. -/
structure BlockHead where
  chomping : Chomping
  indent : Option Nat

/-- A sign among the indicators. -/
def chomping? : Option Char → Option Chomping
  | some '+' => some .keep
  | some '-' => some .strip
  | _ => none

/-- A digit among the indicators; a zero is refused. -/
def indentDigit? (c : Option Char) : Except Fault (Option Nat) :=
  match c.bind digitValue? with
  | some 0 => .error .malformed
  | found => .ok found

/-- Reads the indicators of a block and the rest of their line. -/
def readBlockHead (k : Cursor) : Except Fault (BlockHead × Cursor) := do
  let (head, k) ← match chomping? k.peek with
    | some chomping => do
      let k := k.advance
      let indent ← indentDigit? k.peek
      pure (BlockHead.mk chomping indent, if indent.isSome then k.advance else k)
    | none => do
      let indent ← indentDigit? k.peek
      let k := if indent.isSome then k.advance else k
      match chomping? k.peek with
      | some chomping => pure (BlockHead.mk chomping indent, k.advance)
      | none => pure (BlockHead.mk .clip indent, k)
  unless endsOr (fun c => c = ' ' || isBreak c) k.peek do throw .malformed
  let k := k.skipComment
  match k.lineEnd? with
  | some (_, next) => return (head, next)
  | none => if k.peek.isNone then return (head, k) else throw .malformed

/-- The blank lines before a block without a given indentation, and how far its first line is
    indented. -/
def findIndent (fuel : Nat) (breaks : List Char) (widest : Nat) (k : Cursor) :
    List Char × Nat × Cursor :=
  match fuel with
  | 0 => (breaks, widest, k)
  | fuel + 1 =>
    match k.lineEnd? with
    | some (b, next) => findIndent fuel (breaks ++ [b]) widest next
    | none =>
      if k.peek = some ' ' then
        let next := k.advance
        findIndent fuel breaks (max widest next.column) next
      else (breaks, widest, k)

/-- Passes spaces up to a column. -/
def skipIndent (indent : Nat) (k : Cursor) : Cursor :=
  k.advanceBy (min (k.rest.takeWhile (· = ' ')).length (indent - k.column))

/-- The blank lines inside a block, up to where the next line begins. -/
def blockBreaks (fuel indent : Nat) (breaks : List Char) (k : Cursor) : List Char × Cursor :=
  match fuel with
  | 0 => (breaks, k)
  | fuel + 1 =>
    let k := skipIndent indent k
    match k.lineEnd? with
    | some (b, next) => blockBreaks fuel indent (breaks ++ [b]) next
    | none => (breaks, k)

/-- What stands between two lines of a block. In a folded block a single line end between two lines
    that begin with no blank is a space. -/
def betweenLines (folded : Bool) (lineEnd : List Char) (indented : Bool) (breaks : List Char)
    (next : Option Char) : List Char :=
  if folded && lineEnd = ['\n'] && !indented && !(next = some ' ' || next = some '\t') then
    (if breaks.isEmpty then [' '] else []) ++ breaks
  else lineEnd ++ breaks

/-- What is left of the line ends at the end of a block: that of its last line, and the blank lines
    after it. -/
def Chomping.ending (chomping : Chomping) (lineEnd breaks : List Char) : List Char :=
  match chomping with
  | .strip => []
  | .clip => lineEnd
  | .keep => lineEnd ++ breaks

/-- Reads the lines of a block, which go on after `before`. -/
def readLines (fuel : Nat) (folded : Bool) (chomping : Chomping) (indent : Nat)
    (before : List Char) (k : Cursor) : List Char × Cursor :=
  match fuel with
  | 0 => (before, k)
  | fuel + 1 =>
    let indented := k.peek = some ' ' || k.peek = some '\t'
    let (line, k) := k.takeWhile (fun c => !isBreak c)
    let (lineEnd, k) := match k.lineEnd? with
      | some (b, next) => ([b], next)
      | none => ([], k)
    let (breaks, k) := blockBreaks (k.rest.length + 1) indent [] k
    if k.column = indent && k.peek.isSome then
      let between := betweenLines folded lineEnd indented breaks k.peek
      readLines fuel folded chomping indent (before ++ line ++ between) k
    else (before ++ line ++ chomping.ending lineEnd breaks, k)

/-- Reads a block, after its first indicator. `indent` is the indentation of what it stands in. -/
def readBlock (folded : Bool) (indent : Int) (k : Cursor) :
    Except Fault (List Char × Cursor) := do
  let (head, k) ← readBlockHead k
  -- A block inside of a collection is indented by at least one more than that.
  let least := (max 1 (indent + 1)).toNat
  let fuel := k.rest.length + 1
  let (breaks, width, k) := match head.indent with
    | none =>
      let (breaks, widest, k) := findIndent fuel [] 0 k
      (breaks, max least widest, k)
    | some n =>
      let (breaks, k) := blockBreaks fuel (least + n - 1) [] k
      (breaks, least + n - 1, k)
  if k.column = width && k.peek.isSome then
    return readLines fuel folded head.chomping width breaks k
  else return (head.chomping.ending [] breaks, k)

end Backlog.Yaml
