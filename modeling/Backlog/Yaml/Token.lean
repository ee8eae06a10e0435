import Backlog.Text.Utf8
import Backlog.Yaml.Text

namespace Backlog.Yaml

open Backlog.Text

/-!
# Tokens of documents

* `Token.ofChars` — the tokens of a document, up to where reading fails, if it does.

Outside brackets, structure shows in indentation: a token that is indented more than what it stands
in begins a new collection, and one that is indented less ends those that are indented more. Whether
a token is a key only shows at the colon behind it, so a place where a key may begin is remembered
until then: for a thousand characters, and not beyond the end of the line.

Tokens are read one by one as the parser asks for them, so a token that cannot be read only matters
if the parser gets that far. A fault is therefore a token of its own, behind those that the parser is
given before.
-/

/-- A line of directions before a document. -/
inductive Directive where
  | version (major : Nat)
  | tag (handle : String) (start : String)
  | other
  deriving DecidableEq, Repr

/-- A token. -/
inductive Token where
  | directive (d : Directive)
  | documentStart
  | documentEnd
  | blockSequenceStart
  | blockMappingStart
  | blockEnd
  | flowSequenceStart
  | flowSequenceEnd
  | flowMappingStart
  | flowMappingEnd
  | blockEntry
  | flowEntry
  | key
  | value
  | alias (name : String)
  | anchor (name : String)
  | tag (handle : Option String) (suffix : String)
  | scalar (text : String) (plain : Bool)
  /-- Here reading fails. -/
  | fault (what : Fault)
  deriving DecidableEq, Repr

/-- A place where a key may begin. -/
structure PossibleKey where
  /-- The number of the token that begins there. -/
  token : Nat
  /-- Whether there has to be a key. -/
  required : Bool
  index : Nat
  line : Nat
  column : Nat

/-- Whether a place is too far away from a position for a key. -/
def PossibleKey.isStale (p : PossibleKey) (k : Cursor) : Bool :=
  p.line ≠ k.line || 1024 < k.index - p.index

/-- The state of reading: the tokens so far, the latest first; which of them turned out to begin a
    key, and whether that begins a mapping; the number of open brackets; the indentation and those
    around it; whether a key may begin here; and the possible keys by the number of brackets around
    them. -/
structure Scanner where
  cursor : Cursor
  tokens : List Token := []
  count : Nat := 0
  keyed : List (Nat × Bool) := []
  brackets : Nat := 0
  indent : Int := -1
  outer : List Int := []
  allowKey : Bool := true
  possible : List (Nat × PossibleKey) := []

/-- A step of reading. -/
abbrev Scan := StateT Scanner (Except Fault)

namespace Scan

/-- Stops at a break of the grammar. -/
def refuse {α : Type} : Scan α := throw .malformed

/-- Adds a token. -/
def emit (t : Token) : Scan Unit :=
  modify fun s => { s with tokens := t :: s.tokens, count := s.count + 1 }

/-- Changes the position. -/
def moveTo (k : Cursor) : Scan Unit := modify fun s => { s with cursor := k }

/-- Passes some characters. -/
def pass (n : Nat) : Scan Unit := modify fun s => { s with cursor := s.cursor.advanceBy n }

/-- Says whether a key may begin here. -/
def allowKey (allow : Bool) : Scan Unit := modify fun s => { s with allowKey := allow }

/-- Adds a token that takes some characters. -/
def emitPassing (t : Token) (n : Nat) : Scan Unit := do
  pass n
  emit t

/-- Ends the collections that are indented more than a column. -/
def unwind (column : Int) : Scan Unit := modify fun s =>
  if s.brackets ≠ 0 then s
  else
    -- The levels above `column` end from the innermost on, each with a token of its own.
    let levels := s.indent :: s.outer
    let ended := levels.takeWhile (fun i => column < i)
    match levels.dropWhile (fun i => column < i) with
    | [] => s
    | indent :: outer =>
      { s with
        indent := indent, outer := outer, count := s.count + ended.length,
        tokens := ended.map (fun _ => Token.blockEnd) ++ s.tokens }

/-- Begins a deeper indentation; the answer says whether it is one. -/
def deepen (column : Nat) : Scan Bool := do
  let s ← get
  if s.indent < column then
    set { s with indent := (column : Int), outer := s.indent :: s.outer }
    return true
  else return false

/-- Forgets the possible keys that are too far away. -/
def forgetStale : Scan Unit := do
  let s ← get
  -- A key that has to be there can no longer come.
  if s.possible.any (fun e => e.2.isStale s.cursor && e.2.required) then refuse
  set { s with possible := s.possible.filter (fun e => !e.2.isStale s.cursor) }

/-- Forgets the possible key inside these brackets. -/
def forgetHere : Scan Unit := do
  let s ← get
  if s.possible.any (fun e => e.1 = s.brackets && e.2.required) then refuse
  set { s with possible := s.possible.filter (fun e => e.1 ≠ s.brackets) }

/-- Remembers that the next token may begin a key. -/
def rememberKey : Scan Unit := do
  let s ← get
  if s.allowKey then
    forgetHere
    -- At the very indentation of a mapping nothing but a key can stand.
    let required := s.brackets = 0 && s.indent = s.cursor.column
    let key : PossibleKey :=
      ⟨s.count, required, s.cursor.index, s.cursor.line, s.cursor.column⟩
    modify fun s => { s with possible := (s.brackets, key) :: s.possible }

/-- Passes blanks, comments and line ends up to the next token. -/
def toNextToken (fuel : Nat) : Scan Unit :=
  match fuel with
  | 0 => pure ()
  | fuel + 1 => do
    let s ← get
    match s.cursor.skipComment.lineEnd? with
    | some (_, next) =>
      -- A new line allows a key, but inside brackets line ends mean nothing.
      set { s with cursor := next, allowKey := s.allowKey || s.brackets = 0 }
      toNextToken fuel
    | none => moveTo s.cursor.skipComment

/-! ### Directives, anchors and tags -/

/-- The number in a version. -/
def readVersionNumber (k : Cursor) : Except Fault (Nat × Cursor) :=
  let (digits, next) := k.takeWhile Char.isDigit
  if digits.isEmpty then .error .malformed else .ok (Nat.ofDigitChars 10 digits 0, next)

/-- A handle: an exclamation mark, or a name between two of them. -/
def readHandle (k : Cursor) : Except Fault (String × Cursor) :=
  if k.peek ≠ some '!' then .error .malformed
  else
    let (name, next) := k.advance.takeWhile isNameChar
    if next.peek = some '!' then
      .ok (String.ofList ('!' :: name ++ ['!']), next.advance)
    else if name.isEmpty && next.peek = some ' ' then .ok ("!", next)
    else .error .malformed

/-- Whether a character may stand in a tag. -/
def isTagChar (c : Char) : Bool := c.isAlphanum || "-;/?:@&=+$,_.!~*'()[]%".toList.contains c

/-- The byte that a percent sign and two digits stand for. -/
def percentByte? : List Char → Option UInt8
  | '%' :: a :: b :: _ => do
    let high ← hexValue? a
    let low ← hexValue? b
    some (UInt8.ofNat (16 * high + low))
  | _ => none

/-- A run of bytes written with percent signs. -/
def percentBytes (fuel : Nat) (bytes : Bytes) (k : Cursor) : Except Fault (Bytes × Cursor) :=
  match fuel with
  | 0 => .ok (bytes, k)
  | fuel + 1 =>
    if k.peek ≠ some '%' then .ok (bytes, k)
    else match percentByte? k.rest with
      | some b => percentBytes fuel (bytes ++ [b]) (k.advanceBy 3)
      | none => .error .malformed

/-- The characters of a tag, which go on after `before`. -/
def readUriFrom (fuel : Nat) (before : List Char) (k : Cursor) :
    Except Fault (List Char × Cursor) :=
  match fuel with
  | 0 => .ok (before, k)
  | fuel + 1 =>
    match k.peek with
    | some '%' => do
      let (bytes, next) ← percentBytes k.rest.length [] k
      match Utf8.decode bytes with
      | .ok text => readUriFrom fuel (before ++ text.toList) next
      | .error _ => throw .malformed
    | some c =>
      if isTagChar c then readUriFrom fuel (before ++ [c]) k.advance else .ok (before, k)
    | none => .ok (before, k)

/-- The characters of a tag, of which there is at least one. -/
def readUri (k : Cursor) : Except Fault (String × Cursor) := do
  if !(k.peek.any isTagChar) then throw .malformed
  let (text, next) ← readUriFrom (k.rest.length + 1) [] k
  return (String.ofList text, next)

/-- Whether a space, a line end or the end comes next. -/
def atSpace (k : Cursor) : Bool := endsOr (fun c => c = ' ' || isBreak c) k.peek

/-- A directive, after its percent sign, up to the end of its line. -/
def readDirective (k : Cursor) : Except Fault (Directive × Cursor) := do
  let (name, k) := k.takeWhile isNameChar
  if name.isEmpty || !atSpace k then throw .malformed
  let (directive, k) ←
    if name = "YAML".toList then do
      let (major, k) ← readVersionNumber (k.skipWhile (· = ' '))
      if k.peek ≠ some '.' then throw .malformed
      let (_, k) ← readVersionNumber k.advance
      if !atSpace k then throw .malformed
      pure (Directive.version major, k)
    else if name = "TAG".toList then do
      let (handle, k) ← readHandle (k.skipWhile (· = ' '))
      if k.peek ≠ some ' ' then throw .malformed
      let (start, k) ← readUri (k.skipWhile (· = ' '))
      if !atSpace k then throw .malformed
      pure (Directive.tag handle start, k)
    else pure (Directive.other, k.skipWhile (fun c => !isBreak c))
  let k := k.skipComment
  match k.lineEnd? with
  | some (_, next) => return (directive, next)
  | none => if k.peek.isNone then return (directive, k) else throw .malformed

/-- The name of an anchor or an alias, after its indicator. -/
def readName (k : Cursor) : Except Fault (String × Cursor) :=
  let (name, next) := k.takeWhile isNameChar
  if name.isEmpty || !endsOr (fun c => isBlank c || "?:,]\x7d%@`".toList.contains c) next.peek then
    .error .malformed
  else .ok (String.ofList name, next)

/-- A tag: in angle brackets, a lone exclamation mark, or with a handle in front. -/
def readTag (k : Cursor) : Except Fault (Token × Cursor) := do
  let (tag, k) ←
    if k.second = some '<' then do
      let (uri, next) ← readUri (k.advanceBy 2)
      if next.peek ≠ some '>' then throw .malformed
      pure (Token.tag none uri, next.advance)
    else if endsOr isBlank k.second then pure (Token.tag none "!", k.advance)
    else
      let word := k.advance.rest.takeWhile (fun c => c ≠ ' ' && !isBreak c)
      let (handle, next) ←
        if word.contains '!' then readHandle k else pure ("!", k.advance)
      let (suffix, next) ← readUri next
      pure (Token.tag (some handle) suffix, next)
  if atSpace k then return (tag, k) else throw .malformed

/-! ### One token -/

/-- Adds a token that was read at the position and may begin a key. -/
def emitKeyLike (read : Cursor → Except Fault (Token × Cursor)) : Scan Unit := do
  rememberKey
  allowKey false
  let s ← get
  let (t, next) ← (read s.cursor : Except Fault (Token × Cursor))
  moveTo next
  emit t

/-- Three hyphens or points, or a directive. -/
def fetchOuter (t : Token) (next : Cursor) : Scan Unit := do
  unwind (-1)
  forgetHere
  allowKey false
  moveTo next
  emit t

/-- An opening bracket. -/
def fetchOpening (t : Token) : Scan Unit := do
  rememberKey
  modify fun s => { s with brackets := s.brackets + 1, allowKey := true }
  emitPassing t 1

/-- A closing bracket. -/
def fetchClosing (t : Token) : Scan Unit := do
  forgetHere
  let s ← get
  if s.brackets = 0 then refuse
  set { s with brackets := s.brackets - 1, allowKey := false }
  emitPassing t 1

/-- Checks that an indicator may stand here, and begins a collection if it is indented more.
    Brackets have no indentation. -/
def beginHere (start : Token) : Scan Unit := do
  let s ← get
  if s.brackets = 0 then
    if !s.allowKey then refuse
    if ← deepen s.cursor.column then emit start

/-- A hyphen before an item. -/
def fetchBlockEntry : Scan Unit := do
  beginHere .blockSequenceStart
  allowKey true
  forgetHere
  emitPassing .blockEntry 1

/-- A question mark before a key. -/
def fetchKey : Scan Unit := do
  beginHere .blockMappingStart
  allowKey ((← get).brackets = 0)
  forgetHere
  emitPassing .key 1

/-- A colon before a value. What may have begun a key did so. -/
def fetchValue : Scan Unit := do
  let s ← get
  match s.possible.find? (fun e => e.1 = s.brackets) with
  | some (_, key) =>
    set { s with possible := s.possible.filter (fun e => e.1 ≠ s.brackets) }
    -- The mapping begins where its key did, not at the colon.
    let begins ← if s.brackets = 0 then deepen key.column else pure false
    modify fun s => { s with keyed := (key.token, begins) :: s.keyed, allowKey := false }
  | none =>
    beginHere .blockMappingStart
    allowKey ((← get).brackets = 0)
    forgetHere
  emitPassing .value 1

/-- A block of lines. -/
def fetchBlock (folded : Bool) : Scan Unit := do
  allowKey true
  forgetHere
  let s ← get
  let (text, next) ← (readBlock folded s.indent s.cursor.advance : Except Fault _)
  moveTo next
  emit (.scalar (String.ofList text) false)

/-- A plain text. -/
def fetchPlain : Scan Unit := do
  rememberKey
  let s ← get
  -- The text may go on in lines that are indented more than its collection.
  let read := readPlain (s.brackets ≠ 0) (s.indent + 1) s.cursor
  set { s with cursor := read.cursor, allowKey := read.keyAfter }
  emit (.scalar (String.ofList read.text) true)

/-- Whether a plain text may begin with a character, given the one after it. -/
def beginsPlain (brackets : Nat) (c : Char) (after : Option Char) : Bool :=
  !(isBlank c || "-?:,[]\x7b\x7d#&*!|>'\"%@`".toList.contains c) ||
    (!endsOr isBlank after && (c = '-' || (brackets = 0 && (c = '?' || c = ':'))))

/-- Reads one token that begins with a character. -/
def fetch (c : Char) : Scan Unit := do
  let s ← get
  let k := s.cursor
  let inFlow := s.brackets ≠ 0
  let apart := endsOr isBlank k.second
  if c = '%' && k.column = 0 then do
    let (directive, next) ← (readDirective k.advance : Except Fault _)
    fetchOuter (.directive directive) next
  else if k.column = 0 && k.atSeparator then
    fetchOuter (if c = '-' then .documentStart else .documentEnd) (k.advanceBy 3)
  else if c = '[' then fetchOpening .flowSequenceStart
  else if c = '\x7b' then fetchOpening .flowMappingStart
  else if c = ']' then fetchClosing .flowSequenceEnd
  else if c = '\x7d' then fetchClosing .flowMappingEnd
  else if c = ',' then do
    allowKey true
    forgetHere
    emitPassing .flowEntry 1
  else if c = '-' && apart then fetchBlockEntry
  else if c = '?' && (inFlow || apart) then fetchKey
  else if c = ':' && (inFlow || apart) then fetchValue
  else if c = '*' then emitKeyLike fun k => do
    let (name, next) ← readName k.advance
    return (.alias name, next)
  else if c = '&' then emitKeyLike fun k => do
    let (name, next) ← readName k.advance
    return (.anchor name, next)
  else if c = '!' then emitKeyLike readTag
  else if c = '|' && !inFlow then fetchBlock false
  else if c = '>' && !inFlow then fetchBlock true
  else if c = '\'' || c = '"' then emitKeyLike fun k => do
    let (text, next) ← readQuoted (c = '"') k.advance
    return (.scalar (String.ofList text) false, next)
  else if beginsPlain s.brackets c k.second then fetchPlain
  else refuse

/-- Reads the next token, or the end of the document; the answer says whether there may be more. -/
def next : Scan Bool := do
  toNextToken ((← get).cursor.rest.length + 1)
  forgetStale
  unwind (← get).cursor.column
  match (← get).cursor.peek with
  | none => do
    -- All that is still open ends with the document.
    unwind (-1)
    forgetHere
    return false
  | some c => do
    fetch c
    return true

end Scan

namespace Scanner

/-- Reads all tokens, up to a fault if there is one. -/
def readAll (fuel : Nat) (s : Scanner) : Scanner × Option Fault :=
  match fuel with
  | 0 => (s, none)
  | fuel + 1 =>
    match Scan.next.run s with
    | .error what => (s, some what)
    | .ok (true, s) => s.readAll fuel
    | .ok (false, s) => (s, none)

/-- The number of tokens that the parser is given before more is read: all up to the first that may
    still turn out to begin a key. -/
def settled (s : Scanner) : Nat :=
  let pending := s.possible.filter (fun e => !e.2.isStale s.cursor)
  pending.foldl (fun n e => min n e.2.token) s.count

end Scanner

namespace Token

/-- The tokens in order, with a key token before each one that turned out to begin a key. -/
def assemble (keyed : List (Nat × Bool)) (number : Nat) : List Token → List Token
  | [] => []
  | t :: rest =>
    match keyed.find? (fun e => e.1 = number) with
    | some (_, true) => .blockMappingStart :: .key :: t :: assemble keyed (number + 1) rest
    | some (_, false) => .key :: t :: assemble keyed (number + 1) rest
    | none => t :: assemble keyed (number + 1) rest

/-- The tokens of a document. A byte order mark in front is passed over. -/
def ofChars (cs : List Char) : Except Fault (List Token) := do
  if !cs.all isAllowed then throw .malformed
  let start := Cursor.start cs
  let start := if start.peek = some '\ufeff' then start.advance else start
  match Scanner.readAll (cs.length + 2) { cursor := start } with
  | (s, none) => return assemble s.keyed 0 s.tokens.reverse
  | (s, some what) => return assemble s.keyed 0 (s.tokens.reverse.take s.settled) ++ [.fault what]

end Token

end Backlog.Yaml
