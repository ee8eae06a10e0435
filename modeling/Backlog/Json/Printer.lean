import Backlog.Data

namespace Backlog.Json

open Backlog.Number Backlog.Text

/-!
# Writing JSON

A value is written by recursion over it. What there is no form for, a key that is no text or an
integer with too many digits, is looked for beforehand, so that writing itself never fails.

* `write` — a value in a given `Style`: what is escaped, and whether it is laid out in lines;
* `Style.lines`, `Style.asciiLines` — two blanks per level, with or without escapes for what lies
  outside ASCII;
* `Style.dense` — all on one line, without blanks.

What cannot be written is told by `obstacle?`.
-/

/-- How values are written. -/
structure Style where
  /-- Whether every character outside the printable ASCII ones is escaped. -/
  ascii : Bool
  /-- The blanks per level when every item has its own line; `none` puts all on one line. -/
  indent : Option Nat
  /-- What stands between an object's key and its value. -/
  colon : List Char

/-- One item per line, two blanks per level, ASCII only. -/
def Style.asciiLines : Style := ⟨true, some 2, [':', ' ']⟩

/-- One item per line, two blanks per level. -/
def Style.lines : Style := ⟨false, some 2, [':', ' ']⟩

/-- All on one line, without blanks. -/
def Style.dense : Style := ⟨false, none, [':']⟩

/-- A UTF-16 unit as an escape. -/
def unitEscape (n : Nat) : List Char := '\\' :: 'u' :: hexDigits 4 n

/-- The short escape of a character that has one. -/
def shortEscape? (c : Char) : Option Char :=
  if c = '"' || c = '\\' then some c
  else if c = '\n' then some 'n'
  else if c = '\r' then some 'r'
  else if c = '\t' then some 't'
  else if c = '\x0c' then some 'f'
  else if c = '\x08' then some 'b'
  else none

/-- One character of a string. A character that needs an escape and has no short one is written as
    its UTF-16 units. -/
def writeChar (ascii : Bool) (c : Char) : List Char :=
  let n := c.toNat
  match shortEscape? c with
  | some e => ['\\', e]
  | none =>
    if n < 0x20 then unitEscape n
    else if !ascii || n < 0x7f then [c]
    else if n < 0x10000 then unitEscape n
    else
      -- The two halves of a surrogate pair.
      unitEscape (0xd800 + (n - 0x10000) / 1024) ++ unitEscape (0xdc00 + (n - 0x10000) % 1024)

/-- A string with its quotes. -/
def writeString (ascii : Bool) (s : String) : List Char :=
  '"' :: s.toList.flatMap (writeChar ascii) ++ ['"']

/-- A floating-point number. -/
def writeFloat (x : Binary64) : List Char := (x.textWith ⟨"NaN", "Infinity"⟩).toList

/-- A scalar. What JSON has no form for shows as it does in messages. -/
def writeScalar (ascii : Bool) : Scalar → List Char
  | .null => ['n', 'u', 'l', 'l']
  | .bool true => ['t', 'r', 'u', 'e']
  | .bool false => ['f', 'a', 'l', 's', 'e']
  | .int n => intChars n
  | .float x => writeFloat x
  | .text s => writeString ascii s
  | s => s.label.toList

/-- A key: texts stand for themselves, other scalars for the text that they are written as. -/
def writeKey (ascii : Bool) : Scalar → List Char
  | .text s => writeString ascii s
  | s => writeString ascii (String.ofList (writeScalar ascii s))

/-- A line break with the blanks of a level. -/
def lineBreak (style : Style) (level : Nat) : List Char :=
  match style.indent with
  | none => []
  | some width => '\n' :: List.replicate (width * level) ' '

mutual

/-- A value that stands at a level of nesting. -/
def writeAt (style : Style) (level : Nat) : Data → List Char
  | .scalar s => writeScalar style.ascii s
  | .list items => writeList style level items
  | .tuple items => writeList style level items
  | .map entries =>
    match entries with
    | [] => ['\x7b', '\x7d']
    | e :: rest =>
      '\x7b' :: writeMembers style level (e :: rest) ++ lineBreak style level ++ ['\x7d']
  | v => v.label.toList

/-- A list of values. -/
def writeList (style : Style) (level : Nat) : List Data → List Char
  | [] => ['[', ']']
  | item :: rest =>
    '[' :: lineBreak style (level + 1) ++ writeAt style (level + 1) item ++
      writeItems style level rest ++ lineBreak style level ++ [']']

/-- The items of a list after the first one. -/
def writeItems (style : Style) (level : Nat) : List Data → List Char
  | [] => []
  | item :: rest =>
    ',' :: lineBreak style (level + 1) ++ writeAt style (level + 1) item ++
      writeItems style level rest

/-- The members of an object, with commas between them. -/
def writeMembers (style : Style) (level : Nat) : List (Scalar × Data) → List Char
  | [] => []
  | (key, value) :: rest =>
    lineBreak style (level + 1) ++ writeKey style.ascii key ++ style.colon ++
      writeAt style (level + 1) value ++
      (if rest.isEmpty then [] else ',' :: writeMembers style level rest)

end

/-- A value as JSON. -/
def write (style : Style) (value : Data) : List Char := writeAt style 0 value

/-- A value as JSON text. -/
def writeText (style : Style) (value : Data) : String := String.ofList (write style value)

end Backlog.Json
