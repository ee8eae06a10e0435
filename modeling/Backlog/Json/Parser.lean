import Backlog.Data

namespace Backlog.Json

open Backlog.Number Backlog.Text

/-!
# Reading JSON

The reader works on the characters that are still to be read; a fault is placed by how many of
them were left where it was found, and only the outermost function turns that into a position.

* `parse` — a whole document: one value with nothing but blanks around it;
* `readValue`, `readItems`, `readMembers` — a value and the rest of lists and objects; each step
  takes at least one character, which bounds the `fuel`;
* `Error.message` — the wording, with line, column and offset.

Beyond the standard, `NaN`, `Infinity` and `-Infinity` are numbers. A key that comes twice keeps its
first place and its last value.
-/

/-- What is wrong at a place in the text. -/
inductive Fault where
  | byteOrderMark
  | extraData
  | expectedValue
  | expectedKey
  | expectedColon
  | expectedComma
  | unterminatedString
  | controlCharacter
  | invalidEscape
  | invalidCodeEscape
  deriving DecidableEq, Repr

/-- The wording of a fault. -/
def Fault.message : Fault → String
  | .byteOrderMark => "Unexpected UTF-8 BOM (decode using utf-8-sig)"
  | .extraData => "Extra data"
  | .expectedValue => "Expecting value"
  | .expectedKey => "Expecting property name enclosed in double quotes"
  | .expectedColon => "Expecting ':' delimiter"
  | .expectedComma => "Expecting ',' delimiter"
  | .unterminatedString => "Unterminated string starting at"
  | .controlCharacter => "Invalid control character at"
  | .invalidEscape => "Invalid \\escape"
  | .invalidCodeEscape => "Invalid \\uXXXX escape"

/-- Why reading stopped: a fault with the number of characters left there, a whole number of too
    many digits, or half of a surrogate pair. -/
inductive Stop where
  | fault (what : Fault) (left : Nat)
  | tooLong (digits : Nat)
  | halfPair
  deriving DecidableEq, Repr

/-- Why a document is refused. -/
inductive Error where
  /-- A fault with its line and column, counted from one, and its offset, counted from zero. -/
  | malformed (what : Fault) (line column offset : Nat)
  /-- A whole number of too many digits. -/
  | tooLong (digits : Nat)
  /-- A string with half of a surrogate pair. The program takes it as it is, but there is no text
  that stands for it here. -/
  | halfPair
  deriving DecidableEq, Repr

/-- The wording of a refusal. -/
def Error.message : Error → String
  | .malformed what line column offset =>
    s!"{what.message}: line {line} column {column} (char {offset})"
  | .tooLong digits => tooLongMessage digits
  | .halfPair => "half of a surrogate pair"

/-- The blanks of JSON. -/
def isBlank (c : Char) : Bool := c = ' ' || c = '\t' || c = '\n' || c = '\r'

/-- Drops blanks. -/
def skipBlanks (cs : List Char) : List Char := cs.dropWhile isBlank

/-- The value of four hexadecimal digits. -/
def hex4? (a b c d : Char) : Option Nat := do
  return (((← hexValue? a) * 16 + (← hexValue? b)) * 16 + (← hexValue? c)) * 16 + (← hexValue? d)

/-- The character that a one-letter escape stands for. -/
def escaped? (c : Char) : Option Char :=
  if c = '"' || c = '\\' || c = '/' then some c
  else if c = 'b' then some '\x08'
  else if c = 'f' then some '\x0c'
  else if c = 'n' then some '\n'
  else if c = 'r' then some '\r'
  else if c = 't' then some '\t'
  else none

/-- The second half of a surrogate pair right after its first half, with at least one character
    behind it. -/
def lowSurrogate? : List Char → Option (Option Nat × List Char)
  | '\\' :: 'u' :: a :: b :: c :: d :: rest =>
    if rest.isEmpty then none else some (hex4? a b c d, rest)
  | _ => none

/-- A code escape, after its `u`: the character, and what is left. Two halves of a surrogate pair
    are one character. The four digits are followed by something, if only by the closing quote. -/
def readCode (cs : List Char) : Except Stop (Char × List Char) :=
  match cs with
  | a :: b :: c :: d :: rest =>
    -- The fault is placed at the `u`, which is no longer among the characters.
    if rest.isEmpty then .error (.fault .invalidCodeEscape (cs.length + 1))
    else match hex4? a b c d with
      | none => .error (.fault .invalidCodeEscape (cs.length + 1))
      | some n =>
        if 0xd800 ≤ n && n < 0xdc00 then
          match lowSurrogate? rest with
          | none => .error .halfPair
          -- The first half would do, but what looks like a second half has to be one.
          | some (none, _) => .error (.fault .invalidCodeEscape (rest.length - 1))
          | some (some m, more) =>
            if 0xdc00 ≤ m && m < 0xe000 then
              .ok (Char.ofNat (0x10000 + (n - 0xd800) * 1024 + (m - 0xdc00)), more)
            else .error .halfPair
        else if 0xdc00 ≤ n && n < 0xe000 then .error .halfPair
        else .ok (Char.ofNat n, rest)
  | _ => .error (.fault .invalidCodeEscape (cs.length + 1))

/-- The rest of a string whose opening quote had `start` characters at and after it, up to and with
    its closing quote. -/
def readString (start : Nat) : Nat → List Char → Except Stop (List Char × List Char)
  | 0, _ => .error (.fault .unterminatedString start)
  | _, [] => .error (.fault .unterminatedString start)
  | fuel + 1, c :: rest =>
    if c = '"' then .ok ([], rest)
    else if c = '\\' then
      match rest with
      | [] => .error (.fault .unterminatedString start)
      | e :: more =>
        if e = 'u' then do
          let (c, rest) ← readCode more
          let (cs, rest) ← readString start fuel rest
          return (c :: cs, rest)
        else match escaped? e with
          | none => .error (.fault .invalidEscape (rest.length + 1))
          | some c => do
            let (cs, rest) ← readString start fuel more
            return (c :: cs, rest)
    else if c.toNat < 0x20 then .error (.fault .controlCharacter (rest.length + 1))
    else do
      let (cs, rest) ← readString start fuel rest
      return (c :: cs, rest)

/-- The digits before the point: a zero alone, or a run that does not begin with zero. -/
def wholePart : List Char → List Char × List Char
  | '0' :: rest => (['0'], rest)
  | cs => (cs.takeWhile Char.isDigit, cs.dropWhile Char.isDigit)

/-- The digits behind the point, if a point and a digit follow. -/
def fractionPart : List Char → Option (List Char) × List Char
  | '.' :: rest =>
    let digits := rest.takeWhile Char.isDigit
    if digits.isEmpty then (none, '.' :: rest) else (some digits, rest.dropWhile Char.isDigit)
  | cs => (none, cs)

/-- The exponent, if a mark and at least one digit follow. -/
def exponentPart : List Char → Option Int × List Char
  | [] => (none, [])
  | c :: rest =>
    if c = 'e' || c = 'E' then
      let (negative, body) := splitSign rest
      let digits := body.takeWhile Char.isDigit
      if digits.isEmpty then (none, c :: rest)
      else (some (signed negative (Nat.ofDigitChars 10 digits 0)), body.dropWhile Char.isDigit)
    else (none, c :: rest)

/-- A number. Without fraction and exponent it is a whole number of any size up to the limit. -/
def readNumber (cs : List Char) : Except Stop (Data × List Char) :=
  let (negative, body) := match cs with
    | '-' :: rest => (true, rest)
    | _ => (false, cs)
  let (whole, rest) := wholePart body
  if whole.isEmpty then .error (.fault .expectedValue cs.length)
  else
    let (fraction, rest) := fractionPart rest
    let (exponent, rest) := exponentPart rest
    match fraction, exponent with
    | none, none =>
      match natOfDigits whole with
      | .ok n => .ok (.int (signed negative n), rest)
      | .error _ => .error (.tooLong whole.length)
    | _, _ =>
      let behind := fraction.getD []
      let value := Binary64.ofDecimal negative (Nat.ofDigitChars 10 (whole ++ behind) 0)
        (exponent.getD 0 - behind.length)
      .ok (.float value, rest)

/-- The words that stand for values. -/
def words : List (List Char × Data) :=
  [(['n', 'u', 'l', 'l'], .null), (['t', 'r', 'u', 'e'], .bool true),
    (['f', 'a', 'l', 's', 'e'], .bool false), (['N', 'a', 'N'], .float .nan),
    (['I', 'n', 'f', 'i', 'n', 'i', 't', 'y'], .float (.infinity false)),
    (['-', 'I', 'n', 'f', 'i', 'n', 'i', 't', 'y'], .float (.infinity true))]

/-- A value that is one word or one number. -/
def readPlain (cs : List Char) : Except Stop (Data × List Char) :=
  -- Words come first, since one of them begins with a minus sign as numbers do.
  match words.find? (fun w => w.1.isPrefixOf cs) with
  | some (word, value) => .ok (value, cs.drop word.length)
  | none => readNumber cs

mutual

/-- A value at the start of the characters. -/
def readValue : Nat → List Char → Except Stop (Data × List Char)
  | 0, cs => .error (.fault .expectedValue cs.length)
  | fuel + 1, cs =>
    match cs with
    | '"' :: rest => do
      let (s, rest) ← readString cs.length rest.length rest
      return (.text (String.ofList s), rest)
    | '\x7b' :: rest =>
      match skipBlanks rest with
      | '\x7d' :: rest => .ok (.map [], rest)
      | rest => do
        let (pairs, rest) ← readMembers fuel rest
        return (.ofPairs pairs, rest)
    | '[' :: rest =>
      match skipBlanks rest with
      | ']' :: rest => .ok (.list [], rest)
      | rest => do
        let (items, rest) ← readItems fuel rest
        return (.list items, rest)
    | _ => readPlain cs

/-- The items of a list from the next one on, with the closing bracket. -/
def readItems : Nat → List Char → Except Stop (List Data × List Char)
  | 0, cs => .error (.fault .expectedValue cs.length)
  | fuel + 1, cs => do
    let (item, rest) ← readValue fuel cs
    match skipBlanks rest with
    | ']' :: rest => return ([item], rest)
    | ',' :: rest =>
      let (items, rest) ← readItems fuel (skipBlanks rest)
      return (item :: items, rest)
    | rest => throw (.fault .expectedComma rest.length)

/-- The members of an object from the next one on, with the closing brace. -/
def readMembers : Nat → List Char → Except Stop (List (Scalar × Data) × List Char)
  | 0, cs => .error (.fault .expectedKey cs.length)
  | fuel + 1, cs =>
    match cs with
    | '"' :: rest => do
      let (key, rest) ← readString cs.length rest.length rest
      match skipBlanks rest with
      | ':' :: rest =>
        let (value, rest) ← readValue fuel (skipBlanks rest)
        let entry := (Scalar.text (String.ofList key), value)
        match skipBlanks rest with
        | '\x7d' :: rest => return ([entry], rest)
        | ',' :: rest =>
          let (entries, rest) ← readMembers fuel (skipBlanks rest)
          return (entry :: entries, rest)
        | rest => throw (.fault .expectedComma rest.length)
      | rest => throw (.fault .expectedColon rest.length)
    | _ => .error (.fault .expectedKey cs.length)

end

/-- The line and the column of an offset, both counted from one. -/
def lineAndColumn (cs : List Char) (offset : Nat) : Nat × Nat :=
  let before := cs.take offset
  (before.count '\n' + 1, (before.reverse.takeWhile (· ≠ '\n')).length + 1)

/-- Places a stop in the text it was found in. -/
def Stop.locate (cs : List Char) : Stop → Error
  | .fault what left =>
    let offset := cs.length - left
    let (line, column) := lineAndColumn cs offset
    .malformed what line column offset
  | .tooLong digits => .tooLong digits
  | .halfPair => .halfPair

/-- Reads a document, up to a stop. -/
def readDocument (cs : List Char) : Except Stop Data :=
  match cs with
  | '\ufeff' :: _ => .error (.fault .byteOrderMark cs.length)
  | _ => do
    let (value, rest) ← readValue (2 * cs.length + 1) (skipBlanks cs)
    let rest := skipBlanks rest
    if rest.isEmpty then return value else throw (.fault .extraData rest.length)

/-- Reads a document. -/
def parseChars (cs : List Char) : Except Error Data :=
  (readDocument cs).mapError (Stop.locate cs)

/-- Reads a document. -/
def parse (text : String) : Except Error Data := parseChars text.toList

end Backlog.Json
