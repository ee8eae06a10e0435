import Backlog.Text.Printable

namespace Backlog.Text

/-!
# Quoted text

How a text is shown inside a message: between single quotes, or between double quotes when it
holds a single quote and no double one. The quote in use and the backslash are escaped, line feed,
carriage return and tab have their short escapes, and every other unprintable character is written
as its code point in two, four or eight hexadecimal digits.

* `quoted` — the whole text with its quotes;
* `quoteMark` — which quote is used;
* `escapeChar` — one character.
-/

/-- One hexadecimal digit, in lower case. -/
def hexDigit (n : Nat) : Char :=
  if n < 10 then Char.ofNat (48 + n) else Char.ofNat (87 + n)

/-- The lowest `width` hexadecimal digits of a number. -/
def hexDigits : Nat → Nat → List Char
  | 0, _ => []
  | width + 1, n => hexDigits width (n / 16) ++ [hexDigit (n % 16)]

/-- The quote used around a text: a double one only if the text holds a single quote and no double
    one. -/
def quoteMark (text : List Char) : Char :=
  if text.contains '\'' && !text.contains '"' then '"' else '\''

/-- The escape of a character by its code point. -/
def escapeCode (c : Char) : List Char :=
  let n := c.toNat
  if n < 0x100 then '\\' :: 'x' :: hexDigits 2 n
  else if n < 0x10000 then '\\' :: 'u' :: hexDigits 4 n
  else '\\' :: 'U' :: hexDigits 8 n

/-- One character of a quoted text. -/
def escapeChar (mark c : Char) : List Char :=
  -- Only the quote in use is escaped.
  if c = mark || c = '\\' then ['\\', c]
  else if c = '\n' then ['\\', 'n']
  else if c = '\r' then ['\\', 'r']
  else if c = '\t' then ['\\', 't']
  else if isPrintable c then [c]
  else escapeCode c

/-- A text between quotes, as messages show it. -/
def quoted (text : String) : String :=
  let cs := text.toList
  let mark := quoteMark cs
  String.ofList (mark :: cs.flatMap (escapeChar mark) ++ [mark])

/-- One byte of a quoted byte string: the printable ASCII characters stand for themselves. -/
def escapeByte (mark : Char) (b : UInt8) : List Char :=
  let c := Char.ofNat b.toNat
  if b.toNat < 0x80 then escapeChar mark c else '\\' :: 'x' :: hexDigits 2 b.toNat

/-- A byte string, with a `b` before its quotes. -/
def quotedBytes (bytes : List UInt8) : String :=
  let mark := quoteMark (bytes.map (fun b => Char.ofNat b.toNat))
  String.ofList ('b' :: mark :: bytes.flatMap (escapeByte mark) ++ [mark])

/-- A list of texts, as messages show it. -/
def quotedList (texts : List String) : String :=
  "[" ++ ", ".intercalate (texts.map quoted) ++ "]"

end Backlog.Text
