import Backlog.Text.Utf8

namespace Backlog.Text

/-!
# Letters of a source text

A source text may hold bytes that are no UTF-8. Reading it does not stop there: such a byte is a
letter of its own, and a refusal comes only with a part of the text that has to be spelled.

* `lettersOf` — the letters of a byte sequence;
* `Letter.bytes` — the bytes that a letter stands for.
-/

/-- A character, or a byte that belongs to none. -/
inductive Letter where
  | char (c : Char)
  | stray (byte : UInt8)
  deriving DecidableEq, Repr

namespace Letter

/-- How a letter looks: a stray byte looks like the replacement character. -/
def look : Letter → Char
  | char c => c
  | stray _ => '\uFFFD'

/-- The bytes of a letter. -/
def bytes : Letter → Bytes
  | char c => Utf8.encodeChar c
  | stray byte => [byte]

end Letter

/-- The letters from the start of a byte sequence on. A step takes at least one byte, so `fuel` at
    the number of bytes is never used up. -/
def lettersFrom : Nat → Bytes → List Letter
  | 0, _ => []
  | _, [] => []
  | fuel + 1, lead :: rest =>
    match Utf8.decodeStep lead.toNat rest with
    -- Only the byte in front is stray; those behind it are tried again.
    | .error _ => .stray lead :: lettersFrom fuel rest
    | .ok (c, size) => .char c :: lettersFrom fuel (rest.drop (size - 1))

/-- The letters of a byte sequence. A byte order mark in front is none of them. -/
def lettersOf (bytes : Bytes) : List Letter :=
  match lettersFrom bytes.length bytes with
  | .char '\uFEFF' :: letters => letters
  | letters => letters

end Backlog.Text
