namespace Backlog.Text

/-!
# UTF-8

Strict UTF-8: the shortest form only, no surrogates, nothing above U+10FFFF. A refusal says which
bytes are at fault: the start of the first ill-formed sequence, as far as it is a beginning of some
well-formed one, and why it ends there.

* `Utf8.encode`, `Utf8.decode` — between text and bytes;
* `Utf8.Error.message` — the wording of a refusal.
-/

/-- A sequence of bytes. -/
abbrev Bytes := List UInt8

namespace Utf8

/-- Why a byte sequence is not well formed. -/
inductive Fault where
  /-- No sequence begins with this byte. -/
  | invalidStart
  /-- The sequence is broken off by a byte that cannot follow. -/
  | invalidContinuation
  /-- The text ends inside a sequence. -/
  | unexpectedEnd
  deriving DecidableEq, Repr

/-- The wording of a fault. -/
def Fault.message : Fault → String
  | .invalidStart => "invalid start byte"
  | .invalidContinuation => "invalid continuation byte"
  | .unexpectedEnd => "unexpected end of data"

/-- An ill-formed place: the index of its first byte, that byte, and how many bytes it spans. -/
structure Error where
  position : Nat
  byte : UInt8
  length : Nat
  fault : Fault
  deriving DecidableEq, Repr

/-- Two hexadecimal digits. -/
def hexByte (b : UInt8) : String :=
  let digit (n : Nat) : Char := if n < 10 then Char.ofNat (48 + n) else Char.ofNat (87 + n)
  String.ofList [digit (b.toNat / 16), digit (b.toNat % 16)]

/-- The wording of a refusal. A single byte is named by its value, a longer run by its span. -/
def Error.message (e : Error) : String :=
  let place :=
    if e.length = 1 then s!"byte 0x{hexByte e.byte} in position {e.position}"
    else s!"bytes in position {e.position}-{e.position + e.length - 1}"
  s!"'utf-8' codec can't decode {place}: {e.fault.message}"

/-- The bytes of one character. -/
def encodeChar (c : Char) : Bytes :=
  let n := c.toNat
  if n < 0x80 then [UInt8.ofNat n]
  else if n < 0x800 then [UInt8.ofNat (0xc0 + n / 64), UInt8.ofNat (0x80 + n % 64)]
  else if n < 0x10000 then
    [UInt8.ofNat (0xe0 + n / 4096), UInt8.ofNat (0x80 + n / 64 % 64), UInt8.ofNat (0x80 + n % 64)]
  else
    [UInt8.ofNat (0xf0 + n / 262144), UInt8.ofNat (0x80 + n / 4096 % 64),
      UInt8.ofNat (0x80 + n / 64 % 64), UInt8.ofNat (0x80 + n % 64)]

/-- The bytes of a text. -/
def encodeChars (cs : List Char) : Bytes := cs.flatMap encodeChar

/-- The bytes of a text. -/
def encode (s : String) : Bytes := encodeChars s.toList

/-- Whether a byte can stand inside a sequence. -/
def isContinuation (b : Nat) : Bool := 0x80 ≤ b && b < 0xc0

/-- Whether `second` may follow the lead byte `lead` of a sequence of three or four bytes. It keeps
    out overlong forms, surrogates and what lies above U+10FFFF. -/
def secondAllowed (lead second : Nat) : Bool :=
  isContinuation second &&
    (if lead = 0xe0 then 0xa0 ≤ second
     else if lead = 0xed then second < 0xa0
     else if lead = 0xf0 then 0x90 ≤ second
     else if lead = 0xf4 then second < 0x90
     else true)

/-- One step of decoding: a character and the number of bytes it takes, or the span and the fault of
    an ill-formed place. -/
def decodeStep (lead : Nat) (rest : Bytes) : Except (Nat × Fault) (Char × Nat) :=
  if lead < 0x80 then .ok (Char.ofNat lead, 1)
  -- C0 and C1 would begin overlong forms, and F5 and above lie behind the last character.
  else if lead < 0xc2 || 0xf5 ≤ lead then .error (1, .invalidStart)
  else if lead < 0xe0 then
    match rest with
    | [] => .error (1, .unexpectedEnd)
    | b :: _ =>
      if isContinuation b.toNat then .ok (Char.ofNat ((lead - 0xc0) * 64 + (b.toNat - 0x80)), 2)
      else .error (1, .invalidContinuation)
  else if lead < 0xf0 then
    match rest with
    | [] => .error (1, .unexpectedEnd)
    | b :: more =>
      if !secondAllowed lead b.toNat then .error (1, .invalidContinuation)
      else match more with
        | [] => .error (2, .unexpectedEnd)
        | c :: _ =>
          if isContinuation c.toNat then
            .ok (Char.ofNat ((lead - 0xe0) * 4096 + (b.toNat - 0x80) * 64 + (c.toNat - 0x80)), 3)
          else .error (2, .invalidContinuation)
  else
    match rest with
    | [] => .error (1, .unexpectedEnd)
    | b :: more =>
      if !secondAllowed lead b.toNat then .error (1, .invalidContinuation)
      else match more with
        | [] => .error (2, .unexpectedEnd)
        | c :: more' =>
          if !isContinuation c.toNat then .error (2, .invalidContinuation)
          else match more' with
            | [] => .error (3, .unexpectedEnd)
            | d :: _ =>
              if isContinuation d.toNat then
                .ok (Char.ofNat ((lead - 0xf0) * 262144 + (b.toNat - 0x80) * 4096 +
                  (c.toNat - 0x80) * 64 + (d.toNat - 0x80)), 4)
              else .error (3, .invalidContinuation)

/-- Decodes from a given position on. The step's length is at least one, so `fuel` at the number of
    bytes is never used up. -/
def decodeFrom : Nat → Nat → Bytes → Except Error (List Char)
  | _, _, [] => .ok []
  | 0, _, _ :: _ => .ok []
  | fuel + 1, position, lead :: rest =>
    match decodeStep lead.toNat rest with
    | .error (length, fault) => .error ⟨position, lead, length, fault⟩
    | .ok (c, n) => (decodeFrom fuel (position + n) (rest.drop (n - 1))).map (c :: ·)

/-- The characters of a byte sequence, or the first ill-formed place. -/
def decodeChars (bytes : Bytes) : Except Error (List Char) := decodeFrom bytes.length 0 bytes

/-- The text of a byte sequence, or the first ill-formed place. -/
def decode (bytes : Bytes) : Except Error String := (decodeChars bytes).map String.ofList

end Utf8

/-- Line ends as read from a text file: a carriage return, alone or before a line feed, is a line
    feed. -/
def unifyLineEnds : List Char → List Char
  | [] => []
  | '\r' :: '\n' :: rest => '\n' :: unifyLineEnds rest
  | '\r' :: rest => '\n' :: unifyLineEnds rest
  | c :: rest => c :: unifyLineEnds rest

end Backlog.Text
