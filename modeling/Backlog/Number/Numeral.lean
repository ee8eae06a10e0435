import Backlog.Text.Digit

namespace Backlog.Number

open Backlog.Text

/-!
# Decimal numerals

Whole numbers as decimal text of any length.

* `intText` — the digits, after a minus sign if the number is negative;
* `readInt` — reads a numeral as people write them: blanks around it, a sign, decimal digits of any
  script, single underscores between digits; at most `maxDigits` digits.
-/

/-- The longest numeral that is read, in digits. -/
def maxDigits : Nat := 4300

/-- The characters of a whole number. -/
def intChars : Int → List Char
  | .ofNat n => Nat.toDigits 10 n
  | .negSucc n => '-' :: Nat.toDigits 10 (n + 1)

/-- The text of a whole number. -/
def intText (n : Int) : String := String.ofList (intChars n)

/-- Why a text is not read as a whole number. -/
inductive NumeralError where
  /-- The text has another form. -/
  | malformed
  /-- The text is a numeral of this many digits, more than `maxDigits`. -/
  | tooLong (digits : Nat)
  deriving DecidableEq, Repr

/-- The wording for a numeral with too many digits. -/
def tooLongMessage (digits : Nat) : String :=
  s!"Exceeds the limit ({maxDigits} digits) for integer string conversion: value has {digits} " ++
    "digits; use sys.set_int_max_str_digits() to increase the limit"

/-- Whether the text of a whole number has more digits than are read. -/
def isTooLong (n : Int) : Bool := maxDigits < (Nat.toDigits 10 n.natAbs).length

/-- The wording for a number whose text would have too many digits. -/
def tooLongToWrite : String :=
  s!"Exceeds the limit ({maxDigits} digits) for integer string conversion; " ++
    "use sys.set_int_max_str_digits() to increase the limit"

/-- The value of a run of decimal digits, or the refusal of a run that is too long. -/
def natOfDigits (digits : List Char) : Except NumeralError Nat :=
  if maxDigits < digits.length then .error (.tooLong digits.length)
  else .ok (Nat.ofDigitChars 10 digits 0)

/-- Whether a character is blank before and after a numeral: an ASCII blank, or white space outside
    ASCII. -/
def isNumeralBlank (c : Char) : Bool := isPlainBlank c || (0x7f < c.toNat && isBlank c)

/-- The digits of a numeral, underscores taken out; each underscore stands between two digits. -/
def splitDigits : List Char → Option (List Char)
  | [] => none
  | c :: rest => do
    let v ← decimalValue? c
    let digit := Nat.digitChar v
    match rest with
    | [] => some [digit]
    -- An underscore at the end leaves nothing to read, and two in a row no digit.
    | '_' :: more => (splitDigits more).map (digit :: ·)
    | d :: more => (splitDigits (d :: more)).map (digit :: ·)

/-- Takes the sign of a numeral off; the flag says whether it is negative. -/
def splitSign : List Char → Bool × List Char
  | '-' :: rest => (true, rest)
  | '+' :: rest => (false, rest)
  | cs => (false, cs)

/-- Gives a magnitude its sign. -/
def signed (negative : Bool) (n : Nat) : Int := if negative then -(n : Int) else n

/-- Drops the blanks around a numeral. -/
def trimBlanks (cs : List Char) : List Char :=
  ((cs.dropWhile isNumeralBlank).reverse.dropWhile isNumeralBlank).reverse

/-- Reads a whole number in decimal. -/
def readInt (text : String) : Except NumeralError Int :=
  let (negative, body) := splitSign (trimBlanks text.toList)
  match splitDigits body with
  | none => .error .malformed
  | some digits => (natOfDigits digits).map (signed negative)

/-- The digits of a number read back as the number. -/
theorem natOfDigits_toDigits (n : Nat) (h : (Nat.toDigits 10 n).length ≤ maxDigits) :
    natOfDigits (Nat.toDigits 10 n) = .ok n := by
  simp [natOfDigits, Nat.not_lt.mpr h, Nat.ofDigitChars_ten_toDigits]

end Backlog.Number
