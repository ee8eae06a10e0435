import Backlog.Number.Numeral

namespace Backlog.Number

/-!
# Double-precision numbers

The binary64 numbers as exact dyadic values, with correctly rounded reading and the shortest
decimal text that reads back.

* `Binary64.ofRatio` — the nearest number to a quotient, a tie going to the even mantissa;
* `Binary64.ofDecimal`, `Binary64.ofText?` — reading decimals;
* `Binary64.shortest` — the fewest digits that read back, and of those the nearest to the value;
* `Binary64.text` — positional from 0.0001 up to below 10^16, with an exponent elsewhere.
-/

/-- A binary64 number. A finite one is mantissa times two to the exponent, where the mantissa is
    below 2^53 and the exponent is the least possible one not under -1074. -/
inductive Binary64 where
  | nan
  | infinity (negative : Bool)
  | finite (negative : Bool) (mantissa : Nat) (exponent : Int)
  deriving DecidableEq, Repr, Inhabited

namespace Binary64

/-- The least exponent of a finite number. -/
def minExponent : Int := -1074

/-- The greatest exponent of a finite number. -/
def maxExponent : Int := 971

/-- Zero with a sign. -/
def zero (negative : Bool) : Binary64 := .finite negative 0 minExponent

/-- `n / 2^e` as a quotient of naturals, for an exponent of either sign. -/
def scaleDown (num den : Nat) (e : Int) : Nat × Nat :=
  if 0 ≤ e then (num, den * Nat.pow 2 e.toNat) else (num * Nat.pow 2 (-e).toNat, den)

/-- The quotient rounded to the nearest natural, a half going to the even neighbour. -/
def roundHalfEven (num den : Nat) : Nat :=
  let q := num / den
  let r := num % den
  if den < 2 * r || (2 * r = den && q % 2 = 1) then q + 1 else q

/-- The number nearest to `num / den`, for a positive `den`. -/
def ofRatio (negative : Bool) (num den : Nat) : Binary64 :=
  if num = 0 then zero negative
  else
    -- The logarithms leave one bit open: the quotient may have one more than they say.
    let guess : Int := max ((num.log2 : Int) - (den.log2 : Int) - 53) minExponent
    let (n, d) := scaleDown num den guess
    let e := if Nat.pow 2 53 ≤ n / d then guess + 1 else guess
    let (n, d) := scaleDown num den e
    let m := roundHalfEven n d
    -- Rounding up may fill the mantissa, and then the next exponent has it.
    let (m, e) := if m = Nat.pow 2 53 then (Nat.pow 2 52, e + 1) else (m, e)
    if maxExponent < e then .infinity negative else .finite negative m e

/-- The number nearest to `digits · 10^exponent`. Far outside the range the answer is known without
    computing the power. -/
def ofDecimal (negative : Bool) (digits : Nat) (exponent : Int) : Binary64 :=
  if digits = 0 then zero negative
  else
    let magnitude : Int := (Nat.toDigits 10 digits).length + exponent
    -- The range ends near 10^308 on one side and near 10^-324 on the other.
    if 400 < magnitude then .infinity negative
    else if magnitude < -400 then zero negative
    else if 0 ≤ exponent then ofRatio negative (digits * Nat.pow 10 exponent.toNat) 1
    else ofRatio negative digits (Nat.pow 10 (-exponent).toNat)

/-- The number nearest to a whole number; `none` when it is out of range. -/
def ofInt? (n : Int) : Option Binary64 :=
  match ofRatio (n < 0) n.natAbs 1 with
  | .finite s m e => some (.finite s m e)
  | _ => none

/-- Whether the number has a minus sign. -/
def isNegative : Binary64 → Bool
  | .nan => false
  | .infinity s => s
  | .finite s _ _ => s

/-- The number with its sign flipped. -/
def negate : Binary64 → Binary64
  | .nan => .nan
  | .infinity s => .infinity (!s)
  | .finite s m e => .finite (!s) m e

/-- The exact value of a finite number as a signed numerator and a power of two below it. -/
def toRatio? : Binary64 → Option (Int × Nat)
  | .finite s m e =>
    let n : Int := if s then -(m : Int) else m
    if 0 ≤ e then some (n * Int.pow 2 e.toNat, 1) else some (n, Nat.pow 2 (-e).toNat)
  | _ => none

/-- The number nearest to a signed quotient. -/
def ofSignedRatio (num : Int) (den : Nat) : Binary64 := ofRatio (num < 0) num.natAbs den

/-- The sum of two finite numbers, rounded; other sums are not a number. -/
def add (a b : Binary64) : Binary64 :=
  match a.toRatio?, b.toRatio? with
  | some (n, d), some (n', d') => ofSignedRatio (n * d' + n' * d) (d * d')
  | _, _ => .nan

/-- The product of a finite number and a natural, rounded. -/
def scale (a : Binary64) (k : Nat) : Binary64 :=
  match a.toRatio? with
  | some (n, d) => ofRatio a.isNegative (n.natAbs * k) d
  | none => a

/-- The whole part of a finite number. -/
def truncate? (a : Binary64) : Option Int :=
  a.toRatio?.map (fun r => Int.tdiv r.1 r.2)

/-- Whether two numbers are equal as values: the two zeros are, a NaN is equal to nothing. -/
def sameValue : Binary64 → Binary64 → Bool
  | .infinity s, .infinity t => s = t
  | .finite s m e, .finite t n f => (m = 0 && n = 0) || (s = t && m = n && e = f)
  | _, _ => false

/-- Whether the number is exactly a given whole number. -/
def equalsInt (a : Binary64) (n : Int) : Bool :=
  match a.toRatio? with
  | some (num, den) => num = n * den
  | none => false

/-- The number of decimal digits before the point of `num / den`, for a positive quotient: the `k`
    with `10^(k-1) ≤ num / den < 10^k`. The logarithms give it up to one, in either direction. -/
def decimalPoint (num den : Nat) : Int :=
  let below (k : Int) : Bool :=
    if 0 ≤ k then num < den * Nat.pow 10 k.toNat else num * Nat.pow 10 (-k).toNat < den
  let guess : Int := (((num.log2 : Int) - (den.log2 : Int)) * 30103) / 100000
  let candidates := [guess - 1, guess, guess + 1, guess + 2]
  (candidates.find? below).getD (guess + 3)

/-- The interval of the reals that round to `mantissa · 2^exponent`: its ends as multiples of
    `2^(exponent-2)`. Below a power of two the lower neighbour is half as far away. -/
def roundingEnds (mantissa : Nat) (exponent : Int) : Nat × Nat :=
  let low := if mantissa = Nat.pow 2 52 && minExponent < exponent then 4 * mantissa - 1
    else 4 * mantissa - 2
  (low, 4 * mantissa + 2)

/-- Whether `digits · 10^power` rounds to the finite number `mantissa · 2^exponent`. -/
def roundsTo (mantissa : Nat) (exponent : Int) (digits : Nat) (power : Int) : Bool :=
  let (low, high) := roundingEnds mantissa exponent
  let tens := Nat.pow 10 power.natAbs
  let (n, d) := if 0 ≤ power then (digits * tens, 1) else (digits, tens)
  -- In quarters of the last bit the ends of the interval are whole numbers.
  let (n, d) := scaleDown n d (exponent - 2)
  if mantissa % 2 = 0 then low * d ≤ n && n ≤ high * d else low * d < n && n < high * d

/-- The grid of multiples of `10^power`: the neighbour of `num / den` on it that rounds to the
    number, the nearer one if both do, the even one on a tie. -/
def gridPoint? (mantissa : Nat) (exponent : Int) (num den : Nat) (power : Int) : Option Nat :=
  let tens := Nat.pow 10 power.natAbs
  let (n, d) := if 0 ≤ power then (num, den * tens) else (num * tens, den)
  let q := n / d
  let r := n % d
  let lowHits := roundsTo mantissa exponent q power
  -- Without a remainder the lower neighbour is the value itself, and there is no other one.
  let highHits := r ≠ 0 && roundsTo mantissa exponent (q + 1) power
  match lowHits, highHits with
  | true, true =>
    if 2 * r < d then some q
    else if d < 2 * r then some (q + 1)
    else some (if q % 2 = 0 then q else q + 1)
  | true, false => some q
  | false, true => some (q + 1)
  | false, false => none

/-- The first grid with a hit, from the coarsest down. -/
def searchGrids (mantissa : Nat) (exponent : Int) (num den : Nat) (point : Int) :
    List Nat → Nat × Int
  -- Never so: seventeen digits always read back.
  | [] => (num / den, 0)
  | count :: rest =>
    match gridPoint? mantissa exponent num den (point - count) with
    | some digits => (digits, point - count)
    | none => searchGrids mantissa exponent num den point rest

/-- The fewest decimal digits that read back as the finite positive number, and the power of ten
    that they count. -/
def shortest (mantissa : Nat) (exponent : Int) : Nat × Int :=
  let (num, den) := scaleDown mantissa 1 (-exponent)
  searchGrids mantissa exponent num den (decimalPoint num den) (List.range' 1 17)

/-- How numbers are laid out: positional if the decimal point falls within these bounds. -/
structure Layout where
  /-- The least number of digits before the point, zeros behind the point counting negative. -/
  least : Int
  /-- The greatest number of digits before the point. -/
  greatest : Int
  /-- The fewest digits of an exponent. -/
  exponentWidth : Nat

/-- From 0.0001 up to below 10^16 a number is positional; an exponent has two digits or more. -/
def layout : Layout := ⟨-3, 16, 2⟩

/-- Digits without their trailing zeros; at least one digit stays. -/
def dropTrailingZeros (digits : List Char) : List Char :=
  match (digits.reverse.dropWhile (· = '0')).reverse with
  | [] => ['0']
  | cs => cs

/-- Lays significant digits out, the first `point` of them before the decimal point. -/
def layOut (digits : List Char) (point : Int) : List Char :=
  if layout.least ≤ point && point ≤ layout.greatest then
    if point ≤ 0 then '0' :: '.' :: List.replicate (-point).toNat '0' ++ digits
    else
      let whole := digits.take point.toNat
      let padding := List.replicate (point.toNat - digits.length) '0'
      let fraction := digits.drop point.toNat
      whole ++ padding ++ '.' :: (if fraction.isEmpty then ['0'] else fraction)
  else
    let exponent := point - 1
    let tail := digits.drop 1
    let fraction := if tail.isEmpty then [] else '.' :: tail
    let shown := Nat.toDigits 10 exponent.natAbs
    let padding := List.replicate (layout.exponentWidth - shown.length) '0'
    digits.take 1 ++ fraction ++ 'e' :: (if exponent < 0 then '-' else '+') :: padding ++ shown

/-- The characters of a finite number without its sign. -/
def magnitudeChars (mantissa : Nat) (exponent : Int) : List Char :=
  if mantissa = 0 then ['0', '.', '0']
  else
    let (digits, power) := shortest mantissa exponent
    let all := Nat.toDigits 10 digits
    layOut (dropTrailingZeros all) (all.length + power)

/-- The words for the numbers that have no digits. -/
structure Names where
  nan : String
  infinity : String

/-- The shortest text that reads back. -/
def textWith (names : Names) : Binary64 → String
  | .nan => names.nan
  | .infinity s => if s then "-" ++ names.infinity else names.infinity
  | .finite s m e => String.ofList ((if s then ['-'] else []) ++ magnitudeChars m e)

/-- The shortest text that reads back, with `nan` and `inf` for the numbers without digits. -/
def text (x : Binary64) : String := x.textWith ⟨"nan", "inf"⟩

/-- Reads the exponent part of a decimal; nothing at all counts as zero. -/
def readExponent? : List Char → Option Int
  | [] => some 0
  | c :: rest =>
    if c = 'e' || c = 'E' then
      let (negative, digits) := splitSign rest
      if digits.isEmpty || !digits.all Char.isDigit then none
      else some (signed negative (Nat.ofDigitChars 10 digits 0))
    else none

/-- Reads an unsigned decimal: digits with at most one point and at least one digit, then perhaps an
    exponent. -/
def readDecimal? (negative : Bool) (cs : List Char) : Option Binary64 :=
  let whole := cs.takeWhile Char.isDigit
  let rest := cs.dropWhile Char.isDigit
  let (fraction, rest) := match rest with
    | '.' :: more => (more.takeWhile Char.isDigit, more.dropWhile Char.isDigit)
    | _ => ([], rest)
  if whole.isEmpty && fraction.isEmpty then none
  else
    (readExponent? rest).map fun e =>
      ofDecimal negative (Nat.ofDigitChars 10 (whole ++ fraction) 0) (e - fraction.length)

/-- Reads a number: a decimal with an optional sign, or the words of `text`. -/
def ofText? (s : String) : Option Binary64 :=
  let (negative, body) := splitSign s.toList
  if body = ['n', 'a', 'n'] then some .nan
  else if body = ['i', 'n', 'f'] then some (.infinity negative)
  else readDecimal? negative body

end Binary64

end Backlog.Number
