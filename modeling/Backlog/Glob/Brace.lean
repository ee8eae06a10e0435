import Backlog.Number.Numeral

namespace Backlog.Glob

open Backlog.Number Backlog.Text

/-!
# Brace lists in glob patterns

A brace list stands for several patterns: `a{b,c}d` for `abd` and `acd`, `x{1..3}` for `x1`, `x2`
and `x3`. What is no complete list stays as it is written.

* `Piece.ofChars` — splits a pattern into literal text and brace lists;
* `Piece.expand` — the patterns that a split pattern stands for, the first list varying slowest;
* `Piece.cost`, `Piece.extent` — how much work and how many patterns that is, found without
  expanding anything;
* `expandWithin` — expands unless that gives too many patterns.

A backslash keeps the next character from opening, closing or splitting a list, and both stay in the
expansion; so does a brace right after a dollar sign.
-/

/-- A part of a pattern. -/
inductive Piece where
  /-- Characters that stand for themselves. -/
  | chars (cs : List Char)
  /-- A list of alternatives. -/
  | choice (slots : List (List Piece))
  /-- Braces around a single alternative, which stay. -/
  | braced (inner : List Piece)
  /-- The whole numbers from `first` to `last`, in either direction, padded with zeros. -/
  | numbers (first last : Int) (step width : Nat)
  /-- The characters from `first` to `last`, in either direction. -/
  | letters (first last : Char) (step : Nat)
  deriving Repr

namespace Piece

/-! ### Ranges -/

/-- A numeral of a range: a sign and digits. The text keeps the digits as they are written. -/
def numeral? (cs : List Char) : Option (List Char × Int × List Char) :=
  let (sign, body) := match cs with
    | '-' :: rest => (['-'], rest)
    | '+' :: rest => (['+'], rest)
    | _ => ([], cs)
  let digits := body.takeWhile (fun c => (decimalValue? c).isSome)
  if digits.isEmpty then none
  else
    let values := digits.filterMap decimalValue?
    let n : Nat := values.foldl (fun n v => 10 * n + v) 0
    some (sign ++ digits, signed (sign = ['-']) n, body.dropWhile (fun c => (decimalValue? c).isSome))

/-- The two points between the bounds of a range. -/
def dots? : List Char → Option (List Char)
  | '.' :: '.' :: rest => some rest
  | _ => none

/-- The end of a range: perhaps a step, then the closing brace. A step of zero counts as one, and
    its sign does not matter. -/
def stepEnd? (cs : List Char) : Option (Nat × List Char) :=
  match cs with
  | '\x7d' :: rest => some (1, rest)
  | _ => do
    let rest ← dots? cs
    let (_, n, rest) ← numeral? rest
    match rest with
    -- The sign of a step is read and forgotten: the bounds alone give the direction.
    | '\x7d' :: rest => some (max 1 n.natAbs, rest)
    | _ => none

/-- Whether a numeral is padded: more than one digit, and a zero in front. -/
def isPadded (text : List Char) : Bool :=
  match (if text.head? = some '-' then text.drop 1 else text) with
  | '0' :: _ :: _ => true
  | _ => false

/-- A range of numbers, after the opening brace. -/
def numbers? (cs : List Char) : Option (Piece × List Char) := do
  let (firstText, first, rest) ← numeral? cs
  let (lastText, last, rest) ← numeral? (← dots? rest)
  let (step, rest) ← stepEnd? rest
  let width := if isPadded firstText || isPadded lastText
    then max firstText.length lastText.length else 0
  some (.numbers first last step width, rest)

/-- A range of letters, after the opening brace. -/
def letters? : List Char → Option (Piece × List Char)
  | first :: '.' :: '.' :: last :: rest => do
    if first.isAlpha && last.isAlpha then
      let (step, rest) ← stepEnd? rest
      some (.letters first last step, rest)
    else none
  | _ => none

/-- A range, after the opening brace. -/
def range? (cs : List Char) : Option (Piece × List Char) := (numbers? cs).or (letters? cs)

/-! ### Splitting -/

/-- What a closed list is: one without a comma keeps its braces. -/
def close (slots : List (List Piece)) (hasComma : Bool) : Piece :=
  if hasComma then .choice slots else .braced (slots.headD [])

mutual

/-- Splits up to the end, or inside a list (`depth` above zero) up to a comma or a closing brace. A
    list that is not closed makes the list around it unclosed too; outside of lists its opening
    brace stands for itself. -/
def run (fuel depth : Nat) (afterDollar : Bool) (cs : List Char) :
    Option (List Piece × List Char) :=
  match fuel with
  | 0 => none
  | fuel + 1 =>
    match cs with
    -- Inside a list the end of the pattern means that the list is not closed.
    | [] => if depth = 0 then some ([], []) else none
    | '\\' :: rest => do
      let (pieces, left) ← run fuel depth false (rest.drop 1)
      some (.chars ('\\' :: rest.take 1) :: pieces, left)
    | c :: rest =>
      if c = '\x7b' && !afterDollar then
        match group fuel (depth + 1) rest with
        | some (piece, left) => do
          let (pieces, left) ← run fuel depth false left
          some (piece :: pieces, left)
        | none =>
          -- Outside of all lists the brace is a character like any other, and reading goes on
          -- behind it.
          if depth = 0 then do
            let (pieces, left) ← run fuel depth false rest
            some (.chars [c] :: pieces, left)
          else none
      else if depth ≠ 0 && (c = ',' || c = '\x7d') then some ([], c :: rest)
      else do
        let (pieces, left) ← run fuel depth (c = '$') rest
        some (.chars [c] :: pieces, left)

/-- A list after its opening brace. -/
def group (fuel depth : Nat) (cs : List Char) : Option (Piece × List Char) :=
  match fuel with
  | 0 => none
  | fuel + 1 =>
    match range? cs with
    | some found => some found
    | none => slots fuel depth [] [] false cs

/-- The alternatives of a list from the current one on. An outermost list is not closed before its
    first comma: until then a closing brace belongs to the first alternative. -/
def slots (fuel depth : Nat) (done : List (List Piece)) (current : List Piece) (hasComma : Bool)
    (cs : List Char) : Option (Piece × List Char) :=
  match fuel with
  | 0 => none
  | fuel + 1 =>
    match cs with
    | [] => none
    | ',' :: rest => slots fuel depth (done ++ [current]) [] true rest
    | '\x7d' :: rest =>
      -- `{a}b,c}` is one list of `a}b` and `c`, while `{x,{a}b,c}` holds the pair `{a}`.
      if depth = 1 && !hasComma then do
        let (pieces, left) ← run fuel depth false rest
        slots fuel depth done (current ++ .chars ['\x7d'] :: pieces) hasComma left
      else some (close (done ++ [current]) hasComma, rest)
    | cs => do
      let (pieces, left) ← run fuel depth false cs
      slots fuel depth done (current ++ pieces) hasComma left

end

/-- Splits a pattern. A pair of braces at its very start stands for itself. -/
def ofChars (cs : List Char) : List Piece :=
  let fuel := 3 * cs.length + 3
  match cs with
  | '\x7b' :: '\x7d' :: rest =>
    .braced [] :: ((run fuel 0 false rest).map Prod.fst).getD [.chars rest]
  | _ => ((run fuel 0 false cs).map Prod.fst).getD [.chars cs]

/-! ### Expanding -/

/-- The number of members of a range. -/
def spanSize (distance step : Nat) : Nat := distance / step + 1

/-- A number padded with zeros to a width; a minus sign counts. -/
def padded (width : Nat) (n : Int) : List Char :=
  let digits := Nat.toDigits 10 n.natAbs
  let sign := if n < 0 then ['-'] else []
  sign ++ List.replicate (width - sign.length - digits.length) '0' ++ digits

/-- The members of a range of numbers. -/
def numberTexts (first last : Int) (step width : Nat) : List (List Char) :=
  let direction : Int := if first < last then 1 else -1
  (List.range (spanSize (last - first).natAbs step)).map
    fun i => padded width (first + direction * (i * step : Nat))

/-- The members of a range of letters. A backslash would escape what follows, so nothing stands in
    its place. -/
def letterTexts (first last : Char) (step : Nat) : List (List Char) :=
  let distance := if first ≤ last then last.toNat - first.toNat else first.toNat - last.toNat
  (List.range (spanSize distance step)).map fun i =>
    let n := if first ≤ last then first.toNat + i * step else first.toNat - i * step
    if n = '\\'.toNat then [] else [Char.ofNat n]

mutual

/-- The texts that a piece stands for. -/
def texts : Piece → List (List Char)
  | .chars cs => [cs]
  | .choice slots => slotTexts slots
  | .braced inner => (expand inner).map (fun t => '\x7b' :: t ++ ['\x7d'])
  | .numbers first last step width => numberTexts first last step width
  | .letters first last step => letterTexts first last step

/-- The texts that a row of pieces stands for, the first piece varying slowest. -/
def expand : List Piece → List (List Char)
  | [] => [[]]
  | piece :: rest => (texts piece).flatMap fun t => (expand rest).map (t ++ ·)

/-- The texts of all alternatives, in order. -/
def slotTexts : List (List Piece) → List (List Char)
  | [] => []
  | slot :: rest => expand slot ++ slotTexts rest

end

/-- How many texts there are, and how many of the last of them are empty. -/
structure Extent where
  size : Nat
  emptyEnd : Nat

mutual

/-- The extent of a piece's texts. -/
def extent : Piece → Extent
  | .chars cs => ⟨1, if cs.isEmpty then 1 else 0⟩
  | .choice slots => slotExtent slots
  | .braced inner => ⟨(rowExtent inner).size, 0⟩
  | .numbers first last step _ => ⟨spanSize (last - first).natAbs step, 0⟩
  | .letters first last step =>
    ⟨spanSize ((last.toNat : Int) - first.toNat).natAbs step, 0⟩

/-- The extent of a row's texts. -/
def rowExtent : List Piece → Extent
  | [] => ⟨1, 1⟩
  | piece :: rest =>
    let a := extent piece
    let b := rowExtent rest
    ⟨a.size * b.size,
      -- The last texts are the last one of `piece` with each of `rest`: the empty ones reach
      -- further back only if all of `rest` are empty.
      if a.emptyEnd = 0 then 0
      else if b.emptyEnd = b.size then a.emptyEnd * b.size
      else b.emptyEnd⟩

/-- The extent of the texts of alternatives. -/
def slotExtent : List (List Piece) → Extent
  | [] => ⟨0, 0⟩
  | slot :: rest =>
    let a := rowExtent slot
    let b := slotExtent rest
    ⟨a.size + b.size, if b.emptyEnd = b.size then a.emptyEnd + b.emptyEnd else b.emptyEnd⟩

end

/-- The work of expanding: what it amounts to, and the most that is counted on the way there. -/
structure Cost where
  total : Nat
  peak : Nat

mutual

/-- The work of a list; `none` for plain characters. -/
def cost? : Piece → Option Cost
  | .chars _ => none
  | .choice slots => some (slotCost 0 slots)
  | .braced inner => some (if inner.isEmpty then ⟨0, 0⟩ else rowCost 0 1 0 false inner)
  | .numbers first last step _ =>
    let n := spanSize (last - first).natAbs step
    some ⟨n, n⟩
  | .letters first last step =>
    let n := spanSize ((last.toNat : Int) - first.toNat).natAbs step
    some ⟨n, n⟩

/-- The work of a row. The lists are counted one after the other, and only at the end is their sum
    replaced by their product; a row without lists counts once. -/
def rowCost (sum product peak : Nat) (hasList : Bool) : List Piece → Cost
  | [] =>
    let total := if hasList then product else 1
    ⟨total, max peak total⟩
  | piece :: rest =>
    match cost? piece with
    | none => rowCost sum product peak hasList rest
    | some c => rowCost (sum + c.total) (product * c.total) (max peak (sum + c.peak)) true rest

/-- The work of alternatives after others that amount to `sum`; an empty one counts nothing. -/
def slotCost (sum : Nat) : List (List Piece) → Cost
  | [] => ⟨sum, sum⟩
  | slot :: rest =>
    let c := if slot.isEmpty then ⟨0, 0⟩ else rowCost 0 1 0 false slot
    let after := slotCost (sum + c.total) rest
    ⟨after.total, max (sum + c.peak) after.peak⟩

end

/-- The work of a whole pattern. -/
def cost (pieces : List Piece) : Cost := rowCost 0 1 0 false pieces

/-- The texts without the empty ones at the end; if all are empty, one of them. -/
def dropEmptyEnd (ts : List (List Char)) : List (List Char) :=
  match (ts.reverse.dropWhile List.isEmpty).reverse with
  | [] => [[]]
  | kept => kept

end Piece

/-- The patterns that a pattern with brace lists stands for; `none` if the work or the number of
    patterns is above the limit. -/
def expandWithin (limit : Nat) (pattern : List Char) : Option (List (List Char)) :=
  let pieces := Piece.ofChars pattern
  let extent := Piece.rowExtent pieces
  -- The empty texts at the end are dropped, so they do not count towards the limit.
  if limit < (Piece.cost pieces).peak || limit < extent.size - extent.emptyEnd then none
  else some (Piece.dropEmptyEnd (Piece.expand pieces))

end Backlog.Glob
