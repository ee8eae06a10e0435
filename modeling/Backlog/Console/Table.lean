import Backlog.Console.Wrap

namespace Backlog.Console

open Backlog.Text

/-!
# Tables

A table without lines: columns side by side, each with a blank on both sides. A column is as wide as
its widest cell; where that is too much, the widest columns give way.

* `columnWidths` — the widths of the columns;
* `tableLines` — the lines of a table.
-/

/-! ### Sharing out what is too much -/

/-- Half of the numbers in the middle between two whole ones are rounded up, half of them down: to
    the even one. -/
def roundedQuotient (n d : Nat) : Nat :=
  let q := n / d
  if 2 * (n % d) < d then q
  else if d < 2 * (n % d) then q + 1
  else if q % 2 = 0 then q else q + 1

/-- Takes an amount from some widths. Each item holds the share of a width, the most that it can
    give, and the width; shares that are gone before count no more. -/
def takeShares (amount shares : Nat) : List (Nat × Nat × Nat) → List Nat
  | [] => []
  | (share, most, size) :: rest =>
    if share = 0 || shares = 0 then size :: takeShares amount shares rest
    else
      let given := min most (roundedQuotient (share * amount) shares)
      (size - given) :: takeShares (amount - given) (shares - share) rest

/-- Takes an amount from some widths in proportion to their shares, from none more than it can
    give. -/
def reduced (amount : Nat) (items : List (Nat × Nat × Nat)) : List Nat :=
  -- What can give nothing has no share either, lest the others give too little.
  let items := items.map (fun i => (if i.2.1 = 0 then 0 else i.1, i.2))
  takeShares amount (total (items.map Prod.fst)) items

/-- Takes from the widest columns until the columns are within a limit, or none of them is wider
    than the others. Each round makes the sum smaller, so `fuel` at the sum is never used up. -/
def collapsed (limit : Nat) : Nat → List Nat → List Nat
  | 0, widths => widths
  | fuel + 1, widths =>
    let excess := total widths - limit
    let widest := widths.foldl max 0
    let second := (widths.filter (· ≠ widest)).foldl max 0
    if excess = 0 || widest = second then widths
    else
      -- All of the widest give alike, and none of them goes below the second widest.
      collapsed limit fuel (reduced excess (widths.map fun w =>
        (if w = widest then 1 else 0, min excess (widest - second), w)))

/-! ### Columns -/

/-- A column: its title, where its lines are, and what its cells show. -/
structure Column where
  title : List Char
  side : Side
  cells : List (List Char)

/-- Whether a character ends a line when the width of a text is measured. -/
def breaksLine (c : Char) : Bool :=
  c = '\n' || ('\x1c' ≤ c && c ≤ '\x1e') || c = '\u0085' || c = '\u2028' || c = '\u2029'

/-- The width of the widest line of a text. -/
def textWidth (text : List Char) : Nat :=
  ((lineParts (text.map (fun c => if breaksLine c then '\n' else c))).map width).foldl max 0

/-- The width of a cell with the blanks on both sides, within a limit. -/
def cellWidth (limit : Nat) (text : List Char) : Nat := min limit (min limit (textWidth text) + 2)

/-- The width of a column within a limit. -/
def Column.width (limit : Nat) (c : Column) : Nat :=
  ((c.title :: c.cells).map (cellWidth limit)).foldl max 0

/-- The widths of some columns side by side. -/
def columnWidths (limit : Nat) (columns : List Column) : List Nat :=
  let natural := columns.map (fun c => max 1 (c.width limit))
  if total natural ≤ limit then natural
  else
    let widths := collapsed limit (total natural) natural
    let widths :=
      if total widths ≤ limit then widths
      -- Equal widths that are still too much: every column gives, each up to all that it has.
      else reduced (total widths - limit) (widths.map (fun w => (1, w, w)))
    (widths.zip columns).map (fun wc => wc.2.width wc.1)

/-! ### Rows -/

/-- The lines of a cell in a column of some width. -/
def cellLines (side : Side) (width : Nat) (text : List Char) : List (List Char) :=
  (wrapped (width - 2) false text).map fun line =>
    ' ' :: aligned side (width - 2) line ++ [' ']

/-- A cell with blank lines behind it. -/
def heightened (height width : Nat) (lines : List (List Char)) : List (List Char) :=
  lines ++ List.replicate (height - lines.length) (blanks width)

/-- Cells side by side, line by line. -/
def sideBySide : List (List (List Char)) → List (List Char)
  | [] => []
  | [lines] => lines
  | lines :: rest => List.zipWith (· ++ ·) lines (sideBySide rest)

/-- The lines of a row; each item is a side, a width and a text. -/
def rowLines (row : List (Side × Nat × List Char)) : List (List Char) :=
  let cells := row.map (fun c => (c.2.1, cellLines c.1 c.2.1 c.2.2))
  let height := (cells.map (fun c => c.2.length)).foldl max 0
  sideBySide (cells.map (fun c => heightened height c.1 c.2))

/-- The lines of a table within some cells: the titles, then the rows. -/
def tableLines (limit : Nat) (columns : List Column) : List (List Char) :=
  let widths := columnWidths limit columns
  let rowCount := (columns.map (fun c => c.cells.length)).foldl max 0
  let line (texts : List (List Char)) : List (List Char) :=
    rowLines ((columns.map Column.side).zip (widths.zip texts))
  line (columns.map Column.title) ++
    (List.range rowCount).flatMap fun i => line (columns.map (fun c => c.cells.getD i []))

end Backlog.Console
