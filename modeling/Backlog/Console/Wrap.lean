import Backlog.Console.Width
import Backlog.Text.Digit

namespace Backlog.Console

open Backlog.Text

/-!
# Text in lines of limited width

Widths are counted in cells of a terminal, of which a character may take up none, one or two. So
texts are broken by what they take up, and not by how many characters they have.

* `wrapped` — the lines of a text, broken between words; what is too long for a line is broken
  anywhere, or left for later cutting;
* `aligned` — the lines in exactly some cells, to the left or to the right.
-/

/-! ### Words -/

/-- A word with the blanks behind it, and what follows. -/
def firstWord (text : List Char) : List Char × List Char :=
  let word := text.takeWhile (fun c => !isBlank c)
  let rest := text.dropWhile (fun c => !isBlank c)
  (word ++ rest.takeWhile isBlank, rest.dropWhile isBlank)

/-- The words of a text that has no blanks in front, each with the blanks behind it. There are no
    more of them than characters, so `fuel` at their number is never used up. -/
def wordsFrom : Nat → List Char → List (List Char)
  | 0, _ => []
  | _, [] => []
  | fuel + 1, text => let (word, rest) := firstWord text; word :: wordsFrom fuel rest

/-- The words of a text, each with the blanks behind it, the first one also with those before it. -/
def words (text : List Char) : List (List Char) :=
  let front := text.takeWhile isBlank
  match wordsFrom text.length (text.dropWhile isBlank) with
  | [] => []
  | word :: rest => (front ++ word) :: rest

/-- A text without the blanks at its end. -/
def trimmedEnd (text : List Char) : List Char := (text.reverse.dropWhile isBlank).reverse

/-! ### Breaking -/

/-- The parts of a word that is too long for a line; `used` cells of the first part are taken. -/
def chopped (limit used : Nat) : List Char → List (List Char)
  | [] => [[]]
  | c :: rest =>
    let cells := charWidth c
    if limit < used + cells then
      match chopped limit cells rest with
      | part :: parts => [] :: (c :: part) :: parts
      | [] => [[], [c]]
    else
      match chopped limit (used + cells) rest with
      | part :: parts => (c :: part) :: parts
      | [] => [[c]]

/-- The places at which some parts begin, the start of the text left out. -/
def startsOf (start : Nat) : List (List Char) → List Nat
  | [] => []
  | part :: parts => (if start = 0 then [] else [start]) ++ startsOf (start + part.length) parts

/-- The places at which a text is broken, from a word at `start` on; `used` cells of the line are
    taken. `fold` tells whether a word that is too long for a line is broken too. -/
def breaks (limit : Nat) (fold : Bool) (start used : Nat) : List (List Char) → List Nat
  | [] => []
  | word :: rest =>
    let size := width (trimmedEnd word)
    let next := start + word.length
    if used + size ≤ limit then breaks limit fold next (used + width word) rest
    else if limit < size && fold then
      let parts := chopped limit 0 word
      startsOf start parts ++ breaks limit fold next (width (parts.getLastD [])) rest
    else (if start = 0 then [] else [start]) ++ breaks limit fold next (width word) rest

/-- A text cut at some places, which ascend. -/
def cutAt (start : Nat) (text : List Char) : List Nat → List (List Char)
  | [] => [text]
  | place :: places => text.take (place - start) :: cutAt place (text.drop (place - start)) places

/-- A line without the blanks at its end that exceed a number of characters. -/
def withoutExcess (limit : Nat) (line : List Char) : List Char :=
  let blank := line.length - (trimmedEnd line).length
  line.take (line.length - min blank (line.length - limit))

/-- The parts of a text between line feeds. -/
def lineParts : List Char → List (List Char)
  | [] => [[]]
  | c :: rest =>
    match lineParts rest with
    | part :: parts => if c = '\n' then [] :: part :: parts else (c :: part) :: parts
    | [] => [[c]]

/-- A line with its tabs filled up to a multiple of eight cells; `cells` come before it. -/
def withoutTabs (cells : Nat) : List Char → List Char
  | [] => []
  | c :: rest =>
    if c = '\t' then
      let size := 8 - cells % 8
      blanks size ++ withoutTabs (cells + size) rest
    else c :: withoutTabs (cells + charWidth c) rest

/-- The lines of a text, broken so that they stay within some cells as far as possible. -/
def wrapped (limit : Nat) (fold : Bool) (text : List Char) : List (List Char) :=
  (lineParts text).flatMap fun line =>
    let line := withoutTabs 0 line
    (cutAt 0 line (breaks limit fold 0 0 (words line))).map (withoutExcess limit)

/-! ### Aligning -/

/-- Where the lines of a column begin or end. -/
inductive Side where
  | left
  | right
  deriving DecidableEq, Repr

/-- A line cut to some cells, with dots in place of what is left out. -/
def shortenedLine (limit : Nat) (line : List Char) : List Char :=
  if limit < width line then fitted (limit - 1) line ++ ['…'] else line

/-- A line in exactly some cells. -/
def aligned (side : Side) (limit : Nat) (line : List Char) : List Char :=
  match side with
  | .left => padded limit (shortenedLine limit line)
  | .right =>
    let line := shortenedLine limit (trimmedEnd line)
    blanks (limit - width line) ++ line

/-- A line of running text, cut to some cells. -/
def cutLine (limit : Nat) (line : List Char) : List Char :=
  if limit < width line then fitted limit line else line

/-- Running text in lines of some cells. -/
def paragraph (limit : Nat) (text : List Char) : List (List Char) :=
  (wrapped limit true text).map (cutLine limit)

end Backlog.Console
