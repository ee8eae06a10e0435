namespace Backlog.Text

/-!
# Similar texts

Two texts are the more similar the more of their characters match: those of their longest common
part, then those that match before it and behind it.

* `matchedSize` — the number of characters that match;
* `similarTexts` — the texts of a list that are similar to one, the most similar first.
-/

/-- The number of characters that two texts begin with in common. -/
def commonSize : List Char → List Char → Nat
  | a :: as, b :: bs => if a = b then commonSize as bs + 1 else 0
  | _, _ => 0

/-- A part that two texts have in common: where it begins in each, and its size. -/
structure CommonPart where
  first : Nat
  second : Nat
  size : Nat
  deriving DecidableEq, Repr

/-- The larger of two parts, the first one if none is. -/
def CommonPart.larger (p q : CommonPart) : CommonPart := if p.size < q.size then q else p

/-- The longest part that a text has in common with another from its beginning on; of two the one
    that is first in the other text. -/
def partHere (i : Nat) (as : List Char) (j : Nat) : List Char → CommonPart
  | [] => ⟨i, j, 0⟩
  | b :: bs => CommonPart.larger ⟨i, j, commonSize as (b :: bs)⟩ (partHere i as (j + 1) bs)

/-- The longest part that two texts have in common; of two the one that is first in the first
    text. -/
def longestPart (i : Nat) (bs : List Char) : List Char → CommonPart
  | [] => ⟨i, 0, 0⟩
  | a :: as => CommonPart.larger (partHere i (a :: as) 0 bs) (longestPart (i + 1) bs as)

/-- The number of characters of two texts that match. The parts grow smaller, so `fuel` at the size
    of the first text is never used up. -/
def matchedWithin : Nat → List Char → List Char → Nat
  | 0, _, _ => 0
  | fuel + 1, as, bs =>
    let part := longestPart 0 bs as
    if part.size = 0 then 0
    else
      -- Nothing that matches lies across the longest part, so what is before it and what is behind
      -- it are two problems of the same kind.
      part.size + matchedWithin fuel (as.take part.first) (bs.take part.second) +
        matchedWithin fuel (as.drop (part.first + part.size)) (bs.drop (part.second + part.size))

/-- The number of characters of two texts that match. -/
def matchedSize (as bs : List Char) : Nat := matchedWithin as.length as bs

/-- A text with its similarity to another: `2 * matched / total`. -/
structure Likeness where
  text : String
  matched : Nat
  total : Nat

namespace Likeness

/-- The similarity of a text to another. -/
def of (text other : String) : Likeness :=
  ⟨text, matchedSize text.toList other.toList, text.length + other.length⟩

/-- At least three fifths of the characters match. -/
def isClose (l : Likeness) : Bool := 3 * l.total ≤ 10 * l.matched

/-- Whether one text comes before another: the more similar one does, else the larger one. -/
def before (l m : Likeness) : Bool :=
  let left := l.matched * m.total
  let right := m.matched * l.total
  if left = right then !(l.text < m.text) else right < left

end Likeness

/-- The texts of a list that are similar to one, at most three, the most similar first. -/
def similarTexts (text : String) (texts : List String) : List String :=
  let close := (texts.map (Likeness.of · text)).filter Likeness.isClose
  ((close.mergeSort Likeness.before).take 3).map Likeness.text

end Backlog.Text
