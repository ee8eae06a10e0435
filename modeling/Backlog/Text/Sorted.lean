namespace Backlog.Text

/-!
# Lists of texts in order

Texts are compared by code points, and in no language's order. Where a list is kept without repeats
it is in the order in which the texts first come, so that nothing depends on how a set happens to be
laid out.

* `sortedTexts` — by code point;
* `distinctTexts` — each once, where it first comes.
-/

/-- The texts of a list by code point. -/
def sortedTexts (texts : List String) : List String := texts.mergeSort (fun a b => !(b < a))

/-- The texts of a list that are not in `seen`, each where it first comes. -/
def newTexts (seen : List String) : List String → List String
  | [] => []
  -- `seen` grows in front, since only membership matters.
  | s :: rest => if seen.contains s then newTexts seen rest else s :: newTexts (s :: seen) rest

/-- The distinct texts of a list, each where it first comes. -/
def distinctTexts (texts : List String) : List String := newTexts [] texts

end Backlog.Text
