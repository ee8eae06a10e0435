namespace Backlog.Console

/-!
# Marked-up text

Text with tags in square brackets, which set a style and do not show. A tag begins with a small
letter, `#`, `/` or `@`. A backslash before a tag makes it text, and two stand for one.

* `escaped` — a text as marked-up text that shows it;
* `shown` — what shows of marked-up text.
-/

/-- Whether a tag can begin with a character. -/
def startsTag (c : Char) : Bool := c.isLower || c = '#' || c = '/' || c = '@'

/-- What is in a tag up to its closing bracket, and what follows on it. -/
def untilBracket : List Char → Option (List Char × List Char)
  | [] => none
  | ']' :: rest => some ([], rest)
  | '[' :: _ => none
  | c :: rest => (untilBracket rest).map (fun found => (c :: found.1, found.2))

/-- The tag that a text begins with. -/
structure Tag where
  /-- The backslashes in front of it. -/
  backslashes : Nat
  /-- The tag with its brackets. -/
  text : List Char
  /-- The number of characters of all that. -/
  size : Nat

/-- The tag that a text begins with, if it does. -/
def Tag.ofStart (text : List Char) : Option Tag :=
  let backslashes := (text.takeWhile (· = '\\')).length
  match text.drop backslashes with
  | '[' :: c :: rest =>
    if startsTag c then
      (untilBracket rest).map fun found =>
        ⟨backslashes, '[' :: c :: found.1 ++ [']'], backslashes + found.1.length + 3⟩
    else none
  | _ => none

/-- What marked-up text is made of. -/
inductive Piece where
  | plain (c : Char)
  | tag (t : Tag)

/-- The pieces of marked-up text. Backslashes that no tag follows are plain text, and so are those
    of a row from its second on; `inRow` tells whether the row has begun. -/
def pieces (inRow : Bool) : List Char → List Piece
  | [] => []
  | c :: rest =>
    -- The backslashes in front of a tag are its own only from the first one of their row on.
    match if inRow then none else Tag.ofStart (c :: rest) with
    | some t => .tag t :: pieces false (rest.drop (t.size - 1))
    | none => .plain c :: pieces (c = '\\') rest
termination_by text => text.length
decreasing_by all_goals simp only [List.length_cons, List.length_drop]; omega

/-- A piece as text. -/
def Piece.escaped : Piece → List Char
  | .plain c => [c]
  | .tag t => List.replicate (2 * t.backslashes + 1) '\\' ++ t.text

/-- A text as marked-up text. A single backslash at its end is doubled, lest it escape a tag that
    may follow. -/
def escaped (text : List Char) : List Char :=
  let safe := (pieces false text).flatMap Piece.escaped
  match safe.reverse with
  | '\\' :: '\\' :: _ => safe
  | '\\' :: _ => safe ++ ['\\']
  | _ => safe

/-- Plain text without the backslashes before its brackets. -/
def dropEscapes : List Char → List Char
  | '\\' :: '[' :: rest => '[' :: dropEscapes rest
  | c :: rest => c :: dropEscapes rest
  | [] => []

/-- What shows of a tag with the backslashes in front of it. -/
def Tag.shown (t : Tag) : List Char :=
  List.replicate (t.backslashes / 2) '\\' ++ if t.backslashes % 2 = 1 then t.text else []

/-- What shows of some pieces; `plain` is the plain text before them, in reverse. -/
def shownFrom (plain : List Char) : List Piece → List Char
  | [] => dropEscapes plain.reverse
  | .plain c :: rest => shownFrom (c :: plain) rest
  | .tag t :: rest => dropEscapes plain.reverse ++ t.shown ++ shownFrom [] rest

/-- The control characters that a terminal would act on. -/
def controlCodes : List Char := ['\x07', '\x08', '\x0b', '\x0c', '\r']

/-- What shows of marked-up text. -/
def shown (markup : List Char) : List Char :=
  (shownFrom [] (pieces false markup)).filter (fun c => !controlCodes.contains c)

end Backlog.Console
