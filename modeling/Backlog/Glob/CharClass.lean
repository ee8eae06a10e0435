namespace Backlog.Glob

/-!
# Character classes in glob patterns

What stands between square brackets: single characters, ranges and named classes, perhaps negated.

* `CharClass.accepts` — whether a character is in the class;
* `CharClass.parse?` — reads a class after its opening bracket; a class that is not closed, or that
  holds a slash, is none.
-/

/-- The named classes. They hold ASCII characters only. -/
inductive NamedClass where
  | alnum | alpha | ascii | blank | cntrl | digit | graph | lower | print | punct | space | upper
  | word | xdigit
  deriving DecidableEq, Repr

namespace NamedClass

/-- The classes by the names they go by in a pattern. -/
def names : List (List Char × NamedClass) := [
  ("alnum".toList, alnum), ("alpha".toList, alpha), ("ascii".toList, ascii),
  ("blank".toList, blank), ("cntrl".toList, cntrl), ("digit".toList, digit),
  ("graph".toList, graph), ("lower".toList, lower), ("print".toList, print),
  ("punct".toList, punct), ("space".toList, space), ("upper".toList, upper),
  ("word".toList, word), ("xdigit".toList, xdigit)]

/-- Whether a class holds a character. -/
def accepts (k : NamedClass) (c : Char) : Bool :=
  match k with
  | alnum => c.isAlphanum
  | alpha => c.isAlpha
  | ascii => c.toNat < 0x80
  | blank => c = ' ' || c = '\t'
  | cntrl => c.toNat < 0x20 || c.toNat = 0x7f
  | digit => c.isDigit
  | graph => 0x21 ≤ c.toNat && c.toNat ≤ 0x7e
  | lower => c.isLower
  | print => 0x20 ≤ c.toNat && c.toNat ≤ 0x7e
  | punct => 0x21 ≤ c.toNat && c.toNat ≤ 0x7e && !c.isAlphanum
  | space => c = ' ' || (0x09 ≤ c.toNat && c.toNat ≤ 0x0d)
  | upper => c.isUpper
  | word => c.isAlphanum || c = '_'
  | xdigit => c.isDigit || ('a' ≤ c && c ≤ 'f') || ('A' ≤ c && c ≤ 'F')

end NamedClass

/-- One member of a class. -/
inductive ClassItem where
  | single (c : Char)
  | range (first last : Char)
  | named (k : NamedClass)
  deriving DecidableEq, Repr

/-- Whether a member stands for a character. -/
def ClassItem.accepts (item : ClassItem) (c : Char) : Bool :=
  match item with
  | .single d => c = d
  | .range first last => first ≤ c && c ≤ last
  | .named k => k.accepts c

/-- A class of characters. -/
structure CharClass where
  negated : Bool
  items : List ClassItem
  deriving DecidableEq, Repr

namespace CharClass

/-- Whether a character is in a class. A class without members holds nothing, and negated
    everything. -/
def accepts (k : CharClass) (c : Char) : Bool := k.items.any (fun item => item.accepts c) != k.negated

/-- What has been read of a class, before it is known which hyphens make ranges. -/
inductive Mark where
  | char (c : Char)
  /-- A hyphen between two members. -/
  | hyphen
  | named (k : NamedClass)
  deriving DecidableEq, Repr

/-- The place of a mark in the order of characters, for telling whether a range runs backwards. -/
def Mark.code : Mark → Nat
  | .char c => c.toNat
  | .hyphen => '-'.toNat
  | .named .blank => ' '.toNat
  | .named _ => '-'.toNat

/-- The members of a row of marks. -/
def itemsOf : List Mark → List ClassItem
  | .char a :: .hyphen :: .char b :: rest => .range a b :: itemsOf rest
  | .char a :: rest => .single a :: itemsOf rest
  | .hyphen :: rest => .single '-' :: itemsOf rest
  | .named k :: rest => .named k :: itemsOf rest
  | [] => []

/-- A reader's state: the marks so far, the latest first; the index of the next character; where a
    range that has begun gets its end; up to where a hyphen is a plain character; and whether a
    named class came last. -/
structure Reader where
  marks : List Mark
  index : Nat
  rangeEnd : Option Nat
  plainHyphenUpTo : Nat
  afterNamed : Bool

/-- A named class, after the bracket that opens it. -/
def named? : List Char → Option (NamedClass × List Char)
  | ':' :: rest =>
    let name := rest.takeWhile (· ≠ ':')
    match rest.dropWhile (· ≠ ':') with
    | ':' :: ']' :: rest => do
      let (_, k) ← NamedClass.names.find? (fun e => e.1 = name)
      some (k, rest)
    | _ => none
  | _ => none

/-- Adds the end of a range, or drops the range if it runs backwards. -/
def addRangeEnd (marks : List Mark) (last : Mark) : List Mark :=
  match marks with
  -- The latest mark is the hyphen; it goes away together with what the range began with.
  | _ :: first :: rest => if last.code < first.code then rest else last :: marks
  | _ => last :: marks

/-- Whether the character at the reader's index ends a range. -/
def Reader.endsRange (r : Reader) : Bool := r.rangeEnd.any (fun e => e ≤ r.index)

/-- Takes a member that took `width` characters, the last of them at `index + width - 1`. -/
def Reader.take (r : Reader) (mark : Mark) (width : Nat) : Reader :=
  let last := { r with index := r.index + width - 1 }
  if last.endsRange then
    { r with marks := addRangeEnd r.marks mark, index := r.index + width, rangeEnd := none,
             afterNamed := false }
  else { r with marks := mark :: r.marks, index := r.index + width, afterNamed := false }

/-- Takes a hyphen: it makes a range of what stands around it, ends one, or is a plain character. -/
def Reader.takeHyphen (r : Reader) : Reader :=
  -- The hyphen of `[[:alpha:]-z]` stands for itself.
  if r.afterNamed then
    { r with marks := .char '-' :: r.marks, index := r.index + 1, afterNamed := false }
  else if r.plainHyphenUpTo < r.index then
    -- The range ends at the next index, and a hyphen right behind that begins no second range.
    { r with marks := .hyphen :: r.marks, index := r.index + 1, rangeEnd := some (r.index + 1),
             plainHyphenUpTo := r.index + 2 }
  else if r.endsRange then
    { r with marks := addRangeEnd r.marks (.char '-'), index := r.index + 1, rangeEnd := none }
  else { r with marks := .char '-' :: r.marks, index := r.index + 1 }

/-- Takes a named class that took `width` characters. A hyphen before it makes no range. -/
def Reader.takeNamed (r : Reader) (k : NamedClass) (width : Nat) : Reader :=
  -- A class cannot end a range, so the hyphen that began one becomes a character.
  let marks := if r.endsRange then
    match r.marks with
    | .hyphen :: rest => .char '-' :: rest
    | marks => marks
    else r.marks
  { r with marks := .named k :: marks, index := r.index + width, afterNamed := true }

/-- Reads the members up to the closing bracket. -/
def read? (fuel : Nat) (r : Reader) (cs : List Char) : Option (List Mark × List Char) :=
  match fuel with
  | 0 => none
  | fuel + 1 =>
    match cs with
    | [] => none
    | ']' :: rest => some (r.marks.reverse, rest)
    | '-' :: rest => read? fuel r.takeHyphen rest
    | '/' :: _ => none
    | '\\' :: c :: rest => if c = '/' then none else read? fuel (r.take (.char c) 2) rest
    | ['\\'] => none
    | '[' :: rest =>
      match named? rest with
      | some (k, left) => read? fuel (r.takeNamed k (cs.length - left.length)) left
      | none => read? fuel (r.take (.char '[') 1) rest
    | c :: rest => read? fuel (r.take (.char c) 1) rest

/-- Reads a class after its opening bracket, which had index 0. An exclamation mark or a caret in
    front negates; a hyphen or a closing bracket that comes first is a plain character. -/
def parse? (cs : List Char) : Option (CharClass × List Char) := do
  let (negated, body) := match cs with
    | '!' :: rest => (true, rest)
    | '^' :: rest => (true, rest)
    | _ => (false, cs)
  let start : Reader := ⟨[], if negated then 2 else 1, none, 0, false⟩
  let (reader, left) := match body with
    | ']' :: rest => ({ start with marks := [.char ']'], index := start.index + 1 }, rest)
    | '-' :: rest => ({ start with marks := [.char '-'], index := start.index + 1 }, rest)
    | _ => (start, body)
  let (marks, rest) ← read? (left.length + 1) reader left
  some (⟨negated, itemsOf marks⟩, rest)

end CharClass

end Backlog.Glob
