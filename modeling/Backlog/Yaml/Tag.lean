import Backlog.Text.Digit

namespace Backlog.Yaml

/-!
# Tags

What kind of value a node stands for.

* `Tag.ofUri` — the kind that a written tag names;
* `Tag.ofPlain` — the kind that a plain text shows by its form.
-/

/-- The kind of a value. -/
inductive Tag where
  | null
  | bool
  | int
  | float
  | binary
  | timestamp
  | omap
  | pairs
  | set
  | str
  | seq
  | map
  /-- A key whose value is merged into its mapping. -/
  | merge
  /-- A key whose value stands for its mapping. -/
  | value
  | other (uri : String)
  deriving DecidableEq, Repr

namespace Tag

/-- What all tags of the common kinds begin with. -/
def common : String := "tag:yaml.org,2002:"

/-- The words for the common kinds. -/
def names : List (String × Tag) := [
  ("null", null), ("bool", bool), ("int", int), ("float", float), ("binary", binary),
  ("timestamp", timestamp), ("omap", omap), ("pairs", pairs), ("set", set), ("str", str),
  ("seq", seq), ("map", map), ("merge", merge), ("value", value)]

/-- The kind that a tag names. -/
def ofUri (uri : String) : Tag :=
  match names.find? (fun e => common ++ e.1 = uri) with
  | some (_, tag) => tag
  | none => other uri

/-! ### The form of plain texts -/

/-- Drops one line end at the end of a text. Patterns that go up to the end of a text pass over it. -/
def dropLineEnd (cs : List Char) : List Char :=
  if cs.getLast? = some '\n' then cs.dropLast else cs

/-- Drops a sign. -/
def dropSign : List Char → List Char
  | '-' :: rest => rest
  | '+' :: rest => rest
  | cs => cs

/-- Whether a character is a digit or an underscore. -/
def isDigitOrBar (c : Char) : Bool := c.isDigit || c = '_'

/-- Whether a text is a truth value. -/
def isBool (cs : List Char) : Bool :=
  ["yes", "Yes", "YES", "no", "No", "NO", "true", "True", "TRUE", "false", "False", "FALSE",
    "on", "On", "ON", "off", "Off", "OFF"].any (fun w => w.toList = cs)

/-- Whether a text is the word for no value. -/
def isNull (cs : List Char) : Bool :=
  ["~", "null", "Null", "NULL", ""].any (fun w => w.toList = cs)

/-- What is left after one part in base 60: a colon and a number below 60. -/
def sixty? : List Char → Option (List Char)
  | ':' :: a :: b :: rest =>
    -- Two digits are tried first; `isSixties` falls back on one.
    if '0' ≤ a && a ≤ '5' && b.isDigit then some rest
    else if a.isDigit then some (b :: rest) else none
  | [':', a] => if a.isDigit then some [] else none
  | _ => none

/-- Whether a text is one or more parts in base 60 that end as `ending` says. -/
def isSixties (fuel : Nat) (ending : List Char → Bool) (cs : List Char) : Bool :=
  match fuel with
  | 0 => false
  | fuel + 1 =>
    let long := match sixty? cs with
      | some rest => ending rest || isSixties fuel ending rest
      | none => false
    long || (match cs with
      | ':' :: a :: rest => a.isDigit && (ending rest || isSixties fuel ending rest)
      | _ => false)

/-- Whether a text is the exponent of a number, or empty. -/
def isExponent : List Char → Bool
  | [] => true
  | e :: sign :: digits =>
    (e = 'e' || e = 'E') && (sign = '-' || sign = '+') && !digits.isEmpty &&
      digits.all Char.isDigit
  | _ => false

/-- Whether a text is a number with a point, after its sign. -/
def isPointed (signed : Bool) : List Char → Bool
  | '.' :: rest =>
    let isInfinite := ["inf", "Inf", "INF"].any (fun w => w.toList = rest)
    let isNan := !signed && ["nan", "NaN", "NAN"].any (fun w => w.toList = rest)
    let isFraction := !signed && (rest.head?.any Char.isDigit) &&
      isExponent (rest.dropWhile isDigitOrBar)
    isInfinite || isNan || isFraction
  | c :: rest =>
    c.isDigit && match (rest.dropWhile isDigitOrBar) with
      | '.' :: more => isExponent (more.dropWhile isDigitOrBar)
      | ':' :: more =>
        isSixties rest.length (fun cs => match cs with
          | '.' :: tail => tail.all isDigitOrBar
          | _ => false) (':' :: more)
      | _ => false
  | [] => false

/-- Whether a text is a floating-point number. -/
def isFloat (cs : List Char) : Bool :=
  isPointed ((dropSign cs).length ≠ cs.length) (dropSign cs)

/-- Whether a text is a whole number, after its sign: in base 2, 8, 10, 16 or 60. -/
def isWhole : List Char → Bool
  | '0' :: 'b' :: rest => !rest.isEmpty && rest.all (fun c => c = '0' || c = '1' || c = '_')
  | '0' :: 'x' :: rest =>
    !rest.isEmpty && rest.all (fun c => (Text.hexValue? c).isSome || c = '_')
  | ['0'] => true
  | '0' :: rest => rest.all (fun c => ('0' ≤ c && c ≤ '7') || c = '_')
  | c :: rest =>
    c.isDigit && match rest.dropWhile isDigitOrBar with
      | [] => true
      | more => isSixties rest.length List.isEmpty more
  | [] => false

/-- Whether a text is a whole number. -/
def isInt (cs : List Char) : Bool := isWhole (dropSign cs)

end Tag

/-! ### Times -/

/-- The parts of a time of day. -/
structure ClockText where
  hour : List Char
  minute : List Char
  second : List Char
  fraction : List Char
  /-- Nothing, `Z`, or a sign with hours and minutes. -/
  zone : Option (Option (Char × List Char × List Char))

/-- The parts of a point in time. -/
structure TimeText where
  year : List Char
  month : List Char
  day : List Char
  clock : Option ClockText

namespace TimeText

/-- Takes from `least` to two digits. -/
def digits? (least : Nat) (cs : List Char) : Option (List Char × List Char) :=
  let found := (cs.take 2).takeWhile Char.isDigit
  if found.length < least then none else some (found, cs.drop found.length)

/-- Takes one character. -/
def expect? (c : Char) : List Char → Option (List Char)
  | d :: rest => if d = c then some rest else none
  | [] => none

/-- Drops spaces and tabs. -/
def dropSpaces (cs : List Char) : List Char := cs.dropWhile (fun c => c = ' ' || c = '\t')

/-- The zone at the end of a time; blanks may come before it. -/
def zone? (cs : List Char) : Option (Option (Option (Char × List Char × List Char))) :=
  if cs.isEmpty then some none
  else match dropSpaces cs with
    | ['Z'] => some (some none)
    | sign :: rest =>
      if sign = '-' || sign = '+' then do
        let (hour, rest) ← digits? 1 rest
        match rest with
        | [] => some (some (some (sign, hour, [])))
        | ':' :: rest => do
          let (minute, rest) ← digits? 2 rest
          if rest.isEmpty then some (some (some (sign, hour, minute))) else none
        | _ => none
      else none
    | [] => none

/-- A time of day and its zone. -/
def clock? (cs : List Char) : Option ClockText := do
  let (hour, rest) ← digits? 1 cs
  let (minute, rest) ← digits? 2 (← expect? ':' rest)
  let (second, rest) ← digits? 2 (← expect? ':' rest)
  let (fraction, rest) := match rest with
    | '.' :: more => (more.takeWhile Char.isDigit, more.dropWhile Char.isDigit)
    | _ => ([], rest)
  some ⟨hour, minute, second, fraction, ← zone? rest⟩

/-- What separates a day from a time: a letter T, or blanks. -/
def gap? : List Char → Option (List Char)
  | [] => none
  | c :: rest =>
    if c = 'T' || c = 't' then some rest
    else if c = ' ' || c = '\t' then some (dropSpaces rest)
    else none

/-- Splits a text that has the form of a day or of a point in time. -/
def ofChars? (cs : List Char) : Option TimeText := do
  let year := cs.take 4
  if year.length < 4 || !year.all Char.isDigit then none
  else
    let (month, rest) ← digits? 1 (← expect? '-' (cs.drop 4))
    let (day, rest) ← digits? 1 (← expect? '-' rest)
    if rest.isEmpty then some ⟨year, month, day, none⟩
    else some ⟨year, month, day, some (← clock? (← gap? rest))⟩

end TimeText

namespace Tag

/-- Whether a plain text is a time; a day alone takes two digits for month and day. -/
def isTime (cs : List Char) : Bool :=
  match TimeText.ofChars? cs with
  | some t => t.clock.isSome || (t.month.length = 2 && t.day.length = 2)
  | none => false

/-- The kind that a plain text shows by its form. -/
def ofPlain (text : String) : Tag :=
  -- A plain text has no line end at its end, but one in quotes may be tagged to be read as plain.
  let cs := dropLineEnd text.toList
  if text = "\n" then str
  else if isBool cs then bool
  else if isFloat cs then float
  else if isInt cs then int
  else if cs = ['<', '<'] then merge
  else if isNull cs then null
  else if isTime cs then timestamp
  else if cs = ['='] then value
  else str

end Tag

end Backlog.Yaml
