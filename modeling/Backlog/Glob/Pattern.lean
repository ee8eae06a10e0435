import Backlog.Glob.Brace
import Backlog.Glob.CharClass

namespace Backlog.Glob

/-!
# Glob patterns and what they match

A pattern, once its brace lists are expanded, is a row of tokens. Matching is on the whole path.

* `Pattern.ofChars` — reads a pattern;
* `Pattern.matches` — whether a path matches.

A star or question mark stays within a segment, two stars as a whole segment span any number of
them, and neither takes a segment that is `.` or `..`. A run of slashes in the path counts as one,
and slashes at the end of the path are free unless the pattern itself ends in one.
-/

/-- What follows two stars that span segments. -/
inductive SpanEnd where
  /-- The end of the pattern. -/
  | last
  /-- A slash and more tokens. -/
  | inner
  /-- A slash that ends the pattern. -/
  | slash
  deriving DecidableEq, Repr

/-- One element of a pattern. A token that `leads` stands at the start of a segment. -/
inductive Token where
  /-- The character itself. -/
  | literal (c : Char)
  /-- One or more slashes. -/
  | separator
  /-- Any one character of a segment. -/
  | one (leads : Bool)
  /-- One character of a class, within a segment. -/
  | oneOf (leads : Bool) (k : CharClass)
  /-- Any number of characters of a segment. -/
  | star (leads : Bool)
  /-- Any number of segments; a slash comes first if the token stands behind one. -/
  | span (behindSlash : Bool) (ending : SpanEnd)
  deriving DecidableEq, Repr

/-- A pattern: its tokens, or the pattern without any text. -/
inductive Pattern where
  | empty
  | tokens (ts : List Token)
  deriving DecidableEq, Repr

namespace Pattern

/-! ### Reading -/

/-- Drops the slashes in front. -/
def dropSlashes (cs : List Char) : List Char := cs.dropWhile (· = '/')

/-- The rest of a pattern after two stars that stand for whole segments, and how the span ends. Two
    stars before anything but a slash or the end are no span. -/
def spanEnd? (cs : List Char) : Option (SpanEnd × List Char) :=
  let afterSlash (rest : List Char) : SpanEnd × List Char :=
    let rest := dropSlashes rest
    (if rest.isEmpty then .slash else .inner, rest)
  match cs with
  | [] => some (.last, [])
  | ['\\'] => some (.last, [])
  | '/' :: rest => some (afterSlash rest)
  | '\\' :: '/' :: rest => some (afterSlash rest)
  | _ => none

/-- Puts a span behind the tokens so far, the latest first. Right behind another span it only
    changes how that one ends; the slash that it stands behind becomes a part of it. -/
def addSpan (ending : SpanEnd) : List Token → List Token
  | .span behind _ :: rest => .span behind ending :: rest
  | .separator :: rest => .span true ending :: rest
  | before => .span false ending :: before

/-- Reads the tokens of a pattern; `leads` says whether the next one is the first of its segment,
    and `before` are those so far, the latest first. -/
def read (fuel : Nat) (leads : Bool) (before : List Token) (cs : List Char) : List Token :=
  match fuel with
  | 0 => before.reverse
  | fuel + 1 =>
    match cs with
    | [] => before.reverse
    | '/' :: rest => read fuel true (.separator :: before) (dropSlashes rest)
    | '\\' :: rest =>
      match rest with
      | [] => before.reverse
      | '/' :: rest => read fuel true (.separator :: before) (dropSlashes rest)
      | c :: rest => read fuel false (.literal c :: before) rest
    | '*' :: rest =>
      -- Two stars are a span only if they are a whole segment; any other run of stars is one star.
      let span := match rest with
        | '*' :: more => if leads then spanEnd? more else none
        | _ => none
      match span with
      | some (ending, more) => read fuel true (addSpan ending before) more
      | none => read fuel false (.star leads :: before) (rest.dropWhile (· = '*'))
    | '?' :: rest => read fuel false (.one leads :: before) rest
    | '[' :: rest =>
      match CharClass.parse? rest with
      | some (k, more) => read fuel false (.oneOf leads k :: before) more
      | none => read fuel false (.literal '[' :: before) rest
    | c :: rest => read fuel false (.literal c :: before) rest

/-- Reads a pattern without brace lists. -/
def ofChars (cs : List Char) : Pattern :=
  if cs.isEmpty then .empty else .tokens (read (cs.length + 1) true [] cs)

/-! ### Matching -/

/-- Whether the text is at its end, a final line feed aside. -/
def atEnd (cs : List Char) : Bool := cs = [] || cs = ['\n']

/-- Whether the text is at the end of a segment. -/
def atSegmentEnd (cs : List Char) : Bool := atEnd cs || cs.head? = some '/'

/-- Whether the text begins with a segment that is `.` or `..`. -/
def atDotSegment : List Char → Bool
  | '.' :: rest =>
    atSegmentEnd rest || (match rest with
      | '.' :: more => atSegmentEnd more
      | _ => false)
  | _ => false

/-- Tries to go on after any number of characters of the segment. -/
def afterSome (k : List Char → Bool) : List Char → Bool
  | [] => k []
  | c :: rest => k (c :: rest) || (c ≠ '/' && afterSome k rest)

/-- Tries to go on after any number of slashes. -/
def afterSlashes (k : List Char → Bool) : List Char → Bool
  | [] => k []
  | c :: rest => k (c :: rest) || (c = '/' && afterSlashes k rest)

/-- Whether a span stops in front of this text: a segment `.` or `..` begins here. -/
def blocksSpan (atStart : Bool) (cs : List Char) : Bool :=
  (atStart && atDotSegment cs) || (match cs with
    | '/' :: rest => atDotSegment rest
    | _ => false)

/-- Tries to go on after any number of segments. -/
def afterSpan (k : Bool → List Char → Bool) (atStart : Bool) : List Char → Bool
  | [] => k atStart []
  | c :: rest =>
    k atStart (c :: rest) || (!blocksSpan atStart (c :: rest) && afterSpan k false rest)

/-- Whether a token that leads may begin here. -/
def mayLead (leads : Bool) (cs : List Char) : Bool := !(leads && atDotSegment cs)

/-- Whether the tokens match the text; `atStart` says that nothing comes before it. -/
def run : List Token → Bool → List Char → Bool
  | [], _, cs => cs.all (· = '/')
  | .literal c :: ts, _, x :: rest => x = c && run ts false rest
  | .literal _ :: _, _, [] => false
  | .separator :: ts, _, x :: rest => x = '/' && afterSlashes (run ts false) rest
  | .separator :: _, _, [] => false
  | .one leads :: ts, _, x :: rest => x ≠ '/' && mayLead leads (x :: rest) && run ts false rest
  | .one _ :: _, _, [] => false
  | .oneOf leads k :: ts, _, x :: rest =>
    x ≠ '/' && k.accepts x && mayLead leads (x :: rest) && run ts false rest
  | .oneOf _ _ :: _, _, [] => false
  | .star leads :: ts, atStart, cs =>
    if leads then
      match cs with
      | x :: rest => x ≠ '/' && !atDotSegment cs && afterSome (run ts false) (x :: rest)
      | [] => false
    else afterSome (run ts atStart) cs
  | .span behindSlash ending :: ts, atStart, cs =>
    (!behindSlash || cs.head? = some '/') &&
      afterSpan (fun start here =>
        match ending with
        | .last => here.all (· = '/')
        | .slash => !here.isEmpty && here.all (· = '/')
        | .inner =>
          (start && run ts start here) || (match here with
            | x :: rest => x = '/' && afterSlashes (run ts false) rest
            | [] => false)) atStart cs

/-- Whether a path matches a pattern as a whole. -/
def «matches» (p : Pattern) (path : List Char) : Bool :=
  match p with
  | .empty => path.isEmpty
  | .tokens ts => run ts true path

end Pattern

end Backlog.Glob
