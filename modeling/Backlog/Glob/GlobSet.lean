import Backlog.Glob.Pattern
import Backlog.Text.Quoted

namespace Backlog

open Backlog.Glob Backlog.Text

/-!
# Sets of globs

A list of glob patterns, of which a path has to match one.

* `normalizePath` — the spelling of a path that is matched: slashes for backslashes, and no `./` in
  front;
* `GlobSet.compile` — reads the patterns, unless their brace lists stand for too many;
* `GlobSet.matches`, `GlobSet.select`, `GlobSet.reject` — matching one path, and sorting paths out;
* `escapeGlob` — a pattern for one path only.
-/

/-- Drops each `./` in front. -/
def dropDotSlashes : List Char → List Char
  | '.' :: '/' :: rest => dropDotSlashes rest
  | cs => cs

/-- The characters of a path as it is matched. -/
def normalizeChars (cs : List Char) : List Char :=
  dropDotSlashes (cs.map (fun c => if c = '\\' then '/' else c))

/-- A path as it is matched. -/
def normalizePath (path : String) : String := String.ofList (normalizeChars path.toList)

/-- The refusal of patterns that stand for too many. -/
structure PatternLimit where
  limit : Nat
  deriving DecidableEq, Repr

/-- The wording of the refusal. -/
def PatternLimit.message (e : PatternLimit) : String :=
  s!"Pattern limit exceeded the limit of {e.limit}"

/-- The most patterns that a list may stand for. -/
def maxPatterns : Nat := 1000

/-- Globs that are ready for matching. -/
structure GlobSet where
  /-- The patterns as given. -/
  globs : List String
  /-- The patterns that they stand for. -/
  patterns : List Pattern

namespace GlobSet

/-- No globs; nothing matches. -/
def empty : GlobSet := ⟨[], []⟩

/-- Expands the globs one after the other, `used` patterns being there already. -/
def expandAll (used : Nat) : List String → Except PatternLimit (List Pattern)
  | [] => .ok []
  | glob :: rest =>
    -- The limit of a single glob never falls to zero, so the sum has to be checked as well.
    match expandWithin (max 1 (maxPatterns - used)) glob.toList with
    | none => .error ⟨maxPatterns⟩
    | some texts =>
      if maxPatterns < used + texts.length then .error ⟨maxPatterns⟩
      else (expandAll (used + texts.length) rest).map (texts.map Pattern.ofChars ++ ·)

/-- Reads a list of globs. -/
def compile (globs : List String) : Except PatternLimit GlobSet :=
  (expandAll 0 globs).map (⟨globs, ·⟩)

/-- Whether there is no glob. -/
def isEmpty (g : GlobSet) : Bool := g.globs.isEmpty

/-- Whether a path matches one of the globs. -/
def «matches» (g : GlobSet) (path : String) : Bool :=
  let cs := normalizeChars path.toList
  g.patterns.any (fun p => p.matches cs)

/-- The paths that match, in order. -/
def select (g : GlobSet) (paths : List String) : List String := paths.filter g.matches

/-- The paths that do not match, in order. -/
def reject (g : GlobSet) (paths : List String) : List String :=
  paths.filter (fun p => !g.matches p)

/-- How a set shows inside a message. -/
def label (g : GlobSet) : String := s!"GlobSet({quotedList g.globs})"

end GlobSet

/-- Whether a path matches one of the globs; without globs every path does. -/
def pathMatches (globs : List String) (path : String) : Except PatternLimit Bool :=
  if globs.isEmpty then .ok true else (GlobSet.compile globs).map (fun g => g.matches path)

/-- The characters that a pattern reads as something else than themselves. -/
def specialChars : List Char := "-!~*?()[]|\x7b\x7d".toList

/-- A glob that matches one path. -/
def escapeGlob (path : String) : String :=
  String.ofList ((normalizeChars path.toList).flatMap
    fun c => if specialChars.contains c then ['\\', c] else [c])

end Backlog
