import Backlog.Import.Syntax

namespace Backlog

open Backlog.Import

/-!
# Imports as they are written, and the languages they are written in

What a source file says of an import is kept apart from what it leads to: the one is a matter of a
language, the other of a project. The parsers come from elsewhere, and a language that has none
cannot be read.

* `WrittenImport` — an import before anybody looks for the file that it stands for;
* `Language.ofSuffix?` — the language of a source file;
* `Grammars` — the languages that can be read, each with its parser.
-/

/-- An import as it is written. -/
structure WrittenImport where
  /-- The module, as it is spelled: `a.b`, `..pkg`, `./util`, `react`. -/
  specifier : String
  /-- The line on which the import begins, counted from one. -/
  line : Nat
  /-- The names that are imported from a module; they may be modules themselves. -/
  names : List String
  deriving DecidableEq, Repr

/-- A language that imports can be read from. -/
inductive Language where
  | python
  /-- JavaScript and TypeScript; with markup, tags are part of the language. -/
  | ecmascript (markup : Bool)
  deriving DecidableEq, Repr

/-- The name of a language. -/
def Language.name : Language → String
  | .python => "python"
  | .ecmascript _ => "ecmascript"

/-- The languages of source files by the ends of their names. -/
def languageSuffixes : List (String × Language) :=
  [(".py", .python), (".ts", .ecmascript false), (".mts", .ecmascript false),
    (".cts", .ecmascript false), (".tsx", .ecmascript true), (".js", .ecmascript false),
    (".mjs", .ecmascript false), (".cjs", .ecmascript false), (".jsx", .ecmascript true)]

/-- The language of the files whose names have a suffix. -/
def Language.ofSuffix? (suffix : String) : Option Language :=
  languageSuffixes.lookup suffix

/-- The parsers of the grammars that are installed. -/
structure Grammars where
  python : Option SourceParser
  /-- The parser without and with markup. -/
  ecmascript : Option (Bool → SourceParser)

namespace Grammars

/-- The parser of a language. -/
def parser? (g : Grammars) : Language → Option SourceParser
  | .python => g.python
  | .ecmascript markup => g.ecmascript.map fun parser => parser markup

/-- Whether a language can be read. -/
def reads (g : Grammars) (language : Language) : Bool := (g.parser? language).isSome

/-- The language of the files whose names have a suffix, if it can be read. -/
def language? (g : Grammars) (suffix : String) : Option Language :=
  (Language.ofSuffix? suffix).filter g.reads

/-- The suffixes, of some given ones, whose files can be read. -/
def readable (g : Grammars) (suffixes : List String) : List String :=
  suffixes.filter (fun s => (g.language? s).isSome)

/-- All suffixes whose files can be read. -/
def suffixes (g : Grammars) : List String := g.readable (languageSuffixes.map Prod.fst)

end Grammars

end Backlog
