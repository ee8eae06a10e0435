import Backlog.Graph.Build
import Backlog.Import.Extraction

namespace Backlog

open Backlog.Files Backlog.Text

/-!
# The imports of source files

A source file is read, parsed and gone through for its imports. None of this makes a file a bad one:
what cannot be read, or has no text in it, imports nothing. Only a tree with a text in it that is
not well spelled is refused.

* `Grammars.imports` — the imports that a source text makes;
* `FileTree.imports` — the imports of a file; one that cannot be read makes none.
-/

/-- Whether a byte is white space. -/
def isBlankByte (byte : UInt8) : Bool := byte = 0x20 || (0x09 ≤ byte && byte ≤ 0x0d)

/-- The imports that a source text makes, in order. -/
def Grammars.imports (g : Grammars) (language : Language) (source : Bytes) :
    Except Utf8.Error (List WrittenImport) :=
  match g.parser? language with
  | none => .ok []
  | some parse => language.imports (parse source)

/-- The imports of a file, in order. -/
def Files.FileTree.imports (tree : FileTree) (grammars : Grammars) (path : Path) :
    Except Trouble (List WrittenImport) :=
  match grammars.language? path.suffix with
  | none => .ok []
  | some language =>
    match tree.read path.text with
    | .ok bytes =>
      -- A file of nothing but space is not parsed at all.
      if bytes.all isBlankByte then .ok []
      else (grammars.imports language bytes).mapError .spelling
    | .error .nul => .error (.file .nul path.text)
    -- A file that is gone or may not be read makes no imports.
    | .error _ => .ok []

end Backlog
