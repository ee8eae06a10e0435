import Backlog.Import.Basic
import Backlog.Import.Python.Statement
import Backlog.Import.Script.Phrase

namespace Backlog

/-!
# The parsers of this project

Readers of Python, and of JavaScript and TypeScript, that put together as much of a syntax tree as
imports are read from. What is proved of the imports in a tree holds for every parser; these are the
ones that the program runs with.
-/

/-- Both grammars are installed. -/
def Grammars.all : Grammars := ⟨some Import.Python.parse, some Import.Script.parse⟩

end Backlog
