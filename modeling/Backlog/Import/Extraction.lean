import Backlog.Import.Basic

namespace Backlog.Import

open Backlog.Text

/-!
# The imports in a syntax tree

Each language has its own kinds of nodes that name modules. In both of them these nodes are looked for
from the top of the tree, and in the order of the source; a name that is no text stops the search.

* `pythonImports` — the imports in the tree of a Python source;
* `scriptImports` — the imports in the tree of a JavaScript or TypeScript source: it also finds calls
  below exported declarations and among the arguments of other calls, but not inside of a statement
  that names a module or of a call that loads one.
-/

/-! ### Python -/

/-- The statements of Python that import. -/
def pythonKinds : List String := ["import_statement", "import_from_statement"]

/-- The name that a node imports, whatever it is called afterwards. -/
def pythonName (node : SyntaxNode) : Except Utf8.Error String :=
  spelling? (if node.kind = "aliased_import" then node.childByField? "name" else some node)

/-- The names that a statement imports. -/
def pythonNames (node : SyntaxNode) : Except Utf8.Error (List String) := do
  return (← (node.childrenByField "name").mapM pythonName).filter (· ≠ "")

/-- The imports of a statement: one for each module, or one for the module that names are imported
    from. -/
def pythonStatement (node : SyntaxNode) : Except Utf8.Error (List WrittenImport) := do
  let line := node.row + 1
  if node.kind = "import_statement" then return (← pythonNames node).map (⟨·, line, []⟩)
  else
    let module ← spelling? (node.childByField? "module_name")
    if module = "" then return [] else return [⟨module, line, ← pythonNames node⟩]

/-- The imports in the tree of a Python source, in order. -/
def pythonImports (root : SyntaxNode) : Except Utf8.Error (List WrittenImport) := do
  return (← (SyntaxNode.walk pythonKinds [root]).mapM pythonStatement).flatten

/-! ### JavaScript and TypeScript -/

/-- The nodes of scripts that can name a module. -/
def scriptKinds : List String := ["import_statement", "export_statement", "call_expression"]

/-- The value of a string: its first part that is written without escapes. Any other node has none,
    and neither has an empty string. -/
def stringValue? (node? : Option SyntaxNode) : Except Utf8.Error (Option String) :=
  match node? with
  | none => .ok none
  | some node =>
    if node.kind ≠ "string" then .ok none
    else match node.children.find? (fun child => child.kind = "string_fragment") with
      | none => .ok none
      | some fragment => do
        let value ← spelling? (some fragment)
        return if value = "" then none else some value

/-- What a node says about imports. -/
inductive Finding where
  /-- The module that it names, or that it names none. Either way nobody looks inside. -/
  | module (name : Option String)
  /-- Nothing, but there may be imports inside. -/
  | inside
  deriving DecidableEq

/-- Whether a call is one of `require` or `import`, by the node that is called. -/
def loads (function? : Option SyntaxNode) : Except Utf8.Error Bool :=
  match function? with
  | none => .ok false
  | some function =>
    if function.kind = "identifier" then
      (spelling? (some function)).map fun name => decide (name = "require")
    else .ok (decide (function.kind = "import"))

/-- The module that the first argument of a call names. -/
def loadedModule (arguments? : Option SyntaxNode) : Except Utf8.Error (Option String) :=
  stringValue? (arguments?.bind fun arguments => arguments.namedChildren.head?)

/-- What a node of the kinds that can name a module says. -/
def finding (node : SyntaxNode) : Except Utf8.Error Finding := do
  if node.kind = "import_statement" then
    return .module (← stringValue? (node.childByField? "source"))
  else if node.kind = "export_statement" then
    match ← stringValue? (node.childByField? "source") with
    | some name => return .module (some name)
    -- What is exported may be a declaration.
    | none => return .inside
  else if ← loads (node.childByField? "function") then
    return .module (← loadedModule (node.childByField? "arguments"))
  else return .inside

/-- The imports in the tree of a JavaScript or TypeScript source, in order. -/
def scriptImports (root : SyntaxNode) : Except Utf8.Error (List WrittenImport) := do
  let found ← (SyntaxNode.walk scriptKinds [root]).attach.mapM fun ⟨node, _⟩ => do
    match ← finding node with
    | .module name => return name.toList.map (⟨·, node.row + 1, []⟩)
    | .inside =>
      return (← node.children.attach.mapM fun ⟨inner, _⟩ => scriptImports inner).flatten
  return found.flatten
termination_by sizeOf root
decreasing_by
  rename_i hnode hinner
  exact SyntaxNode.sizeOf_child_lt_of_mem_walk hnode hinner

end Backlog.Import

namespace Backlog

open Backlog.Text

/-- The imports in the tree of a source, in order. -/
def Language.imports (language : Language) (root : Import.SyntaxNode) :
    Except Utf8.Error (List WrittenImport) :=
  match language with
  | .python => Import.pythonImports root
  | .ecmascript _ => Import.scriptImports root

end Backlog
