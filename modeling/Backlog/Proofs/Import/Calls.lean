import Backlog.Import.Parsers
import Backlog.Import.Source
import Backlog.Proofs.Outcome
import Backlog.Proofs.Text.Utf8
import Mathlib

namespace Backlog.Import

open Backlog.Text

/-!
# Calls that load modules, wherever they stand

The search for imports in the tree of a script goes two ways: a walk that stops at the nodes that can
name a module, and a recursion into those of them that turn out to name none. Together they come to
every node of the tree but those inside of a node that closes, that is, of a statement that names a
module or of a call that loads one.

So the imports of a script can be told node by node. `occurrences` lists all nodes of a tree in the
order of the source, each with the one thing about its surroundings that matters, and
`Occurrence.imports` says what such a node adds.

* `SyntaxNode.closes` — the nodes that nobody looks inside of;
* `occurrences`, `Stands`, `mem_occurrences_iff` — the nodes of a tree and their surroundings;
* `scriptImports_eq` — the imports of a script are those that its nodes add;
* `LoadsPlain`, `LoadsPlain.imports_eq` — the calls whose first argument is a plain string, and what
  they add;
* `FileTree.imports_eq_sites` — so each such call of a file is an import, unless it is inside of
  another one or has a comment in front of its argument.
-/

/-! ### The nodes of a tree -/

/-- Whether nobody looks inside of a node. -/
def SyntaxNode.closes (node : SyntaxNode) : Bool :=
  scriptKinds.contains node.kind &&
    match finding node with
    | .ok .inside => false
    | _ => true

/-- The nodes that close: statements that import, statements that export from a module, and calls of
    `require` and `import`. What stands in such a node adds nothing, even if the node itself adds
    nothing either. -/
theorem SyntaxNode.closes_iff (node : SyntaxNode) :
    node.closes = true ↔
      node.kind = "import_statement" ∨
        node.kind = "export_statement" ∧ stringValue? (node.childByField? "source") ≠ .ok none ∨
        node.kind = "call_expression" ∧ loads (node.childByField? "function") ≠ .ok false := by
  have hkinds : scriptKinds.contains node.kind = true ↔ node.kind = "import_statement" ∨
      node.kind = "export_statement" ∨ node.kind = "call_expression" := by
    simp [scriptKinds]
  rw [closes, Bool.and_eq_true, hkinds, finding]
  by_cases himport : node.kind = "import_statement"
  · simp only [himport, if_true]
    cases stringValue? (node.childByField? "source") <;> simp
  by_cases hexport : node.kind = "export_statement"
  · simp only [hexport]
    rcases stringValue? (node.childByField? "source") with cause | _ | name <;>
      simp [bind, Except.bind, pure, Except.pure]
  by_cases hcall : node.kind = "call_expression"
  · simp only [hcall]
    rcases loads (node.childByField? "function") with cause | _ | _
    · simp [bind, Except.bind]
    · simp [bind, Except.bind, pure, Except.pure]
    · cases loadedModule (node.childByField? "arguments") <;>
        simp [bind, Except.bind, pure, Except.pure]
  · simp [himport, hexport, hcall]

/-- A node of a tree, and whether it stands inside of one that closes. -/
structure Occurrence where
  node : SyntaxNode
  inside : Bool

mutual

/-- A node and all nodes below it, in the order of the source. -/
def occurrences (inside : Bool) : SyntaxNode → List Occurrence
  | ⟨kind, field, isNamed, row, text, children⟩ =>
    let node : SyntaxNode := ⟨kind, field, isNamed, row, text, children⟩
    ⟨node, inside⟩ :: occurrencesIn (inside || node.closes) children

/-- Some nodes and all nodes below them. -/
def occurrencesIn (inside : Bool) : List SyntaxNode → List Occurrence
  | [] => []
  | node :: rest => occurrences inside node ++ occurrencesIn inside rest

end

variable {inside : Bool} {root node : SyntaxNode}

theorem occurrences_eq (inside : Bool) (node : SyntaxNode) :
    occurrences inside node =
      ⟨node, inside⟩ :: occurrencesIn (inside || node.closes) node.children := by
  cases node
  rfl

/-- What occurs in some nodes is what occurs in each of them. -/
theorem occurrencesIn_eq_flatMap (inside : Bool) (nodes : List SyntaxNode) :
    occurrencesIn inside nodes = nodes.flatMap (occurrences inside) := by
  induction nodes with
  | nil => rfl
  | cons node rest ih => rw [occurrencesIn, ih, List.flatMap_cons]

/-- Nodes one after the other occur one after the other. -/
theorem occurrencesIn_append (inside : Bool) (nodes more : List SyntaxNode) :
    occurrencesIn inside (nodes ++ more) =
      occurrencesIn inside nodes ++ occurrencesIn inside more := by
  simp only [occurrencesIn_eq_flatMap, List.flatMap_append]

/-- An induction over trees, from what is right below a node to the node. The recursor of nodes has
    a motive for lists of them as well, which this one does without. -/
theorem SyntaxNode.induction {P : SyntaxNode → Prop}
    (h : ∀ node : SyntaxNode, (∀ child ∈ node.children, P child) → P node) (root : SyntaxNode) :
    P root :=
  h root fun child hchild =>
    have : sizeOf child < sizeOf root :=
      Nat.lt_trans (List.sizeOf_lt_of_mem hchild) root.sizeOf_children_lt
    SyntaxNode.induction h child
termination_by sizeOf root

/-- A node stands in a tree: at its top, or right below a node that does. -/
inductive Stands (root : SyntaxNode) : SyntaxNode → Bool → Prop where
  | top : Stands root root false
  | child {node child : SyntaxNode} {inside : Bool} (h : Stands root node inside)
      (hchild : child ∈ node.children) : Stands root child (inside || node.closes)

/-- What stands right below a node that occurs, occurs as well. It is inside if the node is, or if
    the node closes. -/
theorem mem_occurrences_of_child {o : Occurrence} (ho : o ∈ occurrences inside root)
    {child : SyntaxNode} (hchild : child ∈ o.node.children) :
    ⟨child, o.inside || o.node.closes⟩ ∈ occurrences inside root := by
  induction root using SyntaxNode.induction generalizing inside with
  | h root ih =>
    rw [occurrences_eq, occurrencesIn_eq_flatMap] at ho ⊢
    rcases List.mem_cons.mp ho with rfl | ho
    · refine List.mem_cons_of_mem _ (List.mem_flatMap.mpr ⟨child, hchild, ?_⟩)
      rw [occurrences_eq]
      exact List.mem_cons_self
    · obtain ⟨top, htop, ho⟩ := List.mem_flatMap.mp ho
      exact List.mem_cons_of_mem _ (List.mem_flatMap.mpr ⟨top, htop, ih top htop ho⟩)

/-- The nodes that occur are those that stand in the tree. To occur is to be in a list that a
    program can make; to stand is what a reader can check by hand. -/
theorem mem_occurrences_iff {o : Occurrence} :
    o ∈ occurrences false root ↔ Stands root o.node o.inside := by
  constructor
  · -- What occurs below a node that stands in the tree stands there too.
    suffices h : ∀ node inside, Stands root node inside →
        ∀ o ∈ occurrences inside node, Stands root o.node o.inside from h root false .top o
    intro node
    induction node using SyntaxNode.induction with
    | h node ih =>
      intro inside hstands o ho
      rw [occurrences_eq, occurrencesIn_eq_flatMap] at ho
      rcases List.mem_cons.mp ho with rfl | ho
      · exact hstands
      · obtain ⟨child, hchild, ho⟩ := List.mem_flatMap.mp ho
        exact ih child hchild _ (hstands.child hchild) o ho
  · obtain ⟨node, inside⟩ := o
    intro h
    change Stands root node inside at h
    induction h with
    | top =>
      rw [occurrences_eq]
      exact List.mem_cons_self
    | child _ hchild ih => exact mem_occurrences_of_child ih hchild

/-- Whatever is below a node that is inside of one that closes, is so too. No node opens again what
    another one has closed. -/
theorem inside_of_mem_occurrences {o : Occurrence} (h : o ∈ occurrences true root) :
    o.inside = true := by
  induction root using SyntaxNode.induction with
  | h root ih =>
    rw [occurrences_eq, occurrencesIn_eq_flatMap] at h
    rcases List.mem_cons.mp h with rfl | h
    · rfl
    · obtain ⟨child, hchild, h⟩ := List.mem_flatMap.mp h
      exact ih child hchild h

/-! ### What the nodes add -/

/-- The imports that a node adds where it stands. -/
def Occurrence.imports (o : Occurrence) : Except Utf8.Error (List WrittenImport) :=
  if o.inside || !scriptKinds.contains o.node.kind then .ok []
  else do
    match ← finding o.node with
    | .module name => return name.toList.map (⟨·, o.node.row + 1, []⟩)
    | .inside => return []

/-- The imports that some nodes add, in order. -/
def importsAt (places : List Occurrence) : Except Utf8.Error (List WrittenImport) := do
  return (← places.mapM Occurrence.imports).flatten

/-- What some places add is what the first adds, in front of what the others do. -/
theorem importsAt_cons (o : Occurrence) (places : List Occurrence) :
    importsAt (o :: places) = do return (← o.imports) ++ (← importsAt places) := by
  simp only [importsAt, List.mapM_cons, bind_assoc, pure_bind, List.flatten_cons]

theorem importsAt_append (places more : List Occurrence) :
    importsAt (places ++ more) = do return (← importsAt places) ++ (← importsAt more) := by
  simp only [importsAt, List.mapM_append, bind_assoc, pure_bind, List.flatten_append]

/-- Inside of a node that closes, nothing is added. It cannot go wrong there either, since nobody
    looks. -/
theorem importsAt_occurrencesIn_true (nodes : List SyntaxNode) :
    importsAt (occurrencesIn true nodes) = .ok [] := by
  have hnone : ∀ o ∈ occurrencesIn true nodes, o.imports = .ok [] := by
    intro o ho
    rw [occurrencesIn_eq_flatMap] at ho
    obtain ⟨node, -, ho⟩ := List.mem_flatMap.mp ho
    rw [Occurrence.imports, inside_of_mem_occurrences ho]
    rfl
  generalize occurrencesIn true nodes = places at hnone
  induction places with
  | nil => rfl
  | cons o places ih =>
    rw [List.forall_mem_cons] at hnone
    rw [importsAt_cons, hnone.1, ih hnone.2]
    rfl

/-- A node of another kind adds nothing but what is below it. The walk passes it by. -/
theorem importsAt_of_otherKind (h : scriptKinds.contains node.kind = false) :
    importsAt (occurrences false node) = importsAt (occurrencesIn false node.children) := by
  have hopen : node.closes = false := by rw [SyntaxNode.closes, h, Bool.false_and]
  have himports : Occurrence.imports ⟨node, false⟩ = .ok [] := by
    rw [Occurrence.imports, h]
    rfl
  rw [occurrences_eq, hopen, Bool.false_or, importsAt_cons, himports]
  cases importsAt (occurrencesIn false node.children) <;> rfl

/-- What a node adds that can name a module: what it names, if it closes, and what is below it
    otherwise. The walk stops at it, and this is what is then done with it. -/
theorem importsAt_of_kind (h : scriptKinds.contains node.kind = true) :
    importsAt (occurrences false node) = (do
      match ← finding node with
      | .module name => return name.toList.map (⟨·, node.row + 1, []⟩)
      | .inside => importsAt (occurrencesIn false node.children)) := by
  rw [occurrences_eq, importsAt_cons]
  cases hfinding : finding node with
  | error cause =>
    have himports : Occurrence.imports ⟨node, false⟩ = .error cause := by
      rw [Occurrence.imports, h, hfinding]
      rfl
    rw [himports]
    rfl
  | ok found =>
    cases found with
    | module name =>
      have hcloses : node.closes = true := by rw [SyntaxNode.closes, h, hfinding]; rfl
      have himports : Occurrence.imports ⟨node, false⟩ =
          .ok (name.toList.map (⟨·, node.row + 1, []⟩)) := by
        rw [Occurrence.imports, h, hfinding]
        rfl
      rw [hcloses, Bool.false_or, himports, importsAt_occurrencesIn_true]
      exact congrArg Except.ok (List.append_nil _)
    | inside =>
      have hopen : node.closes = false := by rw [SyntaxNode.closes, h, hfinding]; rfl
      have himports : Occurrence.imports ⟨node, false⟩ = .ok [] := by
        rw [Occurrence.imports, h, hfinding]
        rfl
      rw [hopen, Bool.false_or, himports]
      show (do return [] ++ (← importsAt (occurrencesIn false node.children))) = _
      cases importsAt (occurrencesIn false node.children) <;> rfl

/-! ### The search -/

/-- A walk finds all nodes that add anything, by induction along it. The walk puts what is below a
    node in front of the rest of its stack, which keeps the order of the text. -/
theorem importsAt_eq_walk (stack : List SyntaxNode) :
    importsAt (occurrencesIn false stack) = (do
      return (← (SyntaxNode.walk scriptKinds stack).mapM fun node =>
        importsAt (occurrences false node)).flatten) := by
  fun_induction SyntaxNode.walk scriptKinds stack with
  | case1 => rfl
  | case2 node rest hkind ih =>
    rw [occurrencesIn, importsAt_append, ih]
    simp only [List.mapM_cons, bind_assoc, pure_bind, List.flatten_cons]
  | case3 node rest hkind ih =>
    rw [Bool.not_eq_true] at hkind
    rw [← ih, occurrencesIn, occurrencesIn_append, importsAt_append, importsAt_append,
      importsAt_of_otherKind hkind]

/-- What is added below some nodes is what each of them adds. A node that goes wrong makes all of it
    go wrong, at the same place in the order. -/
theorem importsAt_occurrencesIn (nodes : List SyntaxNode) :
    importsAt (occurrencesIn false nodes) = (do
      return (← nodes.mapM fun node => importsAt (occurrences false node)).flatten) := by
  induction nodes with
  | nil => rfl
  | cons node rest ih =>
    rw [occurrencesIn, importsAt_append, ih]
    simp only [List.mapM_cons, bind_assoc, pure_bind, List.flatten_cons]

/-- One round of the search: a walk, and a search below each node that names no module. It is the
    definition, without the marks that show that it ends. -/
theorem scriptImports_eq_walk (root : SyntaxNode) :
    scriptImports root = (do
      return (← (SyntaxNode.walk scriptKinds [root]).mapM fun node => do
        match ← finding node with
        | .module name => return name.toList.map (⟨·, node.row + 1, []⟩)
        | .inside => return (← node.children.mapM scriptImports).flatten).flatten) := by
  rw [scriptImports]
  simp only [List.mapM_subtype, List.unattach_attach]
  all_goals rfl

/-- The imports of a script are those that its nodes add. Every round of the search goes below nodes
    that the one before has found, so the induction is on the size of the tree. -/
theorem scriptImports_eq (root : SyntaxNode) :
    scriptImports root = importsAt (occurrences false root) := by
  have hround : ∀ node ∈ SyntaxNode.walk scriptKinds [root],
      (do match ← finding node with
          | .module name => return name.toList.map (⟨·, node.row + 1, []⟩)
          | .inside => return (← node.children.mapM scriptImports).flatten) =
        importsAt (occurrences false node) := by
    intro node hnode
    have hbelow : node.children.mapM scriptImports =
        node.children.mapM fun child => importsAt (occurrences false child) := by
      refine mapM_congr fun child hchild => ?_
      have hlt := SyntaxNode.sizeOf_child_lt_of_mem_walk hnode hchild
      exact scriptImports_eq child
    rw [importsAt_of_kind (SyntaxNode.kind_of_mem_walk hnode), importsAt_occurrencesIn, hbelow]
  have hroot : importsAt (occurrences false root) = importsAt (occurrencesIn false [root]) := by
    rw [occurrencesIn, occurrencesIn, List.append_nil]
  rw [scriptImports_eq_walk, mapM_congr hround, hroot, importsAt_eq_walk]
termination_by sizeOf root

/-! ### Calls with a plain string -/

/-- A comment, of either kind that scripts have. -/
def SyntaxNode.isComment (node : SyntaxNode) : Bool :=
  node.kind = "comment" || node.kind = "html_comment"

/-- A string that is written without escapes: one fragment between two quotes. -/
structure IsPlainString (node : SyntaxNode) (content : String) : Prop where
  kind : node.kind = "string"
  parts : ∃ opening fragment closing, node.children = [opening, fragment, closing] ∧
    opening.kind ≠ "string_fragment" ∧ fragment.kind = "string_fragment" ∧
    fragment.text = Utf8.encode content
  nonempty : content ≠ ""

/-- A call of `require` or `import` whose first argument is a plain string. `commented` tells whether
    there are comments in front of that. -/
structure LoadsPlain (node : SyntaxNode) (content : String) (commented : Bool) : Prop where
  kind : node.kind = "call_expression"
  callee : ∃ callee, node.childByField? "function" = some callee ∧
    (callee.kind = "import" ∨
      callee.kind = "identifier" ∧ callee.text = Utf8.encode "require")
  argument : ∃ arguments comments string rest,
    node.childByField? "arguments" = some arguments ∧
    arguments.namedChildren = comments ++ string :: rest ∧
    (∀ c ∈ comments, c.isComment = true) ∧ commented = !comments.isEmpty ∧
    IsPlainString string content

variable {content : String} {commented : Bool}

theorem IsPlainString.stringValue? (h : IsPlainString node content) :
    stringValue? (some node) = .ok (some content) := by
  obtain ⟨opening, fragment, closing, hchildren, hopening, hkind, htext⟩ := h.parts
  have hfind : node.children.find? (fun child => child.kind = "string_fragment") =
      some fragment := by
    rw [hchildren, List.find?_cons_of_neg (by simpa using hopening),
      List.find?_cons_of_pos (by simpa using hkind)]
  have hspell : spelling? (some fragment) = .ok content := by
    rw [spelling?, htext, Utf8.decode_encode]
  rw [Import.stringValue?]
  simp only [h.kind, ne_eq, not_true_eq_false, if_false, hfind, hspell]
  exact congrArg Except.ok (if_neg h.nonempty)

/-- A comment is no string. So a call with a comment in front of its argument names no module. -/
theorem stringValue?_of_isComment (h : node.isComment = true) :
    stringValue? (some node) = .ok none := by
  have hkind : node.kind ≠ "string" := by
    intro hkind
    rw [SyntaxNode.isComment, hkind] at h
    exact absurd h (by decide)
  rw [stringValue?, if_pos hkind]

namespace LoadsPlain

/-- Such a call is one that loads a module. The function of the call has one of the two names, which
    is all that is asked. -/
theorem loads_eq (h : LoadsPlain node content commented) :
    loads (node.childByField? "function") = .ok true := by
  obtain ⟨callee, hcallee, hkind | ⟨hkind, htext⟩⟩ := h.callee
  · rw [hcallee, loads, hkind]
    rfl
  · have hspell : spelling? (some callee) = .ok "require" := by
      rw [spelling?, htext, Utf8.decode_encode]
    rw [hcallee, loads, if_pos hkind, hspell]
    rfl

/-- What the call loads is its first argument, unless a comment is taken for that. The first child
    that has a name is taken for the argument, and a comment has one. -/
theorem loadedModule_eq (h : LoadsPlain node content commented) :
    loadedModule (node.childByField? "arguments") =
      .ok (if commented then none else some content) := by
  obtain ⟨arguments, comments, string, rest, harguments, hnamed, hcomments, rfl, hplain⟩ :=
    h.argument
  rw [harguments, loadedModule, Option.bind_some, hnamed]
  cases comments with
  | nil => exact hplain.stringValue?
  | cons comment comments =>
    exact stringValue?_of_isComment (hcomments comment List.mem_cons_self)

/-- What the node of such a call says. It is a module or nothing, and in neither case what is below
    the call. -/
theorem finding_eq (h : LoadsPlain node content commented) :
    finding node = .ok (.module (if commented then none else some content)) := by
  rw [finding, h.kind, if_neg (by decide), if_neg (by decide), h.loads_eq]
  show (do return Finding.module (← loadedModule _)) = _
  rw [h.loadedModule_eq]
  rfl

/-- What such a call adds: one import, unless it is inside of a node that closes or has comments in
    front of its argument. This is the whole of what can be said of one call. -/
theorem imports_eq (h : LoadsPlain node content commented) (inside : Bool) :
    Occurrence.imports ⟨node, inside⟩ =
      .ok (if inside || commented then [] else [⟨content, node.row + 1, []⟩]) := by
  have hkind : scriptKinds.contains node.kind = true := by rw [h.kind]; rfl
  rw [Occurrence.imports, hkind, h.finding_eq]
  cases inside <;> cases commented <;> rfl

/-- Nobody looks inside of such a call. Not even if it names no module itself. -/
theorem closes (h : LoadsPlain node content commented) : node.closes = true := by
  have hkind : scriptKinds.contains node.kind = true := by rw [h.kind]; rfl
  rw [SyntaxNode.closes, hkind, h.finding_eq]
  rfl

end LoadsPlain

end Backlog.Import

namespace Backlog

open Backlog.Files Backlog.Import Backlog.Text

section Files

variable {tree : FileTree} {grammars : Grammars} {path : Path} {markup : Bool}
  {parser : Bool → SourceParser} {source : Bytes}

/-- The imports of a file are those that the nodes of the tree add that its script is parsed to. A
    file of blanks is not parsed, so it is left out here. -/
theorem Files.FileTree.imports_eq_importsAt
    (hlanguage : Language.ofSuffix? path.suffix = some (.ecmascript markup))
    (hparser : grammars.ecmascript = some parser)
    (hread : tree.read path.text = .ok source) (hfull : source.all isBlankByte = false) :
    tree.imports grammars path =
      (importsAt (occurrences false (parser markup source))).mapError .spelling := by
  have hparse : grammars.parser? (.ecmascript markup) = some (parser markup) := by
    rw [Grammars.parser?, hparser, Option.map_some]
  have hreads : grammars.language? path.suffix = some (.ecmascript markup) := by
    rw [Grammars.language?, hlanguage]
    exact Option.filter_some_pos (by rw [Grammars.reads, hparse, Option.isSome_some])
  unfold imports
  rw [hreads]
  simp only [hread, hfull, Bool.false_eq_true, if_false, Grammars.imports, hparse,
    Language.imports, scriptImports_eq]

/-- The imports of a file whose script has been parsed are those that the nodes of its tree add. Every
    node that stands in the tree is among these, and a call whose first argument is a plain string
    adds just that import, unless it stands inside of a node that closes, as such a call is itself, or
    there are comments in front of its argument. -/
theorem Files.FileTree.imports_eq_sites
    (hlanguage : Language.ofSuffix? path.suffix = some (.ecmascript markup))
    (hparser : grammars.ecmascript = some parser)
    (hread : tree.read path.text = .ok source) (hfull : source.all isBlankByte = false) :
    let root := parser markup source
    tree.imports grammars path = (importsAt (occurrences false root)).mapError .spelling ∧
      (∀ node inside, ⟨node, inside⟩ ∈ occurrences false root ↔ Stands root node inside) ∧
      (∀ node : SyntaxNode, node.closes = true ↔
        node.kind = "import_statement" ∨
          node.kind = "export_statement" ∧ stringValue? (node.childByField? "source") ≠ .ok none ∨
          node.kind = "call_expression" ∧ loads (node.childByField? "function") ≠ .ok false) ∧
      ∀ node content commented, LoadsPlain node content commented →
        node.closes = true ∧
        ∀ inside, Occurrence.imports ⟨node, inside⟩ =
          .ok (if inside || commented then [] else [⟨content, node.row + 1, []⟩]) := by
  exact ⟨FileTree.imports_eq_importsAt hlanguage hparser hread hfull,
    fun node inside => mem_occurrences_iff, SyntaxNode.closes_iff,
    fun node content commented h => ⟨h.closes, h.imports_eq⟩⟩

end Files

/-! ### Three scripts -/

namespace Import

/-- A mark or a keyword on the first line. -/
def sign (text : String) : SyntaxNode := ⟨text, none, false, 0, Utf8.encode text, []⟩

/-- What is written on the first line by a rule of the grammar. -/
def rule (kind : String) (field : Option String) (text : String) (children : List SyntaxNode) :
    SyntaxNode :=
  ⟨kind, field, true, 0, Utf8.encode text, children⟩

/-- A string on the first line. -/
def quotedString (content : String) : SyntaxNode :=
  rule "string" none ("\"" ++ content ++ "\"")
    [sign "\"", rule "string_fragment" none content [], sign "\""]

/-- A call on the first line, by what is called, the text between its parentheses, and the nodes
    there. -/
def callOf (field : Option String) (callee text : String) (inner : List SyntaxNode) : SyntaxNode :=
  rule "call_expression" field (callee ++ "(" ++ text ++ ")")
    [rule (if callee = "import" then "import" else "identifier") (some "function") callee [],
      rule "arguments" (some "arguments") ("(" ++ text ++ ")") (sign "(" :: inner ++ [sign ")"])]

/-- A script that exports what it makes of a call with another call among its arguments. -/
def nestedScript : String := "export const a = f(require(\"a\", import(\"b\")));\n"

/-- The call of `import` in it. -/
def innerCall : SyntaxNode := callOf none "import" "\"b\"" [quotedString "b"]

/-- The call of `require` in it. -/
def outerCall : SyntaxNode :=
  callOf none "require" "\"a\", import(\"b\")" [quotedString "a", sign ",", innerCall]

/-- The tree of the script. -/
def nestedSyntax : SyntaxNode :=
  rule "program" none nestedScript
    [rule "export_statement" none "export const a = f(require(\"a\", import(\"b\")));"
      [sign "export",
        rule "lexical_declaration" (some "declaration") "const a = f(require(\"a\", import(\"b\")));"
          [sign "const",
            rule "variable_declarator" none "a = f(require(\"a\", import(\"b\")))"
              [rule "identifier" (some "name") "a" [], sign "=",
                callOf (some "value") "f" "require(\"a\", import(\"b\"))" [outerCall]],
            sign ";"]]]

/-- A string between quotes is plain. The tree of a string has its content between its quotes, if it
    has any. -/
theorem isPlainString_quotedString {content : String} (h : content ≠ "") :
    IsPlainString (quotedString content) content :=
  ⟨rfl, ⟨_, _, _, rfl, by decide, rfl, rfl⟩, h⟩

theorem loadsPlain_innerCall : LoadsPlain innerCall "b" false :=
  ⟨rfl, ⟨_, rfl, .inl rfl⟩,
    ⟨_, [], quotedString "b", [], rfl, rfl, nofun, rfl, isPlainString_quotedString (by decide)⟩⟩

theorem loadsPlain_outerCall : LoadsPlain outerCall "a" false :=
  ⟨rfl, ⟨_, rfl, .inr ⟨rfl, rfl⟩⟩,
    ⟨_, [], quotedString "a", [innerCall], rfl, rfl, nofun, rfl,
      isPlainString_quotedString (by decide)⟩⟩

/-- A script with a comment in front of the module that it imports. -/
def commentedScript : String := "import(/* c */ \"a\");"

/-- The call in it. -/
def commentedCall : SyntaxNode :=
  callOf none "import" "/* c */ \"a\"" [rule "comment" none "/* c */" [], quotedString "a"]

/-- The tree of the script. -/
def commentedSyntax : SyntaxNode :=
  rule "program" none commentedScript
    [rule "expression_statement" none commentedScript [commentedCall, sign ";"]]

/-- The call with a comment in front of its argument. -/
theorem loadsPlain_commentedCall : LoadsPlain commentedCall "a" true :=
  ⟨rfl, ⟨_, rfl, .inl rfl⟩,
    ⟨_, [rule "comment" none "/* c */" []], quotedString "a", [], rfl, rfl,
      List.forall_mem_singleton.mpr rfl, rfl, isPlainString_quotedString (by decide)⟩⟩

/-- A script that requires what it requires. -/
def chainedScript : String := "require(require(\"b\"));"

/-- The inner call in it. -/
def chainedCall : SyntaxNode := callOf none "require" "\"b\"" [quotedString "b"]

/-- The tree of the script. -/
def chainedSyntax : SyntaxNode :=
  rule "program" none chainedScript
    [rule "expression_statement" none chainedScript
      [callOf none "require" "require(\"b\")" [chainedCall], sign ";"]]

/-- The call that a method of its result is called on. -/
theorem loadsPlain_chainedCall : LoadsPlain chainedCall "b" false :=
  ⟨rfl, ⟨_, rfl, .inr ⟨rfl, rfl⟩⟩,
    ⟨_, [], quotedString "b", [], rfl, rfl, nofun, rfl, isPlainString_quotedString (by decide)⟩⟩

/-- A folder with a script alone. -/
def scriptFolder (content : Bytes) : FileTree := ⟨.folder [("m.ts", .file content 0)], []⟩

theorem read_scriptFolder (content : Bytes) :
    (scriptFolder content).read (Path.text ⟨1, ["m.ts"]⟩) = .ok content := by
  cbv

/-- A grammar with a parser that knows the tree of one script. -/
def grammarOf (root : SyntaxNode) : Grammars := ⟨none, some fun _ _ => root⟩

end Import

/-- The file imports one module: the call of `require` counts, the one among its arguments does
    not. -/
theorem imports_nestedTree :
    Language.ofSuffix? (Path.suffix ⟨1, ["m.ts"]⟩) = some (.ecmascript false) ∧
      (scriptFolder (Utf8.encode nestedScript)).read (Path.text ⟨1, ["m.ts"]⟩) =
        .ok (Utf8.encode nestedScript) ∧
      (Utf8.encode nestedScript).all isBlankByte = false ∧
      (LoadsPlain outerCall "a" false ∧ Stands nestedSyntax outerCall false ∧
        Occurrence.imports ⟨outerCall, false⟩ = .ok [⟨"a", 1, []⟩]) ∧
      (LoadsPlain innerCall "b" false ∧ Stands nestedSyntax innerCall true ∧
        Occurrence.imports ⟨innerCall, true⟩ = .ok []) ∧
      (scriptFolder (Utf8.encode nestedScript)).imports (grammarOf nestedSyntax) ⟨1, ["m.ts"]⟩ =
        .ok [⟨"a", 1, []⟩] := by
  have hlanguage : Language.ofSuffix? (Path.suffix ⟨1, ["m.ts"]⟩) = some (.ecmascript false) := by
    cbv
  have hread := read_scriptFolder (Utf8.encode nestedScript)
  have hfull : (Utf8.encode nestedScript).all isBlankByte = false := by decide
  have hparser : (grammarOf nestedSyntax).ecmascript = some fun _ _ => nestedSyntax := rfl
  obtain ⟨himports, hstands, -, hcalls⟩ :=
    FileTree.imports_eq_sites hlanguage hparser hread hfull
  refine ⟨hlanguage, hread, hfull, ⟨loadsPlain_outerCall, ?_, ?_⟩,
    ⟨loadsPlain_innerCall, ?_, ?_⟩, ?_⟩
  · exact (hstands outerCall false).mp (List.mem_of_getElem? (i := 12) rfl)
  · exact (hcalls _ _ _ loadsPlain_outerCall).2 false
  · exact (hstands innerCall true).mp (List.mem_of_getElem? (i := 21) rfl)
  · exact (hcalls _ _ _ loadsPlain_innerCall).2 true
  · rw [himports]
    rfl

/-- Both scripts have a call whose first argument is a plain string; neither file imports
    anything. -/
theorem imports_passedOver :
    (Stands commentedSyntax commentedCall false ∧ LoadsPlain commentedCall "a" true ∧
        (scriptFolder (Utf8.encode commentedScript)).imports (grammarOf commentedSyntax)
          ⟨1, ["m.ts"]⟩ = .ok []) ∧
      Stands chainedSyntax chainedCall true ∧ LoadsPlain chainedCall "b" false ∧
        (scriptFolder (Utf8.encode chainedScript)).imports (grammarOf chainedSyntax)
          ⟨1, ["m.ts"]⟩ = .ok [] := by
  have hlanguage : Language.ofSuffix? (Path.suffix ⟨1, ["m.ts"]⟩) = some (.ecmascript false) := by
    cbv
  have hparser (root : SyntaxNode) : (grammarOf root).ecmascript = some fun _ _ => root := rfl
  have hcommented : (Utf8.encode commentedScript).all isBlankByte = false := by decide
  have hchained : (Utf8.encode chainedScript).all isBlankByte = false := by decide
  refine ⟨⟨?_, loadsPlain_commentedCall, ?_⟩, ?_, loadsPlain_chainedCall, ?_⟩
  · exact (mem_occurrences_iff (o := ⟨commentedCall, false⟩)).mp (List.mem_of_getElem? (i := 2) rfl)
  · rw [FileTree.imports_eq_importsAt hlanguage (hparser commentedSyntax) (read_scriptFolder _)
      hcommented]
    rfl
  · exact (mem_occurrences_iff (o := ⟨chainedCall, true⟩)).mp (List.mem_of_getElem? (i := 6) rfl)
  · rw [FileTree.imports_eq_importsAt hlanguage (hparser chainedSyntax) (read_scriptFolder _)
      hchained]
    rfl

end Backlog
