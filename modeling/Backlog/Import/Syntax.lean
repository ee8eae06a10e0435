import Backlog.Text.Utf8

namespace Backlog.Import

open Backlog.Text

/-!
# Syntax trees

What a parser makes of a source text, as far as anybody looks at it: a node has a kind, and the part
that it plays in the node above it, if this is named; it may stand for a mark such as a comma, and
then it is not counted among the named ones. Comments are named nodes wherever they stand.

A parser is a parameter of all that is said here. It is given by a function from bytes to a tree, so
that nothing hangs on how the languages are parsed.

* `SyntaxNode.childByField?`, `SyntaxNode.childrenByField`, `SyntaxNode.namedChildren` — what stands
  right below a node;
* `SyntaxNode.walk` — the nodes of some kinds in a tree, none of them inside of another;
* `spelling?` — the text of a node.
-/

/-- A node of a syntax tree. -/
structure SyntaxNode where
  /-- The name of the rule that the node follows, or the mark that it stands for. -/
  kind : String
  /-- The part that the node plays in the one above it. -/
  field : Option String
  /-- Whether a rule has a name for the node; marks and keywords have none. -/
  isNamed : Bool
  /-- The line on which the node begins, counted from zero. -/
  row : Nat
  /-- The bytes that the node spans. -/
  text : Bytes
  children : List SyntaxNode
  deriving Repr, Inhabited

/-- A parser: the tree of a source text. -/
abbrev SourceParser := Bytes → SyntaxNode

namespace SyntaxNode

/-- The first node right below that plays a part. -/
def childByField? (node : SyntaxNode) (field : String) : Option SyntaxNode :=
  node.children.find? fun child => child.field = some field

/-- All nodes right below that play a part. -/
def childrenByField (node : SyntaxNode) (field : String) : List SyntaxNode :=
  node.children.filter fun child => child.field = some field

/-- The named nodes right below. -/
def namedChildren (node : SyntaxNode) : List SyntaxNode := node.children.filter SyntaxNode.isNamed

/-- Of lists that are put together, one of the two ends is lost. -/
theorem sizeOf_append (nodes more : List SyntaxNode) :
    sizeOf (nodes ++ more) + 1 = sizeOf nodes + sizeOf more := by
  induction nodes with
  | nil => rw [List.nil_append, List.nil.sizeOf_spec, Nat.add_comm]
  | cons node rest ih =>
    rw [List.cons_append, List.cons.sizeOf_spec, List.cons.sizeOf_spec]
    omega

/-- What is below a node is smaller than the node. The recursions over trees end for this reason. -/
theorem sizeOf_children_lt (node : SyntaxNode) : sizeOf node.children < sizeOf node := by
  cases node
  simp only [mk.sizeOf_spec]
  omega

/-- The nodes of some kinds among those on a stack and below, from the first of the stack on. What
    is inside of such a node is passed over. -/
def walk (kinds : List String) (stack : List SyntaxNode) : List SyntaxNode :=
  match stack with
  | [] => []
  | node :: rest =>
    if kinds.contains node.kind then node :: walk kinds rest
    -- What is below a node comes before what is behind it.
    else walk kinds (node.children ++ rest)
termination_by sizeOf stack
decreasing_by
  · rw [List.cons.sizeOf_spec]
    omega
  · have hsize := sizeOf_append node.children rest
    have hless := node.sizeOf_children_lt
    rw [List.cons.sizeOf_spec]
    omega

/-- Where the top is of no such kind, the nodes are those below it. A module is such a top: its
    statements are of other kinds than itself. -/
theorem walk_below {kinds : List String} {root : SyntaxNode} (h : kinds.contains root.kind = false) :
    walk kinds [root] = walk kinds root.children := by
  rw [walk, if_neg (Bool.eq_false_iff.mp h), List.append_nil]

/-- Where all that the walk begins with is of these kinds, nothing else is found. The walk does not
    go below a node that it has found. -/
theorem walk_eq_self {kinds : List String} {stack : List SyntaxNode}
    (h : ∀ node ∈ stack, kinds.contains node.kind = true) : walk kinds stack = stack := by
  induction stack with
  | nil => rw [walk]
  | cons node rest ih =>
    rw [walk, if_pos (h node List.mem_cons_self), ih fun n hn => h n (List.mem_cons_of_mem _ hn)]

/-- What is found is of the kinds that are looked for. The kinds are all that decides about it. -/
theorem kind_of_mem_walk {kinds : List String} {stack : List SyntaxNode} {node : SyntaxNode}
    (h : node ∈ walk kinds stack) : kinds.contains node.kind = true := by
  fun_induction walk kinds stack with
  | case1 => cases h
  | case2 top rest hkind ih =>
    rcases List.mem_cons.mp h with rfl | h
    · exact hkind
    · exact ih h
  | case3 top rest hkind ih => exact ih h

/-- What is found is smaller than what the walk begins with. For each step of the walk takes the top
    of the stack away, and puts nothing larger there. -/
theorem sizeOf_lt_of_mem_walk {kinds : List String} {stack : List SyntaxNode} {node : SyntaxNode}
    (h : node ∈ walk kinds stack) : sizeOf node < sizeOf stack := by
  fun_induction walk kinds stack with
  | case1 => cases h
  | case2 top rest hkind ih =>
    rw [List.cons.sizeOf_spec]
    rcases List.mem_cons.mp h with rfl | h
    · omega
    · have := ih h
      omega
  | case3 top rest hkind ih =>
    have hlt := ih h
    have hsize := sizeOf_append top.children rest
    have hless := top.sizeOf_children_lt
    rw [List.cons.sizeOf_spec]
    omega

/-- What is right below a node that is found in a tree is smaller than the tree, even if the node is
    all of it. So a search may go on below what a walk has found. -/
theorem sizeOf_child_lt_of_mem_walk {kinds : List String} {root node child : SyntaxNode}
    (h : node ∈ walk kinds [root]) (hchild : child ∈ node.children) :
    sizeOf child < sizeOf root := by
  have hwalk := sizeOf_lt_of_mem_walk h
  have hbelow := node.sizeOf_children_lt
  have hmem := List.sizeOf_lt_of_mem hchild
  rw [List.cons.sizeOf_spec, List.nil.sizeOf_spec] at hwalk
  omega

end SyntaxNode

/-- The text of a node; where there is no node there is no text either. -/
def spelling? (node? : Option SyntaxNode) : Except Utf8.Error String :=
  match node? with
  | none => .ok ""
  | some node => Utf8.decode node.text

end Backlog.Import
