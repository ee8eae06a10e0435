import Backlog.Import.Parsers
import Backlog.Import.Source
import Backlog.Proofs.Import.Python.PlainText
import Backlog.Proofs.Outcome

namespace Backlog.Import.Python

open Backlog.Text

/-!
# Import statements, written and read back

The statements of a small grammar are written as text, and the text is read by the parser and gone
through for imports. For each form of statement it is shown what its tokens are, what node they
make, and what that node imports. Lines are put together by induction, each of them being read on
its own.

* `ImportStatement` — the import statements; `ImportStatement.text` — how they are written;
  `ImportStatement.imports` — what they import;
* `ImportStatement.reads` — the tokens of a statement;
* `statementNode?_tokens`, `pythonStatement_tree` — the node that is made of them, and its imports;
* `FileTree.imports_sourceText` — a source file made of import statements, one on each line, imports
  what they say.
-/

/-! ### Names -/

/-- Words with a meaning of their own; they are no names. -/
def reservedWords : List String :=
  ["False", "None", "True", "and", "as", "assert", "async", "await", "break", "case", "class",
    "continue", "def", "del", "elif", "else", "except", "exec", "finally", "for", "from", "global",
    "if", "import", "in", "is", "lambda", "match", "nonlocal", "not", "or", "pass", "print",
    "raise", "return", "try", "type", "while", "with", "yield"]

/-- Whether a text is a name: letters, digits and underscores, no digit in front. -/
def isName (text : String) : Bool :=
  match text.toList with
  | [] => false
  | c :: rest => (c.isAlpha || c = '_') && rest.all isNameChar && !reservedWords.contains text

/-- A name. -/
structure Name where
  text : String
  isName : isName text = true

/-- A name with dots: `a.b.c`. -/
structure DottedName where
  first : Name
  others : List Name

/-- How a name with dots is written. -/
def DottedName.text (d : DottedName) : String :=
  ".".intercalate ((d.first :: d.others).map Name.text)

/-- A name without dots. -/
def Name.dotted (n : Name) : DottedName := ⟨n, []⟩

/-! ### Statements -/

/-- A name in an import list, and what it is called afterwards. -/
structure Item (α : Type) where
  name : α
  alias? : Option Name

/-- How an item is written: `a` or `a as b`. -/
def Item.text {α : Type} (nameText : α → String) (i : Item α) : String :=
  match i.alias? with
  | none => nameText i.name
  | some a => nameText i.name ++ " as " ++ a.text

/-- The module that names are imported from. -/
inductive Origin where
  | absolute (name : DottedName) (hname : name.text ≠ "__future__")
  /-- One dot, the dots above it, and a name if there is one. -/
  | relative (above : Nat) (name? : Option DottedName)

/-- How such a module is written: `a.b`, `.`, `..a.b`. -/
def Origin.text : Origin → String
  | absolute name _ => name.text
  | relative above name? =>
    String.ofList (List.replicate (above + 1) '.') ++ (name?.map DottedName.text).getD ""

/-- An import statement. -/
inductive ImportStatement where
  | modules (first : Item DottedName) (others : List (Item DottedName))
  | members (origin : Origin) (first : Item Name) (others : List (Item Name))
  | wildcard (origin : Origin)

namespace ImportStatement

/-- How a statement is written. -/
def text : ImportStatement → String
  | modules first others =>
    "import " ++ ", ".intercalate ((first :: others).map (Item.text DottedName.text))
  | members origin first others =>
    "from " ++ origin.text ++ " import " ++
      ", ".intercalate ((first :: others).map (Item.text Name.text))
  | wildcard origin => "from " ++ origin.text ++ " import " ++ "*"

/-- What a statement on a line imports. -/
def imports (line : Nat) : ImportStatement → List WrittenImport
  | modules first others => (first :: others).map fun i => ⟨i.name.text, line, []⟩
  | members origin first others =>
    [⟨origin.text, line, (first :: others).map fun i => i.name.text⟩]
  | wildcard origin => [⟨origin.text, line, []⟩]

end ImportStatement

/-- The text of a source with one statement on each line; the last line may be closed as well. -/
def sourceText (statements : List ImportStatement) (closed : Bool) : String :=
  "\n".intercalate (statements.map ImportStatement.text) ++ if closed then "\n" else ""

/-! ### Names as words -/

theorem all_isNameChar_of_isName {text : String} (h : isName text = true) :
    text.toList.all isNameChar = true := by
  unfold isName at h
  cases htext : text.toList with
  | nil => rfl
  | cons c rest =>
    simp only [htext, Bool.and_eq_true, Bool.or_eq_true, decide_eq_true_eq] at h
    rw [List.all_cons, h.1.2, Bool.and_true]
    unfold isNameChar Char.isAlphanum
    rcases h.1.1 with halpha | hunder
    · rw [halpha]
      rfl
    · rw [decide_eq_true hunder, Bool.or_true]

theorem Name.toList_ne_nil (n : Name) : n.text.toList ≠ [] := by
  intro h
  have hname := n.isName
  unfold Python.isName at hname
  rw [h] at hname
  cases hname

/-- The token of a name. -/
def Name.token (row : Nat) (n : Name) : Token := wordToken row n.text.toList

theorem Name.reads (n : Name) (row : Nat) : Reads row n.text.toList [n.token row] :=
  .word n.toList_ne_nil (all_isNameChar_of_isName n.isName)

/-- A token that is part of a name with dots. -/
inductive Token.IsNamePart (t : Token) : Prop where
  | name (n : Name) (h : t.letters = n.text.toList.map .char)
  | dot (h : t.letters = [.char '.'])

/-- A part of a name looks like nothing else. So parts of names are told from commas and
    keywords. -/
theorem Token.IsNamePart.looks_eq_false {t : Token} (ht : t.IsNamePart) {text : String}
    (hname : isName text = false) (hdot : text ≠ ".") : t.looks text = false := by
  refine decide_eq_false fun hlooks => ?_
  cases ht with
  | name n h =>
    rw [h, look_ofChars] at hlooks
    obtain rfl := String.toList_inj.mp hlooks
    rw [n.isName] at hname
    cases hname
  | dot h =>
    rw [h] at hlooks
    exact hdot (String.toList_inj.mp hlooks.symm)

/-! ### Names with dots -/

variable {row : Nat}

/-- Texts with a separator between them are the first one and the others, each with the separator in
    front. A list is read item by item, with the separator as the start of the next. -/
theorem toList_intercalate_cons (separator first : String) (others : List String) :
    (separator.intercalate (first :: others)).toList =
      first.toList ++ others.flatMap fun s => separator.toList ++ s.toList := by
  rw [String.toList_intercalate]
  induction others generalizing first with
  | nil => simp [List.intercalate]
  | cons second others ih =>
    rw [List.map_cons, List.map_cons, List.intercalate_cons_cons, ← List.map_cons, ih,
      List.flatMap_cons, List.append_assoc, List.append_assoc]

namespace DottedName

/-- The tokens of a name with dots. -/
def tokens (row : Nat) (d : DottedName) : List Token :=
  d.first.token row :: d.others.flatMap fun n => [markToken row '.', n.token row]

theorem text_toList (d : DottedName) :
    d.text.toList = d.first.text.toList ++ d.others.flatMap fun n => '.' :: n.text.toList := by
  rw [text, List.map_cons, toList_intercalate_cons, List.flatMap_map]
  rfl

/-- A name with dots is read as words with dots between them. -/
theorem reads (d : DottedName) (row : Nat) : Reads row d.text.toList (d.tokens row) := by
  have hreads : ∀ n ∈ d.others,
      Reads row ('.' :: n.text.toList) [markToken row '.', n.token row] :=
    fun n _ => (n.reads row).mark (by decide)
  have hothers := Reads.flatMap hreads fun _ _ => endsWord_cons (by decide)
  rw [text_toList]
  exact (d.first.reads row).append hothers.1 hothers.2

theorem isNamePart_of_mem_tokens (d : DottedName) (row : Nat) :
    ∀ t ∈ d.tokens row, t.IsNamePart := by
  refine List.forall_mem_cons.mpr ⟨.name _ rfl, fun t ht => ?_⟩
  obtain ⟨n, -, hn⟩ := List.mem_flatMap.mp ht
  simp only [List.mem_cons, List.not_mem_nil, or_false] at hn
  rcases hn with rfl | rfl
  · exact .dot rfl
  · exact .name n rfl

theorem text_ne_empty (d : DottedName) : d.text ≠ "" := by
  intro h
  have htext := d.text_toList
  rw [h] at htext
  exact d.first.toList_ne_nil (List.append_eq_nil_iff.mp htext.symm).1

end DottedName

/-- A single name is a name with dots that has none. -/
theorem Name.dotted_text (n : Name) : n.dotted.text = n.text := by
  rw [← String.toList_inj, DottedName.text_toList]
  exact List.append_nil _

/-! ### Import lists -/

/-- Tokens with a space in front. -/
def spacedTokens (ts : List Token) : List Token := ts.modifyHead Token.spaced

/-- Space in front of the parts of a name leaves them parts of it. What a token looks like does not
    depend on the space in front. -/
theorem isNamePart_of_mem_spacedTokens {ts : List Token} (h : ∀ t ∈ ts, t.IsNamePart) :
    ∀ t ∈ spacedTokens ts, t.IsNamePart := by
  cases ts with
  | nil => exact nofun
  | cons t ts =>
    rw [List.forall_mem_cons] at h
    refine List.forall_mem_cons.mpr ⟨?_, h.2⟩
    rcases h.1 with ⟨n, hn⟩ | hdot
    · exact .name n hn
    · exact .dot hdot

/-- A word of the language. -/
def keyword (row : Nat) (word : String) : Token := (wordToken row word.toList).spaced

namespace Item

/-- An item of single names is one of names with dots. -/
def dotted (i : Item Name) : Item DottedName := ⟨i.name.dotted, i.alias?⟩

/-- An item with a single name, as one with a name that may have dots. -/
theorem dotted_text (i : Item Name) : i.dotted.text DottedName.text = i.text Name.text := by
  unfold text dotted
  rw [Name.dotted_text]

/-- The tokens that call an item something else. -/
def aliasTokens (row : Nat) : Option Name → List Token
  | none => []
  | some a => [keyword row "as", (a.token row).spaced]

/-- The tokens of an item, with the space in front. -/
def tokens (row : Nat) (i : Item DottedName) : List Token :=
  spacedTokens (i.name.tokens row) ++ aliasTokens row i.alias?

variable (i : Item DottedName) (row : Nat)

/-- An item is read as its name, with what it is called afterwards. -/
theorem reads : Reads row (' ' :: (i.text DottedName.text).toList) (i.tokens row) := by
  have hname := (i.name.reads row).space (List.cons_ne_nil _ _)
  obtain ⟨name, alias?⟩ := i
  cases alias? with
  | none =>
    rw [tokens, aliasTokens, List.append_nil]
    exact hname
  | some a =>
    have has : Reads row "as".toList [wordToken row "as".toList] := .word (by decide) (by decide)
    have halias := (has.space (List.cons_ne_nil _ _)).append
      ((a.reads row).space (List.cons_ne_nil _ _)) (endsWord_cons (by decide))
    have htext : ' ' :: (Item.text DottedName.text ⟨name, some a⟩).toList =
        (' ' :: name.text.toList) ++ ((' ' :: "as".toList) ++ (' ' :: a.text.toList)) := by
      show ' ' :: (name.text ++ " as " ++ a.text).toList = _
      rw [String.toList_append, String.toList_append, List.append_assoc]
      rfl
    rw [htext]
    exact hname.append halias (endsWord_cons (by decide))

/-- The name of an item does not look like `as`. The keyword is no name, so no part of a name is
    one. -/
theorem not_looks_as : ∀ t ∈ spacedTokens (i.name.tokens row), (!t.looks "as") = true := by
  intro t ht
  have hname := isNamePart_of_mem_spacedTokens (i.name.isNamePart_of_mem_tokens row)
  rw [(hname t ht).looks_eq_false (by decide) (by decide)]
  rfl

/-- What stands before `as` is the name of the item. The parser cuts there. -/
theorem takeWhile_tokens :
    (i.tokens row).takeWhile (fun t => !t.looks "as") = spacedTokens (i.name.tokens row) := by
  rw [tokens, List.takeWhile_append_of_pos (i.not_looks_as row)]
  cases i.alias? with
  | none => exact List.append_nil _
  | some a => exact List.append_nil _

/-- What stands from `as` on is what the item is called afterwards. It does not count as
    imported. -/
theorem dropWhile_tokens :
    (i.tokens row).dropWhile (fun t => !t.looks "as") = aliasTokens row i.alias? := by
  rw [tokens, List.dropWhile_append_of_pos (i.not_looks_as row)]
  cases i.alias? with
  | none => rfl
  | some a => rfl

/-- The bytes of the name of an item. They are copied from the source, so space in front is not
    among them. -/
theorem span_name : span (spacedTokens (i.name.tokens row)) = Utf8.encode i.name.text :=
  (i.name.reads row).span_eq rfl _

/-- The name of the node of an item is what stands before `as`. What an item is called afterwards
    plays no part in it. -/
theorem pythonName_nameNode : pythonName (nameNode (i.tokens row)) = .ok i.name.text := by
  have hspell : Utf8.decode (span (spacedTokens (i.name.tokens row))) = .ok i.name.text := by
    rw [i.span_name row, Utf8.decode_encode]
  rw [nameNode, i.takeWhile_tokens, i.dropWhile_tokens]
  -- With `as`, the name is a node below.
  cases i.alias? with
  | none => exact hspell
  | some a => exact hspell

/-- The node of an item is part of a list of names. That is how a statement finds its items. -/
theorem field_nameNode : (nameNode (i.tokens row)).field = some "name" := by
  rw [nameNode]
  split <;> rfl

/-- There is no comma in an item. So a list is cut between items. -/
theorem looks_comma_of_mem_tokens : ∀ t ∈ i.tokens row, t.looks "," = false := by
  refine List.forall_mem_append.mpr ⟨fun t ht => ?_, ?_⟩
  · have hname := isNamePart_of_mem_spacedTokens (i.name.isNamePart_of_mem_tokens row)
    exact (hname t ht).looks_eq_false (by decide) (by decide)
  · cases i.alias? with
    | none => exact nofun
    | some a =>
      have ha : (a.token row).spaced.IsNamePart := .name a rfl
      refine List.forall_mem_cons.mpr ⟨rfl, List.forall_mem_singleton.mpr ?_⟩
      exact ha.looks_eq_false (by decide) (by decide)

/-- An item begins with a part of its name. So a list is no wildcard. -/
theorem exists_tokens_eq : ∃ t ts, i.tokens row = t :: ts ∧ t.IsNamePart :=
  ⟨_, _, rfl, .name i.name.first rfl⟩

end Item

/-- The tokens of an import list, with the space in front. -/
def listTokens (row : Nat) (first : Item DottedName) (others : List (Item DottedName)) :
    List Token :=
  first.tokens row ++ others.flatMap fun i => markToken row ',' :: i.tokens row

section Lists

variable (row : Nat) (first : Item DottedName) (others : List (Item DottedName))

/-- A list of items is read item by item, with a comma in front of each but the first. -/
theorem listTokens_reads :
    Reads row
      (' ' :: (", ".intercalate ((first :: others).map (Item.text DottedName.text))).toList)
      (listTokens row first others) := by
  have hreads : ∀ i ∈ others, Reads row (',' :: ' ' :: (i.text DottedName.text).toList)
      (markToken row ',' :: i.tokens row) := fun i _ => (i.reads row).mark (by decide)
  have hothers := Reads.flatMap hreads fun _ _ => endsWord_cons (by decide)
  rw [List.map_cons, toList_intercalate_cons, List.flatMap_map]
  exact (first.reads row).append hothers.1 hothers.2

end Lists

section Splitting

variable {test : Token → Bool} {part : List Token}

theorem splitTokens_ne_nil (ts : List Token) : splitTokens test ts ≠ [] := by
  cases ts with
  | nil => exact List.cons_ne_nil _ _
  | cons t ts =>
    rw [splitTokens]
    split
    · split <;> exact List.cons_ne_nil _ _
    · exact List.cons_ne_nil _ _

theorem splitTokens_eq_self (hpart : ∀ t ∈ part, test t = false) :
    splitTokens test part = [part] := by
  induction part with
  | nil => rfl
  | cons t part ih =>
    rw [List.forall_mem_cons] at hpart
    rw [splitTokens, ih hpart.2]
    show (if test t = true then _ else _) = _
    rw [hpart.1]
    rfl

/-- The first part ends at the first token that passes the test. This is the step of the induction
    over the items. -/
theorem splitTokens_append {separator : Token} (rest : List Token)
    (hpart : ∀ t ∈ part, test t = false) (hseparator : test separator = true) :
    splitTokens test (part ++ separator :: rest) = part :: splitTokens test rest := by
  induction part with
  | nil =>
    rw [List.nil_append, splitTokens]
    cases hrest : splitTokens test rest with
    | nil => exact absurd hrest (splitTokens_ne_nil rest)
    | cons first others => exact if_pos hseparator
  | cons t part ih =>
    rw [List.forall_mem_cons] at hpart
    rw [List.cons_append, splitTokens, ih hpart.2]
    show (if test t = true then _ else _) = _
    rw [hpart.1]
    rfl

end Splitting

/-- An import list is cut at its commas. The parts are the items. -/
theorem splitTokens_listTokens (row : Nat) (first : Item DottedName)
    (others : List (Item DottedName)) :
    splitTokens (fun t => t.looks ",") (listTokens row first others) =
      (first :: others).map (Item.tokens row) := by
  induction others generalizing first with
  | nil =>
    rw [listTokens, List.flatMap_nil, List.append_nil]
    exact splitTokens_eq_self (first.looks_comma_of_mem_tokens row)
  | cons second others ih =>
    rw [listTokens, List.flatMap_cons, List.cons_append,
      splitTokens_append _ (first.looks_comma_of_mem_tokens row) rfl]
    exact congrArg (first.tokens row :: ·) (ih second)

/-- The nodes of an import list are those of its items. Each part makes a node of its own. -/
theorem nameNodes_listTokens (row : Nat) (first : Item DottedName)
    (others : List (Item DottedName)) :
    nameNodes (listTokens row first others) =
      (first :: others).map fun i => nameNode (i.tokens row) := by
  have hunwrapped : unwrapped (listTokens row first others) = listTokens row first others := by
    obtain ⟨t, ts, htokens, hname⟩ := first.exists_tokens_eq row
    rw [listTokens, htokens]
    show (if t.looks "(" = true then _ else _) = _
    rw [hname.looks_eq_false (by decide) (by decide)]
    rfl
  rw [nameNodes, hunwrapped, splitTokens_listTokens, List.map_map]
  rfl

/-- A statement imports the names of the items below it, whatever else is there. Which items these
    are is asked of the fields of the nodes. -/
theorem pythonNames_of_children {n : SyntaxNode} (row : Nat) (items : List (Item DottedName))
    (h : n.childrenByField "name" = items.map fun i => nameNode (i.tokens row)) :
    pythonNames n = .ok (items.map fun i => i.name.text) := by
  have hnames : (items.map fun i => nameNode (i.tokens row)).mapM pythonName =
      .ok (items.map fun i => i.name.text) := by
    rw [List.mapM_map]
    refine Eq.trans ?_ List.mapM_pure
    exact congrArg (List.mapM · _) (funext fun i => i.pythonName_nameNode row)
  have hkept : (items.map fun i => i.name.text).filter (· ≠ "") =
      items.map fun i => i.name.text := by
    refine List.filter_eq_self.mpr fun text htext => ?_
    obtain ⟨i, -, rfl⟩ := List.mem_map.mp htext
    exact decide_eq_true i.name.text_ne_empty
  rw [pythonNames, h, hnames]
  exact congrArg Except.ok hkept

/-- All nodes of an import list play the part of names. None is dropped when they are looked for by
    field. -/
theorem filter_nameNodes (row : Nat) (items : List (Item DottedName)) :
    (items.map fun i => nameNode (i.tokens row)).filter (fun n => n.field = some "name") =
      items.map fun i => nameNode (i.tokens row) := by
  refine List.filter_eq_self.mpr fun n hn => ?_
  obtain ⟨i, -, rfl⟩ := List.mem_map.mp hn
  exact decide_eq_true (i.field_nameNode row)

/-- An import list of names is no wildcard. It begins with a name. -/
theorem isWildcard_listTokens (row : Nat) (first : Item DottedName)
    (others : List (Item DottedName)) : isWildcard (listTokens row first others) = false := by
  obtain ⟨t, ts, htokens, hname⟩ := first.exists_tokens_eq row
  rw [listTokens, htokens]
  exact hname.looks_eq_false (by decide) (by decide)

/-! ### Origins -/

namespace Origin

/-- The tokens of the module that names are imported from. -/
def tokens (row : Nat) : Origin → List Token
  | absolute name _ => name.tokens row
  | relative above name? =>
    List.replicate (above + 1) (markToken row '.') ++
      (name?.map (DottedName.tokens row)).getD []

theorem tokens_ne_nil (o : Origin) (row : Nat) : o.tokens row ≠ [] := by
  cases o <;> exact List.cons_ne_nil _ _

/-- Dots in front of a part of a line. Each dot is a token, whatever follows. -/
theorem reads_replicate {cs : List Char} {ts : List Token} (h : Reads row cs ts) (count : Nat) :
    Reads row (List.replicate count '.' ++ cs)
      (List.replicate count (markToken row '.') ++ ts) := by
  induction count with
  | zero => exact h
  | succ count ih => exact ih.mark (by decide)

/-- An origin is read as its dots and the name behind them. -/
theorem reads (o : Origin) (row : Nat) : Reads row o.text.toList (o.tokens row) := by
  cases o with
  | absolute name hname => exact name.reads row
  | relative above name? =>
    rw [text, String.toList_append, String.toList_ofList]
    refine reads_replicate ?_ (above + 1)
    cases name? with
    | none => exact .nil
    | some name => exact name.reads row

/-- Its tokens are the parts of a name, for a dot is one as well. -/
theorem isNamePart_of_mem_tokens (o : Origin) (row : Nat) : ∀ t ∈ o.tokens row, t.IsNamePart := by
  cases o with
  | absolute name hname => exact name.isNamePart_of_mem_tokens row
  | relative above name? =>
    refine List.forall_mem_append.mpr ⟨fun t ht => ?_, ?_⟩
    · obtain rfl := List.eq_of_mem_replicate ht
      exact .dot rfl
    · cases name? with
      | none => exact nofun
      | some name => exact name.isNamePart_of_mem_tokens row

/-- The bytes of an origin are copied from the source. -/
theorem span_tokens (o : Origin) (row : Nat) :
    span (spacedTokens (o.tokens row)) = Utf8.encode o.text := by
  have hreads := o.reads row
  obtain ⟨t, ts, htokens, hgap⟩ : ∃ t ts, o.tokens row = t :: ts ∧ t.gap = [] := by
    cases o <;> exact ⟨_, _, rfl, rfl⟩
  rw [htokens] at hreads ⊢
  exact hreads.span_eq hgap _

/-- An origin is a module, and not the settings of the language. So what is imported from it
    counts. -/
theorem text_ne (o : Origin) : ¬(o.text = "" ∨ o.text = "__future__") := by
  cases o with
  | absolute name hname => exact not_or.mpr ⟨name.text_ne_empty, hname⟩
  | relative above name? =>
    -- Such a text begins with a dot.
    have hhead : (relative above name?).text.toList.head? = some '.' := by
      rw [text, String.toList_append, String.toList_ofList]
      rfl
    rintro (h | h) <;> rw [h] at hhead <;> exact absurd hhead (by decide)

end Origin

/-! ### Statements -/

namespace ImportStatement

/-- The tokens of a statement. -/
def tokens (row : Nat) : ImportStatement → List Token
  | modules first others => wordToken row "import".toList :: listTokens row first others
  | members origin first others =>
    wordToken row "from".toList :: (spacedTokens (origin.tokens row) ++
      keyword row "import" :: listTokens row first.dotted (others.map Item.dotted))
  | wildcard origin =>
    wordToken row "from".toList :: (spacedTokens (origin.tokens row) ++
      [keyword row "import", (markToken row '*').spaced])

/-- A list of single names is written as one of names with dots. So there is one kind of list to
    read. -/
theorem map_dotted_text (items : List (Item Name)) :
    (items.map Item.dotted).map (Item.text DottedName.text) = items.map (Item.text Name.text) := by
  rw [List.map_map]
  exact List.map_congr_left fun i _ => i.dotted_text

/-- A keyword, with what comes after it. Space behind it ends the word. -/
theorem reads_keyword (word : String) (hne : word.toList ≠ [])
    (hword : word.toList.all isNameChar = true) {cs : List Char} {ts : List Token}
    (h : Reads row (' ' :: cs) ts) :
    Reads row (word.toList ++ ' ' :: cs) (wordToken row word.toList :: ts) :=
  (Reads.word hne hword).append h (endsWord_cons (by decide))

/-- A statement that begins with `from`, up to what is imported. The rest of the statement is left
    open, as it may be a list or a wildcard. -/
theorem reads_from (origin : Origin) {cs : List Char} {ts : List Token}
    (h : Reads row (' ' :: cs) ts) :
    Reads row (("from " ++ origin.text ++ " import ").toList ++ cs)
      (wordToken row "from".toList :: (spacedTokens (origin.tokens row) ++
        keyword row "import" :: ts)) := by
  have himport := (reads_keyword "import" (by decide) (by decide) h).space
    (List.cons_ne_nil _ _)
  have horigin := ((origin.reads row).space (origin.tokens_ne_nil row)).append himport
    (endsWord_cons (by decide))
  have hfrom := reads_keyword "from" (by decide) (by decide) horigin
  have htext : ("from " ++ origin.text ++ " import ").toList ++ cs =
      "from".toList ++ ' ' :: (origin.text.toList ++ ' ' :: ("import".toList ++ ' ' :: cs)) := by
    rw [String.toList_append, String.toList_append, List.append_assoc, List.append_assoc]
    rfl
  rw [htext]
  exact hfrom

/-- A statement is read as its tokens, with a case for each form of statement. -/
theorem reads (s : ImportStatement) (row : Nat) : Reads row s.text.toList (s.tokens row) := by
  cases s with
  | modules first others =>
    rw [text, String.toList_append]
    have hlist := listTokens_reads row first others
    exact reads_keyword "import" (by decide) (by decide) hlist
  | members origin first others =>
    have hlist := listTokens_reads row first.dotted (others.map Item.dotted)
    rw [← List.map_cons, map_dotted_text] at hlist
    rw [text, String.toList_append]
    exact reads_from origin hlist
  | wildcard origin =>
    have hstar : Reads row [' ', '*'] [(markToken row '*').spaced] :=
      (Reads.nil.mark (by decide)).space (List.cons_ne_nil _ _)
    rw [text, String.toList_append]
    exact reads_from origin hstar

/-- The nodes right below the node of a statement. -/
def nodes (row : Nat) : ImportStatement → List SyntaxNode
  | modules first others => (first :: others).map fun i => nameNode (i.tokens row)
  | members origin first others =>
    moduleNode (spacedTokens (origin.tokens row)) ::
      ((first :: others).map Item.dotted).map fun i => nameNode (i.tokens row)
  | wildcard origin =>
    [moduleNode (spacedTokens (origin.tokens row)),
      node "wildcard_import" none [(markToken row '*').spaced] []]

/-- The kind of the node of a statement. -/
def kind : ImportStatement → String
  | modules _ _ => "import_statement"
  | _ => "import_from_statement"

/-- The node of a statement. -/
def tree (row : Nat) (s : ImportStatement) : SyntaxNode :=
  node s.kind none (s.tokens row) (s.nodes row)

/-- What is made of `from`, an origin, `import` and what comes after it. The parser looks for the
    keyword `import`, which is not among the tokens of the origin. -/
theorem statementNode?_from (origin : Origin) (row : Nat) (list : List Token) :
    statementNode? (wordToken row "from".toList ::
        (spacedTokens (origin.tokens row) ++ keyword row "import" :: list)) =
      some (node "import_from_statement" none (wordToken row "from".toList ::
          (spacedTokens (origin.tokens row) ++ keyword row "import" :: list))
        (moduleNode (spacedTokens (origin.tokens row)) :: memberNodes list)) := by
  have hpass : ∀ t ∈ spacedTokens (origin.tokens row), (!t.looks "import") = true := fun t ht => by
    have hname := isNamePart_of_mem_spacedTokens (origin.isNamePart_of_mem_tokens row) t ht
    rw [hname.looks_eq_false (by decide) (by decide)]
    rfl
  have hmodule : (spacedTokens (origin.tokens row) ++ keyword row "import" :: list).takeWhile
      (fun t => !t.looks "import") = spacedTokens (origin.tokens row) := by
    rw [List.takeWhile_append_of_pos hpass]
    exact List.append_nil _
  have hlist : ((spacedTokens (origin.tokens row) ++ keyword row "import" :: list).dropWhile
      (fun t => !t.looks "import")).drop 1 = list := by
    rw [List.dropWhile_append_of_pos hpass]
    rfl
  have hnot : (moduleNode (spacedTokens (origin.tokens row))).text ≠ Utf8.encode "__future__" := by
    rw [show (moduleNode _).text = _ from origin.span_tokens row]
    intro h
    exact origin.text_ne (.inr (Utf8.encode_injective h))
  have himport : (wordToken row "from".toList).looks "import" = false := rfl
  have hfrom : (wordToken row "from".toList).looks "from" = true := rfl
  simp only [statementNode?, himport, hfrom, Bool.false_eq_true, if_false, if_true, hmodule, hlist,
    if_neg hnot]

/-- The node of a statement. There is a case for each form of statement. -/
theorem statementNode?_tokens (s : ImportStatement) (row : Nat) :
    statementNode? (s.tokens row) = some (s.tree row) := by
  cases s with
  | modules first others =>
    show some (node _ none _ (nameNodes (listTokens row first others))) = _
    rw [nameNodes_listTokens]
    rfl
  | members origin first others =>
    rw [tokens, statementNode?_from, memberNodes, isWildcard_listTokens, if_neg Bool.false_ne_true,
      nameNodes_listTokens]
    rfl
  | wildcard origin => exact statementNode?_from origin row _

/-- The import of the node of `from`, an origin and what is taken from there. All that is asked of
    the node is its kind, its row and its two fields. -/
theorem pythonStatement_from (origin : Origin) (row : Nat) {n : SyntaxNode} {names : List String}
    (hkind : n.kind = "import_from_statement") (hrow : n.row = row)
    (hmodule : n.childByField? "module_name" = some (moduleNode (spacedTokens (origin.tokens row))))
    (hnames : pythonNames n = .ok names) :
    pythonStatement n = .ok [⟨origin.text, row + 1, names⟩] := by
  have hspell : spelling? (some (moduleNode (spacedTokens (origin.tokens row)))) =
      .ok origin.text := by
    show Utf8.decode (span (spacedTokens (origin.tokens row))) = _
    rw [origin.span_tokens row, Utf8.decode_encode]
  rw [pythonStatement, hkind, if_neg (by decide), hmodule, hspell, hnames, hrow]
  exact if_neg fun h => origin.text_ne (.inl h)

/-- What is made of the node of a statement is what it imports. There is a case for each form of
    statement. -/
theorem pythonStatement_tree (s : ImportStatement) (row : Nat) :
    pythonStatement (s.tree row) = .ok (s.imports (row + 1)) := by
  cases s with
  | modules first others =>
    have hchildren : ((modules first others).tree row).childrenByField "name" =
        (first :: others).map fun i => nameNode (i.tokens row) := filter_nameNodes row _
    show (do return (← pythonNames ((modules first others).tree row)).map _) = _
    rw [pythonNames_of_children row _ hchildren]
    show Except.ok (((first :: others).map fun i => i.name.text).map _) = _
    rw [List.map_map]
    rfl
  | members origin first others =>
    have hchildren : ((members origin first others).tree row).childrenByField "name" =
        ((first :: others).map Item.dotted).map fun i => nameNode (i.tokens row) :=
      filter_nameNodes row _
    have hnames := pythonNames_of_children row _ hchildren
    have htexts : ((first :: others).map Item.dotted).map (fun i => i.name.text) =
        (first :: others).map fun i => i.name.text := by
      rw [List.map_map]
      exact List.map_congr_left fun i _ => i.name.dotted_text
    rw [htexts] at hnames
    exact pythonStatement_from origin row rfl rfl rfl hnames
  | wildcard origin => exact pythonStatement_from origin row rfl rfl rfl rfl

end ImportStatement

/-! ### Sources -/

/-- The nodes of the statements of a plain text, from a line on. -/
def plainNodes (row : Nat) (cs : List Char) : List SyntaxNode :=
  (statements (plainTokens row cs)).filterMap statementNode?

/-- The nodes of some statements on lines of their own. -/
def lineNodes (row : Nat) (lines : List ImportStatement) : List SyntaxNode :=
  (lines.zipIdx row).map fun (s, row) => s.tree row

/-- A line is a statement, and what comes after it is read on its own. This is the step of the
    induction over lines. -/
theorem plainNodes_line {cs rest : List Char} {ts : List Token} {found : SyntaxNode}
    (h : Reads row cs ts) (hfound : statementNode? ts = some found) :
    plainNodes row (cs ++ '\n' :: rest) = found :: plainNodes (row + 1) rest := by
  rw [plainNodes, h.plainTokens_line, statements, splitTokens_append _ h.inside rfl]
  exact List.filterMap_cons_some hfound

/-- A line at the end of a text is a statement. No line feed is needed behind it. -/
theorem plainNodes_lastLine {cs : List Char} {ts : List Token} {found : SyntaxNode}
    (h : Reads row cs ts) (hfound : statementNode? ts = some found) :
    plainNodes row cs = [found] := by
  rw [plainNodes, h.plainTokens_eq, statements, splitTokens_eq_self h.inside]
  exact List.filterMap_cons_some hfound

/-- The characters after the last statement. -/
def closing (closed : Bool) : List Char := if closed then ['\n'] else []

/-- A source is its lines with line feeds between them, and one behind them if it is closed. -/
theorem sourceText_toList (lines : List ImportStatement) (closed : Bool) :
    (sourceText lines closed).toList =
      ("\n".intercalate (lines.map ImportStatement.text)).toList ++ closing closed := by
  rw [sourceText, String.toList_append]
  cases closed <;> rfl

/-- Statements on lines of their own have a node each, by induction on them. The row is left
    general, since it counts up. -/
theorem plainNodes_sourceText (lines : List ImportStatement) (closed : Bool) (row : Nat) :
    plainNodes row (sourceText lines closed).toList = lineNodes row lines := by
  rw [sourceText_toList]
  induction lines generalizing row with
  | nil => cases closed <;> rfl
  | cons s lines ih =>
    have hreads := s.reads row
    have hfound := s.statementNode?_tokens row
    rw [List.map_cons, toList_intercalate_cons, lineNodes, List.zipIdx_cons, List.map_cons,
      List.append_assoc]
    cases lines with
    | nil =>
      cases closed with
      | false =>
        show plainNodes row (s.text.toList ++ []) = _
        rw [List.append_nil]
        exact plainNodes_lastLine hreads hfound
      | true => exact plainNodes_line hreads hfound
    | cons next lines =>
      have hrest := ih (row + 1)
      rw [List.map_cons, toList_intercalate_cons, List.append_assoc] at hrest
      rw [List.map_cons, List.flatMap_cons, List.append_assoc, List.append_assoc]
      show plainNodes row (s.text.toList ++ '\n' :: (next.text.toList ++ _)) = _
      rw [plainNodes_line hreads hfound, hrest]
      rfl

/-- All of a source is plain. So the parser needs no care for strings, comments or brackets. -/
theorem isPlain_of_mem_sourceText {lines : List ImportStatement} {closed : Bool} :
    ∀ c ∈ (sourceText lines closed).toList, IsPlain c := by
  have hend : IsPlain '\n' := .inr (by decide)
  rw [sourceText_toList]
  refine List.forall_mem_append.mpr ⟨?_, ?_⟩
  · cases lines with
    | nil => exact nofun
    | cons s lines =>
      rw [List.map_cons, toList_intercalate_cons, List.flatMap_map]
      refine List.forall_mem_append.mpr ⟨(s.reads 1).plain, fun c hc => ?_⟩
      obtain ⟨next, -, hc⟩ := List.mem_flatMap.mp hc
      rcases List.mem_cons.mp hc with rfl | hc
      · exact hend
      · exact (next.reads 1).plain c hc
  · cases closed with
    | false => exact nofun
    | true => exact List.forall_mem_singleton.mpr hend

/-- The tree of a source of import statements, one on each line. For the bytes of the source are
    those of its characters. -/
theorem parse_sourceText (lines : List ImportStatement) (closed : Bool) :
    (parse (Utf8.encode (sourceText lines closed))).children = lineNodes 0 lines := by
  have hmark : '\uFEFF' ∉ (sourceText lines closed).toList.head? := fun hhead => by
    rcases isPlain_of_mem_sourceText _ (List.mem_of_mem_head? hhead) with h | h
    · exact absurd h (by decide)
    · exact absurd h (by decide)
  show (statements (tokens (lettersOf _))).filterMap statementNode? = _
  rw [lettersOf_encode hmark, tokens_ofChars isPlain_of_mem_sourceText]
  exact plainNodes_sourceText lines closed 0

/-- The nodes of import statements import what the statements say. The lines are counted from one,
    and the rows of nodes from zero. -/
theorem mapM_lineNodes (row : Nat) (lines : List ImportStatement) :
    (lineNodes row lines).mapM pythonStatement =
      .ok ((lines.zipIdx (row + 1)).map fun (s, line) => s.imports line) := by
  induction lines generalizing row with
  | nil => rfl
  | cons s lines ih =>
    rw [lineNodes, List.zipIdx_cons, List.map_cons, ← lineNodes, List.mapM_cons,
      s.pythonStatement_tree row, ih]
    rfl

/-- Nothing in the tree imports but the statements. The walk takes a statement when it comes to one,
    and does not go below it. -/
theorem walk_lineNodes (row : Nat) (lines : List ImportStatement) :
    SyntaxNode.walk pythonKinds (lineNodes row lines) = lineNodes row lines := by
  refine SyntaxNode.walk_eq_self fun n hn => ?_
  obtain ⟨⟨s, at_⟩, -, rfl⟩ := List.mem_map.mp hn
  cases s <;> rfl

/-- A source of import statements, one on each line, imports what they say. The parser and what is
    made of its tree are put together here. -/
theorem imports_ofSourceText (lines : List ImportStatement) (closed : Bool) :
    pythonImports (parse (Utf8.encode (sourceText lines closed))) =
      .ok ((lines.zipIdx 1).flatMap fun (s, line) => s.imports line) := by
  rw [pythonImports, SyntaxNode.walk_below rfl, parse_sourceText, walk_lineNodes, mapM_lineNodes]
  rfl

/-- A statement begins with a letter. So it is not blank. -/
theorem ImportStatement.exists_text_eq (s : ImportStatement) :
    ∃ c cs, s.text.toList = c :: cs ∧ (Utf8.encodeChar c).all isBlankByte = false := by
  cases s with
  | modules first others =>
    rw [text, String.toList_append]
    exact ⟨'i', _, rfl, by decide⟩
  | members origin first others =>
    simp only [text, String.toList_append, List.append_assoc]
    exact ⟨'f', _, rfl, by decide⟩
  | wildcard origin =>
    simp only [text, String.toList_append, List.append_assoc]
    exact ⟨'f', _, rfl, by decide⟩

/-- A source of import statements is more than space. A source of blanks alone is not even
    parsed. -/
theorem eq_nil_of_isBlank {lines : List ImportStatement} {closed : Bool}
    (h : (Utf8.encode (sourceText lines closed)).all isBlankByte = true) : lines = [] := by
  cases lines with
  | nil => rfl
  | cons s lines =>
    obtain ⟨c, cs, htext, hc⟩ := s.exists_text_eq
    rw [Utf8.encode, sourceText_toList, List.map_cons, toList_intercalate_cons, htext,
      List.cons_append, List.cons_append, Utf8.encodeChars, List.flatMap_cons, List.all_append,
      hc] at h
    cases h

end Backlog.Import.Python

namespace Backlog

open Backlog.Files Backlog.Text Backlog.Import.Python

/-- A source with a statement of each kind. -/
def mixedLines : List ImportStatement :=
  [.modules ⟨⟨⟨"a", by decide⟩, [⟨"b", by decide⟩]⟩, some ⟨"ab", by decide⟩⟩
      [⟨⟨⟨"os", by decide⟩, []⟩, none⟩],
    .members (.absolute ⟨⟨"pkg", by decide⟩, []⟩ (by decide)) ⟨⟨"one", by decide⟩, none⟩
      [⟨⟨"two", by decide⟩, some ⟨"second", by decide⟩⟩],
    .members (.relative 0 none) ⟨⟨"sibling", by decide⟩, none⟩ [],
    .wildcard (.relative 1 (some ⟨⟨"up", by decide⟩, []⟩))]

/-- A folder with that source alone. -/
def mixedTree : FileTree :=
  ⟨.folder [("m.py", .file (Utf8.encode (sourceText mixedLines true)) 0)], []⟩

end Backlog
