import Backlog.Files.Tree

namespace Backlog.Files

/-!
# The texts of paths

The file system is given texts, while the program works with paths, lists of names. Going back and
forth loses nothing as long as each name can stand between slashes. Texts of paths that start from
the root are those that begin with a slash.

* `Path.namesOf_text` — the text of a path is split into the path's names again;
* `Path.IsSpelled.text_inj` — so paths are told apart by their texts;
* `Path.startsWith_text` — it begins with a slash exactly if the path starts from the root;
* `Path.size_text_lt_child` — a path is longer than those above it;
* `Path.ofText_name` — a plain name is a path of that name;
* `Path.IsRooted` — paths from the root, which stay such ones when something is joined to them or they
  are collapsed.
-/

/-! ### Splitting at slashes -/

/-- Names, each after a slash. -/
def slashed (names : List String) : List Char := names.flatMap fun name => '/' :: name.toList

/-- Names behind slashes, one name after the other. -/
theorem slashed_cons (name : String) (names : List String) :
    slashed (name :: names) = '/' :: (name.toList ++ slashed names) := rfl

/-- Names joined by slashes are the first of them and the others behind a slash each. The recursion
    of `slashed` is easier to follow than that of `intercalate`. -/
theorem toList_intercalate_slash (name : String) (names : List String) :
    ("/".intercalate (name :: names)).toList = name.toList ++ slashed names := by
  induction names generalizing name with
  | nil => simp [slashed]
  | cons next names ih =>
    have hslash : "/".toList = ['/'] := rfl
    rw [String.intercalate_cons_cons, String.toList_append, String.toList_append, ih, slashed_cons,
      hslash, List.append_assoc, List.singleton_append]

theorem splitSlashes_of_not_mem {cs : List Char} (h : '/' ∉ cs) : splitSlashes cs = [cs] := by
  induction cs with
  | nil => rfl
  | cons c cs ih =>
    rw [List.mem_cons, not_or] at h
    rw [splitSlashes, if_neg (Ne.symm h.1), ih h.2]

/-- The first slash ends the first part, and what is behind it is split by itself. -/
theorem splitSlashes_append {cs : List Char} (h : '/' ∉ cs) (rest : List Char) :
    splitSlashes (cs ++ '/' :: rest) = cs :: splitSlashes rest := by
  induction cs with
  | nil => rw [List.nil_append, splitSlashes, if_pos rfl]
  | cons c cs ih =>
    rw [List.mem_cons, not_or] at h
    rw [List.cons_append, splitSlashes, if_neg (Ne.symm h.1), ih h.2]

theorem splitSlashes_replicate (n : Nat) (rest : List Char) :
    splitSlashes (List.replicate n '/' ++ rest) = List.replicate n [] ++ splitSlashes rest := by
  induction n with
  | zero => rfl
  | succ n ih =>
    rw [List.replicate_succ, List.cons_append, splitSlashes, if_pos rfl, ih, List.replicate_succ,
      List.cons_append]

/-- Names without slashes are found again. Names with slashes in them would come apart, which is why
    a name of a path has none. -/
theorem splitSlashes_slashed {name : String} {names : List String}
    (h : ∀ n ∈ name :: names, '/' ∉ n.toList) :
    splitSlashes (name.toList ++ slashed names) = (name :: names).map String.toList := by
  induction names generalizing name with
  | nil => simpa [slashed] using splitSlashes_of_not_mem (h name (List.mem_cons_self ..))
  | cons next names ih =>
    rw [slashed_cons, splitSlashes_append (h name (List.mem_cons_self ..)),
      ih fun n hn => h n (List.mem_cons_of_mem _ hn), ← List.map_cons]

namespace Path

/-- A name that a path can hold: it says something, and holds neither a slash nor a NUL. -/
def IsName (name : String) : Prop :=
  isIdle name = false ∧ '/' ∉ name.toList ∧ '\x00' ∉ name.toList

instance (name : String) : Decidable (IsName name) := inferInstanceAs (Decidable (_ ∧ _ ∧ _))

theorem IsName.ne_empty {name : String} (h : IsName name) : name ≠ "" := by
  rintro rfl
  exact absurd h.1 (by decide)

/-- A path with a name, all of whose names a path can hold. -/
structure IsClean (p : Path) : Prop where
  ne_nil : p.names ≠ []
  isName : ∀ name ∈ p.names, IsName name

/-- A path is its last name below the rest. The root is the one path without a last name. -/
theorem child_parent {p : Path} (h : p.names ≠ []) : p.parent.child p.name = p := by
  have hlast : p.names.dropLast ++ [p.names.getLastD ""] = p.names := by
    rw [List.getLastD_eq_getLast?, List.getLast?_eq_some_getLast h, Option.getD_some,
      List.dropLast_concat_getLast h]
  rw [child, parent, name, hlast]

@[simp] theorem parent_child (p : Path) (name : String) : (p.child name).parent = p := by
  simp [child, parent]

/-- The last name of a child is the one that it was made with. -/
@[simp] theorem name_child (p : Path) (name : String) : (p.child name).name = name := by
  simp [child, Path.name]

/-- Children are told apart by the paths above them and by their last names. -/
theorem child_inj {p q : Path} {name other : String} :
    p.child name = q.child other ↔ p = q ∧ name = other := by
  constructor
  · intro h
    exact ⟨by simpa using congrArg parent h, by simpa using congrArg Path.name h⟩
  · rintro ⟨rfl, rfl⟩
    rfl

/-- The last name of a path is one of its names, if it has any. -/
theorem name_mem {p : Path} (h : p.names ≠ []) : p.name ∈ p.names := by
  rw [name, List.getLastD_eq_getLast?, List.getLast?_eq_some_getLast h]
  exact List.getLast_mem h

/-- A path without `..` behind another name: it may go up, but only to begin with. -/
def IsForward (p : Path) : Prop := p.names.Pairwise fun before name => name = ".." → before = ".."

instance (p : Path) : Decidable p.IsForward := inferInstanceAs (Decidable (List.Pairwise _ _))

/-- A child of a path of names is a path that can lead somewhere: its text is not empty, and spells
    its names again. -/
theorem isClean_child {p : Path} (h : ∀ name ∈ p.names, IsName name) {name : String}
    (hname : IsName name) : (p.child name).IsClean where
  ne_nil := by simp [Path.child]
  isName := by
    intro n hn
    rcases List.mem_append.mp hn with hn | hn
    · exact h n hn
    · rwa [List.mem_singleton.mp hn]

/-! ### Texts -/

/-- The characters of the text of a path: the slashes in front, and the names with slashes between
    them. No slash stands at the end, however the path was given. -/
theorem toList_text {p : Path} {name : String} {names : List String} (h : p.names = name :: names) :
    p.text.toList = List.replicate p.slashes '/' ++ (name.toList ++ slashed names) := by
  have hempty : p.names.isEmpty = false := by rw [h]; rfl
  rw [text, hempty, Bool.and_false, if_neg Bool.false_ne_true, String.toList_append,
    String.toList_ofList, h, toList_intercalate_slash]

/-- The text of a path is split into the path's names again, after one empty name for each slash in
    front. The empty names are idle, so that they lead nowhere by themselves. -/
theorem namesOf_text {p : Path} (h : p.IsClean) :
    namesOf p.text = List.replicate p.slashes "" ++ p.names := by
  obtain ⟨name, names, heq⟩ := List.exists_cons_of_ne_nil h.ne_nil
  rw [namesOf, toList_text heq, splitSlashes_replicate,
    splitSlashes_slashed fun n hn => (h.isName n (heq ▸ hn)).2.1, heq]
  simp [Function.comp_def]

/-- Only the slashes in front tell an absolute path, since no name begins with a slash. -/
theorem startsWith_text {p : Path} (h : p.IsClean) : p.text.startsWith "/" = p.isAbsolute := by
  obtain ⟨name, names, heq⟩ := List.exists_cons_of_ne_nil h.ne_nil
  have hname := h.isName name (by rw [heq]; exact List.mem_cons_self ..)
  obtain ⟨c, cs, hcs⟩ := List.exists_cons_of_ne_nil
    (fun hnil => hname.ne_empty (String.toList_eq_nil_iff.mp hnil) : name.toList ≠ [])
  rw [Bool.eq_iff_iff, String.startsWith_string_iff, toList_text heq, isAbsolute, decide_eq_true_iff]
  cases hslashes : p.slashes with
  | zero =>
    -- The first name does not begin with a slash.
    have hc : c ≠ '/' := by
      rintro rfl
      exact hname.2.1 (by rw [hcs]; exact List.mem_cons_self ..)
    simp [hcs, List.prefix_iff_eq_take, hc.symm]
  | succ n => simp [List.replicate_succ]

/-- The text of a path that can lead somewhere is not empty. -/
theorem text_ne_empty {p : Path} (h : p.IsClean) : p.text.isEmpty = false := by
  obtain ⟨name, names, heq⟩ := List.exists_cons_of_ne_nil h.ne_nil
  have hname := h.isName name (by rw [heq]; exact List.mem_cons_self ..)
  rw [← Bool.not_eq_true, String.isEmpty_iff, ← String.toList_eq_nil_iff, toList_text heq]
  have := hname.ne_empty
  simp [String.toList_eq_nil_iff, this]

/-- There is no NUL in the text of a path that can lead somewhere, since names hold none. -/
theorem nul_not_mem_text {p : Path} (h : p.IsClean) : '\x00' ∉ p.text.toList := by
  obtain ⟨name, names, heq⟩ := List.exists_cons_of_ne_nil h.ne_nil
  have hnul : ∀ n ∈ name :: names, '\x00' ∉ n.toList := fun n hn => (h.isName n (heq ▸ hn)).2.2
  rw [toList_text heq]
  intro hmem
  rw [List.mem_append, List.mem_append, slashed, List.mem_flatMap] at hmem
  rcases hmem with hmem | hmem | ⟨n, hn, hmem⟩
  · exact absurd (List.eq_of_mem_replicate hmem) (by decide)
  · exact hnul name (List.mem_cons_self ..) hmem
  · rcases List.mem_cons.mp hmem with hc | hmem
    · exact absurd hc (by decide)
    · exact hnul n (List.mem_cons_of_mem _ hn) hmem

/-- A path is longer than those above it. So a text that is short enough stays so on the way up,
    which is what making the folders above a file relies on. -/
theorem size_text_lt_child {p : Path} (h : p.IsClean) (name : String) :
    p.text.utf8ByteSize < (p.child name).text.utf8ByteSize := by
  obtain ⟨first, names, heq⟩ := List.exists_cons_of_ne_nil h.ne_nil
  have hchild : (p.child name).names = first :: (names ++ [name]) := by simp [Path.child, heq]
  have htext : (p.child name).text = p.text ++ "/" ++ name := by
    rw [← String.toList_inj, String.toList_append, String.toList_append, toList_text heq,
      toList_text hchild]
    simp [slashed, Path.child]
  have hslash : "/".utf8ByteSize = 1 := rfl
  rw [htext, String.utf8ByteSize_append, String.utf8ByteSize_append, hslash]
  omega

/-! ### Paths from texts -/

/-- What can stand in a path between two slashes. -/
def IsSegment (name : String) : Prop := isIdle name = false ∧ '/' ∉ name.toList

instance (name : String) : Decidable (IsSegment name) := inferInstanceAs (Decidable (_ ∧ _))

/-- A name is a segment: the two differ in that a segment may hold a NUL. -/
theorem IsName.isSegment {name : String} (h : IsName name) : IsSegment name :=
  ⟨h.1, h.2.1⟩

/-- A path as a text can spell it: every name says something and holds no slash. -/
def IsSpelled (p : Path) : Prop := ∀ name ∈ p.names, isIdle name = false ∧ '/' ∉ name.toList

/-- What stands between slashes holds none, and only characters of the whole. Every property of the
    characters of a text is therefore one of its parts. -/
theorem of_mem_splitSlashes {cs part : List Char} (h : part ∈ splitSlashes cs) :
    '/' ∉ part ∧ ∀ c ∈ part, c ∈ cs := by
  induction cs generalizing part with
  | nil =>
    obtain rfl := List.mem_singleton.mp h
    exact ⟨List.not_mem_nil, nofun⟩
  | cons d cs ih =>
    rw [splitSlashes] at h
    split at h
    · rcases List.mem_cons.mp h with rfl | h
      · exact ⟨List.not_mem_nil, nofun⟩
      · exact ⟨(ih h).1, fun c hc => List.mem_cons_of_mem _ ((ih h).2 c hc)⟩
    · rename_i hslash
      split at h
      · rename_i first rest hsplit
        have hfirst := @ih first (by rw [hsplit]; exact List.mem_cons_self ..)
        rcases List.mem_cons.mp h with rfl | h
        · refine ⟨fun hmem => ?_, fun c hc => ?_⟩
          · exact (List.mem_cons.mp hmem).elim (fun heq => hslash heq.symm) hfirst.1
          · exact (List.mem_cons.mp hc).elim (fun heq => heq ▸ List.mem_cons_self ..)
              fun hc => List.mem_cons_of_mem _ (hfirst.2 c hc)
        · have hpart := @ih part (by rw [hsplit]; exact List.mem_cons_of_mem _ h)
          exact ⟨hpart.1, fun c hc => List.mem_cons_of_mem _ (hpart.2 c hc)⟩
      · obtain rfl := List.mem_singleton.mp h
        refine ⟨fun hmem => hslash (List.mem_singleton.mp hmem).symm, fun c hc => ?_⟩
        rw [List.mem_singleton.mp hc]
        exact List.mem_cons_self ..

theorem slash_not_mem_namesOf {text name : String} (h : name ∈ namesOf text) : '/' ∉ name.toList := by
  obtain ⟨part, hpart, rfl⟩ := List.mem_map.mp h
  rw [String.toList_ofList]
  exact (of_mem_splitSlashes hpart).1

/-- The names of the path that a text spells hold only characters of the text. None of them is idle,
    as those are dropped. -/
theorem of_mem_names_ofText {text name : String} (h : name ∈ (ofText text).names) :
    (isIdle name = false ∧ '/' ∉ name.toList) ∧ ∀ c ∈ name.toList, c ∈ text.toList := by
  obtain ⟨hmem, hidle⟩ := List.mem_filter.mp h
  obtain ⟨part, hpart, rfl⟩ := List.mem_map.mp hmem
  rw [String.toList_ofList]
  exact ⟨⟨by simpa using hidle, (of_mem_splitSlashes hpart).1⟩, (of_mem_splitSlashes hpart).2⟩

/-- The path of a text is spelled: its names are what a text can hold between slashes. -/
theorem isSpelled_ofText (text : String) : (ofText text).IsSpelled :=
  fun _ hname => (of_mem_names_ofText hname).1

/-- A name below a path that is spelled gives one that is spelled. -/
theorem IsSpelled.child {p : Path} (h : p.IsSpelled) {name : String} (hname : IsName name) :
    (p.child name).IsSpelled := by
  intro n hn
  rcases List.mem_append.mp hn with hn | hn
  · exact h n hn
  · rw [List.mem_singleton.mp hn]
    exact ⟨hname.1, hname.2.1⟩

/-- A NUL in a name is one in the text. No separator stands between a name and the text. -/
theorem nul_mem_text {p : Path} {name : String} (h : name ∈ p.names)
    (hnul : '\x00' ∈ name.toList) : '\x00' ∈ p.text.toList := by
  obtain ⟨first, names, heq⟩ := List.exists_cons_of_ne_nil (List.ne_nil_of_mem h)
  rw [toList_text heq, List.mem_append, List.mem_append, slashed, List.mem_flatMap]
  rw [heq] at h
  rcases List.mem_cons.mp h with rfl | h
  · exact .inr (.inl hnul)
  · exact .inr (.inr ⟨name, h, List.mem_cons_of_mem _ hnul⟩)

/-- A path from a text is one that can lead somewhere, or it holds a NUL. With a NUL it leads
    nowhere, and each operation on it is refused in the same way. -/
theorem IsSpelled.isClean_or_nul {p : Path} (h : p.IsSpelled) (hne : p.names ≠ []) :
    p.IsClean ∨ '\x00' ∈ p.text.toList := by
  by_cases hnul : ∃ name ∈ p.names, '\x00' ∈ name.toList
  · obtain ⟨name, hname, hnul⟩ := hnul
    exact .inr (nul_mem_text hname hnul)
  · exact .inl ⟨hne, fun name hname => ⟨(h name hname).1, (h name hname).2,
      fun hmem => hnul ⟨name, hname, hmem⟩⟩⟩

/-- The text of a path is the slashes in front and what spells the names. The body does not begin
    with a slash, so that the slashes in front can be counted. -/
theorem IsSpelled.exists_body {p : Path} (h : p.IsSpelled) :
    ∃ body, p.text.toList = List.replicate p.slashes '/' ++ body ∧ body.head? ≠ some '/' ∧
      ((splitSlashes body).map String.ofList).filter (fun name => !isIdle name) = p.names := by
  cases hnames : p.names with
  | nil =>
    by_cases hslashes : p.slashes = 0
    · refine ⟨['.'], ?_, by decide, by decide⟩
      rw [text, hnames, hslashes]
      rfl
    · refine ⟨[], ?_, by decide, by decide⟩
      simp [text, hnames, hslashes]
  | cons name names =>
    have hspelled : ∀ n ∈ name :: names, isIdle n = false ∧ '/' ∉ n.toList := hnames ▸ h
    obtain ⟨hidle, hslash⟩ := hspelled name List.mem_cons_self
    refine ⟨_, toList_text hnames, ?_, ?_⟩
    · -- the first name is not empty, and it does not begin with a slash
      cases hname : name.toList with
      | nil =>
        rw [String.toList_eq_nil_iff.mp hname] at hidle
        exact absurd hidle (by decide)
      | cons c cs =>
        rw [hname, List.mem_cons, not_or] at hslash
        rw [List.cons_append, List.head?_cons, ne_eq, Option.some.injEq]
        exact Ne.symm hslash.1
    · rw [splitSlashes_slashed fun n hn => (hspelled n hn).2, List.map_map]
      simp only [Function.comp_def, String.ofList_toList, List.map_id']
      rw [List.filter_eq_self]
      intro n hn
      rw [(hspelled n hn).1]
      rfl

/-- Slashes in front of something else can be counted: neither the number nor the rest is open. -/
theorem replicate_slash_append_inj {a b : Nat} {x y : List Char} (hx : x.head? ≠ some '/')
    (hy : y.head? ≠ some '/')
    (h : List.replicate a '/' ++ x = List.replicate b '/' ++ y) : a = b ∧ x = y := by
  induction a generalizing b with
  | zero =>
    cases b with
    | zero => exact ⟨rfl, h⟩
    | succ b =>
      rw [List.replicate_zero, List.nil_append] at h
      rw [h] at hx
      exact absurd rfl hx
  | succ a ih =>
    cases b with
    | zero =>
      rw [List.replicate_zero, List.nil_append] at h
      rw [← h] at hy
      exact absurd rfl hy
    | succ b =>
      obtain ⟨rfl, rfl⟩ := ih (List.cons.inj h).2
      exact ⟨rfl, rfl⟩

/-- Paths are told apart by their texts. Files are looked up by text, so that two paths with one
    text would be one file. -/
theorem IsSpelled.text_inj {p q : Path} (hp : p.IsSpelled) (hq : q.IsSpelled)
    (h : p.text = q.text) : p = q := by
  obtain ⟨x, hx, hxhead, hxnames⟩ := hp.exists_body
  obtain ⟨y, hy, hyhead, hynames⟩ := hq.exists_body
  rw [h, hy] at hx
  obtain ⟨hslashes, rfl⟩ := replicate_slash_append_inj hyhead hxhead hx
  have hnames : p.names = q.names := hxnames.symm.trans hynames
  calc p = ⟨p.slashes, p.names⟩ := rfl
    _ = ⟨q.slashes, q.names⟩ := by rw [hslashes, hnames]
    _ = q := rfl

/-- Without a NUL in a text there is none in its path. Spelling a path again brings in slashes
    only. -/
theorem nul_not_mem_ofText {text : String} (h : '\x00' ∉ text.toList) :
    '\x00' ∉ (ofText text).text.toList := by
  by_cases hne : (ofText text).names = []
  · rw [Path.text, hne]
    split
    · decide
    · simp
  · exact nul_not_mem_text ⟨hne, fun name hname => ⟨(isSpelled_ofText text name hname).1,
      (isSpelled_ofText text name hname).2, fun hmem => h ((of_mem_names_ofText hname).2 _ hmem)⟩⟩

/-- A name is the path of that name. It starts from the current folder. -/
theorem ofText_name {name : String} (h : IsName name) : ofText name = ⟨0, [name]⟩ := by
  have hslashes : leadingSlashes name = 0 := by
    unfold leadingSlashes
    split
    all_goals
      first
        | rfl
        | (rename_i heq; exact absurd (heq ▸ List.mem_cons_self ..) h.2.1)
  rw [ofText, hslashes, namesOf, splitSlashes_of_not_mem h.2.1]
  simp [h.1]

/-! ### Paths from the root -/

/-- A path from the root, as a text can spell it. -/
structure IsRooted (p : Path) : Prop where
  isAbsolute : p.isAbsolute = true
  isSpelled : p.IsSpelled

/-- An absolute path of segments is one from the root. -/
theorem isRooted_absolute {names : List String}
    (h : ∀ name ∈ names, IsSegment name) : (absolute names).IsRooted :=
  ⟨rfl, h⟩

/-- A text that begins with a slash spells a path from the root. -/
theorem isRooted_ofText {text : String} (h : text.startsWith "/" = true) :
    (ofText text).IsRooted := by
  refine ⟨?_, isSpelled_ofText text⟩
  obtain ⟨rest, hrest⟩ := String.startsWith_string_iff.mp h
  have hslash : text.toList = '/' :: rest := hrest.symm
  rw [isAbsolute, decide_eq_true_eq]
  show leadingSlashes text ≠ 0
  unfold leadingSlashes
  rw [hslash]
  split
  · exact Nat.one_ne_zero
  · exact Nat.succ_ne_zero 1
  · exact Nat.one_ne_zero
  · rename_i hno
    exact absurd rfl (hno rest)

/-- A path seen from a path from the root is one as well. The second path begins anew if it is
    absolute, and goes on with its names if not. -/
theorem IsRooted.join {p q : Path} (h : p.IsRooted) (hq : q.IsSpelled) : (p.join q).IsRooted := by
  unfold Path.join
  by_cases hslashes : q.isAbsolute = true
  · rw [if_pos hslashes]
    exact ⟨hslashes, hq⟩
  · rw [if_neg hslashes]
    refine ⟨h.isAbsolute, fun name hname => ?_⟩
    rcases List.mem_append.mp hname with hname | hname
    · exact h.isSpelled name hname
    · exact hq name hname

/-- The path above one from the root is one from the root. -/
theorem IsRooted.parent {p : Path} (h : p.IsRooted) : p.parent.IsRooted :=
  ⟨h.isAbsolute, fun name hname => h.isSpelled name ((List.dropLast_sublist _).subset hname)⟩

/-- A segment below a path from the root gives one from the root. -/
theorem IsRooted.child {p : Path} (h : p.IsRooted) {name : String} (hname : IsSegment name) :
    (p.child name).IsRooted := by
  refine ⟨h.isAbsolute, fun other hother => ?_⟩
  rcases List.mem_append.mp hother with hother | hother
  · exact h.isSpelled other hother
  · rwa [List.mem_singleton.mp hother]

/-- One step of collapsing adds its own name at most. -/
theorem mem_of_mem_collapseStep {absolute : Bool} {reversed : List String} {name next : String}
    (h : name ∈ collapseStep absolute reversed next) : name = next ∨ name ∈ reversed := by
  unfold collapseStep at h
  split at h
  · rename_i hup
    split at h
    · split at h
      · cases h
      · exact .inl (hup ▸ List.mem_singleton.mp h)
    · exact .inr (by simpa using h)
    · exact .inr (List.mem_cons_of_mem _ h)
  · exact List.mem_cons.mp h

/-- All steps of collapsing together add no names but those of the row. -/
theorem mem_of_mem_foldl_collapseStep {absolute : Bool} {reversed names : List String}
    {name : String} (h : name ∈ names.foldl (collapseStep absolute) reversed) :
    name ∈ reversed ∨ name ∈ names := by
  induction names generalizing reversed with
  | nil => exact .inl h
  | cons next rest ih =>
    rcases ih h with hmem | hmem
    · rcases mem_of_mem_collapseStep hmem with rfl | hmem
      · exact .inr List.mem_cons_self
      · exact .inl hmem
    · exact .inr (List.mem_cons_of_mem _ hmem)

/-- Collapsing a path makes up no names. It drops names and the `..` that cancel them. -/
theorem mem_of_mem_collapseNames {absolute : Bool} {names : List String} {name : String}
    (h : name ∈ collapseNames absolute names) : name ∈ names :=
  (mem_of_mem_foldl_collapseStep (List.mem_reverse.mp h)).resolve_left List.not_mem_nil

/-- Collapsing a path from the root gives one from the root. -/
theorem IsRooted.collapsed {p : Path} (h : p.IsRooted) : p.collapsed.IsRooted :=
  ⟨h.isAbsolute, fun name hname => h.isSpelled name (mem_of_mem_collapseNames hname)⟩

end Path

end Backlog.Files
