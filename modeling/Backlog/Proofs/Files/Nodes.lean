import Backlog.Files.Tree

namespace Backlog.Files.Node

/-!
# What is found after something has been put

A place in a file tree is the row of names that leads to it from the root. `Node.put` changes what
is in one place; this file says what is then found in every place.

* `find?_put_self` — what is in the place is what was put there;
* `find?_put_of_apart` — in a place neither above nor below, nothing changes;
* `passageAt?_put` — above, folders stay folders and links stay as they are;
* `Tidy` — no folder has two entries of one name, a law that `put` keeps.
-/

/-! ### The entries of one folder -/

/-- Setting an entry leaves those under other names alone. -/
theorem childNamed?_setEntry_of_ne {name other : String} (h : other ≠ name) (value : Option Node)
    (entries : List (String × Node)) :
    childNamed? other (setEntry name value entries) = childNamed? other entries := by
  induction entries with
  | nil => cases value <;> simp [setEntry, childNamed?, h.symm]
  | cons e rest ih =>
    rw [setEntry]
    split
    · rename_i he
      cases value <;> simp [childNamed?, he, h.symm]
    · simp only [childNamed?, ih]

/-- The entry that was set is found under its name. -/
theorem childNamed?_setEntry_some (name : String) (node : Node) (entries : List (String × Node)) :
    childNamed? name (setEntry name (some node) entries) = some node := by
  induction entries with
  | nil => simp [setEntry, childNamed?]
  | cons e rest ih =>
    rw [setEntry]
    split
    · simp [childNamed?]
    · rename_i he
      simp [childNamed?, he, ih]

/-- Nothing is found under a name exactly if no entry has it. -/
theorem childNamed?_eq_none_iff {name : String} {entries : List (String × Node)} :
    childNamed? name entries = none ↔ name ∉ entries.map Prod.fst := by
  induction entries with
  | nil => simp [childNamed?]
  | cons e rest ih =>
    rw [childNamed?, List.map_cons, List.mem_cons, not_or, ← ih]
    split
    · rename_i he
      simp [he]
    · rename_i he
      simp [Ne.symm he]

/-- What is found under a name is an entry of the folder. -/
theorem mem_of_childNamed? {name : String} {inner : Node} {entries : List (String × Node)}
    (h : childNamed? name entries = some inner) : (name, inner) ∈ entries := by
  induction entries with
  | nil => cases h
  | cons e rest ih =>
    rw [childNamed?] at h
    split at h
    · rename_i heq
      obtain rfl := Option.some.inj h
      exact heq ▸ List.mem_cons_self
    · exact List.mem_cons_of_mem _ (ih h)

/-- Under a name whose entry was dropped nothing is found. Only the first entry is dropped, so the
    names have to differ. -/
theorem childNamed?_setEntry_none {name : String} {entries : List (String × Node)}
    (h : (entries.map Prod.fst).Nodup) : childNamed? name (setEntry name none entries) = none := by
  induction entries with
  | nil => rfl
  | cons e rest ih =>
    rw [List.map_cons, List.nodup_cons] at h
    rw [setEntry]
    split
    · rename_i he
      exact childNamed?_eq_none_iff.mpr (he ▸ h.1)
    · rename_i he
      rw [childNamed?, if_neg he, ih h.2]

/-- Setting an entry brings in no name but its own. -/
theorem mem_map_fst_setEntry {name other : String} {value : Option Node}
    {entries : List (String × Node)} (h : other ∈ (setEntry name value entries).map Prod.fst) :
    other = name ∨ other ∈ entries.map Prod.fst := by
  by_cases hne : other = name
  · exact .inl hne
  · refine .inr (Decidable.byContradiction fun hnot => ?_)
    rw [← childNamed?_eq_none_iff, ← childNamed?_setEntry_of_ne hne value,
      childNamed?_eq_none_iff] at hnot
    exact hnot h

/-- Names that differ still do when an entry has been set or dropped. -/
theorem nodup_setEntry {name : String} {value : Option Node} {entries : List (String × Node)}
    (h : (entries.map Prod.fst).Nodup) : ((setEntry name value entries).map Prod.fst).Nodup := by
  induction entries with
  | nil => cases value <;> simp [setEntry]
  | cons e rest ih =>
    rw [List.map_cons, List.nodup_cons] at h
    rw [setEntry]
    split
    · rename_i he
      cases value with
      | none => simpa using h.2
      | some node => simpa [← he] using h
    · rename_i he
      rw [List.map_cons, List.nodup_cons]
      refine ⟨fun hmem => ?_, ih h.2⟩
      rcases mem_map_fst_setEntry hmem with heq | hmem
      · exact he heq
      · exact h.1 hmem

/-! ### One place -/

/-- To look for more names is to look for them below what is found first. -/
theorem find?_append (node : Node) (names more : List String) :
    node.find? (names ++ more) = (node.find? names).bind (·.find? more) := by
  induction names generalizing node with
  | nil => rfl
  | cons name names ih =>
    cases node with
    | folder entries =>
      rw [List.cons_append, find?, find?, Option.bind_assoc]
      exact congrArg _ (funext fun inner => ih inner)
    | file _ _ | link _ | sealed _ => rfl

/-- One name below a folder finds the entry of this name. -/
theorem find?_concat {node : Node} {names : List String} {entries : List (String × Node)}
    (h : node.find? names = some (.folder entries)) (name : String) :
    node.find? (names ++ [name]) = childNamed? name entries := by
  rw [find?_append, h, Option.bind_some, find?]
  cases childNamed? name entries <;> rfl

/-- What is found below a place is found in a folder. Neither a file nor a sealed folder has
    anything below it that could be found. -/
theorem exists_folder_above {root node : Node} {names : List String} {name : String}
    (h : root.find? (names ++ [name]) = some node) :
    ∃ entries, root.find? names = some (.folder entries) ∧ childNamed? name entries = some node := by
  rw [find?_append, Option.bind_eq_some_iff] at h
  obtain ⟨above, habove, h⟩ := h
  cases above with
  | file _ _ | link _ | sealed _ => cases h
  | folder entries =>
    refine ⟨entries, habove, ?_⟩
    rwa [← find?_concat habove, find?_append, habove]

/-- A put further below is a put in the entry that leads there. The folders on the way are made anew
    with one entry exchanged. -/
theorem put_cons {value : Option Node} {name : String} {rest : List String} (hrest : rest ≠ [])
    {entries : List (String × Node)} {inner : Node} (h : childNamed? name entries = some inner) :
    put value (.folder entries) (name :: rest) =
      .folder (setEntry name (some (put value inner rest)) entries) := by
  cases rest with
  | nil => exact absurd rfl hrest
  | cons next rest => rw [put, h]; exact nofun

/-- The folder of a place after something was put there. It is the same folder with one entry set or
    dropped. -/
theorem find?_put_parent {root : Node} {names : List String} {name : String}
    {entries : List (String × Node)} (h : root.find? names = some (.folder entries))
    (value : Option Node) :
    (put value root (names ++ [name])).find? names =
      some (.folder (setEntry name value entries)) := by
  induction names generalizing root with
  | nil =>
    obtain rfl := Option.some.inj h
    rfl
  | cons next names ih =>
    cases root with
    | folder outer =>
      rw [find?, Option.bind_eq_some_iff] at h
      obtain ⟨inner, hinner, h⟩ := h
      rw [List.cons_append, put_cons (by simp) hinner, find?, childNamed?_setEntry_some,
        Option.bind_some, ih h]
    | file _ _ | link _ | sealed _ => cases h

/-- What is found in the place where something was put. The names behind the place are looked for
    below the node that was put there. -/
theorem find?_put_self {root : Node} {names : List String} {entries : List (String × Node)}
    (h : root.find? names = some (.folder entries)) (name : String) (node : Node)
    (more : List String) :
    (put (some node) root (names ++ [name])).find? (names ++ [name] ++ more) = node.find? more := by
  rw [find?_append, find?_concat (find?_put_parent h _), childNamed?_setEntry_some,
    Option.bind_some]

/-- Nothing is found in the place that was emptied. Names have to differ, or an entry of the same
    name would come to light. -/
theorem find?_put_none {root : Node} {names : List String} {entries : List (String × Node)}
    (h : root.find? names = some (.folder entries)) (name : String)
    (hnodup : (entries.map Prod.fst).Nodup) (more : List String) :
    (put none root (names ++ [name])).find? (names ++ [name] ++ more) = none := by
  rw [find?_append, find?_concat (find?_put_parent h _), childNamed?_setEntry_none hnodup,
    Option.bind_none]

/-- What is found at or below a place, after something was put there or it was emptied. This is both
    lemmas before in one, for a value that may be missing. -/
theorem find?_put_below {root : Node} {names : List String} {entries : List (String × Node)}
    (h : root.find? names = some (.folder entries)) (hnodup : (entries.map Prod.fst).Nodup)
    (name : String) (value : Option Node) (more : List String) :
    (put value root (names ++ [name])).find? (names ++ [name] ++ more) =
      value.bind (·.find? more) := by
  cases value with
  | none => exact find?_put_none h name hnodup more
  | some node => exact find?_put_self h name node more

/-! ### Other places -/

/-- How a node is passed on the way to another: a folder is entered, a link is followed. -/
inductive Passage where
  | folder
  | link (target : String)
  /-- A folder that may not be searched, where a path ends unless only slashes follow. -/
  | sealed
  deriving DecidableEq

/-- How a node is passed, if it can be. -/
def passage? : Node → Option Passage
  | .file _ _ => none
  | .link target => some (.link target)
  | .folder _ => some .folder
  | .sealed _ => some .sealed

/-- How the node in a place is passed, if something is there that can be. -/
def passageAt? (root : Node) (names : List String) : Option Passage :=
  (root.find? names).bind passage?

/-- A place is passed as a folder exactly if a folder is found there. -/
theorem passageAt?_eq_folder_iff {root : Node} {names : List String} :
    root.passageAt? names = some .folder ↔
      ∃ entries, root.find? names = some (.folder entries) := by
  cases h : root.find? names with
  | none => simp [passageAt?, h]
  | some node => cases node <;> simp [passageAt?, h, passage?]

/-- A place is passed as a link exactly if a link is found there, with its target. -/
theorem passageAt?_eq_link_iff {root : Node} {names : List String} {target : String} :
    root.passageAt? names = some (.link target) ↔ root.find? names = some (.link target) := by
  cases h : root.find? names with
  | none => simp [passageAt?, h]
  | some node => cases node <;> simp [passageAt?, h, passage?]

/-- A place is passed as a sealed folder exactly if one is found there; what may be listed in it
    does not matter on the way. -/
theorem passageAt?_eq_sealed_iff {root : Node} {names : List String} :
    root.passageAt? names = some .sealed ↔
      ∃ listed, root.find? names = some (.sealed listed) := by
  cases h : root.find? names with
  | none => simp [passageAt?, h]
  | some node => cases node <;> simp [passageAt?, h, passage?]

theorem ne_none_of_passageAt? {root : Node} {names : List String} {passage : Passage}
    (h : root.passageAt? names = some passage) : root.find? names ≠ none := by
  intro hnone
  rw [passageAt?, hnone] at h
  cases h

/-- A put changes only the entry that leads to its place; if the place is further below, it is a put
    in that entry. All that is known of the new entries is told by three facts, so that later proofs
    do not open the recursion again. -/
theorem exists_put_cons (value : Option Node) (entries : List (String × Node)) (name : String)
    (rest : List String) :
    ∃ entries', put value (.folder entries) (name :: rest) = .folder entries' ∧
      (∀ other, other ≠ name → childNamed? other entries' = childNamed? other entries) ∧
      (rest ≠ [] →
        childNamed? name entries' = (childNamed? name entries).map (put value · rest)) ∧
      ((entries.map Prod.fst).Nodup → (entries'.map Prod.fst).Nodup) := by
  cases rest with
  | nil =>
    exact ⟨_, rfl, fun _ h => childNamed?_setEntry_of_ne h _ _, fun h => absurd rfl h,
      nodup_setEntry⟩
  | cons next rest =>
    cases hchild : childNamed? name entries with
    | none =>
      refine ⟨entries, ?_, fun _ _ => rfl, fun _ => by rw [hchild]; rfl, id⟩
      rw [put, hchild]
      exact nofun
    | some inner =>
      refine ⟨_, put_cons (by simp) hchild, fun _ h => childNamed?_setEntry_of_ne h _ _, ?_,
        nodup_setEntry⟩
      exact fun _ => childNamed?_setEntry_some _ _ _

/-- Outside the place of a put, what is found is what was found, or it is above the place and was
    and is a folder. Above the place only the entries of folders change, and what leads through them
    stays. -/
theorem find?_put_cases {value : Option Node} {root : Node} {place names : List String}
    (h : ¬place <+: names) :
    (put value root place).find? names = root.find? names ∨
      names <+: place ∧ ∃ entries entries', root.find? names = some (.folder entries) ∧
        (put value root place).find? names = some (.folder entries') := by
  induction place generalizing root names with
  | nil => exact absurd List.nil_prefix h
  | cons name place ih =>
    cases root with
    | file _ _ | link _ | sealed _ => exact .inl (by cases place <;> rfl)
    | folder entries =>
      obtain ⟨entries', hput, hother, hname, _⟩ := exists_put_cons value entries name place
      cases names with
      | nil => exact .inr ⟨List.nil_prefix, entries, entries', rfl, by rw [hput]; rfl⟩
      | cons other names =>
        rw [hput, find?, find?]
        by_cases hne : other = name
        · -- The names lead into the entry that is changed, so the rest is a put below it.
          subst hne
          rw [List.cons_prefix_cons, not_and] at h
          have hplace : place ≠ [] := by
            rintro rfl
            exact h rfl List.nil_prefix
          rw [hname hplace]
          cases childNamed? other entries with
          | none => exact .inl rfl
          | some inner =>
            refine (ih (h rfl)).imp_right fun hfolder => ⟨?_, hfolder.2⟩
            exact List.cons_prefix_cons.mpr ⟨rfl, hfolder.1⟩
        · exact .inl (by rw [hother other hne])

/-- In a place neither above nor below, nothing changes. This is what lets two files be written one
    after the other. -/
theorem find?_put_of_apart {value : Option Node} {root : Node} {place names : List String}
    (hbelow : ¬place <+: names) (habove : ¬names <+: place) :
    (put value root place).find? names = root.find? names :=
  (find?_put_cases hbelow).resolve_right fun hfolder => habove hfolder.1

/-- Outside the place, what was passed is passed as before. Files that come and go therefore leave
    every way through the tree as it is. -/
theorem passageAt?_put {value : Option Node} {root : Node} {place names : List String}
    (h : ¬place <+: names) : (put value root place).passageAt? names = root.passageAt? names := by
  rcases find?_put_cases h with heq | ⟨_, _, _, hbefore, hafter⟩
  · rw [passageAt?, passageAt?, heq]
  · rw [passageAt?, passageAt?, hbefore, hafter]
    rfl

/-! ### No name twice -/

/-- No folder has two entries of one name. -/
def Tidy (root : Node) : Prop :=
  ∀ names entries, root.find? names = some (.folder entries) → (entries.map Prod.fst).Nodup

/-- A folder is tidy if its names differ and everything in it is tidy. -/
theorem tidy_folder_iff {entries : List (String × Node)} :
    Tidy (.folder entries) ↔ (entries.map Prod.fst).Nodup ∧
      ∀ name inner, childNamed? name entries = some inner → Tidy inner := by
  constructor
  · refine fun h => ⟨h [] entries rfl, fun name inner hinner names found hfound => ?_⟩
    exact h (name :: names) found (by rw [find?, hinner, Option.bind_some, hfound])
  · rintro ⟨hnodup, hinner⟩ names found hfound
    cases names with
    | nil =>
      obtain rfl := Node.folder.inj (Option.some.inj hfound)
      exact hnodup
    | cons name names =>
      obtain ⟨inner, hchild, hfound⟩ := Option.bind_eq_some_iff.mp hfound
      exact hinner name inner hchild names found hfound

theorem tidy_file (content : Text.Bytes) (time : Int) : Tidy (.file content time) := by
  intro names entries h
  cases names <;> cases h

/-- Putting something tidy into a tidy tree, or emptying a place of it, leaves it tidy. The
    induction follows the recursion of `put`. -/
theorem Tidy.put {root : Node} (h : Tidy root) {value : Option Node}
    (hvalue : ∀ node ∈ value, Tidy node) (place : List String) : Tidy (put value root place) := by
  induction place generalizing root with
  | nil =>
    cases value with
    | none => exact h
    | some node => exact hvalue node rfl
  | cons name place ih =>
    cases root with
    | file _ _ | link _ | sealed _ => cases place <;> exact h
    | folder entries =>
      obtain ⟨hnodup, hinner⟩ := tidy_folder_iff.mp h
      obtain ⟨entries', hput, hother, hname, hnodup'⟩ := exists_put_cons value entries name place
      rw [hput, tidy_folder_iff]
      refine ⟨hnodup' hnodup, fun other inner hchild => ?_⟩
      by_cases hne : other = name
      · subst hne
        cases place with
        | nil =>
          -- The entry is the value itself.
          obtain rfl := Node.folder.inj hput
          cases value with
          | none => rw [childNamed?_setEntry_none hnodup] at hchild; cases hchild
          | some node =>
            rw [childNamed?_setEntry_some] at hchild
            exact hvalue inner hchild
        | cons next place =>
          rw [hname (by simp), Option.map_eq_some_iff] at hchild
          obtain ⟨old, hold, rfl⟩ := hchild
          exact ih (hinner _ _ hold)
      · rw [hother other hne] at hchild
        exact hinner other inner hchild

end Backlog.Files.Node
