import Backlog.Proofs.Files.Nodes
import Backlog.Proofs.Files.Paths

namespace Backlog.Files

/-!
# Ways through a file tree

`FileTree.walk` goes along a row of names, from folder to folder, and through links. A `Way` is such
a walk as a derivation, over places of a given kind; so it can be carried over to another tree in
which these places are passed as before.

* `Way.mono` — a way stays a way as long as what it passes is passed as before;
* `Way.within` — in a tree with fewer passages, no names lead another way;
* `Way.walk_append` — a walk whose first names are a way goes on from where this ends;
* `FileTree.walkStep` — what the first name of a walk that succeeds does;
* `exists_way_of_walk` — the first names of every walk that succeeds are a way.
-/

open Node

/-- A name that is looked up in a folder. -/
structure Path.IsDown (name : String) : Prop where
  isIdle : Path.isIdle name = false
  ne_up : name ≠ ".."
  size_le : name.utf8ByteSize ≤ FileTree.maxNameSize

/-- A way along some names over places of a kind: from folder to folder, or through links. The
    places where it starts and stops are given as rows of names in reverse, together with how many
    links may still be followed. -/
inductive Way (root : Node) (via : List String → Prop) :
    Nat → List String → List String → Nat → List String → Prop
  | here {links : Nat} {start : List String} : Way root via links start [] links start
  | idle {links links' : Nat} {start stop rest : List String} {name : String}
      (hfolder : root.passageAt? start.reverse = some .folder) (hvia : via start.reverse)
      (hname : Path.isIdle name = true) (h : Way root via links start rest links' stop) :
      Way root via links start (name :: rest) links' stop
  | up {links links' : Nat} {start stop rest : List String}
      (hfolder : root.passageAt? start.reverse = some .folder) (hvia : via start.reverse)
      (h : Way root via links start.tail rest links' stop) :
      Way root via links start (".." :: rest) links' stop
  | down {links links' : Nat} {start stop rest : List String} {name : String}
      (hfolder : root.passageAt? start.reverse = some .folder) (hvia : via start.reverse)
      (hname : Path.IsDown name) (hchild : root.passageAt? (start.reverse ++ [name]) = some .folder)
      (hinner : via (start.reverse ++ [name]))
      (h : Way root via links (name :: start) rest links' stop) :
      Way root via links start (name :: rest) links' stop
  | follow {links links' : Nat} {start stop rest : List String} {name target : String}
      (hfolder : root.passageAt? start.reverse = some .folder) (hvia : via start.reverse)
      (hname : Path.IsDown name)
      (hchild : root.passageAt? (start.reverse ++ [name]) = some (.link target))
      (hinner : via (start.reverse ++ [name]))
      (h : Way root via links (if target.startsWith "/" then [] else start)
        (namesOf target ++ rest) links' stop) :
      Way root via (links + 1) start (name :: rest) links' stop

variable {root : Node} {via : List String → Prop}

/-- A way stays a way as long as what it passes is passed as before. The number of links that may be
    followed is free, since a way only uses up what it takes. -/
theorem Way.mono {root' : Node} {via' : List String → Prop} {links links' : Nat}
    {start names stop : List String} (h : Way root via links start names links' stop)
    (hvia : ∀ place, via place → via' place)
    (hpass : ∀ place, via place → ∀ passage, root.passageAt? place = some passage →
      root'.passageAt? place = some passage) : Way root' via' links start names links' stop := by
  induction h with
  | here => exact .here
  | idle hfolder hv hname _ ih => exact .idle (hpass _ hv _ hfolder) (hvia _ hv) hname ih
  | up hfolder hv _ ih => exact .up (hpass _ hv _ hfolder) (hvia _ hv) ih
  | down hfolder hv hname hchild hinner _ ih =>
    exact .down (hpass _ hv _ hfolder) (hvia _ hv) hname (hpass _ hinner _ hchild)
      (hvia _ hinner) ih
  | follow hfolder hv hname hchild hinner _ ih =>
    exact .follow (hpass _ hv _ hfolder) (hvia _ hv) hname (hpass _ hinner _ hchild)
      (hvia _ hinner) ih

/-- Two ways one after the other are one. The links that are left after the first are those that the
    second begins with. -/
theorem Way.append {links links' links'' : Nat} {start middle stop names more : List String}
    (h : Way root via links start names links' middle)
    (hmore : Way root via links' middle more links'' stop) :
    Way root via links start (names ++ more) links'' stop := by
  induction h with
  | here => exact hmore
  | idle hfolder hv hname _ ih => exact .idle hfolder hv hname (ih hmore)
  | up hfolder hv _ ih => exact .up hfolder hv (ih hmore)
  | down hfolder hv hname hchild hinner _ ih =>
    exact .down hfolder hv hname hchild hinner (ih hmore)
  | follow hfolder hv hname hchild hinner _ ih =>
    refine .follow hfolder hv hname hchild hinner ?_
    simpa only [List.append_assoc, List.append_eq] using ih hmore

/-- If some names are a way in two trees, the one of which holds no passage that the other does not
    hold, both ways are the same. Folders and links decide about a way, and in the second tree they
    are those of the first. -/
theorem Way.within {root' : Node} {via' : List String → Prop} {links links' links'' : Nat}
    {start names stop stop' : List String} (h : Way root via links start names links' stop)
    (h' : Way root' via' links start names links'' stop')
    (hpass : ∀ place passage, root'.passageAt? place = some passage →
      root.passageAt? place = some passage) : Way root' via links start names links' stop := by
  have hidle : ∀ {name}, Path.isIdle name = true → ¬Path.IsDown name := fun hname hdown => by
    rw [hdown.isIdle] at hname
    cases hname
  have hup : Path.isIdle ".." ≠ true := by decide
  -- The name says which step both ways take, but for a folder in the one and a link in the other.
  induction h generalizing links'' stop' with
  | here => exact .here
  | idle _ hv hname _ ih =>
    cases h' with
    | idle hfolder _ _ h' => exact .idle hfolder hv hname (ih h')
    | up _ _ _ => exact absurd hname hup
    | down _ _ hdown _ _ _ | follow _ _ hdown _ _ _ => exact absurd hdown (hidle hname)
  | up _ hv _ ih =>
    cases h' with
    | idle _ _ hname _ => exact absurd hname hup
    | up hfolder _ h' => exact .up hfolder hv (ih h')
    | down _ _ hdown _ _ _ | follow _ _ hdown _ _ _ => exact absurd rfl hdown.ne_up
  | down _ hv hname hchild hinner _ ih =>
    cases h' with
    | idle _ _ hname' _ => exact absurd hname (hidle hname')
    | up _ _ _ => exact absurd rfl hname.ne_up
    | down hfolder _ _ hchild' _ h' => exact .down hfolder hv hname hchild' hinner (ih h')
    | follow _ _ _ hchild' _ _ =>
      rw [hpass _ _ hchild'] at hchild
      cases hchild
  | follow _ hv hname hchild hinner _ ih =>
    cases h' with
    | idle _ _ hname' _ => exact absurd hname (hidle hname')
    | up _ _ _ => exact absurd rfl hname.ne_up
    | down _ _ _ hchild' _ _ =>
      rw [hpass _ _ hchild'] at hchild
      cases hchild
    | follow hfolder _ _ hchild' _ h' =>
      have hlink := hpass _ _ hchild'
      rw [hchild] at hlink
      cases hlink
      exact .follow hfolder hv hname hchild' hinner (ih h')

/-! ### Walks -/

namespace FileTree

variable {followLast : Bool} {links : Nat} {start rest : List String} {name : String}

/-- An empty name or a point leaves one in the folder. -/
theorem walk_idle (hfolder : root.passageAt? start.reverse = some .folder)
    (hname : Path.isIdle name = true) :
    walk root followLast links start (name :: rest) = walk root followLast links start rest := by
  obtain ⟨entries, hentries⟩ := passageAt?_eq_folder_iff.mp hfolder
  rw [walk, hentries]
  simp only [hname, if_true]

theorem walk_up (hfolder : root.passageAt? start.reverse = some .folder) :
    walk root followLast links start (".." :: rest) =
      walk root followLast links start.tail rest := by
  obtain ⟨entries, hentries⟩ := passageAt?_eq_folder_iff.mp hfolder
  have hidle : Path.isIdle ".." = false := by decide
  rw [walk, hentries]
  simp only [hidle, if_true, Bool.false_eq_true, if_false]

/-- Where only slashes follow, a folder need not be searched. The system asks for the name of a
    folder here, not for anything in it. -/
theorem walk_slash (hsealed : root.passageAt? start.reverse = some .sealed) :
    walk root followLast links start ("" :: rest) = walk root followLast links start rest := by
  obtain ⟨listed, hlisted⟩ := passageAt?_eq_sealed_iff.mp hsealed
  rw [walk, hlisted]
  exact if_pos rfl

/-- No name is looked up in a folder that may not be searched; only the empty names that further
    slashes make are passed over. The refusal is one for want of permission, whatever the names
    are. -/
theorem walk_sealed {names listed : List String}
    (hsealed : root.find? start.reverse = some (.sealed listed)) (h : ∃ n ∈ names, n ≠ "") :
    walk root followLast links start names = .error .denied := by
  induction names with
  | nil => simp at h
  | cons name names ih =>
    by_cases hempty : name = ""
    · subst hempty
      rw [walk_slash (passageAt?_eq_sealed_iff.mpr ⟨listed, hsealed⟩)]
      exact ih (h.imp fun n hn => ⟨(List.mem_cons.mp hn.1).resolve_left hn.2, hn.2⟩)
    · rw [walk, hsealed]
      exact if_neg hempty

/-- A walk along any name starts from a folder. From a file one does not go on, and from a sealed
    folder only with slashes. -/
theorem exists_folder_of_walk_cons {place : Place} (hnames : ∃ n ∈ name :: rest, n ≠ "")
    (h : walk root followLast links start (name :: rest) = .ok place) :
    ∃ entries, root.find? start.reverse = some (.folder entries) := by
  cases hfound : root.find? start.reverse with
  | none => rw [walk, hfound] at h; cases h
  | some node =>
    cases node with
    | file _ _ | link _ => rw [walk, hfound] at h; cases h
    | sealed listed => rw [walk_sealed hfound hnames] at h; cases h
    | folder entries => exact ⟨entries, rfl⟩

/-- A name is looked up in the folder. These are all cases of a name: missing, a link, or something
    else. -/
theorem walk_down {entries : List (String × Node)}
    (hfolder : root.find? start.reverse = some (.folder entries)) (hname : Path.IsDown name) :
    walk root followLast links start (name :: rest) =
      match childNamed? name entries with
      | none => if rest.isEmpty then .ok ⟨(name :: start).reverse, none⟩ else .error .missing
      | some (.link target) =>
        if rest.isEmpty && !followLast then .ok ⟨(name :: start).reverse, some (.link target)⟩
        else match links with
          | 0 => .error .tooManyLinks
          | links + 1 =>
            walk root followLast links (if target.startsWith "/" then [] else start)
              (namesOf target ++ rest)
      | some _ => walk root followLast links (name :: start) rest := by
  rw [walk, hfolder]
  have hidle : ¬Path.isIdle name = true := by simp [hname.isIdle]
  exact (if_neg hidle).trans ((if_neg hname.ne_up).trans (if_neg (Nat.not_lt.mpr hname.size_le)))

end FileTree

namespace FileTree

/-- The first name of a walk that succeeds: what it meets, and the walk that is left. A name can be
    idle, lead up, be missing at the end, be a link at the end that is not followed, be a link that
    is followed, or be that of a file or a folder. -/
inductive WalkStep (root : Node) (followLast : Bool) (start : List String) (name : String)
    (rest : List String) (place : Place) : Nat → Prop
  | idle {links : Nat} (hfolder : root.passageAt? start.reverse = some .folder)
      (hname : Path.isIdle name = true)
      (hwalk : walk root followLast links start rest = .ok place) :
      WalkStep root followLast start name rest place links
  /-- Only an empty name is passed over in a folder that may not be searched. -/
  | slash {links : Nat} (hsealed : root.passageAt? start.reverse = some .sealed) (hname : name = "")
      (hwalk : walk root followLast links start rest = .ok place) :
      WalkStep root followLast start name rest place links
  | up {links : Nat} {entries : List (String × Node)}
      (hfound : root.find? start.reverse = some (.folder entries)) (hname : name = "..")
      (hwalk : walk root followLast links start.tail rest = .ok place) :
      WalkStep root followLast start name rest place links
  | missing {links : Nat} {entries : List (String × Node)}
      (hfound : root.find? start.reverse = some (.folder entries)) (hname : Path.IsDown name)
      (hchild : childNamed? name entries = none) (hrest : rest = [])
      (hplace : place = ⟨(name :: start).reverse, none⟩) :
      WalkStep root followLast start name rest place links
  | stay {links : Nat} {entries : List (String × Node)} {target : String}
      (hfound : root.find? start.reverse = some (.folder entries)) (hname : Path.IsDown name)
      (hchild : childNamed? name entries = some (.link target)) (hrest : rest = [])
      (hfollow : followLast = false)
      (hplace : place = ⟨(name :: start).reverse, some (.link target)⟩) :
      WalkStep root followLast start name rest place links
  | follow {links : Nat} {entries : List (String × Node)} {target : String}
      (hfound : root.find? start.reverse = some (.folder entries)) (hname : Path.IsDown name)
      (hchild : childNamed? name entries = some (.link target))
      (hwalk : walk root followLast links (if target.startsWith "/" then [] else start)
        (namesOf target ++ rest) = .ok place) :
      WalkStep root followLast start name rest place (links + 1)
  | down {links : Nat} {entries : List (String × Node)} {inner : Node}
      (hfound : root.find? start.reverse = some (.folder entries)) (hname : Path.IsDown name)
      (hchild : childNamed? name entries = some inner) (hlink : ∀ target, inner ≠ .link target)
      (hwalk : walk root followLast links (name :: start) rest = .ok place) :
      WalkStep root followLast start name rest place links

/-- Names are walked along only from a folder. Only places that can be passed matter to a walk, up
    to its last name. -/
theorem WalkStep.passage {place : Place} (h : WalkStep root followLast start name rest place links) :
    root.passageAt? start.reverse = some .folder ∨ root.passageAt? start.reverse = some .sealed := by
  cases h with
  | idle hfolder _ _ => exact .inl hfolder
  | slash hsealed _ _ => exact .inr hsealed
  | up hfound _ _ | missing hfound _ _ _ _ | stay hfound _ _ _ _ _ | follow hfound _ _ _
  | down hfound _ _ _ _ => exact .inl (passageAt?_eq_folder_iff.mpr ⟨_, hfound⟩)

/-- A walk that succeeds begins with a step. Inductions over walks use it in place of the recursion
    with its many guards. -/
theorem walkStep {place : Place} (h : walk root followLast links start (name :: rest) = .ok place) :
    WalkStep root followLast start name rest place links := by
  cases hfound : root.find? start.reverse with
  | none => rw [walk, hfound] at h; cases h
  | some node =>
    cases node with
    | file _ _ | link _ => rw [walk, hfound] at h; cases h
    | sealed listed =>
      have hsealed := passageAt?_eq_sealed_iff.mpr ⟨listed, hfound⟩
      by_cases hempty : name = ""
      · subst hempty
        rw [walk_slash hsealed] at h
        exact .slash hsealed rfl h
      · rw [walk_sealed hfound ⟨name, List.mem_cons_self, hempty⟩] at h
        cases h
    | folder entries =>
      have hfolder := passageAt?_eq_folder_iff.mpr ⟨entries, hfound⟩
      by_cases hidle : Path.isIdle name = true
      · exact .idle hfolder hidle (walk_idle hfolder hidle ▸ h)
      by_cases hup : name = ".."
      · subst hup
        exact .up hfound rfl (walk_up hfolder ▸ h)
      by_cases hlong : maxNameSize < name.utf8ByteSize
      · rw [walk, hfound] at h
        simp [hidle, hup, hlong] at h
      have hname : Path.IsDown name := ⟨by simpa using hidle, hup, Nat.not_lt.mp hlong⟩
      rw [walk_down hfound hname] at h
      cases hchild : childNamed? name entries with
      | none =>
        rw [hchild] at h
        dsimp only at h
        split at h
        · rename_i hrest
          exact .missing hfound hname hchild (List.isEmpty_iff.mp hrest) (Except.ok.inj h).symm
        · cases h
      | some inner =>
        rw [hchild] at h
        cases inner with
        | file _ _ | folder _ | sealed _ => exact .down hfound hname hchild (by simp) h
        | link target =>
          dsimp only at h
          split at h
          · rename_i hstay
            simp only [Bool.and_eq_true, List.isEmpty_iff, Bool.not_eq_true'] at hstay
            exact .stay hfound hname hchild hstay.1 hstay.2 (Except.ok.inj h).symm
          · cases links with
            | zero => cases h
            | succ links => exact .follow hfound hname hchild h

/-- A walk is left with the names behind that of a file or a folder. The name joins those that have
    led there. -/
theorem walk_inner {entries : List (String × Node)} {inner : Node}
    (hfound : root.find? start.reverse = some (.folder entries)) (hname : Path.IsDown name)
    (hchild : childNamed? name entries = some inner) (hlink : ∀ target, inner ≠ .link target) :
    walk root followLast links start (name :: rest) =
      walk root followLast links (name :: start) rest := by
  rw [walk_down hfound hname, hchild]
  cases inner with
  | link target => exact absurd rfl (hlink target)
  | file _ _ | folder _ | sealed _ => rfl

end FileTree

/-- What a folder holds under a name, as the place below it. It links what one folder shows with
    what the tree as a whole shows. -/
theorem childNamed?_eq_of_passage {start : List String} {entries : List (String × Node)}
    (name : String) (hfolder : root.find? start.reverse = some (.folder entries)) :
    (childNamed? name entries).bind passage? = root.passageAt? (start.reverse ++ [name]) := by
  rw [passageAt?, find?_concat hfolder]

/-- A walk whose first names are a way goes on from where this ends, unless it stops there at a link
    that it does not follow. Ways are thus cut off the front of a walk. -/
theorem Way.walk_append {links links' : Nat} {start names stop rest : List String}
    {followLast : Bool}
    (h : Way root via links start names links' stop) (hrest : rest ≠ [] ∨ followLast = true) :
    FileTree.walk root followLast links start (names ++ rest) =
      FileTree.walk root followLast links' stop rest := by
  induction h with
  | here => rfl
  | idle hfolder _ hname _ ih => rw [List.cons_append, FileTree.walk_idle hfolder hname, ih]
  | up hfolder _ _ ih => rw [List.cons_append, FileTree.walk_up hfolder, ih]
  | down hfolder _ hname hchild _ _ ih =>
    obtain ⟨entries, hentries⟩ := passageAt?_eq_folder_iff.mp hfolder
    obtain ⟨inner, hinner⟩ := passageAt?_eq_folder_iff.mp hchild
    rw [find?_concat hentries] at hinner
    rw [List.cons_append, FileTree.walk_down hentries hname, hinner]
    exact ih
  | @follow links _ start _ more name target hfolder _ hname hchild _ _ ih =>
    obtain ⟨entries, hentries⟩ := passageAt?_eq_folder_iff.mp hfolder
    have hlink := passageAt?_eq_link_iff.mp hchild
    rw [find?_concat hentries] at hlink
    have hfollow : ((more ++ rest).isEmpty && !followLast) = false := by
      rcases hrest with hrest | rfl <;> simp_all
    rw [List.cons_append, FileTree.walk_down hentries hname, hlink]
    simp only [hfollow, Bool.false_eq_true, if_false]
    rw [← ih, List.append_assoc]

/-- The first names of every walk that succeeds are a way, over places where something is. Names of
    idle kind at the end need no way, so that they are left out here. -/
theorem exists_way_of_walk {followLast : Bool} {rest : List String} (hrest : ∃ n ∈ rest, n ≠ "")
    {place : Place} (links : Nat) (start names : List String)
    (h : FileTree.walk root followLast links start (names ++ rest) = .ok place) :
    ∃ links' stop, Way root (fun place => root.find? place ≠ none) links start names links' stop ∧
      FileTree.walk root followLast links' stop rest = .ok place := by
  match names with
  | [] => exact ⟨links, start, .here, h⟩
  | name :: names =>
    rw [List.cons_append] at h
    have hnames : ∃ n ∈ names ++ rest, n ≠ "" :=
      hrest.imp fun n hn => ⟨List.mem_append_right _ hn.1, hn.2⟩
    have hnil : names ++ rest ≠ [] := List.ne_nil_of_mem hnames.choose_spec.1
    obtain ⟨entries, hfound⟩ := FileTree.exists_folder_of_walk_cons
      (hnames.imp fun n hn => ⟨List.mem_cons_of_mem _ hn.1, hn.2⟩) h
    have hvia : root.find? start.reverse ≠ none := by rw [hfound]; exact Option.some_ne_none _
    have hfolder := passageAt?_eq_folder_iff.mpr ⟨entries, hfound⟩
    -- The first name is one step of the way, and the others are walked with what is left.
    cases FileTree.walkStep h with
    | idle _ hidle hwalk =>
      obtain ⟨links', stop, hway, hwalk⟩ := exists_way_of_walk hrest links start names hwalk
      exact ⟨links', stop, .idle hfolder hvia hidle hway, hwalk⟩
    | slash hsealed _ _ =>
      rw [hfolder] at hsealed
      cases hsealed
    | up _ hup hwalk =>
      subst hup
      obtain ⟨links', stop, hway, hwalk⟩ := exists_way_of_walk hrest links start.tail names hwalk
      exact ⟨links', stop, .up hfolder hvia hway, hwalk⟩
    | missing _ _ _ hempty _ | stay _ _ _ hempty _ _ => exact absurd hempty hnil
    | @follow links _ target hinner hname hchild hwalk =>
      rw [← List.append_assoc] at hwalk
      obtain ⟨links', stop, hway, hwalk⟩ := exists_way_of_walk hrest links _ _ hwalk
      have hlink : root.find? (start.reverse ++ [name]) = some (.link target) := by
        rw [find?_concat hinner, hchild]
      exact ⟨links', stop, .follow hfolder hvia hname (passageAt?_eq_link_iff.mpr hlink)
        (by simp [hlink]) hway, hwalk⟩
    | @down _ _ inner hinner hname hchild _ hwalk =>
      obtain ⟨links', stop, hway, hrest'⟩ :=
        exists_way_of_walk hrest links (name :: start) names hwalk
      -- More is looked up behind the name, so it is that of a folder.
      obtain ⟨next, more, hnext⟩ := List.exists_cons_of_ne_nil hnil
      rw [hnext] at hwalk hnames
      obtain ⟨below, hbelow⟩ := FileTree.exists_folder_of_walk_cons hnames hwalk
      rw [List.reverse_cons] at hbelow
      exact ⟨links', stop, .down hfolder hvia hname (passageAt?_eq_folder_iff.mpr ⟨below, hbelow⟩)
        (by simp [hbelow]) hway, hrest'⟩
termination_by (links, names.length)

end Backlog.Files
