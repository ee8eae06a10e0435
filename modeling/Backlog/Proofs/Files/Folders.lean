import Backlog.Proofs.Files.Places

namespace Backlog.Files

/-!
# New folders

Making the folders of a path is a recursion: the folder is there, or those above are made and then
the folder. The ways to what was made are described along with it, since writes to a store begin
with just this.

* `FileTree.exists_new_folder` — a folder is made below the folder of the path above it, where
  nothing was;
* `FileTree.reaches_of_new` — the way to it does not lead through it, before it is made and after;
* `FileTree.FoldersMade` — how the folders of a path come to be: the path leads to a folder already,
  or the folders above come to be and one is made below them.
-/

open Node

namespace FileTree

variable {t made : FileTree} {p : Path} {name : String} {stop : List String}

/-- The text of a path that only holds idle names. Such a path leads to the root or to the current
    folder. -/
theorem exists_namesOf_text_of_nil (h : p.names = []) :
    ∃ names last, namesOf p.text = names ++ [last] ∧ (∀ n ∈ names, Path.isIdle n = true) ∧
      Path.isIdle last = true := by
  have hempty : Path.isIdle "" = true := by decide
  cases hslashes : p.slashes with
  | zero => exact ⟨[], ".", by rw [Path.text, h, hslashes]; rfl, nofun, by decide⟩
  | succ n =>
    refine ⟨List.replicate (n + 1) "", "", ?_,
      fun n hn => List.eq_of_mem_replicate hn ▸ hempty, hempty⟩
    have htext : p.text.toList = List.replicate (n + 1) '/' := by
      simp [Path.text, h, hslashes]
    have hsplit := splitSlashes_replicate (n + 1) []
    rw [List.append_nil] at hsplit
    rw [namesOf, htext, hsplit]
    simp [splitSlashes]

/-- Above a folder there is a folder. At the root this is the root itself. -/
theorem exists_folder_tail {root : Node} {entries : List (String × Node)}
    (h : root.find? stop.reverse = some (.folder entries)) :
    ∃ above, root.find? stop.tail.reverse = some (.folder above) := by
  cases stop with
  | nil => exact ⟨entries, h⟩
  | cons name stop =>
    rw [List.reverse_cons] at h
    obtain ⟨above, habove, _⟩ := exists_folder_above h
    exact ⟨above, habove⟩

/-- A walk along idle names, the last of which may be `..`, ends where something is. A folder cannot
    be made there, as it would have no name. -/
theorem node_ne_none_of_walk {root : Node} {followLast : Bool} {links : Nat}
    {start : List String} {last : String} {place : Place} (names : List String)
    (hnames : ∀ n ∈ names, Path.isIdle n = true) (hlast : Path.isIdle last = true ∨ last = "..")
    (h : walk root followLast links start (names ++ [last]) = .ok place) : place.node ≠ none := by
  have hdown : ∀ {name}, Path.isIdle name = true → ¬Path.IsDown name := fun hidle hname => by
    rw [hname.isIdle] at hidle
    cases hidle
  induction names with
  | cons name names ih =>
    have hname := hnames name List.mem_cons_self
    cases walkStep h with
    | idle _ _ h | slash _ _ h => exact ih (fun n hn => hnames n (List.mem_cons_of_mem _ hn)) h
    | up _ hup _ => subst hup; cases hname
    | missing _ hn _ _ _ | stay _ hn _ _ _ _ | follow _ hn _ _ | down _ hn _ _ _ =>
      exact absurd hn (hdown hname)
  | nil =>
    cases walkStep h with
    | idle hfound _ h | slash hfound _ h =>
      rw [walk] at h
      obtain rfl := Except.ok.inj h
      exact ne_none_of_passageAt? hfound
    | up hfound _ h =>
      obtain ⟨above, habove⟩ := exists_folder_tail hfound
      rw [walk, habove] at h
      obtain rfl := Except.ok.inj h
      exact Option.some_ne_none _
    | missing _ hn _ _ _ | stay _ hn _ _ _ _ | follow _ hn _ _ | down _ hn _ _ _ =>
      exact absurd hlast (not_or.mpr ⟨fun hidle => hdown hidle hn, hn.ne_up⟩)

/-! ### One folder -/

/-- A folder is made where its path leads, if nothing is there; a link at the end is not
    followed. -/
theorem makeFolder_ok_iff {text : String} :
    t.makeFolder text = .ok made ↔ ∃ names, t.locate text false = .ok ⟨names, none⟩ ∧
      made = { t with root := t.root.put (some (.folder [])) names } := by
  unfold makeFolder
  cases h : t.locate text false with
  | error fault => simp [bind, Except.bind]
  | ok place =>
    obtain ⟨names, node⟩ := place
    cases node <;> simp [bind, Except.bind, eq_comm]

/-- A folder is made below the folder of the path above it, where nothing was. All that is needed of
    making one folder is in this lemma. -/
theorem exists_new_folder (hclean : (p.child name).IsClean)
    (h : t.makeFolder (p.child name).text = .ok made) :
    Path.IsDown name ∧ (p.child name).text.utf8ByteSize < maxPathSize ∧
      ∃ stop entries, t.Reaches (fun place => t.root.find? place ≠ none) p stop ∧
        t.root.find? stop.reverse = some (.folder entries) ∧ childNamed? name entries = none ∧
        made = { t with root := t.root.put (some (.folder [])) (stop.reverse ++ [name]) } := by
  obtain ⟨names, hlocate, rfl⟩ := makeFolder_ok_iff.mp h
  obtain ⟨hsize, stop, links, hreach, hwalk⟩ := exists_reaches_of_locate hclean hlocate
  have hname := (hclean.isName name (by simp [Path.child])).1
  have hup : name ≠ ".." := fun heq => node_ne_none_of_walk [] (by simp) (.inr heq) hwalk rfl
  obtain ⟨hdown, entries, hfolder, hplace⟩ := exists_folder_of_walk_last hname hup hwalk
  obtain ⟨rfl, hnone⟩ := Place.mk.inj hplace
  exact ⟨hdown, hsize, stop, entries, hreach, hfolder, hnone.symm, rfl⟩

/-- Where nothing is, nothing is below. Put the other way round: what is found has nothing missing
    above it. -/
theorem not_prefix_of_find?_eq_none {root : Node} {place names : List String}
    (hplace : root.find? place = none) (hnames : root.find? names ≠ none) : ¬place <+: names := by
  rintro ⟨rest, rfl⟩
  rw [find?_append, hplace] at hnames
  exact hnames rfl

/-- The way to the folder above a new place does not lead through this, whatever is put there. Ways
    stay as they are outside of the places that change. -/
theorem reaches_of_new {entries : List (String × Node)} (value : Option Node)
    (hreach : t.Reaches (fun place => t.root.find? place ≠ none) p stop)
    (hfolder : t.root.find? stop.reverse = some (.folder entries))
    (hnone : childNamed? name entries = none) :
    FileTree.Reaches { t with root := t.root.put value (stop.reverse ++ [name]) }
      (fun place => ¬stop.reverse ++ [name] <+: place) p stop := by
  obtain ⟨links, hway⟩ := hreach
  have hplace : t.root.find? (stop.reverse ++ [name]) = none := by
    rw [find?_concat hfolder, hnone]
  have houtside : ∀ place, t.root.find? place ≠ none → ¬stop.reverse ++ [name] <+: place :=
    fun place => not_prefix_of_find?_eq_none hplace
  refine ⟨links, hway.mono houtside fun place hvia passage hpassage => ?_⟩
  rw [passageAt?_put (houtside place hvia), hpassage]

/-! ### Paths to a folder -/

/-- A path leads to the folder in a place, the last name being no link, and on its way it leads
    nowhere into this folder. -/
structure Direct (t : FileTree) (p : Path) (place : List String) : Prop where
  size : p.text.utf8ByteSize < maxPathSize
  isDown : Path.IsDown p.name
  reach : ∃ stop, t.Reaches (fun q => ¬place <+: q) p.parent stop ∧ place = stop.reverse ++ [p.name]
  folder : t.root.passageAt? place = some .folder

/-- A new folder is where its path leads directly. The place and the tree come with it, so that more
    folders can be made below. -/
theorem direct_of_new_folder (hclean : p.IsClean) (h : t.makeFolder p.text = .ok made) :
    ∃ place, t.root.find? place = none ∧ made.Direct p place ∧
      made.root.find? place = some (.folder []) ∧
      made = { t with root := t.root.put (some (.folder [])) place } := by
  have hp := p.child_parent hclean.ne_nil
  rw [← hp] at hclean h
  obtain ⟨hdown, hsize, stop, entries, hreach, hfolder, hnone, rfl⟩ := exists_new_folder hclean h
  have hfound := find?_put_self hfolder p.name (.folder []) []
  rw [List.append_nil] at hfound
  refine ⟨stop.reverse ++ [p.name], by rw [find?_concat hfolder, hnone], ?_, hfound, rfl⟩
  exact {
    size := by rwa [hp] at hsize
    isDown := hdown
    reach := ⟨stop, reaches_of_new _ hreach hfolder hnone, rfl⟩
    folder := passageAt?_eq_folder_iff.mpr ⟨[], hfound⟩ }

namespace Direct

variable {place : List String}

/-- The folder above. The way to it does not lead through the folder itself. -/
theorem exists_above (h : t.Direct p place) :
    ∃ stop entries inner, t.Reaches (fun q => ¬place <+: q) p.parent stop ∧
      place = stop.reverse ++ [p.name] ∧ t.root.find? stop.reverse = some (.folder entries) ∧
      childNamed? p.name entries = some (.folder inner) := by
  obtain ⟨stop, hreach, rfl⟩ := h.reach
  obtain ⟨inner, hinner⟩ := passageAt?_eq_folder_iff.mp h.folder
  obtain ⟨entries, habove, hchild⟩ := exists_folder_above hinner
  exact ⟨stop, entries, inner, hreach, rfl, habove, hchild⟩

/-- Its way, and one step further. Through which places it leads is left open. -/
theorem reaches (h : t.Direct p place) (hclean : p.IsClean) :
    t.Reaches (fun _ => True) p place.reverse := by
  obtain ⟨stop, entries, inner, ⟨links, hway⟩, rfl, habove, _⟩ := h.exists_above
  have hparent : t.Reaches (fun _ => True) p.parent stop :=
    ⟨links, hway.mono (fun _ _ => trivial) fun _ _ _ => id⟩
  have hself := hparent.child trivial (passageAt?_eq_folder_iff.mpr ⟨entries, habove⟩) h.isDown
    h.folder trivial
  rwa [p.child_parent hclean.ne_nil, ← List.reverse_reverse (p.name :: stop),
    List.reverse_cons] at hself

/-- The path itself leads to the folder, whether links are followed at its end or not. The last step
    is along a name that is no link. -/
theorem locate (h : t.Direct p place) (hclean : p.IsClean) (followLast : Bool) :
    t.locate p.text followLast = .ok ⟨place, t.root.find? place⟩ := by
  obtain ⟨stop, entries, inner, hreach, rfl, habove, hchild⟩ := h.exists_above
  have hp := p.child_parent hclean.ne_nil
  have hlocate := hreach.locate_child habove (by rwa [hp]) h.isDown
    (by rw [hp]; exact h.size) followLast (.inr fun target => by rw [hchild]; exact nofun)
  rwa [hp, ← find?_concat habove] at hlocate

/-- A path of one more name leads to what the folder holds under it, if this is no link. Nothing has
    to be there; this is where a file of the cache is written. -/
theorem locate_child (h : t.Direct p place) (hclean : (p.child name).IsClean) (hp : p.IsClean)
    (hname : Path.IsDown name) (hsize : (p.child name).text.utf8ByteSize < maxPathSize)
    (hlink : ∀ target, t.root.find? (place ++ [name]) ≠ some (.link target)) (followLast : Bool) :
    t.locate (p.child name).text followLast =
      .ok ⟨place ++ [name], t.root.find? (place ++ [name])⟩ := by
  obtain ⟨entries, hentries⟩ := passageAt?_eq_folder_iff.mp h.folder
  have hself := h.reaches hp
  have hchild := find?_concat hentries name
  rw [hchild] at hlink ⊢
  have hlocate := hself.locate_child (by rwa [List.reverse_reverse]) hclean hname hsize followLast
    (.inr hlink)
  rwa [List.reverse_reverse] at hlocate

/-- It stays so as long as the folder is there and what lies outside is passed as before. Two
    changes are covered by it: what happens inside of the folder, and what only adds to the tree. -/
theorem mono {t' : FileTree} (h : t.Direct p place) (hhere : t'.here = t.here)
    (hfolder : t'.root.passageAt? place = some .folder)
    (hpass : ∀ q, ¬place <+: q → ∀ passage, t.root.passageAt? q = some passage →
      t'.root.passageAt? q = some passage) : t'.Direct p place := by
  obtain ⟨stop, ⟨links, hway⟩, hplace⟩ := h.reach
  refine ⟨h.size, h.isDown, ⟨stop, ⟨links, ?_⟩, hplace⟩, hfolder⟩
  have hstart : t'.startOf p.parent = t.startOf p.parent := by rw [startOf, startOf, hhere]
  rw [hstart]
  exact hway.mono (fun _ => id) hpass

/-- A folder below is where its path leads directly. The way gets one name longer and meets no
    link. -/
theorem child (h : t.Direct p place) (hp : p.IsClean) (hname : Path.IsDown name)
    (hsize : (p.child name).text.utf8ByteSize < maxPathSize)
    (hfolder : t.root.passageAt? (place ++ [name]) = some .folder) :
    t.Direct (p.child name) (place ++ [name]) := by
  obtain ⟨stop, entries, inner, ⟨links, hway⟩, rfl, habove, _⟩ := h.exists_above
  have houtside : ∀ q, ¬stop.reverse ++ [p.name] <+: q →
      ¬stop.reverse ++ [p.name] ++ [name] <+: q :=
    fun q hq hprefix => hq ((List.prefix_append _ _).trans hprefix)
  have hlast : (p.child name).name = name := by simp [Path.child, Path.name]
  have hparent : (p.child name).parent = p := by simp [Path.child, Path.parent]
  -- The way to the folder ends with its own name, which is not yet below it.
  have hself : t.Reaches (fun q => ¬stop.reverse ++ [p.name] ++ [name] <+: q) p
      (p.name :: stop) := by
    have hreach : t.Reaches (fun q => ¬stop.reverse ++ [p.name] ++ [name] <+: q) p.parent stop :=
      ⟨links, hway.mono houtside fun _ _ _ => id⟩
    have hnot : ∀ q : List String, q.length < (stop.reverse ++ [p.name] ++ [name]).length →
        ¬stop.reverse ++ [p.name] ++ [name] <+: q :=
      fun q hlt hprefix => absurd hprefix.length_le (Nat.not_le.mpr hlt)
    have := hreach.child (hnot _ (by simp)) (passageAt?_eq_folder_iff.mpr ⟨entries, habove⟩)
      h.isDown h.folder (hnot _ (by simp))
    rwa [p.child_parent hp.ne_nil] at this
  refine ⟨hsize, by rwa [hlast], ⟨p.name :: stop, ?_, ?_⟩, hfolder⟩
  · rwa [hparent]
  · rw [hlast, List.reverse_cons]

/-- What is put into the folder changes nothing about it. Entries of a cache are written and removed
    without losing the way to it. -/
theorem put_inside (h : t.Direct p place) (value : Option Node) {more : List String}
    (hmore : more ≠ []) :
    FileTree.Direct { t with root := t.root.put value (place ++ more) } p place := by
  have hlength := List.length_pos_iff.mpr hmore
  have houtside : ∀ q, ¬place <+: q → ¬place ++ more <+: q :=
    fun q hq hprefix => hq ((List.prefix_append _ _).trans hprefix)
  have hself : ¬place ++ more <+: place := fun hprefix => by
    have := hprefix.length_le
    rw [List.length_append] at this
    omega
  refine h.mono rfl ?_ fun q hq passage hpassage => ?_
  · rw [passageAt?_put hself, h.folder]
  · rw [passageAt?_put (houtside q hq), hpassage]

end Direct

/-! ### All folders of a path -/

/-- How the folders of a path come to be: the path leads to a folder already, or the folders above
    come to be, and one is made below them. -/
inductive FoldersMade (t : FileTree) : Path → FileTree → Prop
  | already {p : Path} (h : t.isFolder p.text = .ok true) : FoldersMade t p t
  | base {p : Path} (h : p.names = []) : FoldersMade t p t
  | newBelow {p : Path} {name : String} {above made : FileTree} (habove : FoldersMade t p above)
      (h : above.makeFolder (p.child name).text = .ok made) : FoldersMade t (p.child name) made

/-- What is missing in a new folder is no folder. A new folder is empty. -/
theorem isFolder_below_new {next : String} (hclean : p.IsClean) (hnext : Path.IsName next)
    (hup : next ≠ "..") (h : t.makeFolder p.text = .ok made) :
    made.isFolder (p.child next).text ≠ .ok true := by
  obtain ⟨place, _, hdirect, hempty, _⟩ := direct_of_new_folder hclean h
  have hclean' := Path.isClean_child hclean.isName hnext
  intro htrue
  obtain ⟨names, node, hlocate, _⟩ := isFolder_ok_true_iff.mp htrue
  obtain ⟨hsize, stop, links, _, hwalk⟩ := exists_reaches_of_locate hclean' hlocate
  obtain ⟨hdown, _⟩ := exists_folder_of_walk hnext.1 hup hwalk
  have hchild : made.root.find? (place ++ [next]) = none := find?_concat hempty next
  have hlink : ∀ target, made.root.find? (place ++ [next]) ≠ some (.link target) := by
    rw [hchild]
    exact nofun
  have hlocate' := hdirect.locate_child hclean' hclean hdown hsize hlink true
  rw [hlocate, hchild] at hlocate'
  cases hlocate'

/-- No new folder is made where there is one, or for a path without names. The root and the current
    folder are always there. -/
theorem makeFolder_ne_ok_of_nil (hp : p.names = []) : t.makeFolder p.text ≠ .ok made := by
  intro h
  obtain ⟨names, hlocate, _⟩ := makeFolder_ok_iff.mp h
  obtain ⟨before, last, hnames, hbefore, hidle⟩ := exists_namesOf_text_of_nil hp
  unfold locate at hlocate
  rw [hnames] at hlocate
  repeat' split at hlocate
  all_goals first | cases hlocate | exact node_ne_none_of_walk before hbefore (.inl hidle) hlocate rfl

/-- The path above that of a new folder leads to a folder. Asking for it is what the system does
    before it makes the folder. -/
theorem isFolder_of_new_folder (hclean : p.IsClean) (hparent : p.parent.IsClean)
    (h : t.makeFolder p.text = .ok made) : t.isFolder p.parent.text = .ok true := by
  obtain ⟨_, _, hdirect, _, _⟩ := direct_of_new_folder hclean h
  obtain ⟨names, hlocate, _⟩ := makeFolder_ok_iff.mp h
  have hp := p.child_parent hclean.ne_nil
  rw [← hp] at hclean hlocate
  exact isFolder_above hparent hclean hdirect.isDown.ne_up hlocate

/-- Folders are made at once, are there already, or are made below those of the path above. The
    three cases are those of the recursion, with the refusals taken out. -/
theorem makeFolders_cases (h : t.makeFolders p = .ok made) :
    t.makeFolder p.text = .ok made ∨ (t.isFolder p.text = .ok true ∧ made = t) ∨
      (p.names ≠ [] ∧ ∃ above, t.makeFolders p.parent = .ok above ∧
        (above.makeFolder p.text = .ok made ∨
          (above.isFolder p.text = .ok true ∧ made = above))) := by
  rw [makeFolders] at h
  cases hmade : t.makeFolder p.text with
  | ok made' =>
    simp only [hmade] at h
    exact .inl (congrArg _ (Except.ok.inj h))
  | error fault =>
    cases fault with
    | missing =>
      by_cases hnil : p.names = []
      · simp [hmade, hnil] at h
      simp only [hmade, hnil, dite_false] at h
      cases habove : t.makeFolders p.parent with
      | error cause => rw [habove] at h; cases h
      | ok above =>
        refine .inr (.inr ⟨hnil, above, rfl, ?_⟩)
        simp only [habove, bind, Except.bind] at h
        cases hagain : above.makeFolder p.text with
        | ok made' =>
          simp only [hagain] at h
          exact .inl (congrArg _ (Except.ok.inj h))
        | error again =>
          simp only [hagain] at h
          split at h
          · rename_i htrue
            exact .inr ⟨htrue, (Except.ok.inj h).symm⟩
          · cases h
    | _ =>
      -- What stands in the way may be the folder itself.
      simp only [hmade] at h
      split at h
      · rename_i htrue
        exact .inr (.inl ⟨htrue, (Except.ok.inj h).symm⟩)
      · cases h
      · cases h

/-- The folders of a path come to be when they are made, if it has no `..` behind another name. The
    induction is on the number of names; a `..` behind a name could lead out of a folder that has
    just been made. -/
theorem foldersMade_of_makeFolders {p : Path} {made : FileTree}
    (hnames : ∀ name ∈ p.names, Path.IsName name)
    (hforward : p.IsForward)
    (h : t.makeFolders p = .ok made) : FoldersMade t p made := by
  rcases makeFolders_cases h with hmade | ⟨hthere, rfl⟩ | ⟨hne, above, habove, h⟩
  · have hclean : p.IsClean := ⟨fun hnil => makeFolder_ne_ok_of_nil hnil hmade, hnames⟩
    have hparent : FoldersMade t p.parent t := by
      by_cases hnil : p.parent.names = []
      · exact .base hnil
      · have hnames' : ∀ name ∈ p.parent.names, Path.IsName name :=
          fun name hname => hnames name (List.dropLast_subset _ hname)
        exact .already (isFolder_of_new_folder hclean ⟨hnil, hnames'⟩ hmade)
    have hp := p.child_parent hclean.ne_nil
    rw [← hp] at hmade ⊢
    exact .newBelow hparent hmade
  · exact .already hthere
  · have hp := p.child_parent hne
    have hnames' : ∀ name ∈ p.parent.names, Path.IsName name :=
      fun name hname => hnames name (List.dropLast_subset _ hname)
    have hmade := foldersMade_of_makeFolders hnames' (hforward.sublist (List.dropLast_sublist _))
      habove
    rcases h with h | ⟨htrue, rfl⟩
    · rw [← hp] at h ⊢
      exact .newBelow hmade h
    -- Nothing can have come to be below a folder that was just made.
    · generalize hparent : p.parent = q at hmade
      cases hmade with
      | already _ | base _ => exact .already htrue
      | @newBelow q name above' _ _ hnew =>
        exfalso
        have hclean : (q.child name).IsClean := ⟨by simp [Path.child], by rwa [← hparent]⟩
        have hup : p.name ≠ ".." := by
          intro heq
          have hnames'' : p.names = q.names ++ [name] ++ [p.name] := by
            rw [← hp, hparent]
            simp [Path.child, Path.name]
          rw [Path.IsForward, hnames'', heq, List.pairwise_append] at hforward
          have hname : name = ".." := hforward.2.2 name (by simp) ".." (by simp) rfl
          exact (exists_new_folder hclean hnew).1.ne_up hname
        rw [← hp, hparent] at htrue
        exact isFolder_below_new hclean (hnames p.name (p.name_mem hne)) hup hnew htrue
termination_by p.names.length
decreasing_by
  simp only [Path.parent, List.length_dropLast]
  have := List.length_pos_iff.mpr hne
  omega

end FileTree

end Backlog.Files
