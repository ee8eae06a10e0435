import Backlog.Proofs.Files.Ways

namespace Backlog.Files

/-!
# Where paths lead

A path leads somewhere by a walk from the root or from the current folder. To follow it through
changes, the walk is cut in two: the way to the folder of the last name, which may go through links,
and that name in the folder.

* `FileTree.locate_text` — where the text of a path leads is a matter of its names and of where it
  starts from, unless the text is too long;
* `FileTree.Reaches` — the way of a path to a folder;
* `Reaches.locate_child` — a path of one more name leads to what the folder holds under the name;
* `exists_reaches_of_locate` — a path leads somewhere only through the folder of the path above it.
-/

open Node

namespace FileTree

/-- Where a path starts from, as a row of names in reverse. -/
def startOf (t : FileTree) (p : Path) : List String := if p.isAbsolute then [] else t.here.reverse

/-- An empty name in front of others changes nothing. The text of an absolute path has one before
    each slash. -/
theorem walk_empty_cons {root : Node} {followLast : Bool} {links : Nat} {start rest : List String}
    (hrest : rest ≠ []) :
    walk root followLast links start ("" :: rest) = walk root followLast links start rest := by
  obtain ⟨name, rest, rfl⟩ := List.exists_cons_of_ne_nil hrest
  cases hfound : root.find? start.reverse with
  | none => simp only [walk, hfound]
  | some node =>
    cases node with
    | file _ _ | link _ => simp only [walk, hfound]
    | sealed listed => rw [walk, hfound]; exact if_pos rfl
    | folder entries => exact walk_idle (passageAt?_eq_folder_iff.mpr ⟨entries, hfound⟩) (by decide)

/-- Empty names in front of others change nothing, however many there are. -/
theorem walk_replicate_append {root : Node} {followLast : Bool} {links : Nat}
    {start rest : List String} (hrest : rest ≠ []) (n : Nat) :
    walk root followLast links start (List.replicate n "" ++ rest) =
      walk root followLast links start rest := by
  induction n with
  | zero => rfl
  | succ n ih => rw [List.replicate_succ, List.cons_append, walk_empty_cons (by simp [hrest]), ih]

/-- Where the text of a path leads is a matter of its names and of where it starts from, unless the
    text is too long. From here on, nothing about the spelling of paths is needed. -/
theorem locate_text (t : FileTree) {p : Path} (h : p.IsClean) (followLast : Bool) :
    t.locate p.text followLast =
      if maxPathSize ≤ p.text.utf8ByteSize then .error .nameTooLong
      else walk t.root followLast maxLinks (t.startOf p) p.names := by
  have hnul : p.text.toList.contains '\x00' = false := by simpa using Path.nul_not_mem_text h
  rw [locate, hnul, Path.text_ne_empty h, Path.startsWith_text h, Path.namesOf_text h,
    walk_replicate_append h.ne_nil]
  rfl

/-- The way of a path to a folder, over places of a kind. The folder is given by its row of names in
    reverse. -/
def Reaches (t : FileTree) (via : List String → Prop) (p : Path) (stop : List String) : Prop :=
  ∃ links, Way t.root via maxLinks (t.startOf p) p.names links stop

variable {t : FileTree} {via : List String → Prop} {p : Path} {name : String} {stop : List String}

/-- A walk along a last name ends with what the folder holds under it. The name itself may be
    missing in it; a file or a folder can be made there then. -/
theorem walk_last {root : Node} {followLast : Bool} {links : Nat} {start : List String}
    {entries : List (String × Node)} (hfolder : root.find? start.reverse = some (.folder entries))
    (hname : Path.IsDown name)
    (hlink : followLast = false ∨ ∀ target, childNamed? name entries ≠ some (.link target)) :
    walk root followLast links start [name] =
      .ok ⟨start.reverse ++ [name], childNamed? name entries⟩ := by
  have hchild := find?_concat hfolder name
  rw [← List.reverse_cons] at hchild ⊢
  rw [walk_down hfolder hname]
  cases hfound : childNamed? name entries with
  | none => rfl
  | some node =>
    cases node with
    | link target =>
      rcases hlink with rfl | hlink
      · rfl
      · exact absurd hfound (hlink target)
    | file _ _ | folder _ | sealed _ => simp only [walk, hchild, hfound]

/-- A path of one more name leads to what the folder holds under the name. Whether a link at the end
    is followed only matters if there is one. -/
theorem Reaches.locate_child (h : t.Reaches via p stop) {entries : List (String × Node)}
    (hfolder : t.root.find? stop.reverse = some (.folder entries)) (hclean : (p.child name).IsClean)
    (hname : Path.IsDown name) (hsize : (p.child name).text.utf8ByteSize < maxPathSize)
    (followLast : Bool)
    (hlink : followLast = false ∨ ∀ target, childNamed? name entries ≠ some (.link target)) :
    t.locate (p.child name).text followLast =
      .ok ⟨stop.reverse ++ [name], childNamed? name entries⟩ := by
  obtain ⟨links, hway⟩ := h
  rw [locate_text t hclean, if_neg (Nat.not_le.mpr hsize)]
  exact (hway.walk_append (.inl (by simp))).trans (walk_last hfolder hname hlink)

/-- The way of a path goes on into a folder below. Ways are built up by this lemma, one name at a
    time. -/
theorem Reaches.child (h : t.Reaches via p stop) (hvia : via stop.reverse)
    (hfolder : t.root.passageAt? stop.reverse = some .folder) (hname : Path.IsDown name)
    (hchild : t.root.passageAt? (stop.reverse ++ [name]) = some .folder)
    (hinner : via (stop.reverse ++ [name])) : t.Reaches via (p.child name) (name :: stop) := by
  obtain ⟨links, hway⟩ := h
  exact ⟨links, hway.append (.down hfolder hvia hname hchild hinner .here)⟩

/-- A path leads somewhere only through the folder of the path above it. What is asked of the path
    below is thus asked of one folder, by one name. -/
theorem exists_reaches_of_locate (hclean : (p.child name).IsClean) {followLast : Bool}
    {place : Place}
    (h : t.locate (p.child name).text followLast = .ok place) :
    (p.child name).text.utf8ByteSize < maxPathSize ∧
      ∃ stop links, t.Reaches (fun place => t.root.find? place ≠ none) p stop ∧
        walk t.root followLast links stop [name] = .ok place := by
  rw [locate_text t hclean] at h
  split at h
  · cases h
  · rename_i hsize
    have hname : name ≠ "" := (hclean.isName name (by simp [Path.child])).ne_empty
    obtain ⟨links, stop, hway, hwalk⟩ :=
      exists_way_of_walk ⟨name, List.mem_singleton_self name, hname⟩ maxLinks _ p.names h
    exact ⟨Nat.not_le.mp hsize, stop, links, ⟨links, hway⟩, hwalk⟩

/-- A walk along a name that leads down starts from a folder, and the name is not too long. A file
    is no place to go on from, and a sealed folder refuses to be. -/
theorem exists_folder_of_walk {root : Node} {followLast : Bool} {links : Nat}
    {start rest : List String} {place : Place} (hidle : Path.isIdle name = false) (hup : name ≠ "..")
    (h : walk root followLast links start (name :: rest) = .ok place) :
    Path.IsDown name ∧ ∃ entries, root.find? start.reverse = some (.folder entries) := by
  have hne : name ≠ "" := by
    rintro rfl
    cases hidle
  obtain ⟨entries, hfound⟩ := exists_folder_of_walk_cons ⟨name, List.mem_cons_self, hne⟩ h
  by_cases hlong : maxNameSize < name.utf8ByteSize
  · rw [walk, hfound] at h
    simp [hidle, hup, hlong] at h
  · exact ⟨⟨hidle, hup, Nat.not_lt.mp hlong⟩, entries, hfound⟩

/-- A walk along one name ends right below a folder, if it does not follow a link there. The name
    may be there or not; either way this is its place. -/
theorem exists_folder_of_walk_last {root : Node} {links : Nat} {start : List String} {place : Place}
    (hidle : Path.isIdle name = false) (hup : name ≠ "..")
    (h : walk root false links start [name] = .ok place) :
    Path.IsDown name ∧ ∃ entries, root.find? start.reverse = some (.folder entries) ∧
      place = ⟨start.reverse ++ [name], childNamed? name entries⟩ := by
  obtain ⟨hname, entries, hfolder⟩ := exists_folder_of_walk hidle hup h
  rw [walk_last hfolder hname (.inl rfl)] at h
  exact ⟨hname, entries, hfolder, (Except.ok.inj h).symm⟩

/-- A path that ends with a name is removed from the folder above it. -/
theorem removeTree_text (t : FileTree) {p : Path} (h : p.IsClean) (hup : p.name ≠ "..") :
    t.removeTree p.text = match t.locate p.text false with
      | .ok ⟨names, some (.folder _)⟩ => { t with root := t.root.put none names }
      | _ => t := by
  -- What a text ends with decides whether it may be removed, and that is the last name.
  have hlast : (namesOf p.text).getLast? = some p.name := by
    rw [Path.namesOf_text h, List.getLast?_append, List.getLast?_eq_some_getLast h.ne_nil,
      Option.some_or, Path.name, List.getLastD_eq_getLast?,
      List.getLast?_eq_some_getLast h.ne_nil, Option.getD_some]
  have hidle : Path.isIdle p.name = false := (h.isName p.name (p.name_mem h.ne_nil)).1
  have hends : endsInName p.text = true := by simp [endsInName, hlast, hidle, hup]
  rw [removeTree, hends]
  rfl

/-! ### Paths to folders -/

/-- What a path leads to is what stands in the place that it leads to. -/
theorem stat_ok_iff {text : String} {node : Node} :
    t.stat text = .ok node ↔ ∃ names, t.locate text = .ok ⟨names, some node⟩ := by
  unfold stat
  cases h : t.locate text with
  | error fault => simp [bind, Except.bind]
  | ok place =>
    obtain ⟨names, found⟩ := place
    cases found <;> simp [bind, Except.bind]

/-- A path is one of a folder exactly if it leads to one, which may be sealed. -/
theorem isFolder_ok_true_iff {text : String} :
    t.isFolder text = .ok true ↔
      ∃ names node, t.locate text = .ok ⟨names, some node⟩ ∧ isFolderNode node = true := by
  unfold isFolder leadsTo stat
  cases h : t.locate text with
  | error fault =>
    simp only [bind, Except.bind]
    split <;> simp_all
  | ok place =>
    obtain ⟨names, node⟩ := place
    cases node with
    | none => simp [bind, Except.bind, meansAbsent]
    | some node =>
      simp only [bind, Except.bind, Except.ok.injEq, Place.mk.injEq, Option.some.injEq]
      exact ⟨fun h => ⟨names, node, ⟨rfl, rfl⟩, h⟩, fun ⟨_, _, ⟨_, heq⟩, h⟩ => heq ▸ h⟩

/-- What leads to a folder that may be searched leads to a folder. The converse holds up to sealed
    folders, which are folders as well. -/
theorem isFolder_of_locate_folder {text : String} {names : List String}
    {entries : List (String × Node)} (h : t.locate text = .ok ⟨names, some (.folder entries)⟩) :
    t.isFolder text = .ok true := isFolder_ok_true_iff.mpr ⟨names, _, h, rfl⟩

/-- A path with a way to a folder leads there. Ways are told with `passageAt?`, so that files in
    between do not count. -/
theorem Reaches.isFolder (h : t.Reaches via p stop) (hclean : p.IsClean)
    (hsize : p.text.utf8ByteSize < maxPathSize)
    (hfolder : t.root.passageAt? stop.reverse = some .folder) : t.isFolder p.text = .ok true := by
  obtain ⟨links, hway⟩ := h
  obtain ⟨entries, hentries⟩ := passageAt?_eq_folder_iff.mp hfolder
  have hwalk : walk t.root true maxLinks (t.startOf p) (p.names ++ []) =
      walk t.root true links stop [] := hway.walk_append (.inr rfl)
  rw [List.append_nil, walk, hentries] at hwalk
  have hlocate : t.locate p.text = .ok ⟨stop.reverse, some (.folder entries)⟩ := by
    rw [locate_text t hclean, if_neg (Nat.not_le.mpr hsize), hwalk]
  exact isFolder_of_locate_folder hlocate

/-- If a path leads somewhere, the path above it leads to a folder. A `..` at the end is left out,
    since it leads up from a folder that may be elsewhere. -/
theorem isFolder_above (hp : p.IsClean) (hclean : (p.child name).IsClean) (hup : name ≠ "..")
    {followLast : Bool} {found : Place}
    (h : t.locate (p.child name).text followLast = .ok found) : t.isFolder p.text = .ok true := by
  obtain ⟨hsize, stop, links, hreach, hwalk⟩ := exists_reaches_of_locate hclean h
  have hname := hclean.isName name (by simp [Path.child])
  obtain ⟨_, entries, hfolder⟩ := exists_folder_of_walk hname.1 hup hwalk
  exact hreach.isFolder hp (Nat.lt_trans (Path.size_text_lt_child hp _) hsize)
    (passageAt?_eq_folder_iff.mpr ⟨entries, hfolder⟩)

/-- A folder that is found without following a link at the end is found so with it. A folder is no
    link, so that there is nothing to be followed. -/
theorem isFolder_of_locate (hclean : (p.child name).IsClean) (hup : name ≠ "..")
    {names : List String} {entries : List (String × Node)}
    (h : t.locate (p.child name).text false = .ok ⟨names, some (.folder entries)⟩) :
    t.isFolder (p.child name).text = .ok true := by
  -- The last name is that of the folder itself and not of a link to it.
  obtain ⟨hsize, stop, links, hreach, hwalk⟩ := exists_reaches_of_locate hclean h
  have hname := hclean.isName name (by simp [Path.child])
  obtain ⟨hdown, above, habove, hfound⟩ := exists_folder_of_walk_last hname.1 hup hwalk
  obtain ⟨rfl, hchild⟩ := Place.mk.inj hfound
  have hlocate := hreach.locate_child habove hclean hdown hsize true
    (.inr fun target => by simp [← hchild])
  rw [← hchild] at hlocate
  exact isFolder_of_locate_folder hlocate

/-! ### Tests of what a path leads to -/

/-- What a path leads to cannot be asked exactly if the system refuses to look, with a fault that
    says more than that there is nothing. The faults that only mean that there is nothing are
    answers and no refusals. -/
theorem leadsTo_error_iff {text : String} {test : Node → Bool} {fault : Fault} :
    t.leadsTo text test = .error fault ↔
      t.stat text = .error fault ∧ meansAbsent fault = false := by
  unfold leadsTo
  cases t.stat text with
  | ok node => simp
  | error cause => cases cause <;> cases fault <;> simp [meansAbsent]

/-- The answer is yes exactly if the path leads to something that passes the test. -/
theorem leadsTo_ok_true_iff {text : String} {test : Node → Bool} :
    t.leadsTo text test = .ok true ↔ ∃ node, t.stat text = .ok node ∧ test node = true := by
  unfold leadsTo
  cases h : t.stat text with
  | ok node => simp
  | error cause => cases cause <;> simp [meansAbsent]

/-! ### Reading -/

/-- A file can be read exactly if the path leads to it, through links or without. -/
theorem read_ok_iff {text : String} {bytes : Text.Bytes} :
    t.read text = .ok bytes ↔
      ∃ names time, t.locate text = .ok ⟨names, some (.file bytes time)⟩ := by
  unfold read stat
  cases h : t.locate text with
  | error fault => simp [bind, Except.bind]
  | ok place =>
    obtain ⟨names, node⟩ := place
    rcases node with _ | _ | _ | _ | _ <;> simp [bind, Except.bind]

/-- No walk is refused for a NUL. Only the text of a path is looked through for one, before the
    walk. -/
theorem walk_ne_nul {root : Node} {followLast : Bool} (links : Nat) (start rest : List String) :
    walk root followLast links start rest ≠ .error .nul := by
  unfold walk
  repeat' split
  all_goals first | exact walk_ne_nul _ _ _ | (intro h; cases h)
termination_by (links, rest.length)

/-- A path is refused for a NUL exactly if there is one in its text. This refusal comes before all
    others. -/
theorem locate_eq_nul_iff (text : String) (followLast : Bool) :
    t.locate text followLast = .error .nul ↔ '\x00' ∈ text.toList := by
  unfold locate
  by_cases hnul : '\x00' ∈ text.toList
  · simp [hnul]
  · have hwalk : walk t.root followLast maxLinks
        (if text.startsWith "/" then [] else t.here.reverse) (namesOf text) ≠ .error .nul :=
      walk_ne_nul _ _ _
    simp only [hnul, List.contains_eq_mem, decide_false, Bool.false_eq_true, if_false, iff_false]
    split
    · exact nofun
    · split
      · exact nofun
      · exact hwalk

/-- What is there cannot be asked for a NUL exactly if there is one in the text. -/
theorem stat_eq_nul_iff {text : String} : t.stat text = .error .nul ↔ '\x00' ∈ text.toList := by
  have hlocate : t.locate text true = .error .nul ↔ '\x00' ∈ text.toList :=
    locate_eq_nul_iff text true
  rw [← hlocate]
  unfold stat
  cases h : t.locate text with
  | error fault => simp [bind, Except.bind]
  | ok place =>
    obtain ⟨names, node⟩ := place
    cases node <;> simp [bind, Except.bind]

/-- Only a NUL in the path keeps one from asking when a file was changed. Every other refusal counts
    as a file that is not there. -/
theorem time?_error_iff {text : String} {fault : Fault} :
    t.time? text = .error fault ↔ fault = .nul ∧ '\x00' ∈ text.toList := by
  rw [← stat_eq_nul_iff (t := t)]
  unfold time?
  cases h : t.stat text with
  | ok node => cases node <;> simp
  | error cause => cases cause <;> simp [eq_comm]

/-- What is somewhere is there under a text without NUL. Whatever was found once therefore has a
    text that can be asked about again. -/
theorem nul_not_mem_of_stat {text : String} {node : Node} (h : t.stat text = .ok node) :
    '\x00' ∉ text.toList := by
  intro hmem
  rw [stat_eq_nul_iff.mpr hmem] at h
  cases h

/-- A file that could be asked for its time has a text without NUL, whether it was there or not. -/
theorem nul_not_mem_of_time? {text : String} {time : Option Int} (h : t.time? text = .ok time) :
    '\x00' ∉ text.toList := by
  intro hmem
  rw [time?_error_iff.mpr ⟨rfl, hmem⟩] at h
  cases h

/-- A file cannot be read for a NUL exactly if there is one in its text. -/
theorem read_eq_nul_iff {text : String} : t.read text = .error .nul ↔ '\x00' ∈ text.toList := by
  rw [← stat_eq_nul_iff (t := t)]
  unfold read
  cases h : t.stat text with
  | error fault => simp [bind, Except.bind]
  | ok node => cases node <;> simp [bind, Except.bind]

end FileTree

end Backlog.Files
