import Backlog.Cache.Store
import Backlog.Proofs.Files.Edits

namespace Backlog.CacheStore

/-!
# What a store holds

A store is a folder of sections with files in them. `Holds` says which bytes it holds under which
names, whatever else there is in the file system; every operation is described by what the store
holds after it.

* `Holds.read` — what is held is read;
* `Holds.write` — a write that succeeds changes what is held under one name;
* `Holds.clear` — clearing drops one section, or all of them;
* `Holds.edit` — changes elsewhere leave alone what is held.
-/

open Backlog.Files Backlog.Files.FileTree Backlog.Files.Node Backlog.Text

/-! ### Names and paths -/

/-- A store whose folder has a name, and a path that goes up only to begin with. -/
structure IsProper (store : CacheStore) : Prop where
  clean : store.folder.IsClean
  forward : store.folder.IsForward
  ne_up : store.folder.name ≠ ".."

/-- A name of a section: one that leads down. -/
structure IsPart (part : String) : Prop where
  isName : Path.IsName part
  ne_up : part ≠ ".."

/-- A name for bytes: it holds neither a slash nor a NUL. -/
def IsSlot (name : String) : Prop := '/' ∉ name.toList ∧ '\x00' ∉ name.toList

instance (name : String) : Decidable (IsSlot name) := inferInstanceAs (Decidable (_ ∧ _))

/-- The file of a name is one of a section's. So it is a name below the folder of the section. -/
theorem IsSlot.isPart {name : String} (h : IsSlot name) : IsPart (name ++ ".json") := by
  have hlong : ∀ other : String, other.length < 5 → name ++ ".json" ≠ other := by
    rintro _ hlt rfl
    have hjson : ".json".length = 5 := rfl
    rw [String.length_append, hjson] at hlt
    omega
  have hjson : ".json".toList = ['.', 'j', 's', 'o', 'n'] := rfl
  refine ⟨⟨?_, ?_, ?_⟩, hlong _ (by decide)⟩
  · simp [Path.isIdle, hlong "." (by decide)]
  · simpa [hjson] using h.1
  · simpa [hjson] using h.2

theorem file_inj {name other : String} : name ++ ".json" = other ++ ".json" ↔ name = other := by
  rw [← String.toList_inj, String.toList_append, String.toList_append, List.append_cancel_right_eq,
    String.toList_inj]

variable {store : CacheStore} {part name : String}

/-- The folder of a section is below that of the store. -/
theorem sectionPath_eq (hpart : IsPart part) :
    store.sectionPath part = store.folder.child part := by
  rw [sectionPath, Path.ofText_name hpart.isName]
  rfl

/-- The file of a name is below the folder of its section. -/
theorem path_eq (hpart : IsPart part) (hname : IsSlot name) :
    store.path part name = (store.folder.child part).child (name ++ ".json") := by
  rw [path, sectionPath_eq hpart, Path.ofText_name hname.isPart.isName]
  rfl

/-- The path of a section is plain, as that of the store is. -/
theorem IsProper.section_clean (h : store.IsProper) (hpart : IsPart part) :
    (store.folder.child part).IsClean := Path.isClean_child h.clean.isName hpart.isName

theorem IsProper.path_clean (h : store.IsProper) (hpart : IsPart part) (hname : IsSlot name) :
    ((store.folder.child part).child (name ++ ".json")).IsClean :=
  Path.isClean_child (h.section_clean hpart).isName hname.isPart.isName

/-! ### Sections and files -/

/-- What is stored under each name of each section. -/
abbrev Slots := String → String → Option Bytes

/-- A section that holds nothing may be dropped. So clearing it changes nothing. -/
theorem drop_section {slots : Slots} {part : String} (h : ∀ name, slots part name = none) :
    (fun p name => if p = part then none else slots p name) = slots := by
  funext p name
  split
  · rename_i hp
    rw [hp, h name]
  · rfl

/-- The content of the file of a name, in a store whose folder is in a place. -/
def slotAt (root : Node) (place : List String) (part name : String) : Option Bytes :=
  match root.find? (place ++ [part, name ++ ".json"]) with
  | some (.file content _) => some content
  | _ => none

/-- The store's folder is in a place, and holds sections of files with these bytes. -/
structure Stands (store : CacheStore) (t : FileTree) (place : List String) (slots : Slots) :
    Prop where
  direct : t.Direct store.folder place
  isSection : ∀ part node, t.root.find? (place ++ [part]) = some node →
    ∃ entries, node = .folder entries
  isFile : ∀ part file node, t.root.find? (place ++ [part, file]) = some node →
    ∃ content time, node = .file content time
  slot : ∀ part name, slotAt t.root place part name = slots part name
  fits : ∀ part name bytes, slots part name = some bytes →
    Path.IsDown part ∧ Path.IsDown (name ++ ".json") ∧
      ((store.folder.child part).child (name ++ ".json")).text.utf8ByteSize < maxPathSize

/-- What a store holds, in its folder, or without one. -/
inductive Holds (store : CacheStore) (t : FileTree) (slots : Slots) : Prop
  | stands (place : List String) (h : store.Stands t place slots)
  | absent (h : t.isFolder store.folder.text ≠ .ok true)
      (hslots : ∀ part name, slots part name = none)

variable {t : FileTree} {place : List String} {slots : Slots}

/-- The path of a section leads to the section. Either it is there, or the place where it would be
    is known. -/
theorem Stands.locate_section (h : store.Stands t place slots) (hstore : store.IsProper)
    (hpart : IsPart part) {followLast : Bool} {found : Place}
    (hlocate : t.locate (store.folder.child part).text followLast = .ok found) :
    found = ⟨place ++ [part], t.root.find? (place ++ [part])⟩ ∧ Path.IsDown part ∧
      (store.folder.child part).text.utf8ByteSize < maxPathSize := by
  have hclean := hstore.section_clean hpart
  obtain ⟨hsize, stop, links, _, hwalk⟩ := exists_reaches_of_locate hclean hlocate
  obtain ⟨hdown, _⟩ := exists_folder_of_walk hpart.isName.1 hpart.ne_up hwalk
  have hlink : ∀ target, t.root.find? (place ++ [part]) ≠ some (.link target) := by
    intro target hlink
    obtain ⟨entries, heq⟩ := h.isSection part _ hlink
    cases heq
  rw [h.direct.locate_child hclean hstore.clean hdown hsize hlink] at hlocate
  exact ⟨(Except.ok.inj hlocate).symm, hdown, hsize⟩

/-- A section that is there is where its path leads directly. No link can stand in for it, since a
    store holds none. -/
theorem Stands.direct_section (h : store.Stands t place slots) (hstore : store.IsProper)
    (hpart : IsPart part) (htrue : t.isFolder (store.folder.child part).text = .ok true) :
    t.Direct (store.folder.child part) (place ++ [part]) := by
  obtain ⟨names, node, hlocate, _⟩ := isFolder_ok_true_iff.mp htrue
  obtain ⟨hfound, hdown, hsize⟩ := h.locate_section hstore hpart hlocate
  have hentries := (Place.mk.inj hfound).2.symm
  obtain ⟨entries, rfl⟩ := h.isSection part node hentries
  exact h.direct.child hstore.clean hdown hsize (passageAt?_eq_folder_iff.mpr ⟨entries, hentries⟩)

/-- The path of a file leads to the file, in a section that is there. As for a section, the place is
    known even if nothing is there. -/
theorem Stands.locate_file (h : store.Stands t place slots) (hstore : store.IsProper)
    (hpart : IsPart part) (hname : IsSlot name) {followLast : Bool} {found : Place}
    (hlocate : t.locate ((store.folder.child part).child (name ++ ".json")).text followLast =
      .ok found) :
    found = ⟨place ++ [part, name ++ ".json"],
        t.root.find? (place ++ [part, name ++ ".json"])⟩ ∧ Path.IsDown (name ++ ".json") ∧
      ((store.folder.child part).child (name ++ ".json")).text.utf8ByteSize < maxPathSize ∧
      t.Direct (store.folder.child part) (place ++ [part]) := by
  have hclean := hstore.section_clean hpart
  have hfile := hstore.path_clean hpart hname
  obtain ⟨hsize, stop, links, _, hwalk⟩ := exists_reaches_of_locate hfile hlocate
  obtain ⟨hdown, _⟩ := exists_folder_of_walk hname.isPart.isName.1 hname.isPart.ne_up hwalk
  have hdirect := h.direct_section hstore hpart
    (isFolder_above hclean hfile hname.isPart.ne_up hlocate)
  have hlink : ∀ target,
      t.root.find? (place ++ [part] ++ [name ++ ".json"]) ≠ some (.link target) := by
    intro target hlink
    rw [← List.append_cons] at hlink
    obtain ⟨content, time, heq⟩ := h.isFile part _ _ hlink
    cases heq
  rw [hdirect.locate_child hfile hclean hdown hsize hlink, ← List.append_cons] at hlocate
  exact ⟨(Except.ok.inj hlocate).symm, hdown, hsize, hdirect⟩

/-- What is held has a section, which is where its path leads directly. This is what a store that
    stands says about what it holds. -/
theorem Stands.direct_of_slot (h : store.Stands t place slots) (hstore : store.IsProper)
    (hpart : IsPart part) {bytes : Bytes} (hslot : slots part name = some bytes) :
    t.Direct (store.folder.child part) (place ++ [part]) ∧
      ∃ time, t.root.find? (place ++ [part, name ++ ".json"]) = some (.file bytes time) := by
  have hslotAt := h.slot part name
  rw [hslot, slotAt] at hslotAt
  split at hslotAt
  · rename_i content time hfile
    obtain rfl := Option.some.inj hslotAt
    refine ⟨?_, time, hfile⟩
    rw [List.append_cons] at hfile
    obtain ⟨entries, hentries, _⟩ := exists_folder_above hfile
    obtain ⟨hdown, _, hsize⟩ := h.fits part name _ hslot
    exact h.direct.child hstore.clean hdown
      (Nat.lt_trans (Path.size_text_lt_child (hstore.section_clean hpart) _) hsize)
      (passageAt?_eq_folder_iff.mpr ⟨entries, hentries⟩)
  · cases hslotAt

/-! ### Reading -/

/-- What can be read is what is held. Whatever is at the end of the path of a slot is accounted
    for. -/
theorem Holds.eq_of_read (h : store.Holds t slots) (hstore : store.IsProper) (hpart : IsPart part)
    (hname : IsSlot name) {bytes : Bytes}
    (hread : t.read ((store.folder.child part).child (name ++ ".json")).text = .ok bytes) :
    slots part name = some bytes := by
  obtain ⟨names, time, hlocate⟩ := read_ok_iff.mp hread
  cases h with
  | stands place h =>
    obtain ⟨hfound, _⟩ := h.locate_file hstore hpart hname hlocate
    rw [← h.slot, slotAt, ← (Place.mk.inj hfound).2]
  | absent hnot _ =>
    -- The file would be in a section, and this in the folder.
    have hclean := hstore.section_clean hpart
    have hsection :=
      isFolder_above hclean (hstore.path_clean hpart hname) hname.isPart.ne_up hlocate
    obtain ⟨_, _, hlocate', _⟩ := isFolder_ok_true_iff.mp hsection
    exact absurd (isFolder_above hstore.clean hclean hpart.ne_up hlocate') hnot

/-- What is held can be read. The way to it is direct, and a file is at its end. -/
theorem Holds.read_eq (h : store.Holds t slots) (hstore : store.IsProper) (hpart : IsPart part)
    (hname : IsSlot name) {bytes : Bytes} (hslot : slots part name = some bytes) :
    t.read ((store.folder.child part).child (name ++ ".json")).text = .ok bytes := by
  cases h with
  | stands place h =>
    obtain ⟨hdirect, time, hfile⟩ := h.direct_of_slot hstore hpart hslot
    obtain ⟨_, hdown, hsize⟩ := h.fits part name bytes hslot
    rw [List.append_cons] at hfile
    have hlocate := hdirect.locate_child (hstore.path_clean hpart hname)
      (hstore.section_clean hpart) hdown hsize (by rw [hfile]; exact fun _ => nofun) true
    rw [hfile] at hlocate
    exact read_ok_iff.mpr ⟨_, time, hlocate⟩
  | absent _ hslots =>
    rw [hslots] at hslot
    cases hslot

/-- What is held is read. What is not held is not there, and reading says so. -/
theorem Holds.read (h : store.Holds t slots) (hstore : store.IsProper) (hpart : IsPart part)
    (hname : IsSlot name) : store.read t part name = .ok (slots part name) := by
  have hclean := hstore.path_clean hpart hname
  unfold CacheStore.read
  rw [path_eq hpart hname]
  generalize hread : t.read ((store.folder.child part).child (name ++ ".json")).text = result
  cases result with
  | ok bytes => rw [h.eq_of_read hstore hpart hname hread]
  | error fault =>
    have hnone : slots part name = none := by
      rw [Option.eq_none_iff_forall_ne_some]
      intro bytes hslot
      rw [h.read_eq hstore hpart hname hslot] at hread
      cases hread
    rw [hnone]
    cases fault with
    | nul => exact absurd (read_eq_nul_iff.mp hread) (Path.nul_not_mem_text hclean)
    | _ => rfl

/-! ### Changing a section -/

/-- What is found in a section that was made or removed, and in the others. The tree must be tidy,
    so that a name leads to one entry only. -/
theorem find?_put_section {root : Node} (htidy : root.Tidy) {entries : List (String × Node)}
    (hfolder : root.find? place = some (.folder entries)) (value : Option Node) (other : String)
    (more : List String) :
    (put value root (place ++ [part])).find? (place ++ other :: more) =
      if other = part then value.bind (·.find? more) else root.find? (place ++ other :: more) := by
  split
  · rename_i heq
    subst heq
    rw [← find?_put_below hfolder (htidy place entries hfolder) other value more, List.append_assoc,
      List.singleton_append]
  · rename_i hne
    apply find?_put_of_apart
    · rw [List.prefix_append_right_inj, List.cons_prefix_cons]
      exact fun h => hne h.1.symm
    · rw [List.prefix_append_right_inj, List.cons_prefix_cons]
      exact fun h => hne h.1

/-- A section that is emptied or removed holds nothing, and the others hold what they did. That is
    what clearing a section and making one have in common. -/
theorem Stands.put_section (h : store.Stands t place slots) (htidy : t.root.Tidy)
    (value : Option Node) (hvalue : ∀ node ∈ value, node = .folder []) (part : String) :
    store.Stands { t with root := t.root.put value (place ++ [part]) } place
      fun p name => if p = part then none else slots p name := by
  obtain ⟨entries, hfolder⟩ := passageAt?_eq_folder_iff.mp h.direct.folder
  have hfind : ∀ other more, (put value t.root (place ++ [part])).find? (place ++ other :: more) =
      if other = part then value.bind (·.find? more) else t.root.find? (place ++ other :: more) :=
    find?_put_section htidy hfolder value
  -- There is no file in the section any more, whether it is gone or empty.
  have hempty : ∀ file, value.bind (·.find? [file]) = none := by
    intro file
    cases value with
    | none => rfl
    | some node =>
      obtain rfl := hvalue node rfl
      rfl
  refine ⟨h.direct.put_inside value (by simp), ?_, ?_, ?_, ?_⟩
  · intro p node hnode
    rw [hfind] at hnode
    split at hnode
    · cases value with
      | none => cases hnode
      | some inner =>
        obtain rfl := hvalue inner rfl
        exact ⟨[], (Option.some.inj hnode).symm⟩
    · exact h.isSection p node hnode
  · intro p file node hnode
    rw [hfind] at hnode
    split at hnode
    · rw [hempty] at hnode
      cases hnode
    · exact h.isFile p file node hnode
  · intro p name
    by_cases hp : p = part
    · rw [slotAt, hfind, if_pos hp, hempty, if_pos hp]
    · rw [slotAt, hfind, if_neg hp, if_neg hp, ← h.slot, slotAt]
  · intro p name bytes hslot
    split at hslot
    · cases hslot
    · exact h.fits p name bytes hslot

/-! ### Clearing -/

/-- A store that is nowhere has no sections either. For the path of a section goes on from that of
    the store. -/
theorem not_locate_section (hnot : t.isFolder store.folder.text ≠ .ok true)
    (hstore : store.IsProper) (hpart : IsPart part) {followLast : Bool} {found : Place} :
    t.locate (store.folder.child part).text followLast ≠ .ok found :=
  fun hlocate =>
    hnot (isFolder_above hstore.clean (hstore.section_clean hpart) hpart.ne_up hlocate)

/-- Clearing a section drops what it holds. Where no section is, there is nothing to drop. -/
theorem Holds.clear_section (h : store.Holds t slots) (htidy : t.root.Tidy)
    (hstore : store.IsProper) (hpart : IsPart part) :
    store.Holds (store.clear t (some part))
      fun p name => if p = part then none else slots p name := by
  have hup : (store.folder.child part).name ≠ ".." := by
    rw [Path.name_child]
    exact hpart.ne_up
  show store.Holds (t.removeTree (store.sectionPath part).text) _
  rw [sectionPath_eq hpart, removeTree_text t (hstore.section_clean hpart) hup]
  split
  · rename_i names entries hlocate
    cases h with
    | stands place h =>
      obtain ⟨hfound, _⟩ := h.locate_section hstore hpart hlocate
      obtain ⟨rfl, _⟩ := Place.mk.inj hfound
      exact .stands place (h.put_section htidy none (by rintro _ ⟨⟩) part)
    | absent hnot _ => exact absurd hlocate (not_locate_section hnot hstore hpart)
  · rename_i hno
    -- No section is there, so it held nothing.
    have hslots : ∀ name, slots part name = none := by
      intro name
      refine Option.eq_none_iff_forall_ne_some.mpr fun bytes hslot => ?_
      cases h with
      | stands place h =>
        obtain ⟨hdirect, _⟩ := h.direct_of_slot hstore hpart hslot
        obtain ⟨entries, hentries⟩ := passageAt?_eq_folder_iff.mp hdirect.folder
        have hlocate := hdirect.locate (hstore.section_clean hpart) false
        rw [hentries] at hlocate
        exact hno _ _ hlocate
      | absent _ hslots =>
        rw [hslots] at hslot
        cases hslot
    rwa [drop_section hslots]

/-- Clearing everything leaves nothing. A store that is a link to a folder is excluded by holding on
    to where it stands. -/
theorem Holds.clear_all (h : store.Holds t slots) (htidy : t.root.Tidy) (hstore : store.IsProper) :
    store.Holds (store.clear t none) fun _ _ => none := by
  show store.Holds (t.removeTree store.folder.text) _
  have hp := store.folder.child_parent hstore.clean.ne_nil
  cases h with
  | stands place h =>
    obtain ⟨inner, hinner⟩ := passageAt?_eq_folder_iff.mp h.direct.folder
    have hlocate := h.direct.locate hstore.clean false
    obtain ⟨stop, entries, _, ⟨links, hway⟩, rfl, habove, _⟩ := h.direct.exists_above
    rw [hinner] at hlocate
    rw [removeTree_text t hstore.clean hstore.ne_up, hlocate]
    refine .absent (fun htrue => ?_) fun _ _ => rfl
    obtain ⟨_, _, hlocate', _⟩ := isFolder_ok_true_iff.mp htrue
    -- The way to the folder above is as it was, but the folder has no entry any more.
    have hreach : FileTree.Reaches
        { t with root := t.root.put none (stop.reverse ++ [store.folder.name]) }
        (fun q => ¬stop.reverse ++ [store.folder.name] <+: q) store.folder.parent stop :=
      ⟨links, hway.mono (fun _ => id) fun q hq passage hpassage => by
        rw [passageAt?_put hq, hpassage]⟩
    have hgone : childNamed? store.folder.name (setEntry store.folder.name none entries) = none :=
      childNamed?_setEntry_none (htidy _ _ habove)
    have hnothing := hreach.locate_child (find?_put_parent habove none)
      (by rw [hp]; exact hstore.clean) h.direct.isDown (by rw [hp]; exact h.direct.size) true
      (.inr fun target => by
        rw [hgone]
        exact nofun)
    rw [hp, hgone, hlocate'] at hnothing
    cases hnothing
  | absent hnot hslots =>
    rw [removeTree_text t hstore.clean hstore.ne_up]
    split
    · rename_i names entries hlocate
      have hclean := hstore.clean
      rw [← hp] at hlocate hclean hnot
      exact absurd (isFolder_of_locate hclean hstore.ne_up hlocate) hnot
    · exact .absent hnot fun _ _ => rfl

/-! ### Writing -/

/-- A new folder for a store that had none. It is empty, and holds nothing. -/
theorem stands_of_new_folder {made : FileTree} (hstore : store.IsProper)
    (hslots : ∀ part name, slots part name = none)
    (hmade : t.makeFolder store.folder.text = .ok made) :
    ∃ place, store.Stands made place slots := by
  obtain ⟨place, _, hdirect, hempty, _⟩ := direct_of_new_folder hstore.clean hmade
  have hnone : ∀ name more, made.root.find? (place ++ name :: more) = none := by
    intro name more
    rw [find?_append, hempty]
    rfl
  refine ⟨place, hdirect, ?_, ?_, ?_, ?_⟩
  · intro part node hnode
    rw [hnone] at hnode
    cases hnode
  · intro part file node hnode
    rw [hnone] at hnode
    cases hnode
  · intro part name
    rw [slotAt, hnone, hslots]
  · intro part name bytes hslot
    rw [hslots] at hslot
    cases hslot

/-- Making the store's folder leaves what is held. It stood already, or it is new. -/
theorem Holds.stands_of_foldersMade {made : FileTree} (h : store.Holds t slots)
    (hstore : store.IsProper) (hmade : t.FoldersMade store.folder made) :
    ∃ place, store.Stands made place slots := by
  generalize hfolder : store.folder = folder at hmade
  cases hmade with
  | already htrue =>
    subst hfolder
    cases h with
    | stands place h => exact ⟨place, h⟩
    | absent hnot _ => exact absurd htrue hnot
  | base hnil => exact absurd (hfolder ▸ hnil) hstore.clean.ne_nil
  | newBelow habove hmade =>
    rw [← hfolder] at hmade
    cases h with
    | stands place h =>
      -- The folder stood in the way.
      obtain ⟨entries, hentries⟩ := passageAt?_eq_folder_iff.mp (h.direct.grows habove.grows).folder
      have hlocate := (h.direct.grows habove.grows).locate hstore.clean false
      obtain ⟨names, hnew, _⟩ := makeFolder_ok_iff.mp hmade
      rw [hlocate, hentries] at hnew
      cases hnew
    | absent _ hslots => exact stands_of_new_folder hstore hslots hmade

/-- Making the folder of a section leaves what is held, and the section is there. Only then can a
    file be put into it. -/
theorem Holds.section_of_foldersMade {made : FileTree} (h : store.Holds t slots)
    (htidy : t.root.Tidy) (hstore : store.IsProper) (hpart : IsPart part)
    (hmade : t.FoldersMade (store.folder.child part) made) :
    ∃ place, store.Stands made place slots := by
  have hclean := hstore.section_clean hpart
  generalize hsection : store.folder.child part = path at hmade
  cases hmade with
  | already htrue =>
    subst hsection
    obtain ⟨_, _, hlocate, _⟩ := isFolder_ok_true_iff.mp htrue
    cases h with
    | stands place h => exact ⟨place, h⟩
    | absent hnot _ => exact absurd hlocate (not_locate_section hnot hstore hpart)
  | base hnil => exact absurd (hsection ▸ hnil) hclean.ne_nil
  | newBelow habove hmade =>
    obtain ⟨rfl, rfl⟩ := Path.child_inj.mp hsection
    obtain ⟨place, hstands⟩ := h.stands_of_foldersMade hstore habove
    obtain ⟨names, hlocate, rfl⟩ := makeFolder_ok_iff.mp hmade
    obtain ⟨hfound, _⟩ := hstands.locate_section hstore hpart hlocate
    obtain ⟨rfl, hnone⟩ := Place.mk.inj hfound
    refine ⟨place, ?_⟩
    have hput := hstands.put_section (habove.grows.tidy htidy) (some (.folder []))
      (by rintro _ ⟨⟩; rfl) part
    -- The section was not there, so it held nothing.
    have hslots : ∀ name, slots part name = none := by
      intro name
      rw [← hstands.slot, slotAt, List.append_cons, find?_append, ← hnone]
      rfl
    rwa [drop_section hslots] at hput

/-- What is found in the sections after a file was put into one of them. Other names are told apart
    by their files. -/
theorem find?_put_file {root : Node} {entries : List (String × Node)} {file : String}
    (hsection : root.find? (place ++ [part]) = some (.folder entries)) (node : Node)
    (p f : String) :
    (put (some node) root (place ++ [part, file])).find? (place ++ [p, f]) =
      if p = part ∧ f = file then some node else root.find? (place ++ [p, f]) := by
  split
  · rename_i heq
    obtain ⟨rfl, rfl⟩ := heq
    have hself := find?_put_self hsection f node []
    rwa [List.append_nil, ← List.append_cons] at hself
  · rename_i hne
    apply find?_put_of_apart
    · rw [List.prefix_append_right_inj]
      simpa [List.cons_prefix_cons, eq_comm] using hne
    · rw [List.prefix_append_right_inj]
      simpa [List.cons_prefix_cons] using hne

/-- A file that is put under a name is what is then held under it. The section is a folder and no
    link, so the file is where its path says. -/
theorem Stands.put_file (h : store.Stands t place slots)
    (hsection : t.root.passageAt? (place ++ [part]) = some .folder) (hdown : Path.IsDown part)
    (hfile : Path.IsDown (name ++ ".json"))
    (hsize : ((store.folder.child part).child (name ++ ".json")).text.utf8ByteSize < maxPathSize)
    (bytes : Bytes) (time : Int) :
    store.Stands
      { t with root := t.root.put (some (.file bytes time)) (place ++ [part, name ++ ".json"]) }
      place fun p n => if p = part ∧ n = name then some bytes else slots p n := by
  obtain ⟨entries, hentries⟩ := passageAt?_eq_folder_iff.mp hsection
  have hfind : ∀ p f,
      (put (some (.file bytes time)) t.root (place ++ [part, name ++ ".json"])).find?
          (place ++ [p, f]) =
        if p = part ∧ f = name ++ ".json" then some (.file bytes time)
        else t.root.find? (place ++ [p, f]) :=
    find?_put_file hentries (.file bytes time)
  refine ⟨h.direct.put_inside _ (by simp), ?_, ?_, ?_, ?_⟩
  · intro p node hnode
    have hnot : ¬place ++ [part, name ++ ".json"] <+: place ++ [p] := by
      rw [List.prefix_append_right_inj]
      simp [List.cons_prefix_cons]
    by_cases hp : p = part
    · -- the section is above the file, and entered as before
      subst hp
      rw [← passageAt?_put hnot, passageAt?_eq_folder_iff] at hsection
      obtain ⟨inner, hinner⟩ := hsection
      rw [hinner] at hnode
      exact ⟨inner, (Option.some.inj hnode).symm⟩
    · have habove : ¬place ++ [p] <+: place ++ [part, name ++ ".json"] := by
        rw [List.prefix_append_right_inj, List.cons_prefix_cons]
        exact fun hprefix => hp hprefix.1
      rw [find?_put_of_apart hnot habove] at hnode
      exact h.isSection p node hnode
  · intro p f node hnode
    rw [hfind] at hnode
    split at hnode
    · exact ⟨bytes, time, (Option.some.inj hnode).symm⟩
    · exact h.isFile p f node hnode
  · intro p n
    rw [slotAt, hfind]
    by_cases heq : p = part ∧ n = name
    · rw [if_pos heq, if_pos ⟨heq.1, file_inj.mpr heq.2⟩]
    · rw [if_neg heq, if_neg fun hfiles => heq ⟨hfiles.1, file_inj.mp hfiles.2⟩, ← h.slot, slotAt]
  · intro p n found hslot
    split at hslot
    · rename_i heq
      obtain ⟨rfl, rfl⟩ := heq
      exact ⟨hdown, hfile, hsize⟩
    · exact h.fits p n found hslot

/-- Replacing a file puts a file in the place of its path, and does nothing else. -/
theorem exists_put_of_replace {text : String} {bytes : Bytes} {time : Int} {t' : FileTree}
    (h : t.replace text bytes time = .ok t') :
    ∃ names node, t.locate text false = .ok ⟨names, node⟩ ∧
      t' = { t with root := t.root.put (some (.file bytes time)) names } := by
  obtain ⟨place, hlocate, h⟩ := bind_ok_iff.mp h
  split at h
  · cases h
  · cases h
  · exact ⟨place.names, place.node, hlocate, (Except.ok.inj h).symm⟩

/-- A write that succeeds changes what is held under its name. A write that fails may have made the
    folder of the section; that case is not this one. -/
theorem Holds.write (h : store.Holds t slots) (htidy : t.root.Tidy) (hstore : store.IsProper)
    (hpart : IsPart part) (hname : IsSlot name) {bytes : Bytes} {time : Int} {t' : FileTree}
    (hwrite : store.write t part name bytes time = ⟨t', none⟩) :
    t'.root.Tidy ∧
      store.Holds t' fun p n => if p = part ∧ n = name then some bytes else slots p n := by
  have hclean := hstore.section_clean hpart
  have hforward : (store.folder.child part).IsForward := by
    refine List.pairwise_append.mpr ⟨hstore.forward, by simp, fun _ _ last hlast => ?_⟩
    rw [List.mem_singleton.mp hlast]
    exact fun hup => absurd hup hpart.ne_up
  -- The folders are made, the hidden file has to have a place, and the file is replaced.
  unfold CacheStore.write at hwrite
  rw [path_eq hpart hname] at hwrite
  simp only [Path.parent_child] at hwrite
  split at hwrite
  · cases hwrite
  rename_i made hmakes
  have hmade := foldersMade_of_makeFolders hclean.isName hforward hmakes
  obtain ⟨place, hstands⟩ := h.section_of_foldersMade htidy hstore hpart hmade
  split at hwrite
  · cases hwrite
  split at hwrite
  · cases hwrite
  rename_i written hreplace
  obtain ⟨rfl, _⟩ := Written.mk.inj hwrite
  obtain ⟨names, node, hlocate, rfl⟩ := exists_put_of_replace hreplace
  obtain ⟨hfound, hfile, hsize, hdirect⟩ := hstands.locate_file hstore hpart hname hlocate
  obtain ⟨rfl, _⟩ := Place.mk.inj hfound
  have hdown := hdirect.isDown
  rw [Path.name_child] at hdown
  refine ⟨(hmade.grows.tidy htidy).put ?_ _, .stands place ?_⟩
  · rintro _ ⟨⟩
    exact tidy_file bytes time
  · exact hstands.put_file hdirect.folder hdown hfile hsize bytes time

/-! ### Changes elsewhere -/

/-- The folder of a store, if its path leads to one, is as it was, with all that is in it. -/
def Untouched (store : CacheStore) (t t' : FileTree) : Prop :=
  ∀ node, isFolderNode node = true →
    (t'.stat store.folder.text = .ok node ↔ t.stat store.folder.text = .ok node)

/-- Changes elsewhere leave alone what is held. The places of slots are what the change has to leave
    alone. -/
theorem Holds.edit {t' : FileTree} (h : store.Holds t slots) (htidy : t.root.Tidy)
    (hstore : store.IsProper) (hedit : t.Edit t') (hsame : store.Untouched t t') :
    store.Holds t' slots := by
  cases h with
  | stands place h =>
    obtain ⟨entries, hentries⟩ := passageAt?_eq_folder_iff.mp h.direct.folder
    have hstat : t'.stat store.folder.text = .ok (.folder entries) := by
      rw [hsame _ rfl, stat_ok_iff]
      have hlocate := h.direct.locate hstore.clean true
      rw [hentries] at hlocate
      exact ⟨place, hlocate⟩
    obtain ⟨names, hlocate⟩ := stat_ok_iff.mp hstat
    have hdirect : t'.Direct store.folder place := by
      rcases hedit.grows_or_shrinks htidy with hgrows | hshrinks
      · exact h.direct.grows hgrows
      · exact h.direct.shrinks hstore.clean hshrinks
          (isFolder_of_locate_folder hlocate)
    -- The way to the store is as it was, and so is what is found at its end.
    have hplace : t'.root.find? place = t.root.find? place := by
      rw [hdirect.locate hstore.clean true] at hlocate
      rw [hentries, (Place.mk.inj (Except.ok.inj hlocate)).2]
    have hfind : ∀ more, t'.root.find? (place ++ more) = t.root.find? (place ++ more) := by
      intro more
      rw [find?_append, find?_append, hplace]
    refine .stands place ⟨hdirect, ?_, ?_, ?_, h.fits⟩
    · intro part
      rw [hfind]
      exact h.isSection part
    · intro part file
      rw [hfind]
      exact h.isFile part file
    · intro part name
      rw [slotAt, hfind]
      exact h.slot part name
  | absent hnot hslots =>
    refine .absent (fun htrue => hnot ?_) hslots
    obtain ⟨names, node, hlocate, hnode⟩ := isFolder_ok_true_iff.mp htrue
    obtain ⟨names', hbefore⟩ :=
      stat_ok_iff.mp ((hsame node hnode).mp (stat_ok_iff.mpr ⟨names, hlocate⟩))
    exact isFolder_ok_true_iff.mpr ⟨names', node, hbefore, hnode⟩

/-- Clearing leaves the file system tidy. Removing entries makes no two of them alike. -/
theorem tidy_clear (htidy : t.root.Tidy) (part : Option String) :
    (store.clear t part).root.Tidy := by
  cases part with
  | none => exact (Edit.removeTree _).tidy htidy
  | some part => exact (Edit.removeTree _).tidy htidy

end Backlog.CacheStore
