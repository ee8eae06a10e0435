import Backlog.Proofs.Cache.Slots
import Backlog.Proofs.Files.Growth

namespace Backlog

open Backlog.Files Backlog.Files.FileTree Backlog.Files.Node Backlog.Text

/-!
# What writing to a store leaves alone

A write makes folders that were not there and puts a file into the last of them. If it fails it may
have got as far as any of these steps. Whatever else there is in the tree is as it was, unless a
path to it leads through the section, which links make possible.

* `CacheStore.write_cases` — a write changes nothing, or makes the folder of the section, or puts one
  file into it as well;
* `FileTree.Ignores` — a path leads to the same place, whatever some folder holds;
* `CacheStore.read_write_of_ignores` — a file whose path ignores the folder of the section is as it
  was.
-/

namespace Files

/-- Putting something below a place is putting a changed node in the place. So a change deep in a
    tree is a change of one entry. -/
theorem Node.put_append {root inner : Node} {place more : List String} (hmore : more ≠ [])
    (h : root.find? place = some inner) (value : Option Node) :
    put value root (place ++ more) = put (some (put value inner more)) root place := by
  induction place generalizing root with
  | nil =>
    obtain rfl := Option.some.inj h
    rfl
  | cons name place ih =>
    cases root with
    | file _ _ | link _ | sealed _ => cases h
    | folder entries =>
      obtain ⟨next, hnext, h⟩ := Option.bind_eq_some_iff.mp h
      rw [List.cons_append, put_cons (by simp [hmore]) hnext, ih h]
      cases place with
      | nil => rfl
      | cons other place => rw [put_cons (by simp) hnext]

namespace FileTree

/-- A path leads to the same place, whatever the folder in another place holds. -/
def Ignores (t : FileTree) (place : List String) (text : String) : Prop :=
  ∀ entries, locate { t with root := t.root.put (some (.folder entries)) place } text = t.locate text

/-- A path with a way to a folder leads to it. The way is followed name by name, which takes no
    links. -/
theorem Reaches.locate {t : FileTree} {via : List String → Prop} {p : Path} {stop : List String}
    {entries : List (String × Node)} (h : t.Reaches via p stop) (hclean : p.IsClean)
    (hsize : p.text.utf8ByteSize < maxPathSize)
    (hfolder : t.root.find? stop.reverse = some (.folder entries)) :
    t.locate p.text = .ok ⟨stop.reverse, some (.folder entries)⟩ := by
  obtain ⟨links, hway⟩ := h
  have hwalk : walk t.root true maxLinks (t.startOf p) (p.names ++ []) =
      walk t.root true links stop [] := hway.walk_append (.inr rfl)
  rw [List.append_nil, walk, hfolder] at hwalk
  rw [locate_text t hclean, if_neg (Nat.not_le.mpr hsize), hwalk]

/-- Where a path of one more name leads to, without following a link at its end: right below the
    folder of the path above. The place need not be where the names of the path lead, as there may
    be links. -/
theorem exists_above_of_locate {t : FileTree} {p : Path} {name : String} {found : Place}
    (hp : p.IsClean) (hname : CacheStore.IsPart name)
    (h : t.locate (p.child name).text false = .ok found) :
    ∃ place entries, t.locate p.text = .ok ⟨place, some (.folder entries)⟩ ∧
      found = ⟨place ++ [name], childNamed? name entries⟩ := by
  obtain ⟨hsize, stop, links, hreach, hwalk⟩ :=
    exists_reaches_of_locate (Path.isClean_child hp.isName hname.isName) h
  obtain ⟨hdown, entries, hfolder, rfl⟩ :=
    exists_folder_of_walk_last hname.isName.1 hname.ne_up hwalk
  exact ⟨stop.reverse, entries, hreach.locate hp
    (Nat.lt_trans (Path.size_text_lt_child hp name) hsize) hfolder, rfl⟩

end FileTree

end Files

namespace CacheStore

variable {store : CacheStore} {t : FileTree} {part name : String} {bytes : Bytes} {now : Int}

/-- A write changes nothing, or makes the folder of the section, or puts one file into it as well.
    These are all effects of a write on the tree, whether it succeeds or not. -/
theorem write_cases (store : CacheStore) (t : FileTree) (hpart : IsPart part) (hname : IsSlot name)
    (hspelled : store.folder.IsSpelled) (bytes : Bytes) (now : Int) :
    (store.write t part name bytes now).tree = t ∨
      ∃ made, t.makeFolders (store.sectionPath part) = .ok made ∧
        ((store.write t part name bytes now).tree = made ∨
          ∃ place entries,
            made.locate (store.sectionPath part).text = .ok ⟨place, some (.folder entries)⟩ ∧
            (∀ inner ∈ childNamed? (name ++ ".json") entries, isFolderNode inner = false) ∧
            (store.write t part name bytes now).tree = { made with
              root := made.root.put (some (.file bytes now)) (place ++ [name ++ ".json"]) }) := by
  rw [sectionPath_eq hpart, CacheStore.write, path_eq hpart hname, Path.parent_child]
  rcases (hspelled.child hpart.isName).isClean_or_nul (by simp [Path.child]) with hclean | hnul
  case inr =>
    -- Under a path with a NUL no folder can be made.
    obtain ⟨cause, hmake⟩ := makeFolders_of_nul (t := t) hnul
    rw [hmake]
    exact .inl rfl
  cases hmake : t.makeFolders (store.folder.child part) with
  | error cause => exact .inl rfl
  | ok made =>
    right
    refine ⟨made, rfl, ?_⟩
    simp only
    split
    · exact .inl rfl
    · split
      · exact .inl rfl
      · rename_i written hreplace
        right
        -- A link under the name is not followed, so the file comes to be right in the folder.
        obtain ⟨found, hlocate, h⟩ := bind_ok_iff.mp hreplace
        obtain ⟨place, entries, habove, rfl⟩ := exists_above_of_locate hclean hname.isPart hlocate
        dsimp only at h
        split at h
        · cases h
        · cases h
        · rename_i hfolder hsealed
          refine ⟨place, entries, habove, fun inner hinner => ?_, (Except.ok.inj h).symm⟩
          cases inner with
          | file _ _ | link _ => rfl
          | folder inner => exact absurd hinner (hfolder inner)
          | sealed listed => exact absurd hinner (hsealed listed)

/-- The path of a file ignores the folder of a section: once this is there, the path leads to the
    same place whatever the folder holds. -/
def IsIgnoredBy (store : CacheStore) (t : FileTree) (part text : String) : Prop :=
  ∀ made, t.makeFolders (store.sectionPath part) = .ok made →
    ∀ place entries, made.locate (store.sectionPath part).text = .ok ⟨place, some (.folder entries)⟩ →
      made.Ignores place text

/-- A file whose path ignores the folder of the section is as it was. Ignoring is said of the path,
    so nothing is said of what the file holds. -/
theorem read_write_of_ignores {text : String} {content : Bytes} (hpart : IsPart part)
    (hname : IsSlot name) (hspelled : store.folder.IsSpelled)
    (hapart : store.IsIgnoredBy t part text) (hread : t.read text = .ok content) :
    (store.write t part name bytes now).tree.read text = .ok content := by
  obtain ⟨names, time, hlocate⟩ := read_ok_iff.mp hread
  rcases write_cases store t hpart hname hspelled bytes now with
    heq | ⟨made, hmake, heq | ⟨place, entries, hsection, _, heq⟩⟩
  · rw [heq, hread]
  -- Folders are made where nothing was, and no path to a file leads over such places.
  · rw [heq]
    exact read_ok_iff.mpr ⟨names, time, (founds_of_makeFolders hmake).locate hlocate⟩
  · have hmade := (founds_of_makeFolders hmake).locate hlocate
    have hfolder := (node_of_locate hsection).1.symm
    rw [heq, put_append (by simp) hfolder]
    exact read_ok_iff.mpr ⟨names, time, (hapart made hmake place entries hsection _).trans hmade⟩

end CacheStore

end Backlog
