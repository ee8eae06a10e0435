import Backlog.Proofs.Cache.Writing
import Backlog.Proofs.Files.RealPaths

namespace Backlog

open Backlog.Files Backlog.Files.FileTree Backlog.Files.Node Backlog.Text

/-!
# What a section of a store can hold

A store makes the folders on the way to a section when it first writes there, and then its path may
lead to a folder that was there all the time. So what a section holds is a matter of the tree with
more folders in it.

* `CacheStore.MayHold` — a file or a link that a section holds, or would hold after folders have been
  made;
* `CacheStore.HoldsOnly` — these are all files of some kind;
* `HoldsOnly.read` — so that only such bytes are read;
* `MayHold.write` — a write adds the file that is written, and nothing else;
* `HoldsOnly.linksAlike_write` — and it leaves all links as they are.
-/

namespace CacheStore

/-- A section holds a file or a link under a name, or it would if folders were made. -/
def MayHold (store : CacheStore) (t : FileTree) (part name : String) (node : Node) : Prop :=
  (∀ entries, node ≠ .folder entries) ∧ ∃ grown place entries, t.Founds grown ∧
    grown.locate (store.sectionPath part).text = .ok ⟨place, some (.folder entries)⟩ ∧
    childNamed? (name ++ ".json") entries = some node

/-- All that a section holds, or would hold if folders were made, are files with bytes of a kind. -/
def HoldsOnly (store : CacheStore) (t : FileTree) (part : String) (kind : Bytes → Prop) : Prop :=
  ∀ name node, store.MayHold t part name node → ∃ bytes time, node = .file bytes time ∧ kind bytes

/-- A section holds nothing, and would hold nothing if folders were made. -/
def IsVacant (store : CacheStore) (t : FileTree) (part : String) : Prop :=
  ∀ name node, ¬store.MayHold t part name node

variable {store : CacheStore} {t t' : FileTree} {part name : String} {node : Node} {bytes : Bytes}
  {now : Int} {kind : Bytes → Prop}

/-- A section that holds nothing holds only bytes of any kind. -/
theorem IsVacant.holdsOnly (h : store.IsVacant t part) : store.HoldsOnly t part kind :=
  fun name node hmay => absurd hmay (h name node)

/-- What holds only bytes of a kind holds only bytes of every wider kind. -/
theorem HoldsOnly.mono {kind' : Bytes → Prop} (h : store.HoldsOnly t part kind)
    (hkind : ∀ bytes, kind bytes → kind' bytes) : store.HoldsOnly t part kind' := by
  intro name node hmay
  obtain ⟨bytes, time, rfl, hbytes⟩ := h name node hmay
  exact ⟨bytes, time, rfl, hkind bytes hbytes⟩

/-- What a section holds is in a place of the tree. Where it is depends on links, and does not
    matter here. -/
theorem MayHold.exists_place (h : store.MayHold t part name node) :
    ∃ place, t.root.find? (place ++ [name ++ ".json"]) = some node := by
  obtain ⟨hleaf, grown, place, entries, hfounds, hlocate, hchild⟩ := h
  refine ⟨place, hfounds.find?_leaf hleaf ?_⟩
  rw [find?_concat (node_of_locate hlocate).1.symm, hchild]

/-- A section of a tree that has nothing under the name of a slot holds nothing. This is how a
    section is shown to be vacant without following links. -/
theorem isVacant_of_find?
    (h : ∀ place name node, (∀ entries, node ≠ .folder entries) →
      t.root.find? (place ++ [name ++ ".json"]) ≠ some node) : store.IsVacant t part := by
  intro name node hmay
  obtain ⟨place, hplace⟩ := hmay.exists_place
  exact h place name node hmay.1 hplace

/-- Making folders adds nothing. A new folder is empty. -/
theorem MayHold.of_founds (hfounds : t.Founds t') (h : store.MayHold t' part name node) :
    store.MayHold t part name node := by
  obtain ⟨hleaf, grown, place, entries, hmore, h⟩ := h
  exact ⟨hleaf, grown, place, entries, hfounds.trans hmore, h⟩

/-- A file that is put in a place adds nothing but itself. It may be somewhere else than it seems,
    since links may lead there. -/
theorem MayHold.put {place : List String} {content : Bytes} {time : Int}
    (hput : ({ t with root := t.root.put (some (.file content time)) place } : FileTree).root.find?
      place = some (.file content time))
    (h : store.MayHold { t with root := t.root.put (some (.file content time)) place } part name
      node) :
    ((∃ above, place = above ++ [name ++ ".json"]) ∧ node = .file content time) ∨
      store.MayHold t part name node := by
  obtain ⟨hleaf, grown, above, entries, hfounds, hlocate, hchild⟩ := h
  have hfolder := (node_of_locate hlocate).1.symm
  have hfound := find?_concat hfolder (name ++ ".json")
  rw [hchild] at hfound
  have hfile := hfounds.find? hput (fun _ => nofun)
  by_cases hplace : place = above ++ [name ++ ".json"]
  · subst hplace
    rw [hfile] at hfound
    exact .inl ⟨⟨above, rfl⟩, (Option.some.inj hfound).symm⟩
  · -- elsewhere the same is found without the file
    right
    obtain ⟨t', ht', halike⟩ := hfounds.replay hput (alikeOutside_put t _ place)
    have hnot : ¬place <+: above ++ [name ++ ".json"] := not_prefix_of_file hfile hfound hplace
    have habove : ¬place <+: above := fun hle => hnot (hle.trans (List.prefix_append _ _))
    have hlocate' := halike.locate hfile hlocate habove
    obtain ⟨entries', hfolder'⟩ := outlineAt?_eq_folder_iff.mp
      ((halike.outline above habove).symm.trans (outlineAt?_eq_folder_iff.mpr ⟨entries, hfolder⟩))
    rw [hfolder'] at hlocate'
    refine ⟨hleaf, t', above, entries', ht', hlocate', ?_⟩
    rw [← find?_concat hfolder', ← outlineAt?_eq_some_iff hleaf, ← halike.outline _ hnot,
      outlineAt?_eq_some_iff hleaf, hfound]

/-- A write adds the file that is written, and nothing else. The folder that is made for it may be
    new, and then it is empty. -/
theorem MayHold.write {other : String} (hpart : IsPart part) (hname : IsSlot name)
    (hspelled : store.folder.IsSpelled)
    (h : store.MayHold (store.write t part name bytes now).tree part other node) :
    node = .file bytes now ∨ store.MayHold t part other node := by
  rcases write_cases store t hpart hname hspelled bytes now with
    heq | ⟨made, hmake, heq | ⟨place, entries, hsection, _, heq⟩⟩
  · rw [heq] at h
    exact .inr h
  · rw [heq] at h
    exact .inr (h.of_founds (founds_of_makeFolders hmake))
  · rw [heq] at h
    have hput := find?_put_self (node_of_locate hsection).1.symm (name ++ ".json")
      (.file bytes now) []
    rw [List.append_nil] at hput
    rcases MayHold.put hput h with ⟨_, rfl⟩ | hold
    · exact .inl rfl
    · exact .inr (hold.of_founds (founds_of_makeFolders hmake))

/-- A write adds the bytes that are written, and no others. This is the step by which what a cache
    holds is followed through a run. -/
theorem HoldsOnly.write (hpart : IsPart part) (hname : IsSlot name)
    (hspelled : store.folder.IsSpelled) (h : store.HoldsOnly t part kind) (bytes : Bytes)
    (now : Int) :
    store.HoldsOnly (store.write t part name bytes now).tree part
      fun other => other = bytes ∨ kind other := by
  intro other node hmay
  rcases hmay.write hpart hname hspelled with rfl | hold
  · exact ⟨bytes, now, rfl, .inl rfl⟩
  · obtain ⟨old, time, rfl, hkind⟩ := h other node hold
    exact ⟨old, time, rfl, .inr hkind⟩

/-- Only bytes of the kind are read. Nothing else could have been put there. -/
theorem HoldsOnly.read (hpart : IsPart part) (hname : IsSlot name)
    (hspelled : store.folder.IsSpelled) (h : store.HoldsOnly t part kind)
    (hread : store.read t part name = .ok (some bytes)) : kind bytes := by
  have hbytes : t.read (store.path part name).text = .ok bytes := by
    unfold CacheStore.read at hread
    split at hread
    · rename_i found heq
      rw [heq, Option.some.inj (Except.ok.inj hread)]
    · cases hread
    · cases hread
  rw [path_eq hpart hname] at hbytes
  obtain ⟨names, time, hlocate⟩ := read_ok_iff.mp hbytes
  -- A path that leads to a file has no NUL.
  have hclean : ((store.folder.child part).child (name ++ ".json")).IsClean := by
    refine (((hspelled.child hpart.isName).child hname.isPart.isName).isClean_or_nul
      (by simp [Path.child])).resolve_right fun hnul => ?_
    rw [(locate_eq_nul_iff _ true).mpr hnul] at hlocate
    cases hlocate
  have hsection : (store.folder.child part).IsClean :=
    ⟨by simp [Path.child], fun n hn => hclean.isName n (List.mem_append_left _ hn)⟩
  obtain ⟨hsize, stop, links, hreach, hwalk⟩ := exists_reaches_of_locate hclean hlocate
  obtain ⟨hdown, entries, hfolder⟩ :=
    exists_folder_of_walk hname.isPart.isName.1 hname.isPart.ne_up hwalk
  have hmay : ∀ node, (∀ inner, node ≠ .folder inner) →
      childNamed? (name ++ ".json") entries = some node → store.MayHold t part name node := by
    refine fun node hleaf hchild => ⟨hleaf, t, stop.reverse, entries, .refl, ?_, hchild⟩
    rw [sectionPath_eq hpart]
    exact hreach.locate hsection
      (Nat.lt_trans (Path.size_text_lt_child hsection _) hsize) hfolder
  have hlink : ∀ target, childNamed? (name ++ ".json") entries ≠ some (.link target) := by
    intro target hchild
    obtain ⟨_, _, heq, _⟩ := h name (.link target) (hmay _ (fun _ => Node.noConfusion) hchild)
    cases heq
  rw [walk_last hfolder hdown (.inr hlink)] at hwalk
  have hchild := (Place.mk.inj (Except.ok.inj hwalk)).2
  obtain ⟨_, _, heq, hkind⟩ := h name (.file bytes time) (hmay _ (fun _ => Node.noConfusion) hchild)
  obtain ⟨rfl, rfl⟩ := Node.file.inj heq
  exact hkind

/-- A write to a section without links leaves all links as they are. For it replaces a file, or
    nothing. -/
theorem HoldsOnly.linksAlike_write (hpart : IsPart part) (hname : IsSlot name)
    (hspelled : store.folder.IsSpelled) (h : store.HoldsOnly t part kind) (bytes : Bytes)
    (now : Int) :
    t.LinksAlike (store.write t part name bytes now).tree := by
  rcases write_cases store t hpart hname hspelled bytes now with
    heq | ⟨made, hmake, heq | ⟨place, entries, hsection, hfolder, heq⟩⟩
  · rw [heq]
    exact .refl t
  · rw [heq]
    exact (founds_of_makeFolders hmake).linksAlike
  · rw [heq]
    have hfounds := founds_of_makeFolders hmake
    refine hfounds.linksAlike.trans
      (linksAlike_put (node_of_locate hsection).1.symm rfl fun old hold => ?_)
    -- What is replaced is a file.
    have hleaf : ∀ inner, old ≠ .folder inner := by
      rintro inner rfl
      cases hfolder _ hold
    have hmay : store.MayHold t part name old :=
      ⟨hleaf, made, place, entries, hfounds, hsection, hold⟩
    obtain ⟨_, _, rfl, _⟩ := h name old hmay
    rfl

end CacheStore

end Backlog
