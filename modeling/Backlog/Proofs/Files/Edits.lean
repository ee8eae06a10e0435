import Backlog.Proofs.Files.Folders
import Backlog.Proofs.Outcome

namespace Backlog.Files

/-!
# Changes and the ways that they leave

What files do while nobody looks is described by what it leaves: which folders and links are still
there. A single change adds something or takes something away, and in both cases the ways that led
directly to a folder are followed through it. Changes one after another are then a matter of
induction.

* `FileTree.Grows` — folders stay folders, and links stay as they are;
* `FileTree.Shrinks` — there are no folders and links that were not there before;
* `FileTree.Edit` — single changes: something is written, dated, made or removed;
* `FileTree.Edit.grows_or_shrinks` — each of them is of one of the two kinds;
* `Direct.grows`, `Direct.shrinks` — in either case a path that led directly to a folder still does
  so, if it leads to a folder at all.
-/

open Node

namespace FileTree

/-- Whatever can be passed stays so: folders stay folders, and links stay as they are. -/
structure Grows (t t' : FileTree) : Prop where
  here : t'.here = t.here
  passage : ∀ q passage, t.root.passageAt? q = some passage → t'.root.passageAt? q = some passage
  tidy : t.root.Tidy → t'.root.Tidy

theorem Grows.refl (t : FileTree) : t.Grows t := ⟨rfl, fun _ _ h => h, id⟩

/-- Below what cannot be passed there is nothing that can. A file has no entries, and a sealed
    folder shows none. -/
theorem passageAt?_below {root : Node} {place : List String} (h : root.passageAt? place = none)
    (more : List String) : root.passageAt? (place ++ more) = none := by
  rw [passageAt?, find?_append]
  cases hplace : root.find? place with
  | none => rfl
  | some node =>
    cases node with
    | file content time => cases more <;> rfl
    | link _ | folder _ | sealed _ => simp [passageAt?, hplace, passage?] at h

/-- A change in a place that cannot be passed. No way leads through such a place, so that none can
    be lost. -/
theorem grows_put {t : FileTree} {place : List String} (h : t.root.passageAt? place = none)
    {value : Option Node} (hvalue : ∀ node ∈ value, Tidy node) :
    t.Grows { t with root := t.root.put value place } where
  here := rfl
  passage := by
    intro q passage hq
    have hplace : ¬place <+: q := by
      rintro ⟨more, rfl⟩
      rw [passageAt?_below h] at hq
      cases hq
    rw [passageAt?_put hplace, hq]
  tidy htidy := htidy.put hvalue place

/-- Every text is at least one name, though it may be an empty one. -/
theorem namesOf_ne_nil (text : String) : namesOf text ≠ [] := by
  have hsplit : ∀ cs, splitSlashes cs ≠ [] := by
    intro cs
    cases cs with
    | nil => exact List.cons_ne_nil _ _
    | cons c cs =>
      rw [splitSlashes]
      repeat' split
      all_goals exact List.cons_ne_nil _ _
  simpa [namesOf] using hsplit text.toList

/-- A walk gives what it finds; if links are followed at its end, that is no link. The place that a
    walk gives is therefore a place of the tree, and not only a name for it. -/
theorem node_of_walk {root : Node} {followLast : Bool} (links : Nat) (start rest : List String)
    {place : Place} (hstart : rest = [] → ∀ target, root.find? start.reverse ≠ some (.link target))
    (h : walk root followLast links start rest = .ok place) :
    place.node = root.find? place.names ∧
      (followLast = true → ∀ target, place.node ≠ some (.link target)) := by
  match rest with
  | [] =>
    rw [walk] at h
    obtain rfl := Except.ok.inj h
    exact ⟨rfl, fun _ => hstart rfl⟩
  | name :: rest =>
    cases walkStep h with
    | idle hfound _ h | slash hfound _ h =>
      refine node_of_walk links start rest (fun _ target hlink => ?_) h
      rw [passageAt?_eq_link_iff.mpr hlink] at hfound
      cases hfound
    | up hfound _ h =>
      obtain ⟨above, habove⟩ := exists_folder_tail hfound
      exact node_of_walk links start.tail rest (fun _ _ => by simp [habove]) h
    | missing hfound _ hchild _ hplace =>
      rw [hplace, List.reverse_cons, find?_concat hfound, hchild]
      exact ⟨rfl, fun _ _ => by simp⟩
    | stay hfound _ hchild _ hfollow hplace =>
      rw [hplace, List.reverse_cons, find?_concat hfound, hchild, hfollow]
      exact ⟨rfl, fun hlast => by cases hlast⟩
    | @follow links _ _ _ _ _ hwalk =>
      exact node_of_walk links _ _ (fun hnil => by simp [namesOf_ne_nil] at hnil) hwalk
    | down hfound _ hchild hlink h =>
      refine node_of_walk links (name :: start) rest (fun _ target => ?_) h
      rw [List.reverse_cons, find?_concat hfound, hchild]
      exact fun heq => hlink target (Option.some.inj heq)
termination_by (links, rest.length)

/-- What a path leads to is found in the place that it leads to; if links are followed at its end,
    it is no link. -/
theorem node_of_locate {t : FileTree} {text : String} {followLast : Bool} {place : Place}
    (h : t.locate text followLast = .ok place) :
    place.node = t.root.find? place.names ∧
      (followLast = true → ∀ target, place.node ≠ some (.link target)) := by
  unfold locate at h
  repeat' split at h
  all_goals first
    | cases h
    | exact node_of_walk _ _ _ (fun hnil => absurd hnil (namesOf_ne_nil text)) h

/-! ### Single changes -/

/-- One change: something is written, dated, made or removed. -/
inductive Edit (t : FileTree) : FileTree → Prop
  | write {text : String} {content : Text.Bytes} {time : Int} {t' : FileTree}
      (h : t.write text content time = .ok t') : Edit t t'
  | setTime {text : String} {time : Int} {t' : FileTree}
      (h : t.setTime text time = .ok t') : Edit t t'
  | makeFolder {text : String} {t' : FileTree} (h : t.makeFolder text = .ok t') : Edit t t'
  | makeLink {text target : String} {t' : FileTree} (h : t.makeLink text target = .ok t') :
      Edit t t'
  | remove {text : String} {t' : FileTree} (h : t.remove text = .ok t') : Edit t t'
  | removeTree (text : String) : Edit t (t.removeTree text)

/-- What is neither a folder nor a link cannot be passed. This covers files, and places where there
    is nothing. -/
theorem passageAt?_of_node {root : Node} {names : List String} {node : Option Node}
    (hnode : node = root.find? names) (hfolder : ∀ inner ∈ node, isFolderNode inner = false)
    (hlink : ∀ target, node ≠ some (.link target)) : root.passageAt? names = none := by
  rw [passageAt?, ← hnode]
  rcases node with _ | _ | target | entries | listed
  · rfl
  · rfl
  · exact absurd rfl (hlink target)
  · cases hfolder _ rfl
  · cases hfolder _ rfl

theorem tidy_link (target : String) : Tidy (.link target) := by
  intro names entries h
  cases names <;> cases h

theorem tidy_folder_nil : Tidy (.folder []) :=
  tidy_folder_iff.mpr ⟨List.nodup_nil, fun _ _ => nofun⟩

/-- There are no folders and links that were not there before. -/
structure Shrinks (t t' : FileTree) : Prop where
  here : t'.here = t.here
  passage : ∀ q passage, t'.root.passageAt? q = some passage → t.root.passageAt? q = some passage
  tidy : t'.root.Tidy

/-- In an empty folder there is nothing to be passed but the folder. An emptied folder leaves one
    way open, the one that ends with it. -/
theorem passageAt?_folder_nil {more : List String} {passage : Passage}
    (h : (Node.folder []).passageAt? more = some passage) : more = [] ∧ passage = .folder := by
  cases more with
  | nil => exact ⟨rfl, (Option.some.inj h).symm⟩
  | cons name more => cases h

/-- Emptying a place, or a folder, takes away what is there, or below, and nothing else. These are
    the changes that clear a cache, in whole or a section of it. -/
theorem shrinks_put {t : FileTree} (htidy : t.root.Tidy) {names : List String} {node : Node}
    (hnode : t.root.find? names = some node) {value : Option Node}
    (hvalue : value = none ∨ value = some (.folder []) ∧ ∃ entries, node = .folder entries) :
    t.Shrinks { t with root := t.root.put value names } where
  here := rfl
  passage := by
    intro q passage hq
    by_cases hbelow : names <+: q
    · obtain ⟨more, rfl⟩ := hbelow
      rcases hvalue with rfl | ⟨rfl, entries, rfl⟩
      · rcases names.eq_nil_or_concat with rfl | ⟨above, name, rfl⟩
        · exact hq
        · rw [List.concat_eq_append] at hnode hq
          obtain ⟨inner, habove, _⟩ := exists_folder_above hnode
          rw [passageAt?, find?_put_none habove name (htidy above inner habove) more] at hq
          cases hq
      · have hempty : (Node.folder []).passageAt? more = some passage := by
          rcases names.eq_nil_or_concat with rfl | ⟨above, name, rfl⟩
          · exact hq
          · rw [List.concat_eq_append] at hnode hq
            obtain ⟨inner, habove, _⟩ := exists_folder_above hnode
            rwa [passageAt?, find?_put_self habove name (.folder []) more] at hq
        obtain ⟨rfl, rfl⟩ := passageAt?_folder_nil hempty
        rw [List.append_nil, passageAt?_eq_folder_iff]
        exact ⟨entries, hnode⟩
    · rwa [passageAt?_put hbelow] at hq
  tidy := by
    refine htidy.put ?_ names
    rcases hvalue with rfl | ⟨rfl, _⟩
    · rintro _ ⟨⟩
    · rintro _ ⟨⟩
      exact tidy_folder_nil

/-- What takes the place of a file, or comes to be where nothing was, takes no folder or link away.
    These are the changes that write a file. -/
theorem grows_put_of_locate {t : FileTree} {text : String} {followLast : Bool} {names : List String}
    {node : Option Node} (hlocate : t.locate text followLast = .ok ⟨names, node⟩)
    (hfolder : ∀ inner ∈ node, isFolderNode inner = false)
    (hlink : followLast = true ∨ ∀ target, node ≠ some (.link target)) {value : Node}
    (hvalue : value.Tidy) : t.Grows { t with root := t.root.put (some value) names } := by
  obtain ⟨hnode, hnot⟩ := node_of_locate hlocate
  refine grows_put (passageAt?_of_node hnode hfolder ?_) ?_
  · exact hlink.elim hnot id
  · rintro _ ⟨⟩
    exact hvalue

/-- No single change both makes passages and takes some away. A single change either writes or
    removes; moving would be two of them. -/
theorem Edit.grows_or_shrinks {t t' : FileTree} (h : t.Edit t') (htidy : t.root.Tidy) :
    t.Grows t' ∨ t.Shrinks t' := by
  -- What is written, dated or made is put where nothing could be passed.
  cases h with
  | @write text content time _ h =>
    left
    obtain ⟨⟨names, node⟩, hlocate, h⟩ := bind_ok_iff.mp h
    dsimp only at h
    split at h
    · cases h
    · cases h
    · rename_i hfolder hsealed
      obtain rfl := Except.ok.inj h
      refine grows_put_of_locate hlocate (fun inner hinner => ?_) (.inl rfl) (tidy_file content time)
      obtain rfl := Option.mem_def.mp hinner
      cases inner with
      | file _ _ | link _ => rfl
      | folder entries => exact absurd rfl (hfolder entries)
      | sealed listed => exact absurd rfl (hsealed listed)
  | @setTime text time _ h =>
    left
    obtain ⟨⟨names, node⟩, hlocate, h⟩ := bind_ok_iff.mp h
    dsimp only at h
    split at h
    · cases h
    · rename_i content since
      obtain rfl := Except.ok.inj h
      exact grows_put_of_locate hlocate (fun _ hinner => by cases hinner; rfl) (.inl rfl)
        (tidy_file content time)
    · obtain rfl := Except.ok.inj h
      exact .refl t
  | makeFolder h =>
    left
    obtain ⟨names, hlocate, rfl⟩ := makeFolder_ok_iff.mp h
    exact grows_put_of_locate hlocate nofun (.inr fun _ => nofun) tidy_folder_nil
  | @makeLink text target _ h =>
    left
    obtain ⟨⟨names, node⟩, hlocate, h⟩ := bind_ok_iff.mp h
    dsimp only at h
    split at h
    · cases h
    · obtain rfl := Except.ok.inj h
      exact grows_put_of_locate hlocate nofun (.inr fun _ => nofun) (tidy_link target)
  | @remove text _ h =>
    right
    obtain ⟨place, hlocate, h⟩ := bind_ok_iff.mp h
    split at h
    · cases h
    · cases h
    · cases h
    · rename_i hnode
      obtain rfl := Except.ok.inj h
      exact shrinks_put htidy ((node_of_locate hlocate).1.symm.trans hnode) (.inl rfl)
  | removeTree text =>
    rw [FileTree.removeTree]
    split
    · rename_i names entries hlocate
      right
      refine shrinks_put htidy (node_of_locate hlocate).1.symm ?_
      split
      · exact .inl rfl
      · exact .inr ⟨rfl, entries, rfl⟩
    · exact .inl (.refl t)

/-- A tree that is tidy stays so under every single change. -/
theorem Edit.tidy {t t' : FileTree} (h : t.Edit t') (htidy : t.root.Tidy) : t'.root.Tidy :=
  (h.grows_or_shrinks htidy).elim (fun hgrows => hgrows.tidy htidy) Shrinks.tidy

/-! ### What becomes of paths -/

/-- What takes nothing away in two steps takes nothing away. -/
theorem Grows.trans {t t' t'' : FileTree} (h : t.Grows t') (h' : t'.Grows t'') : t.Grows t'' where
  here := h'.here.trans h.here
  passage := fun q passage hq => h'.passage q passage (h.passage q passage hq)
  tidy := fun ht => h'.tidy (h.tidy ht)

/-- Making the folders of a path takes nothing away. Each folder is made where nothing was. -/
theorem FoldersMade.grows {t made : FileTree} {p : Path} (h : t.FoldersMade p made) :
    t.Grows made := by
  induction h with
  | already _ | base _ => exact .refl t
  | newBelow _ hmade ih =>
    obtain ⟨names, hlocate, rfl⟩ := makeFolder_ok_iff.mp hmade
    exact ih.trans
      (grows_put_of_locate hlocate nofun (.inr fun _ => nofun) tidy_folder_nil)

/-- A path that leads directly to a folder still does so if nothing is taken away. A way without
    links is a row of folders, and each of them is still there. -/
theorem Direct.grows {t t' : FileTree} {p : Path} {place : List String} (h : t.Direct p place)
    (hgrows : t.Grows t') : t'.Direct p place :=
  h.mono hgrows.here (hgrows.passage _ _ h.folder) fun q _ => hgrows.passage q

/-- A path that leads directly to a folder still does so if something is taken away, unless it
    leads to no folder any more. The hypothesis is what the program asks before it uses the
    folder again. -/
theorem Direct.shrinks {t t' : FileTree} {p : Path} {place : List String} (h : t.Direct p place)
    (hclean : p.IsClean) (hshrinks : t.Shrinks t') (htrue : t'.isFolder p.text = .ok true) :
    t'.Direct p place := by
  obtain ⟨stop, ⟨links, hway⟩, hplace⟩ := h.reach
  obtain ⟨names, node, hlocate, hnode⟩ := isFolder_ok_true_iff.mp htrue
  have hp := p.child_parent hclean.ne_nil
  have hstart : t'.startOf p.parent = t.startOf p.parent := by
    rw [startOf, startOf, hshrinks.here]
  -- The way that is left is the one that was there.
  rw [← hp] at hlocate hclean
  obtain ⟨hsize, stop', links', ⟨left, hleft⟩, _⟩ := exists_reaches_of_locate hclean hlocate
  rw [hstart] at hleft
  have hkept := hway.within hleft hshrinks.passage
  refine ⟨h.size, h.isDown, ⟨stop, ⟨links, by rwa [hstart]⟩, hplace⟩, ?_⟩
  have hwalk : walk t'.root true links stop [p.name] = .ok ⟨names, some node⟩ := by
    rw [locate_text t' hclean, if_neg (Nat.not_le.mpr hsize)] at hlocate
    rw [← hlocate, ← hkept.walk_append (.inl (by simp)), ← hstart]
    rfl
  obtain ⟨_, above, habove⟩ := exists_folder_of_walk h.isDown.isIdle h.isDown.ne_up hwalk
  have hpassage := childNamed?_eq_of_passage p.name habove
  rw [← hplace] at hpassage
  have hlink : ∀ target, childNamed? p.name above ≠ some (.link target) := by
    intro target hlink
    rw [hlink] at hpassage
    have hbefore := hshrinks.passage _ _ hpassage.symm
    rw [h.folder] at hbefore
    cases hbefore
  rw [walk_last habove h.isDown (.inr hlink)] at hwalk
  rw [(Place.mk.inj (Except.ok.inj hwalk)).2] at hpassage
  cases node with
  | file _ _ | link _ => cases hnode
  | folder _ => exact hpassage.symm
  | sealed _ =>
    have hbefore := hshrinks.passage _ _ hpassage.symm
    rw [h.folder] at hbefore
    cases hbefore

end FileTree

end Backlog.Files
