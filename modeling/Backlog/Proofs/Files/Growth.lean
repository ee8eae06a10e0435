import Backlog.Proofs.Files.Edits

namespace Backlog.Files

/-!
# Paths in a tree that grows

While a tree grows, a path to a file leads to the same file, provided that links are as they were;
and so does a path to a place where there is still no link. This carries what was read over to the
tree that a write to the cache leaves.

* `FileTree.walk_of_passages` — a walk leads to the same place as long as what could be passed is
  passed as before, and no link comes to stand in the place;
* `FileTree.read_write` — what is written to a file is read again;
* `FileTree.Founds` — folders are made where nothing was; `founds_of_makeFolders` — so it is when the
  folders of a path are made;
* `FileTree.Founds.locate` — a path to a file leads to the same file then.
-/

open Node

namespace FileTree

/-- A walk leads to the same place as long as what could be passed is passed as before, and no link
    comes to stand in the place. What comes to be elsewhere is not met on the way. -/
theorem walk_of_passages {root root' : Node}
    (hpass : ∀ q passage, root.passageAt? q = some passage → root'.passageAt? q = some passage)
    (links : Nat) (start rest : List String) {place : Place}
    (h : walk root true links start rest = .ok place)
    (hlink : ∀ target, root'.find? place.names ≠ some (.link target)) :
    walk root' true links start rest = .ok ⟨place.names, root'.find? place.names⟩ := by
  have hfolders : ∀ {q entries}, root.find? q = some (.folder entries) →
      root'.passageAt? q = some .folder :=
    fun hfound => hpass _ _ (passageAt?_eq_folder_iff.mpr ⟨_, hfound⟩)
  match rest with
  | [] =>
    rw [walk] at h ⊢
    obtain rfl := Except.ok.inj h
    rfl
  | name :: rest =>
    cases walkStep h with
    | idle hfolder hidle h =>
      rw [walk_idle (hpass _ _ hfolder) hidle]
      exact walk_of_passages hpass links start rest h hlink
    | slash hsealed hempty h =>
      rw [hempty, walk_slash (hpass _ _ hsealed)]
      exact walk_of_passages hpass links start rest h hlink
    | up hfound hup h =>
      rw [hup, walk_up (hfolders hfound)]
      exact walk_of_passages hpass links start.tail rest h hlink
    | stay _ _ _ _ hfollow _ => cases hfollow
    | missing hfound hname _ hrest hplace =>
      obtain ⟨entries', hfound'⟩ := passageAt?_eq_folder_iff.mp (hfolders hfound)
      subst hrest hplace
      have hchild' := find?_concat hfound' name
      rw [List.reverse_cons] at hlink ⊢
      rw [walk_last hfound' hname (.inr fun target => hchild' ▸ hlink target), hchild']
    | @follow links _ target hfound hname hchild hwalk =>
      obtain ⟨entries', hfound'⟩ := passageAt?_eq_folder_iff.mp (hfolders hfound)
      have hchild' : childNamed? name entries' = some (.link target) := by
        rw [← find?_concat hfound, ← passageAt?_eq_link_iff] at hchild
        rw [← find?_concat hfound', ← passageAt?_eq_link_iff]
        exact hpass _ _ hchild
      rw [walk_down hfound' hname, hchild']
      simpa using walk_of_passages hpass links _ _ hwalk hlink
    | down hfound hname hchild hinner h =>
      obtain ⟨entries', hfound'⟩ := passageAt?_eq_folder_iff.mp (hfolders hfound)
      cases rest with
      | nil =>
        have hchild' := find?_concat hfound' name
        rw [walk] at h
        obtain rfl := Except.ok.inj h
        rw [List.reverse_cons] at hlink ⊢
        rw [walk_last hfound' hname (.inr fun target => hchild' ▸ hlink target), hchild']
      | cons next rest =>
        -- More is walked along, so the name is that of a folder before and after.
        have hpassage : ∃ passage, root.passageAt? (name :: start).reverse = some passage ∧
            ∀ target, passage ≠ .link target :=
          (walkStep h).passage.elim (fun hp => ⟨_, hp, by simp⟩) (fun hp => ⟨_, hp, by simp⟩)
        obtain ⟨passage, hbefore, hnot⟩ := hpassage
        have hafter := hpass _ _ hbefore
        rw [List.reverse_cons, passageAt?, find?_concat hfound'] at hafter
        obtain ⟨inner', hchild', hinner'⟩ := Option.bind_eq_some_iff.mp hafter
        rw [walk_inner hfound' hname hchild' ?_]
        · exact walk_of_passages hpass links (name :: start) (next :: rest) h hlink
        · rintro target rfl
          exact hnot target (Option.some.inj hinner').symm
termination_by (links, rest.length)

variable {t t' : FileTree} {text : String} {place : Place}

/-- Only a text that can be a path leads anywhere, and then by its names. The three conditions on
    the text are those that the system checks before it looks. -/
theorem locate_ok_iff {followLast : Bool} :
    t.locate text followLast = .ok place ↔
      (text.toList.contains '\x00' = false ∧ text.isEmpty = false ∧
        text.utf8ByteSize < maxPathSize) ∧
      walk t.root followLast maxLinks (if text.startsWith "/" then [] else t.here.reverse)
        (namesOf text) = .ok place := by
  unfold FileTree.locate
  by_cases hnul : text.toList.contains '\x00' = true
  · rw [if_pos hnul]
    exact ⟨nofun, fun h => absurd hnul (by rw [h.1.1]; exact Bool.false_ne_true)⟩
  by_cases hempty : text.isEmpty = true
  · rw [if_neg hnul, if_pos hempty]
    exact ⟨nofun, fun h => absurd hempty (by rw [h.1.2.1]; exact Bool.false_ne_true)⟩
  by_cases hlong : maxPathSize ≤ text.utf8ByteSize
  · rw [if_neg hnul, if_neg hempty, if_pos hlong]
    exact ⟨nofun, fun h => absurd hlong (Nat.not_le.mpr h.1.2.2)⟩
  rw [if_neg hnul, if_neg hempty, if_neg hlong]
  exact ⟨fun h => ⟨⟨by simpa using hnul, by simpa using hempty, Nat.not_le.mp hlong⟩, h⟩, And.right⟩

/-- A path leads to the same place while the tree grows, if no link comes to stand there. It may
    lead to something else than before, if that was put into the place. -/
theorem Grows.locate (h : t.Grows t') (hlocate : t.locate text = .ok place)
    (hlink : ∀ target, t'.root.find? place.names ≠ some (.link target)) :
    t'.locate text = .ok ⟨place.names, t'.root.find? place.names⟩ := by
  rw [locate_ok_iff] at hlocate ⊢
  rw [h.here]
  exact ⟨hlocate.1,
    walk_of_passages h.passage _ _ _ hlocate.2 hlink⟩

/-- What is put in the place of something is found there. The place was there already, so that its
    folder is as well. -/
theorem find?_put_of_find? {root node : Node} {names : List String}
    (h : root.find? names = some node) (value : Node) :
    (put (some value) root names).find? names = some value := by
  rcases names.eq_nil_or_concat with rfl | ⟨above, name, rfl⟩
  · rfl
  · rw [List.concat_eq_append] at h ⊢
    obtain ⟨entries, habove, _⟩ := exists_folder_above h
    simpa [find?] using find?_put_self habove name value []

/-- A file that can be read can be written. Only folders refuse to be written, and they refuse to be
    read. -/
theorem exists_write_of_read {old : Text.Bytes} (hread : t.read text = .ok old)
    (content : Text.Bytes) (time : Int) : ∃ t', t.write text content time = .ok t' := by
  obtain ⟨names, since, hlocate⟩ := read_ok_iff.mp hread
  rw [write, hlocate]
  exact ⟨_, rfl⟩

/-- What is written to a file takes its place. The way to the place, through links or not, is the
    one that reading takes. -/
theorem exists_place_of_write {old content : Text.Bytes} {time : Int} (hread : t.read text = .ok old)
    (h : t.write text content time = .ok t') :
    ∃ names since, t.locate text = .ok ⟨names, some (.file old since)⟩ ∧
      t' = { t with root := t.root.put (some (.file content time)) names } := by
  obtain ⟨names, since, hlocate⟩ := read_ok_iff.mp hread
  obtain ⟨place, hplace, h⟩ := bind_ok_iff.mp h
  rw [hlocate] at hplace
  obtain rfl := Except.ok.inj hplace
  exact ⟨names, since, hlocate, (Except.ok.inj h).symm⟩

/-- What is written to a file is read again. The path is followed again, and meets the same
    links. -/
theorem read_write {old content : Text.Bytes} {time : Int} (hread : t.read text = .ok old)
    (h : t.write text content time = .ok t') : t'.read text = .ok content := by
  obtain ⟨names, since, hlocate, rfl⟩ := exists_place_of_write hread h
  have hfound := (node_of_locate hlocate).1
  have hgrows := grows_put_of_locate hlocate (fun _ hinner => by cases hinner; rfl) (.inl rfl)
    (tidy_file content time)
  have hput := find?_put_of_find? hfound.symm (.file content time)
  exact read_ok_iff.mpr ⟨names, time, by
    rw [hgrows.locate hlocate (by simp [hput]), hput]⟩

/-! ### New folders -/

/-- Folders are made one after the other, each below a folder where nothing was. -/
inductive Founds (t : FileTree) : FileTree → Prop
  | refl : Founds t t
  | step {t' : FileTree} {above : List String} {name : String} {entries : List (String × Node)}
      (h : Founds t t') (habove : t'.root.find? above = some (.folder entries))
      (hnone : childNamed? name entries = none) :
      Founds t { t' with root := t'.root.put (some (.folder [])) (above ++ [name]) }

theorem Founds.trans {t t' t'' : FileTree} (h : t.Founds t') (h' : t'.Founds t'') :
    t.Founds t'' := by
  induction h' with
  | refl => exact h
  | step _ habove hnone ih => exact .step ih habove hnone

theorem Founds.grows (h : t.Founds t') : t.Grows t' := by
  induction h with
  | refl => exact .refl t
  | @step t' above name entries _ habove hnone ih =>
    refine ih.trans (grows_put ?_ ?_)
    · rw [passageAt?, find?_concat habove, hnone]
      rfl
    · rintro _ ⟨⟩
      exact tidy_folder_nil

/-- Files and links stay as they are. New folders come where nothing was. -/
theorem Founds.find? {node : Node} {names : List String} (h : t.Founds t')
    (hfound : t.root.find? names = some node) (hnode : ∀ entries, node ≠ .folder entries) :
    t'.root.find? names = some node := by
  induction h with
  | refl => exact hfound
  | @step t' above name entries _ habove hnone ih =>
    rw [← ih]
    refine find?_put_of_apart ?_ ?_
    · refine not_prefix_of_find?_eq_none (by rw [find?_concat habove, hnone]) ?_
      rw [ih]
      exact Option.some_ne_none _
    · intro hprefix
      -- What is above the new folder is a folder.
      rcases List.prefix_concat_iff.mp hprefix with heq | habove'
      · rw [heq, find?_concat habove, hnone] at ih
        cases ih
      · obtain ⟨more, rfl⟩ := habove'
        rw [find?_append, ih, Option.bind_some] at habove
        cases more with
        | nil => exact hnode _ (Option.some.inj habove)
        | cons next more =>
          cases node with
          | folder entries => exact hnode entries rfl
          | file _ _ | link _ | sealed _ => cases habove

/-- A path to a file leads to the same file. Its content and its time are the same as well. -/
theorem Founds.locate {content : Text.Bytes} {time : Int} {names : List String}
    (h : t.Founds t') (hlocate : t.locate text = .ok ⟨names, some (.file content time)⟩) :
    t'.locate text = .ok ⟨names, some (.file content time)⟩ := by
  have hfound := h.find? (node_of_locate hlocate).1.symm (fun _ => nofun)
  rw [h.grows.locate hlocate (by simp [hfound]), hfound]

/-- Where a path leads to nothing, a folder is right above. Only the last name of a path may be
    missing. -/
theorem exists_above_of_walk {root : Node} {followLast : Bool} (links : Nat)
    (start rest : List String) {names : List String}
    (hstart : rest = [] → root.find? start.reverse ≠ none)
    (h : walk root followLast links start rest = .ok ⟨names, none⟩) :
    ∃ above name entries, names = above ++ [name] ∧ root.find? above = some (.folder entries) ∧
      childNamed? name entries = none := by
  match rest with
  | [] =>
    rw [walk] at h
    exact absurd (Place.mk.inj (Except.ok.inj h)).2 (hstart rfl)
  | name :: rest =>
    cases walkStep h with
    | idle hfound _ h | slash hfound _ h =>
      exact exists_above_of_walk links start rest (fun _ => ne_none_of_passageAt? hfound) h
    | up hfound _ h =>
      obtain ⟨above, habove⟩ := exists_folder_tail hfound
      exact exists_above_of_walk links start.tail rest (fun _ => habove ▸ Option.some_ne_none _) h
    | @missing _ entries hfound _ hchild _ hplace =>
      obtain ⟨rfl, _⟩ := Place.mk.inj hplace
      exact ⟨start.reverse, name, entries, List.reverse_cons, hfound, hchild⟩
    | stay _ _ _ _ _ hplace => cases (Place.mk.inj hplace).2
    | @follow links _ _ _ _ _ hwalk =>
      exact exists_above_of_walk links _ _ (fun hnil => by simp [namesOf_ne_nil] at hnil) hwalk
    | down hfound _ hchild _ h =>
      refine exists_above_of_walk links (name :: start) rest (fun _ => ?_) h
      rw [List.reverse_cons, find?_concat hfound, hchild]
      exact Option.some_ne_none _
termination_by (links, rest.length)

/-- Making one folder makes a folder where nothing was. -/
theorem founds_of_makeFolder {made : FileTree} (h : t.makeFolder text = .ok made) :
    t.Founds made := by
  obtain ⟨names, hlocate, rfl⟩ := makeFolder_ok_iff.mp h
  obtain ⟨above, name, entries, rfl, habove, hnone⟩ :=
    exists_above_of_walk _ _ _ (fun hnil => absurd hnil (namesOf_ne_nil text))
      (locate_ok_iff.mp hlocate).2
  exact .step .refl habove hnone

/-- Where a walk leads to something, it leads to something as well, maybe to a link, if links are
    not followed at the end. The names before the last are walked along in the same way. -/
theorem exists_node_of_walk {root : Node} (links : Nat) (start rest : List String)
    {names : List String} {node : Node}
    (h : walk root true links start rest = .ok ⟨names, some node⟩) :
    ∃ names' node', walk root false links start rest = .ok ⟨names', some node'⟩ := by
  match rest with
  | [] =>
    rw [walk] at h ⊢
    exact ⟨names, node, h⟩
  | name :: rest =>
    cases walkStep h with
    | idle hfolder hidle h =>
      rw [walk_idle hfolder hidle]
      exact exists_node_of_walk links start rest h
    | slash hsealed hempty h =>
      rw [hempty, walk_slash hsealed]
      exact exists_node_of_walk links start rest h
    | up hfound hup h =>
      rw [hup, walk_up (passageAt?_eq_folder_iff.mpr ⟨_, hfound⟩)]
      exact exists_node_of_walk links start.tail rest h
    | missing _ _ _ _ hplace => cases (Place.mk.inj hplace).2
    | stay _ _ _ _ hfollow _ => cases hfollow
    | @follow links _ target hfound hname hchild hwalk =>
      rw [walk_down hfound hname, hchild]
      dsimp only
      split
      · exact ⟨_, _, rfl⟩
      · exact exists_node_of_walk links _ _ hwalk
    | down hfound hname hchild hlink h =>
      rw [walk_inner hfound hname hchild hlink]
      exact exists_node_of_walk links (name :: start) rest h
termination_by (links, rest.length)

/-- Nothing is made where a folder is. The first attempt is refused, since something is there, and
    it is a folder. -/
theorem makeFolders_of_isFolder {p : Path} (h : t.isFolder p.text = .ok true) :
    t.makeFolders p = .ok t := by
  obtain ⟨names, node, hlocate, _⟩ := isFolder_ok_true_iff.mp h
  rw [locate_ok_iff] at hlocate
  obtain ⟨names', node', hwalk⟩ := exists_node_of_walk _ _ _ hlocate.2
  have hmake : t.makeFolder p.text = .error .exists := by
    rw [makeFolder, locate_ok_iff.mpr ⟨hlocate.1, hwalk⟩]
    rfl
  unfold makeFolders
  rw [hmake, h]

/-- No folders are made for a path with a NUL. The path above holds it as well, or the last attempt
    is refused. -/
theorem makeFolders_of_nul {p : Path} (h : '\x00' ∈ p.text.toList) :
    ∃ cause, t.makeFolders p = .error cause := by
  have hmake : t.makeFolder p.text = .error .nul := by
    rw [makeFolder, (locate_eq_nul_iff p.text false).mpr h]
    rfl
  have hfolder : t.isFolder p.text = .ok false := by
    rw [isFolder, leadsTo, stat_eq_nul_iff.mpr h]
    rfl
  unfold makeFolders
  rw [hmake, hfolder]
  exact ⟨_, rfl⟩

/-- Making the folders of a path makes folders where nothing was, and does nothing else. The
    induction follows the recursion, which goes up as far as folders are missing. -/
theorem founds_of_makeFolders {p : Path} {made : FileTree} (h : t.makeFolders p = .ok made) :
    t.Founds made := by
  rcases makeFolders_cases h with hmade | ⟨_, rfl⟩ | ⟨hne, above, habove, hmade | ⟨_, rfl⟩⟩
  · exact founds_of_makeFolder hmade
  · exact .refl
  · exact (founds_of_makeFolders habove).trans (founds_of_makeFolder hmade)
  · exact founds_of_makeFolders habove
termination_by p.names.length
decreasing_by
  all_goals
    simp only [Path.parent, List.length_dropLast]
    have := List.length_pos_iff.mpr hne
    omega

end FileTree

end Backlog.Files
