import Backlog.Proofs.Files.RealNames

namespace Backlog.Files

/-!
# Relative paths

The relative path between two folders goes up to where they part and down again. Between real paths
it can be followed, as no link turns a step up into something else.

* `Path.ofText_text` — a path is read from its text again;
* `Path.exists_from` — a relative path goes up from where two places part, and down again;
* `FileTree.IsRealPath.resolve_from` — so it leads from one real path to another, also by its text.
-/

namespace Path

/-- The slashes in front of a text, of which no more than two count. Two slashes in front are kept
    apart from one and three, as the standard for paths asks. -/
theorem leadingSlashes_eq {text : String} {slashes : Nat} {body : List Char} (hle : slashes ≤ 2)
    (htext : text.toList = List.replicate slashes '/' ++ body) (hbody : body.head? ≠ some '/') :
    leadingSlashes text = slashes := by
  have hno : ∀ rest, body ≠ '/' :: rest := by
    rintro rest rfl
    exact hbody rfl
  unfold leadingSlashes
  rw [htext]
  match slashes, hle with
  | 0, _ | 1, _ | 2, _ =>
    cases body with
    | nil => rfl
    | cons c rest =>
      have hc : c ≠ '/' := fun heq => hno rest (heq ▸ rfl)
      simp [List.replicate, hc]

/-- A path is read from its text again. With more than two slashes it would come back with one. -/
theorem ofText_text {p : Path} (h : p.IsSpelled) (hle : p.slashes ≤ 2) : ofText p.text = p := by
  obtain ⟨body, htext, hhead, hnames⟩ := h.exists_body
  have hslashes : leadingSlashes p.text = p.slashes := leadingSlashes_eq hle htext hhead
  have hidle : (List.replicate p.slashes "").filter (fun name => !isIdle name) = [] :=
    List.filter_eq_nil_iff.mpr fun name hname => by
      rw [List.eq_of_mem_replicate hname]
      decide
  rw [ofText, hslashes, namesOf, htext, splitSlashes_replicate, List.map_append, List.filter_append,
    hnames, List.map_replicate, String.ofList_nil, hidle, List.nil_append]

/-- Two rows begin with what they have in common. The length of the common part is what the program
    counts. -/
theorem exists_commonStart (names others : List String) :
    ∃ common back down, names = common ++ back ∧ others = common ++ down ∧
      common.length = commonStart names others := by
  induction names generalizing others with
  | nil => exact ⟨[], [], others, rfl, rfl, by simp [commonStart]⟩
  | cons name names ih =>
    cases others with
    | nil => exact ⟨[], name :: names, [], rfl, rfl, by simp [commonStart]⟩
    | cons other others =>
      rw [commonStart]
      by_cases heq : name = other
      · obtain ⟨common, back, down, rfl, rfl, hlength⟩ := ih others
        refine ⟨name :: common, back, down, rfl, by rw [heq, List.cons_append], ?_⟩
        rw [if_pos heq, List.length_cons, hlength]
      · exact ⟨[], name :: names, other :: others, rfl, rfl, by rw [if_neg heq, List.length_nil]⟩

/-- A relative path goes up to where two places part, and down from there. This is the whole
    definition, in a form that shows what is left away. -/
theorem exists_from (target start : Path) :
    ∃ common back down, start.names = common ++ back ∧ target.names = common ++ down ∧
      target.from start = ⟨0, List.replicate back.length ".." ++ down⟩ := by
  obtain ⟨common, back, down, hstart, htarget, hlength⟩ :=
    exists_commonStart start.names target.names
  refine ⟨common, back, down, hstart, htarget, ?_⟩
  have hback : start.names.length - common.length = back.length := by
    rw [hstart, List.length_append, Nat.add_sub_cancel_left]
  have hdown : target.names.drop common.length = down := by rw [htarget, List.drop_left]
  show (⟨0, List.replicate (start.names.length - commonStart start.names target.names) ".." ++
    target.names.drop (commonStart start.names target.names)⟩ : Path) = _
  rw [← hlength, hback, hdown]

/-- A relative path between places with names can be spelled. Two points are a segment as every
    other name is. -/
theorem isSpelled_from {target : Path} (h : target.IsSpelled) (start : Path) :
    (target.from start).IsSpelled := by
  obtain ⟨common, back, down, _, htarget, hfrom⟩ := exists_from target start
  rw [hfrom]
  intro name hname
  rcases List.mem_append.mp hname with hup | hdown
  · rw [List.eq_of_mem_replicate hup]
    decide
  · exact h name (htarget ▸ List.mem_append_right _ hdown)

end Path

namespace FileTree

/-- Going up some names is leaving them away. Above the root there is nothing, so that more of them
    do no harm. -/
theorem settle_up (root : Node) (fuel : Nat) (active : List (List String)) (reversed rest : List String)
    (n : Nat) : settle root fuel active reversed (List.replicate n ".." ++ rest) =
      settle root fuel active (reversed.drop n) rest := by
  induction n generalizing reversed with
  | zero => rfl
  | succ n ih =>
    rw [List.replicate_succ, List.cons_append, settle_dots, ih, List.drop_tail]

/-- The relative path from one real path to another leads there. No link is met on the way, neither
    going up nor going down. -/
theorem IsRealPath.resolve_from {t : FileTree} {start target : Path} (hstart : t.IsRealPath start)
    (htarget : t.IsRealPath target) :
    t.resolve (start.join (.ofText (target.from start).text)) = .ok target := by
  obtain ⟨common, back, down, hback, hdown, hfrom⟩ := Path.exists_from target start
  have hspelled := Path.isSpelled_from htarget.isRooted.isSpelled start
  rw [Path.ofText_text hspelled (by rw [hfrom]; exact Nat.zero_le 2), hfrom]
  obtain ⟨folders, rfl, hfolders, hfolder⟩ := hstart
  obtain ⟨names, rfl, hnames, hname⟩ := htarget
  obtain rfl : folders = common ++ back := hback
  obtain rfl : names = common ++ down := hdown
  have hjoin : (Path.absolute (common ++ back)).join ⟨0, List.replicate back.length ".." ++ down⟩ =
      .absolute (common ++ back ++ (List.replicate back.length ".." ++ down)) := rfl
  rw [hjoin, ← List.reverse_reverse (common ++ down)]
  refine resolve_of_settle ?_ (fun hup => (hnames.isDown _ (List.mem_reverse.mp hup)).2 rfl) ?_
  · -- no name on the way holds a NUL
    show ∀ name ∈ common ++ back ++ (List.replicate back.length ".." ++ down), _
    refine List.forall_mem_append.mpr ⟨fun name hmem => (hfolder name hmem).2.2,
      List.forall_mem_append.mpr ⟨fun name hmem => ?_, fun name hmem => ?_⟩⟩
    · rw [List.eq_of_mem_replicate hmem]
      decide
    · exact (hname name (List.mem_append_right _ hmem)).2.2
  · -- up to what both have in common, and from there as from the root
    have hcommon := (hnames.of_prefix (List.prefix_append common down)).settle_eq
      (t.root.linkCount + 1) []
    have hup : (common ++ back).reverse.drop back.length = common.reverse := by
      rw [List.reverse_append, ← List.length_reverse, List.drop_left]
    show settle t.root (t.root.linkCount + 1) [] []
      (common ++ back ++ (List.replicate back.length ".." ++ down)) = _
    rw [settle_append _ _ _ _ (hfolders.settle_eq _ _), settle_up, hup,
      ← settle_append _ _ _ _ hcommon, hnames.settle_eq]

end FileTree

end Backlog.Files
