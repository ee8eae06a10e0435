import Backlog.Text.Sorted
import Mathlib.Data.List.Nodup

namespace Backlog.Text

/-!
# Distinct texts of a list

Rules, files and nodes are listed without repeats, each where it first comes. The lists grow at
their end while entries are gone through, so they are described by what one more text changes.

* `mem_newTexts`, `mem_distinctTexts` — no text is lost, and none is made up;
* `nodup_newTexts`, `nodup_distinctTexts` — no text comes twice;
* `distinctTexts_eq_eraseDups` — of each text the first occurrence is kept;
* `distinctTexts_concat` — what one more text at the end changes;
* `filter_distinctTexts` — texts may be filtered before or afterwards.
-/

/-- What is left of a list are its texts, without those that were seen before it. -/
theorem mem_newTexts {s : String} {texts : List String} :
    ∀ {seen : List String}, s ∈ newTexts seen texts ↔ s ∈ texts ∧ s ∉ seen := by
  induction texts with
  | nil => simp [newTexts]
  | cons t rest ih =>
    intro seen
    unfold newTexts
    -- A text that is kept counts as seen for the rest.
    by_cases ht : t ∈ seen
    · rw [if_pos (by simpa using ht), ih, List.mem_cons]
      constructor
      · rintro ⟨hs, hseen⟩
        exact ⟨.inr hs, hseen⟩
      · rintro ⟨rfl | hs, hseen⟩
        · exact absurd ht hseen
        · exact ⟨hs, hseen⟩
    · rw [if_neg (by simpa using ht), List.mem_cons, ih, List.mem_cons, List.mem_cons, not_or]
      constructor
      · rintro (rfl | ⟨hs, _, hseen⟩)
        · exact ⟨.inl rfl, ht⟩
        · exact ⟨.inr hs, hseen⟩
      · rintro ⟨rfl | hs, hseen⟩
        · exact .inl rfl
        · by_cases hst : s = t
          · exact .inl hst
          · exact .inr ⟨hs, hst, hseen⟩

/-- No text is left twice. Each one that is kept is seen from there on, so the induction is for
    every list of texts seen. -/
theorem nodup_newTexts (texts : List String) :
    ∀ seen : List String, (newTexts seen texts).Nodup := by
  induction texts with
  | nil => simp [newTexts]
  | cons t rest ih =>
    intro seen
    unfold newTexts
    split
    · exact ih seen
    · rw [List.nodup_cons]
      refine ⟨?_, ih (t :: seen)⟩
      rw [mem_newTexts]
      simp

@[simp] theorem mem_distinctTexts {s : String} {texts : List String} :
    s ∈ distinctTexts texts ↔ s ∈ texts := by
  simp [distinctTexts, mem_newTexts]

/-- No text is left twice, nothing having been seen before. -/
theorem nodup_distinctTexts (texts : List String) : (distinctTexts texts).Nodup :=
  nodup_newTexts texts []

/-! ### First occurrences -/

/-- In terms of the library: texts seen before are filtered out, and duplicates erased. The two
    recursions drop duplicates at different times, so that the induction is on the length. -/
theorem newTexts_eq_eraseDups (texts : List String) :
    ∀ seen : List String, newTexts seen texts = (texts.filter (fun s => s ∉ seen)).eraseDups := by
  induction texts with
  | nil =>
    intro seen
    rfl
  | cons t rest ih =>
    intro seen
    unfold newTexts
    by_cases ht : t ∈ seen
    · have hfilter : (t :: rest).filter (fun s => s ∉ seen) = rest.filter (fun s => s ∉ seen) := by
        simp [ht]
      rw [if_pos (by simpa using ht), ih, hfilter]
    · have hfilter : (t :: rest).filter (fun s => s ∉ seen) =
          t :: rest.filter (fun s => s ∉ seen) := by
        simp [ht]
      rw [if_neg (by simpa using ht), ih, hfilter, List.eraseDups_cons, List.filter_filter]
      -- The later occurrences of the text are left out, whether or not it counts as seen.
      refine congrArg (fun l => t :: List.eraseDups l) (List.filter_congr fun s _ => ?_)
      by_cases hst : s = t <;> simp [hst]

/-- In terms of the library, leaving out later occurrences is erasing duplicates. -/
theorem distinctTexts_eq_eraseDups (texts : List String) :
    distinctTexts texts = texts.eraseDups := by
  rw [distinctTexts, newTexts_eq_eraseDups]
  simp

/-- A text at the end is kept if it has not come before. Nothing before it changes, as first
    occurrences are those that stay. -/
theorem distinctTexts_concat (texts : List String) (t : String) :
    distinctTexts (texts ++ [t]) =
      if t ∈ texts then distinctTexts texts else distinctTexts texts ++ [t] := by
  simp only [distinctTexts_eq_eraseDups, List.eraseDups_append]
  by_cases ht : t ∈ texts
  · simp [ht, List.removeAll]
  · simp [ht, List.removeAll, List.eraseDups_cons]

/-- Texts may be filtered before their later occurrences are left out, or afterwards. The first
    occurrence of a text passes the filter exactly if the later ones do. -/
theorem filter_distinctTexts (p : String → Bool) (texts : List String) :
    (distinctTexts texts).filter p = distinctTexts (texts.filter p) := by
  rw [distinctTexts_eq_eraseDups, distinctTexts_eq_eraseDups]
  -- What is left after the first text is no tail of the list, so the induction is on the length.
  induction hn : texts.length using Nat.strongRecOn generalizing texts with
  | ind n ih =>
    cases texts with
    | nil => rfl
    | cons t rest =>
      have hlength : (rest.filter (fun s => !s == t)).length < n := by
        have hle := List.length_filter_le (fun s => !s == t) rest
        rw [List.length_cons] at hn
        omega
      rw [List.eraseDups_cons, List.filter_cons, ih _ hlength _ rfl, List.filter_filter,
        List.filter_cons]
      by_cases ht : p t = true
      · rw [if_pos ht, if_pos ht, List.eraseDups_cons, List.filter_filter]
        simp only [Bool.and_comm]
      · rw [if_neg ht, if_neg ht]
        refine congrArg List.eraseDups (List.filter_congr fun s _ => ?_)
        by_cases hst : s = t
        · simp [hst, ht]
        · simp [hst]

end Backlog.Text
