import Backlog.Proofs.Ledger.Entries
import Backlog.Proofs.Text.Distinct
import Mathlib.Data.List.Induction

namespace Backlog

open Backlog.Text

/-!
# The entries of a ledger, rule by rule

Turning a ledger around loses no entry and mixes none up.

* `Ledger.countsOf` — the violations of one rule;
* `Ledger.entries_countsOf` — they are the ledger's entries for that rule, in its order;
* `Ledger.mem_byRule` — the rules that occur are listed, each with these violations;
* `Ledger.mem_ruleIds`, `Ledger.keys_byRule` — and they are the rule ids, in that order;
* `Ledger.ruleEntries_perm` — rule by rule, each entry of the ledger comes exactly once.
-/

namespace Ledger

/-- The violations of one rule, in the ledger's order. -/
def countsOf (ledger : Ledger) (rule : String) : Counts := (ledger.byRule.lookup rule).getD .empty

/-! ### Grouping entries -/

/-- Entries by rule, entered one after the other. -/
def groupEntries (xs : List Entry) : OrderedMap String Counts :=
  xs.foldl (fun acc x => enter acc x.rule x.file x.count) .empty

/-- The groups are made by entering the entries one after another, which is how induction on the
    entries gets at them. -/
theorem byRule_eq_groupEntries (ledger : Ledger) : ledger.byRule = groupEntries ledger.entries := by
  rw [byRule, groupEntries, entries, List.foldl_flatMap]
  simp only [fileEntries, List.foldl_map]

theorem groupEntries_concat (xs : List Entry) (x : Entry) :
    groupEntries (xs ++ [x]) = enter (groupEntries xs) x.rule x.file x.count := by
  rw [groupEntries, List.foldl_append]
  rfl

/-- Entering a count changes the group of its rule only. A rule that comes for the first time has an
    empty group before. -/
theorem lookup_enter (groups : OrderedMap String Counts) (rule file other : String) (count : Int) :
    (enter groups rule file count).lookup other =
      if other = rule then some (((groups.lookup rule).getD .empty).insert file count)
      else groups.lookup other :=
  OrderedMap.lookup_insert _ _ _ _

/-- The groups stand in the order in which their rules first come. The induction takes entries from
    the end, as that is where they are entered. -/
theorem keys_groupEntries (xs : List Entry) :
    (groupEntries xs).keys = distinctTexts (xs.map Entry.rule) := by
  -- Entries are entered from left to right, so the induction is on the last one.
  induction xs using List.reverseRecOn with
  | nil => rfl
  | append_singleton xs x ih =>
    rw [groupEntries_concat, enter, OrderedMap.keys_insert, ih, List.map_append, List.map_singleton,
      distinctTexts_concat]
    simp only [mem_distinctTexts]

theorem mem_keys_groupEntries {rule : String} (xs : List Entry) :
    rule ∈ (groupEntries xs).keys ↔ ∃ x ∈ xs, x.rule = rule := by
  rw [keys_groupEntries, mem_distinctTexts, List.mem_map]

/-- The group of a rule holds the entries for that rule in their order. No file comes twice for a
    rule, so each count is entered behind the others. -/
theorem entries_lookup_groupEntries (rule : String) (xs : List Entry)
    (hnd : (xs.map Entry.key).Nodup) :
    (((groupEntries xs).lookup rule).getD .empty).entries =
      (xs.filter (fun x => x.rule = rule)).map (fun x => (x.file, x.count)) := by
  induction xs using List.reverseRecOn with
  | nil => rfl
  | append_singleton xs x ih =>
    rw [List.map_append, List.nodup_append] at hnd
    obtain ⟨hxs, _, hnew⟩ := hnd
    have hgroup := ih hxs
    rw [groupEntries_concat, lookup_enter, List.filter_append, List.map_append]
    by_cases h : rule = x.rule
    · subst h
      -- The file is not yet in the group, so its count goes to the end.
      have hfile : x.file ∉ (((groupEntries xs).lookup x.rule).getD .empty).keys := by
        rw [OrderedMap.keys, hgroup]
        intro hmem
        simp only [List.map_map, List.mem_map, List.mem_filter, decide_eq_true_eq,
          Function.comp_apply] at hmem
        obtain ⟨y, ⟨hy, hrule⟩, hyfile⟩ := hmem
        exact hnew y.key (List.mem_map_of_mem hy) x.key (by simp)
          (Prod.ext hyfile hrule)
      rw [if_pos rfl, Option.getD_some, OrderedMap.entries_insert_of_new hfile, hgroup]
      simp
    · rw [if_neg h, hgroup]
      simp [Ne.symm h]

/-! ### The views of a ledger -/

/-- The violations of a rule are the ledger's entries for it. This is the one fact about grouping on
    which all others rest. -/
theorem entries_countsOf (ledger : Ledger) (rule : String) :
    (ledger.countsOf rule).entries =
      (ledger.entries.filter (fun x => x.rule = rule)).map (fun x => (x.file, x.count)) := by
  rw [countsOf, byRule_eq_groupEntries]
  exact entries_lookup_groupEntries rule ledger.entries ledger.nodup_keys_entries

theorem map_entries_countsOf (ledger : Ledger) (rule : String) :
    (ledger.countsOf rule).entries.map (fun x => (⟨x.1, rule, x.2⟩ : Entry)) =
      ledger.entries.filter (fun x => x.rule = rule) := by
  rw [entries_countsOf, List.map_map]
  refine (List.map_congr_left fun x hx => ?_).trans (List.map_id _)
  have hrule : x.rule = rule := by simpa using (List.mem_filter.mp hx).2
  simp [← hrule]

theorem mem_countsOf {ledger : Ledger} {rule : String} {e : String × Int} :
    e ∈ (ledger.countsOf rule).entries ↔ (⟨e.1, rule, e.2⟩ : Entry) ∈ ledger.entries := by
  rw [entries_countsOf, List.mem_map]
  constructor
  · rintro ⟨x, hx, rfl⟩
    obtain ⟨hmem, hrule⟩ := List.mem_filter.mp hx
    rw [decide_eq_true_eq] at hrule
    exact hrule ▸ hmem
  · intro h
    exact ⟨_, List.mem_filter.mpr ⟨h, by simp⟩, rfl⟩

/-- Where the entries stand in another order, so do the violations of a rule. What is selected may
    depend on that order, but not what is in it. -/
theorem countsOf_perm {a b : Ledger} (h : a.entries.Perm b.entries) (rule : String) :
    (a.countsOf rule).entries.Perm (b.countsOf rule).entries := by
  rw [entries_countsOf, entries_countsOf]
  exact (h.filter _).map _

/-- The rules that occur, each with its violations. No rule has an empty group. -/
theorem mem_byRule {ledger : Ledger} {rule : String} {counts : Counts} :
    (rule, counts) ∈ ledger.byRule.entries ↔
      (∃ x ∈ ledger.entries, x.rule = rule) ∧ counts = ledger.countsOf rule := by
  have hkeys : rule ∈ ledger.byRule.keys ↔ ∃ x ∈ ledger.entries, x.rule = rule := by
    rw [byRule_eq_groupEntries]
    exact mem_keys_groupEntries ledger.entries
  rw [← hkeys]
  constructor
  · intro h
    refine ⟨OrderedMap.mem_keys.mpr ⟨counts, h⟩, ?_⟩
    rw [countsOf, OrderedMap.lookup_eq_some_iff.mpr h, Option.getD_some]
  · rintro ⟨hmem, rfl⟩
    obtain ⟨value, hvalue⟩ := OrderedMap.mem_keys.mp hmem
    rw [countsOf, OrderedMap.lookup_eq_some_iff.mpr hvalue, Option.getD_some]
    exact hvalue

/-- The rule ids are the rules of the entries. So a rule id without violations does not occur. -/
theorem mem_ruleIds {ledger : Ledger} {rule : String} :
    rule ∈ ledger.ruleIds ↔ ∃ x ∈ ledger.entries, x.rule = rule := by
  simp only [ruleIds, mem_distinctTexts, List.mem_flatMap, OrderedMap.mem_keys]
  constructor
  · rintro ⟨f, hf, count, hr⟩
    exact ⟨⟨f.1, rule, count⟩, mem_entries.mpr ⟨f.2, hf, hr⟩, rfl⟩
  · rintro ⟨x, hx, rfl⟩
    obtain ⟨counts, hf, hr⟩ := mem_entries.mp hx
    exact ⟨_, hf, x.count, hr⟩

theorem nodup_ruleIds (ledger : Ledger) : ledger.ruleIds.Nodup := nodup_distinctTexts _

/-- The rule ids stand in the order in which they first come among the entries. -/
theorem ruleIds_eq_distinctTexts (ledger : Ledger) :
    ledger.ruleIds = distinctTexts (ledger.entries.map Entry.rule) := by
  rw [ruleIds, entries, List.map_flatMap]
  refine congrArg distinctTexts (List.flatMap_congr fun f _ => ?_)
  simp [fileEntries, OrderedMap.keys, Function.comp_def]

/-- The rules are listed in the order of the rule ids. The two are made in different ways in the
    program. -/
theorem keys_byRule (ledger : Ledger) : ledger.byRule.keys = ledger.ruleIds := by
  rw [byRule_eq_groupEntries, ruleIds_eq_distinctTexts, keys_groupEntries]

/-- The entries of the rules, one rule after the other. -/
def ruleEntries (ledger : Ledger) : List Entry :=
  ledger.byRule.entries.flatMap fun g => g.2.entries.map fun x => ⟨x.1, g.1, x.2⟩

/-- The entries taken rule by rule are the entries. -/
theorem mem_ruleEntries {ledger : Ledger} {x : Entry} :
    x ∈ ledger.ruleEntries ↔ x ∈ ledger.entries := by
  rw [ruleEntries, List.mem_flatMap]
  constructor
  · rintro ⟨⟨rule, counts⟩, hg, hx⟩
    obtain ⟨_, rfl⟩ := mem_byRule.mp hg
    obtain ⟨y, hy, rfl⟩ := List.mem_map.mp hx
    exact mem_countsOf.mp hy
  · intro hx
    refine ⟨(x.rule, ledger.countsOf x.rule), mem_byRule.mpr ⟨⟨x, hx, rfl⟩, rfl⟩, ?_⟩
    exact List.mem_map.mpr ⟨(x.file, x.count), mem_countsOf.mpr hx, rfl⟩

theorem nodup_ruleEntries (ledger : Ledger) : ledger.ruleEntries.Nodup := by
  rw [ruleEntries, List.nodup_flatMap]
  constructor
  · intro g _
    have hentries : g.2.entries.Nodup := List.Nodup.of_map _ g.2.nodup_keys
    refine hentries.map fun x y hxy => ?_
    obtain ⟨hfile, _, hcount⟩ := Entry.mk.inj hxy
    exact Prod.ext hfile hcount
  · -- the entries of different groups are of different rules
    refine (List.pairwise_map.mp ledger.byRule.nodup_keys).imp ?_
    intro g h hgh x hx hy
    obtain ⟨y, _, rfl⟩ := List.mem_map.mp hx
    obtain ⟨z, _, hyz⟩ := List.mem_map.mp hy
    exact hgh (Entry.mk.inj hyz).2.1.symm

/-- Rule by rule, each entry comes exactly once. So what is done rule by rule leaves out no
    entry. -/
theorem ruleEntries_perm (ledger : Ledger) : ledger.ruleEntries.Perm ledger.entries :=
  (List.perm_ext_iff_of_nodup ledger.nodup_ruleEntries ledger.nodup_entries).mpr
    fun _ => mem_ruleEntries

end Ledger

end Backlog
