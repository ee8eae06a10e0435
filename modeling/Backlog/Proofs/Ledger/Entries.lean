import Backlog.Ledger.Apply
import Backlog.Proofs.OrderedMap

namespace Backlog

/-!
# The entries of a ledger

A ledger is two levels of maps; most of what is said about it concerns its single entries, and the
order in which they stand.

* `Ledger.entries` — the entries in one list: files in order, and the rules of each in order;
* `Ledger.entries_inj` — the list is the whole ledger, so that a ledger may be given by its list;
* `Ledger.nodup_keys_entries` — a file has at most one entry for a rule;
* `Ledger.entries_perm` — ledgers that are equal regardless of order have the same entries;
* `Ledger.entries_apply` — a selection takes entries out of the list and moves none.
-/

/-- The number of violations of one rule in one file. -/
structure Ledger.Entry where
  file : String
  rule : String
  count : Int
  deriving DecidableEq, Repr

namespace Ledger

/-- What tells an entry from the others of its ledger. -/
def Entry.key (x : Entry) : String × String := (x.file, x.rule)

/-- The entries of one file. -/
def fileEntries (f : String × Counts) : List Entry := f.2.entries.map (fun r => ⟨f.1, r.1, r.2⟩)

/-- The entries of a ledger: files in order, and the rules of each in order. -/
def entries (ledger : Ledger) : List Entry := ledger.files.entries.flatMap fileEntries

theorem file_of_mem_fileEntries {f : String × Counts} {x : Entry} (h : x ∈ fileEntries f) :
    x.file = f.1 := by
  obtain ⟨r, _, rfl⟩ := List.mem_map.mp h
  rfl

theorem mem_fileEntries {f : String × Counts} {x : Entry} :
    x ∈ fileEntries f ↔ x.file = f.1 ∧ (x.rule, x.count) ∈ f.2.entries := by
  constructor
  · intro h
    obtain ⟨r, hr, rfl⟩ := List.mem_map.mp h
    exact ⟨rfl, hr⟩
  · rintro ⟨hfile, hmem⟩
    exact List.mem_map.mpr ⟨(x.rule, x.count), hmem, by rw [← hfile]⟩

theorem mem_entries {ledger : Ledger} {x : Entry} :
    x ∈ ledger.entries ↔
      ∃ counts, (x.file, counts) ∈ ledger.files.entries ∧ (x.rule, x.count) ∈ counts.entries := by
  rw [entries, List.mem_flatMap]
  constructor
  · rintro ⟨⟨file, counts⟩, hf, hx⟩
    obtain ⟨hfile, hmem⟩ := mem_fileEntries.mp hx
    exact ⟨counts, by rw [hfile]; exact hf, hmem⟩
  · rintro ⟨counts, hf, hmem⟩
    exact ⟨(x.file, counts), hf, mem_fileEntries.mpr ⟨rfl, hmem⟩⟩

/-! ### One entry for a file and a rule -/

theorem nodup_keys_fileEntries (f : String × Counts) : ((fileEntries f).map Entry.key).Nodup := by
  have h : (fileEntries f).map Entry.key = f.2.keys.map (fun rule => (f.1, rule)) := by
    simp [fileEntries, OrderedMap.keys, Entry.key, Function.comp_def]
  rw [h]
  exact f.2.nodup_keys.map (fun a b hab => (Prod.mk.inj hab).2)

/-- A file has at most one entry for a rule. So file and rule tell an entry apart. -/
theorem nodup_keys_entries (ledger : Ledger) : (ledger.entries.map Entry.key).Nodup := by
  rw [entries, List.map_flatMap, List.nodup_flatMap]
  refine ⟨fun f _ => nodup_keys_fileEntries f, ?_⟩
  have hfiles := List.pairwise_map.mp ledger.files.nodup_keys
  refine hfiles.imp ?_
  intro f g hfg k hf hg
  -- A key that both files had would give them one name.
  obtain ⟨x, hx, rfl⟩ := List.mem_map.mp hf
  obtain ⟨y, hy, hxy⟩ := List.mem_map.mp hg
  apply hfg
  rw [← file_of_mem_fileEntries hx, ← file_of_mem_fileEntries hy]
  exact (Prod.mk.inj hxy).1.symm

theorem nodup_entries (ledger : Ledger) : ledger.entries.Nodup :=
  List.Nodup.of_map _ ledger.nodup_keys_entries

/-! ### The list is the whole ledger -/

/-- Of the entries of several files, those of the first file. This is how a ledger is taken apart
    again. -/
theorem filter_file_flatMap {f : String × Counts} {rest : List (String × Counts)}
    (h : f.1 ∉ rest.map Prod.fst) :
    ((f :: rest).flatMap fileEntries).filter (fun x => x.file = f.1) = fileEntries f := by
  rw [List.flatMap_cons, List.filter_append]
  have hself : (fileEntries f).filter (fun x => x.file = f.1) = fileEntries f :=
    List.filter_eq_self.mpr (fun x hx => by simpa using file_of_mem_fileEntries hx)
  have hrest : (rest.flatMap fileEntries).filter (fun x => x.file = f.1) = [] := by
    rw [List.filter_eq_nil_iff]
    intro x hx hxf
    obtain ⟨g, hg, hxg⟩ := List.mem_flatMap.mp hx
    have hfile : g.1 = f.1 := by rw [← file_of_mem_fileEntries hxg]; simpa using hxf
    exact h (hfile ▸ List.mem_map_of_mem hg)
  rw [hself, hrest, List.append_nil]

theorem fileEntries_inj {f g : String × Counts} (hname : f.1 = g.1)
    (h : fileEntries f = fileEntries g) : f = g := by
  refine Prod.ext hname (OrderedMap.ext ?_)
  have hmap := congrArg (List.map (fun x : Entry => (x.rule, x.count))) h
  simpa [fileEntries, Function.comp_def] using hmap

/-- Files that are told apart by their names and have rules each are given by their entries. A file
    without rules would leave no trace among them. -/
theorem flatMap_fileEntries_inj {a b : List (String × Counts)}
    (hna : (a.map Prod.fst).Nodup) (hnb : (b.map Prod.fst).Nodup)
    (ha : ∀ f ∈ a, f.2.entries ≠ []) (hb : ∀ f ∈ b, f.2.entries ≠ [])
    (h : a.flatMap fileEntries = b.flatMap fileEntries) : a = b := by
  induction a generalizing b with
  | nil =>
    cases b with
    | nil => rfl
    | cons g rest =>
      have hg := hb g List.mem_cons_self
      simp [fileEntries] at h
      exact absurd h.1 hg
  | cons f restA ih =>
    cases b with
    | nil =>
      have hf := ha f List.mem_cons_self
      simp [fileEntries] at h
      exact absurd h.1 hf
    | cons g restB =>
      -- Both lists begin with an entry of their first file.
      have hname : f.1 = g.1 := by
        cases hf : f.2.entries with
        | nil => exact absurd hf (ha f List.mem_cons_self)
        | cons r _ =>
          cases hg : g.2.entries with
          | nil => exact absurd hg (hb g List.mem_cons_self)
          | cons s _ =>
            simp [fileEntries, hf, hg] at h
            exact h.1.1
      rw [List.map_cons, List.nodup_cons] at hna hnb
      have hfirst : fileEntries f = fileEntries g := by
        rw [← filter_file_flatMap hna.1, ← filter_file_flatMap hnb.1, h, hname]
      obtain rfl := fileEntries_inj hname hfirst
      rw [List.flatMap_cons, List.flatMap_cons] at h
      rw [ih hna.2 hnb.2 (fun x hx => ha x (List.mem_cons_of_mem _ hx))
        (fun x hx => hb x (List.mem_cons_of_mem _ hx)) (List.append_cancel_left h)]

/-- Two ledgers with the same entries in the same order are the same. So whatever is said of entries
    in order is said of ledgers. -/
theorem entries_inj {a b : Ledger} (h : a.entries = b.entries) : a = b :=
  Ledger.ext (OrderedMap.ext (flatMap_fileEntries_inj a.files.nodup_keys b.files.nodup_keys
    a.nonempty b.nonempty h))

/-! ### The order of the entries -/

/-- Two ledgers that hold the same counts in any order have the same entries in some order. The
    order is that of files, and in a file that of rules. -/
theorem entries_perm {a b : Ledger} (h : a.sameAs b) : a.entries.Perm b.entries := by
  obtain ⟨hfiles, hsame⟩ := OrderedMap.agree_iff.mp h
  have hcounts : ∀ {file : String} {r s : Counts}, (file, r) ∈ a.files.entries →
      (file, s) ∈ b.files.entries → ∀ e, e ∈ r.entries ↔ e ∈ s.entries := fun hr hs _ =>
    (OrderedMap.sameEntries_iff_perm.mp (hsame _ _ _ hr hs)).mem_iff
  rw [List.perm_ext_iff_of_nodup a.nodup_entries b.nodup_entries]
  intro x
  rw [mem_entries, mem_entries]
  constructor
  · rintro ⟨r, hr, hx⟩
    obtain ⟨s, hs⟩ := OrderedMap.mem_keys.mp
      (hfiles.subset (OrderedMap.mem_keys.mpr ⟨r, hr⟩))
    exact ⟨s, hs, (hcounts hr hs _).mp hx⟩
  · rintro ⟨s, hs, hx⟩
    obtain ⟨r, hr⟩ := OrderedMap.mem_keys.mp
      (hfiles.symm.subset (OrderedMap.mem_keys.mpr ⟨s, hs⟩))
    exact ⟨r, hr, (hcounts hr hs _).mpr hx⟩

/-! ### Taking entries out -/

/-- Files without rules have no entries, so that dropping them changes nothing. This is why it does
    not show whether they have been dropped. -/
theorem entries_ofFiles (files : FileCounts) :
    (ofFiles files).entries = files.entries.flatMap fileEntries := by
  show (files.entries.filter (fun f => !f.2.entries.isEmpty)).flatMap fileEntries = _
  induction files.entries with
  | nil => rfl
  | cons f rest ih =>
    rw [List.filter_cons]
    cases hf : f.2.entries with
    | nil => simpa [fileEntries, hf] using ih
    | cons r rs => simpa [hf] using ih

/-- A selection takes entries out of the list and moves none. Files that lose all their rules are
    dropped with them. -/
theorem entries_apply (ledger : Ledger) (s : Selection) :
    (ledger.apply (some s)).entries =
      ledger.entries.filter (fun x => !s.removes x.file x.rule x.count) := by
  rw [apply, entries_ofFiles, OrderedMap.entries_map, List.flatMap_map, entries, List.filter_flatMap]
  refine congrArg (fun g => List.flatMap g ledger.files.entries) (funext fun f => ?_)
  simp [fileEntries, List.filter_map, Function.comp_def]

end Ledger

end Backlog
