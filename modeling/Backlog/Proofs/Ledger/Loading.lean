import Backlog.Proofs.Json.Reading
import Backlog.Proofs.Ledger.Dump

namespace Backlog

open Backlog.Files Backlog.Number Backlog.Text

/-!
# Ledgers that come from a document

Reading a ledger is strict, and so much is known of what was read: names are not empty, counts are
positive. Both are what writing it asks for, so a ledger that was loaded can be written again, and
so can any part of it.

* `Ledger.exists_of_mem_ofData` — each of its entries is read from an entry of the document;
* `Ledger.count_pos_of_ofData` — its counts are positive;
* `Ledger.load_ok_iff` — a ledger is loaded from the document that the text of its file holds;
* `Ledger.storable_of_load` — whatever ledger is loaded can be written down again;
* `Ledger.storable_apply` — so can what a selection leaves of it.
-/

namespace Ledger

theorem name?_eq_some {key : Scalar} {name : String} (h : name? key = some name) : name ≠ "" := by
  unfold name? at h
  split at h
  · split at h
    · cases h
    · rename_i hempty
      obtain rfl := Option.some.inj h
      simpa using hempty
  · cases h

/-! ### What is read from a document -/

theorem readPlainCount_ok_iff {path rule : String} {d : Data} {count : Int} :
    readPlainCount path rule d = .ok count ↔ d = .int count ∧ 0 < count := by
  unfold readPlainCount
  split
  · rename_i n
    by_cases hn : n ≤ 0
    · rw [if_pos hn]
      constructor
      · intro h
        cases h
      · rintro ⟨h, hpos⟩
        cases h
        omega
    · rw [if_neg hn]
      constructor
      · intro h
        obtain rfl := Except.ok.inj h
        exact ⟨rfl, by omega⟩
      · rintro ⟨h, _⟩
        cases h
        rfl
  · rename_i hint
    constructor
    · intro h
      cases h
    · rintro ⟨rfl, _⟩
      exact absurd rfl (hint count)

/-- A count is read where its number stands for itself, or in a mapping under its key. In both forms
    it is positive. -/
theorem readCount_ok {path rule : String} {d : Data} {count : Int}
    (h : readCount path rule d = .ok count) :
    0 < count ∧ (d = .int count ∨ ∃ e entries, d = .map entries ∧ e ∈ entries ∧
      e.2 = .int count) := by
  unfold readCount at h
  split at h
  · rename_i entries
    split at h
    · cases h
    · rename_i value hfield
      obtain ⟨rfl, hpos⟩ := readPlainCount_ok_iff.mp h
      obtain ⟨e, he, hvalue⟩ := Option.map_eq_some_iff.mp hfield
      exact ⟨hpos, .inr ⟨e, entries, rfl, List.mem_of_find?_eq_some he, hvalue⟩⟩
  · obtain ⟨rfl, hpos⟩ := readPlainCount_ok_iff.mp h
    exact ⟨hpos, .inl rfl⟩

/-- The counts of a file are those that are read from its entries in the document. A count may stand
    alone or in a mapping. -/
theorem mem_of_readRules {path : String} {entries : List (Scalar × Data)}
    {counts : List (String × Int)} (h : readRules path entries = .ok counts) :
    ∀ r ∈ counts, ∃ e ∈ entries, name? e.1 = some r.1 ∧ readCount path r.1 e.2 = .ok r.2 := by
  induction entries generalizing counts with
  | nil =>
    obtain rfl := Except.ok.inj h
    exact List.forall_mem_nil _
  | cons e entries ih =>
    obtain ⟨key, value⟩ := e
    rw [readRules] at h
    split at h
    · cases h
    · rename_i rule hname
      obtain ⟨count, hcount, h⟩ := bind_ok_iff.mp h
      obtain ⟨rest, hrest, h⟩ := bind_ok_iff.mp h
      obtain rfl := pure_ok_iff.mp h
      refine List.forall_mem_cons.mpr ⟨⟨_, List.mem_cons_self .., hname, hcount⟩, fun r hr => ?_⟩
      obtain ⟨e, he, hread⟩ := ih hrest r hr
      exact ⟨e, List.mem_cons_of_mem _ he, hread⟩

/-- The files of a ledger are those that are read from the entries of the document. Of files with
    the same name one is kept, which JSON has seen to before. -/
theorem mem_of_readFiles {entries : List (Scalar × Data)} {files : List (String × Counts)}
    (h : readFiles entries = .ok files) :
    ∀ f ∈ files, ∃ e ∈ entries, ∃ rules counts, e.2 = .map rules ∧ name? e.1 = some f.1 ∧
      readRules f.1 rules = .ok counts ∧ f.2 = OrderedMap.ofList counts := by
  induction entries generalizing files with
  | nil =>
    obtain rfl := Except.ok.inj h
    exact List.forall_mem_nil _
  | cons e entries ih =>
    obtain ⟨key, value⟩ := e
    rw [readFiles] at h
    split at h
    · cases h
    · rename_i path hname
      split at h
      · rename_i rules
        obtain ⟨counts, hcounts, h⟩ := bind_ok_iff.mp h
        obtain ⟨rest, hrest, h⟩ := bind_ok_iff.mp h
        obtain rfl := pure_ok_iff.mp h
        refine List.forall_mem_cons.mpr ⟨⟨_, List.mem_cons_self .., rules, counts, rfl, hname,
          hcounts, rfl⟩, fun f hf => ?_⟩
        obtain ⟨e, he, hread⟩ := ih hrest f hf
        exact ⟨e, List.mem_cons_of_mem _ he, hread⟩
      · cases h

/-- Each entry of a ledger is read from an entry of the document. This is the inversion by which
    entries are traced back to the document. -/
theorem exists_of_mem_ofData {d : Data} {ledger : Ledger} (h : ofData d = .ok ledger)
    {x : Entry} (hx : x ∈ ledger.entries) :
    ∃ files f rules r, d = .map files ∧ f ∈ files ∧ f.2 = .map rules ∧ r ∈ rules ∧
      name? f.1 = some x.file ∧ name? r.1 = some x.rule ∧
      readCount x.file x.rule r.2 = .ok x.count := by
  unfold ofData at h
  split at h
  · rename_i files
    obtain ⟨pairs, hpairs, h⟩ := bind_ok_iff.mp h
    obtain rfl := pure_ok_iff.mp h
    obtain ⟨counts, hmem, hcount⟩ := mem_entries.mp hx
    have hfile : (x.file, counts) ∈ pairs :=
      OrderedMap.mem_of_mem_ofList (List.mem_of_mem_filter hmem)
    obtain ⟨f, hf, rules, read, hrules, hname, hread, rfl⟩ := mem_of_readFiles hpairs _ hfile
    obtain ⟨r, hr, hrule, hnumber⟩ :=
      mem_of_readRules hread _ (OrderedMap.mem_of_mem_ofList hcount)
    exact ⟨files, f, rules, r, rfl, hf, hrules, hr, hname, hrule, hnumber⟩
  · cases h

/-- The counts of a ledger that was read are positive. Sizes and limits are compared on this
    ground. -/
theorem count_pos_of_ofData {d : Data} {ledger : Ledger} (h : ofData d = .ok ledger) :
    ∀ x ∈ ledger.entries, 0 < x.count := by
  intro x hx
  obtain ⟨_, _, _, _, _, _, _, _, _, _, hcount⟩ := exists_of_mem_ofData h hx
  exact (readCount_ok hcount).1

/-- A ledger from a document of legible scalars can be written down. A number that could be read has
    not too many digits to be written. -/
theorem storable_of_ofData {d : Data} {ledger : Ledger} (hdoc : Json.IsDocument Json.IsLegible d)
    (h : ofData d = .ok ledger) : ∀ x ∈ ledger.entries, x.IsStorable := by
  intro x hx
  obtain ⟨files, f, rules, r, rfl, hf, hrules, hr, hfile, hrule, hread⟩ :=
    exists_of_mem_ofData h hx
  obtain ⟨hpos, hnumber⟩ := readCount_ok hread
  have hvalue : Json.IsDocument Json.IsLegible r.2 := by
    have hinner := hdoc.value hf
    rw [hrules] at hinner
    exact hinner.value hr
  have hshort : ∀ {d : Data}, Json.IsDocument Json.IsLegible d → d = .int x.count →
      isTooLong x.count = false := by
    rintro d hd rfl
    cases hd with
    | scalar hs => exact hs
  refine ⟨name?_eq_some hfile, name?_eq_some hrule, hpos, ?_⟩
  rcases hnumber with hnumber | ⟨e, entries, hentries, he, hnumber⟩
  · exact hshort hvalue hnumber
  · rw [hentries] at hvalue
    exact hshort (hvalue.value he) hnumber

/-- A ledger is loaded from the document that the text of its file holds. The three steps are
    reading the file, its text and its document. -/
theorem load_ok_iff {tree : FileTree} {path : Path} {ledger : Ledger} :
    load tree path = .ok ledger ↔ ∃ text data, tree.readText path = .ok text ∧
      Json.parse text = .ok data ∧ ofData data = .ok ledger := by
  simp only [load, ofText, bind_ok_iff, mapError_ok_iff]
  constructor
  · rintro ⟨text, htext, data, hdata, h⟩
    exact ⟨text, data, htext, hdata, h⟩
  · rintro ⟨text, data, htext, hdata, h⟩
    exact ⟨text, htext, data, hdata, h⟩

theorem exists_read_of_load {tree : FileTree} {path : Path} {ledger : Ledger}
    (h : load tree path = .ok ledger) : ∃ content, tree.read path.text = .ok content := by
  obtain ⟨_, _, htext, _⟩ := load_ok_iff.mp h
  obtain ⟨content, hread, _⟩ := bind_ok_iff.mp htext
  exact ⟨content, mapError_ok_iff.mp hread⟩

/-- Whatever ledger is loaded can be written down again. So a command that has loaded it can write
    what is left of it. -/
theorem storable_of_load {tree : FileTree} {path : Path} {ledger : Ledger}
    (h : load tree path = .ok ledger) : ∀ x ∈ ledger.entries, x.IsStorable := by
  obtain ⟨text, data, _, hparse, hdata⟩ := load_ok_iff.mp h
  exact storable_of_ofData (Json.isDocument_of_parse hparse) hdata

/-- So can what a selection leaves of it. For no entry is new. -/
theorem storable_apply {ledger : Ledger} (h : ∀ x ∈ ledger.entries, x.IsStorable)
    (s : Selection) : ∀ x ∈ (ledger.apply (some s)).entries, x.IsStorable := by
  intro x hx
  rw [entries_apply] at hx
  exact h x (List.mem_of_mem_filter hx)

end Ledger

end Backlog
