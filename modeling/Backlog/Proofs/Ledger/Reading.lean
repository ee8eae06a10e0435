import Backlog.Proofs.Json.Reading
import Backlog.Proofs.Ledger.Loading
import Mathlib.Data.List.Forall2

namespace Backlog

/-!
# What a ledger is read from

Which documents are ledgers is stated without the reader: by a relation between the entries of a
document and what they stand for, file by file and rule by rule. A fault is an entry that stands for
nothing. Counts may stand alone or in a mapping, which makes two documents of one ledger.

* `Data.IsTree` — the values that documents decode to; `Json.isTree_of_parse` — so is whatever is read
  from JSON;
* `Ledger.Gives`, `Ledger.ReadsRule`, `Ledger.ReadsFile` — what the entries of a document stand for;
* `Ledger.HasFault` — all that may be wrong with a document; `Ledger.exists_ofData_iff` — without a
  fault it is a ledger;
* `Ledger.Rewraps` — counts that are put into mappings; `Ledger.ofData_of_rewraps` — that makes no
  difference;
* `Ledger.ofData_plainData` — a ledger as plain data is read as the ledger;
* `Ledger.ofData_reads` — all of it for one document.
-/

/-! ### Decoded values -/

/-- A value as a document decodes to it: its mappings have every key once, and nothing is inside
    itself. -/
inductive Data.IsTree : Data → Prop
  | scalar {s : Scalar} : IsTree (.scalar s)
  | list {items : List Data} (h : ∀ item ∈ items, IsTree item) : IsTree (.list items)
  | tuple {items : List Data} (h : ∀ item ∈ items, IsTree item) : IsTree (.tuple items)
  | map {entries : List (Scalar × Data)} (hkeys : entries.Pairwise fun e f => e.1.sameKey f.1 = false)
      (h : ∀ e ∈ entries, IsTree e.2) : IsTree (.map entries)
  | set {members : List Scalar} : IsTree (.set members)

theorem Data.IsTree.value {entries : List (Scalar × Data)} (h : IsTree (.map entries))
    {e : Scalar × Data} (he : e ∈ entries) : e.2.IsTree := by
  cases h with
  | map _ h => exact h e he

theorem Data.IsTree.keys {entries : List (Scalar × Data)} (h : IsTree (.map entries)) :
    entries.Pairwise fun e f => e.1.sameKey f.1 = false := by
  cases h with
  | map hkeys _ => exact hkeys

/-- A JSON document is such a value. Members that were written twice have been made one. -/
theorem Json.IsDocument.isTree {leaf : Scalar → Prop} {d : Data} (h : IsDocument leaf d) :
    d.IsTree := by
  induction h with
  | scalar _ => exact .scalar
  | list _ ih => exact .list ih
  | map hkeys _ ih =>
    refine .map (List.pairwise_map.mpr ?_) (List.forall_mem_map.mpr ih)
    refine (List.pairwise_map.mp hkeys).imp fun hne => ?_
    rw [Scalar.sameKey_text]
    exact decide_eq_false hne

theorem Json.isTree_of_parse {text : String} {d : Data} (h : parse text = .ok d) : d.IsTree :=
  (isDocument_of_parse h).isTree

/-! ### Lists read item by item -/

/-- Items can be read one by one if each of them can. -/
theorem exists_forall₂_iff {α β : Type} {reads : α → β → Prop} {items : List α} :
    (∃ results, List.Forall₂ reads items results) ↔ ∀ a ∈ items, ∃ b, reads a b := by
  induction items with
  | nil => simp
  | cons a items ih =>
    rw [List.forall_mem_cons, ← ih]
    constructor
    · rintro ⟨_, _ | ⟨ha, hitems⟩⟩
      exact ⟨⟨_, ha⟩, _, hitems⟩
    · rintro ⟨⟨b, ha⟩, results, hitems⟩
      exact ⟨b :: results, .cons ha hitems⟩

namespace Ledger

/-! ### What stands in a document -/

/-- What should be a count: a value itself, or what a mapping holds under its key. -/
def counted? : Data → Option Data
  | .map entries => Data.field? entries countKey
  | value => some value

/-- A value gives a count. -/
def Gives (value : Data) (count : Int) : Prop := counted? value = some (.int count) ∧ 0 < count

/-- A rule with its count is read from an entry. -/
def ReadsRule (e : Scalar × Data) (r : String × Int) : Prop :=
  (e.1 = .text r.1 ∧ r.1 ≠ "") ∧ Gives e.2 r.2

/-- A file with its rules is read from an entry. -/
def ReadsFile (e : Scalar × Data) (f : String × Counts) : Prop :=
  (e.1 = .text f.1 ∧ f.1 ≠ "") ∧ ∃ rules, e.2 = .map rules ∧ List.Forall₂ ReadsRule rules f.2.entries

/-- A ledger is read from a document: its files are those that have rules, in order. -/
def IsReadFrom (ledger : Ledger) (d : Data) : Prop :=
  ∃ files, d = .map files ∧
    List.Forall₂ ReadsFile (files.filter fun f => !f.2.isBlank) ledger.files.entries

/-- What may be wrong with a document that should be a ledger. -/
inductive HasFault : Data → Prop
  | notAMapping {d : Data} (h : ∀ files, d ≠ .map files) : HasFault d
  | path {files : List (Scalar × Data)} {f : Scalar × Data} (hf : f ∈ files)
      (h : ∀ path, f.1 = .text path → path = "") : HasFault (.map files)
  | entry {files : List (Scalar × Data)} {f : Scalar × Data} (hf : f ∈ files)
      (h : ∀ rules, f.2 ≠ .map rules) : HasFault (.map files)
  | rule {files rules : List (Scalar × Data)} {f r : Scalar × Data} (hf : f ∈ files)
      (hrules : f.2 = .map rules) (hr : r ∈ rules) (h : ∀ rule, r.1 = .text rule → rule = "") :
      HasFault (.map files)
  /-- The count is missing, or is no whole number, or is not positive. -/
  | count {files rules : List (Scalar × Data)} {f r : Scalar × Data} (hf : f ∈ files)
      (hrules : f.2 = .map rules) (hr : r ∈ rules)
      (h : ∀ count, counted? r.2 = some (.int count) → count ≤ 0) : HasFault (.map files)

/-- A key is a name if it is a text that is not empty. -/
theorem name?_eq_some_iff {key : Scalar} {name : String} :
    name? key = some name ↔ key = .text name ∧ name ≠ "" := by
  constructor
  · intro h
    refine ⟨?_, name?_eq_some h⟩
    unfold name? at h
    split at h
    · split at h
      · cases h
      · exact congrArg Scalar.text (Option.some.inj h)
    · cases h
  · rintro ⟨rfl, hname⟩
    exact name?_text hname

/-- A count is read from what gives it: a positive number, or a mapping with one under its key. -/
theorem readCount_ok_iff {path rule : String} {value : Data} {count : Int} :
    readCount path rule value = .ok count ↔ Gives value count := by
  unfold readCount Gives counted?
  cases value with
  | map entries =>
    cases hfield : Data.field? entries countKey with
    | none => simp [hfield]
    | some inner => simp [hfield, readPlainCount_ok_iff]
  | scalar _ | list _ | tuple _ | set _ | loopedList | loopedMap => simp [readPlainCount_ok_iff]

/-- Rules are read from the entries of a file, one for one and in their order. -/
theorem readRules_ok_iff {path : String} {entries : List (Scalar × Data)}
    {counts : List (String × Int)} :
    readRules path entries = .ok counts ↔ List.Forall₂ ReadsRule entries counts := by
  induction entries generalizing counts with
  | nil => simp [readRules, eq_comm]
  | cons e entries ih =>
    obtain ⟨key, value⟩ := e
    rw [readRules, List.forall₂_cons_left_iff]
    split
    · rename_i hname
      refine iff_of_false (by simp) ?_
      rintro ⟨r, _, ⟨hkey, _⟩, _⟩
      rw [name?_eq_some_iff.mpr hkey] at hname
      cases hname
    · rename_i rule hname
      simp only [bind_ok_iff, pure_ok_iff, readCount_ok_iff, ih]
      constructor
      · rintro ⟨count, hcount, rest, hrest, rfl⟩
        exact ⟨_, rest, ⟨name?_eq_some_iff.mp hname, hcount⟩, hrest, rfl⟩
      · rintro ⟨r, rest, ⟨hkey, hcount⟩, hrest, rfl⟩
        obtain rfl : rule = r.1 := by
          rw [name?_eq_some_iff.mpr hkey] at hname
          exact (Option.some.inj hname).symm
        exact ⟨_, hcount, rest, hrest, rfl⟩

/-- What is read from entries with different keys has different names. So a map made of the results
    loses none of them. -/
theorem nodup_of_reads {β : Type} {entries : List (Scalar × Data)} {results : List (String × β)}
    (hkeys : entries.Pairwise fun e f => e.1.sameKey f.1 = false)
    (h : List.Forall₂ (fun e r => e.1 = .text r.1) entries results) :
    (results.map Prod.fst).Nodup := by
  have htexts : entries.map Prod.fst = (results.map Prod.fst).map Scalar.text := by
    rw [List.map_map, ← List.forall₂_eq_eq_eq]
    exact List.forall₂_map_left_iff.mpr (List.forall₂_map_right_iff.mpr h)
  have hpairwise : (entries.map Prod.fst).Pairwise fun k l => k.sameKey l = false :=
    List.pairwise_map.mpr hkeys
  rw [htexts, List.pairwise_map] at hpairwise
  refine hpairwise.imp fun hne => ?_
  simpa using hne

/-- Files are read from the entries of a document, one for one and in their order. -/
theorem readFiles_ok_iff {entries : List (Scalar × Data)} {files : List (String × Counts)}
    (hd : Data.IsTree (.map entries)) :
    readFiles entries = .ok files ↔ List.Forall₂ ReadsFile entries files := by
  have hvalues : ∀ e ∈ entries, e.2.IsTree := fun e he => hd.value he
  clear hd
  induction entries generalizing files with
  | nil => simp [readFiles, eq_comm]
  | cons e entries ih =>
    obtain ⟨key, value⟩ := e
    obtain ⟨hvalue, hentries⟩ := List.forall_mem_cons.mp hvalues
    rw [readFiles, List.forall₂_cons_left_iff]
    split
    · rename_i hname
      refine iff_of_false (by simp) ?_
      rintro ⟨f, _, ⟨hkey, _⟩, _⟩
      rw [name?_eq_some_iff.mpr hkey] at hname
      cases hname
    · rename_i path hname
      split
      · rename_i rules
        simp only [bind_ok_iff, pure_ok_iff, readRules_ok_iff, ih hentries]
        constructor
        · rintro ⟨counts, hcounts, rest, hrest, rfl⟩
          refine ⟨_, rest, ⟨name?_eq_some_iff.mp hname, rules, rfl, ?_⟩, hrest, rfl⟩
          -- Different keys are different rules, so that none takes the place of another.
          rwa [OrderedMap.entries_ofList (nodup_of_reads hvalue.keys (hcounts.imp fun _ _ h => h.1.1))]
        · rintro ⟨f, rest, ⟨hkey, _, hrules, hcounts⟩, hrest, rfl⟩
          obtain rfl := Data.map.inj hrules
          obtain rfl : path = f.1 := by
            rw [name?_eq_some_iff.mpr hkey] at hname
            exact (Option.some.inj hname).symm
          refine ⟨f.2.entries, hcounts, rest, hrest, ?_⟩
          have hmap : OrderedMap.ofList f.2.entries = f.2 :=
            OrderedMap.ext (OrderedMap.entries_ofList f.2.nodup_keys)
          rw [hmap]
      · rename_i hmap
        refine iff_of_false (by simp) ?_
        rintro ⟨_, _, ⟨_, rules, hrules, _⟩, _⟩
        exact hmap rules hrules

/-! ### Documents -/

theorem ofData_ok_iff {d : Data} (hd : d.IsTree) {ledger : Ledger} :
    ofData d = .ok ledger ↔ ∃ entries files, d = .map entries ∧
      List.Forall₂ ReadsFile entries files ∧ ledger = ofFiles (OrderedMap.ofList files) := by
  unfold ofData
  split
  · rename_i entries
    simp only [bind_ok_iff, pure_ok_iff, readFiles_ok_iff hd]
    constructor
    · rintro ⟨files, hfiles, rfl⟩
      exact ⟨entries, files, rfl, hfiles, rfl⟩
    · rintro ⟨_, files, hentries, hfiles, rfl⟩
      obtain rfl := Data.map.inj hentries
      exact ⟨files, hfiles, rfl⟩
  · rename_i hmap
    refine iff_of_false (by simp) ?_
    rintro ⟨entries, _, rfl, _⟩
    exact hmap entries rfl

/-- An entry is that of a rule if its key is a name and its value gives a count. -/
theorem exists_readsRule_iff {r : Scalar × Data} :
    (∃ rule, ReadsRule r rule) ↔
      (∃ name, r.1 = .text name ∧ name ≠ "") ∧ ∃ count, Gives r.2 count := by
  constructor
  · rintro ⟨rule, hname, hcount⟩
    exact ⟨⟨_, hname⟩, _, hcount⟩
  · rintro ⟨⟨name, hname⟩, count, hcount⟩
    exact ⟨(name, count), hname, hcount⟩

/-- An entry is that of a file if its key is a name and its value is a mapping of rules. -/
theorem exists_readsFile_iff {f : Scalar × Data} (hf : f.2.IsTree) :
    (∃ file, ReadsFile f file) ↔ (∃ name, f.1 = .text name ∧ name ≠ "") ∧
      ∃ rules, f.2 = .map rules ∧ ∀ r ∈ rules, ∃ rule, ReadsRule r rule := by
  constructor
  · rintro ⟨file, hname, rules, hrules, hcounts⟩
    exact ⟨⟨_, hname⟩, rules, hrules, exists_forall₂_iff.mp ⟨_, hcounts⟩⟩
  · rintro ⟨⟨name, hname⟩, rules, hrules, hall⟩
    obtain ⟨counts, hcounts⟩ := exists_forall₂_iff.mpr hall
    rw [hrules] at hf
    refine ⟨(name, ⟨counts, nodup_of_reads hf.keys (hcounts.imp fun _ _ h => h.1.1)⟩), hname, ?_⟩
    exact ⟨rules, hrules, hcounts⟩

/-- A document is a ledger exactly if nothing is wrong with it. A fault is the negation of what the
    two statements above ask for. -/
theorem exists_ofData_iff {d : Data} (hd : d.IsTree) :
    (∃ ledger, ofData d = .ok ledger) ↔ ¬HasFault d := by
  constructor
  · rintro ⟨ledger, h⟩ hfault
    obtain ⟨entries, files, rfl, hfiles, -⟩ := (ofData_ok_iff hd).mp h
    have hread : ∀ f ∈ entries, ∃ file, ReadsFile f file := exists_forall₂_iff.mp ⟨files, hfiles⟩
    cases hfault with
    | notAMapping h => exact h entries rfl
    | path hf h =>
      obtain ⟨file, ⟨hkey, hname⟩, _⟩ := hread _ hf
      exact hname (h _ hkey)
    | entry hf h =>
      obtain ⟨file, _, rules, hrules, _⟩ := hread _ hf
      exact h rules hrules
    | rule hf hrules hr h =>
      obtain ⟨file, _, rules, hmap, hcounts⟩ := hread _ hf
      obtain rfl := Data.map.inj (hrules.symm.trans hmap)
      obtain ⟨rule, ⟨hkey, hname⟩, _⟩ := exists_forall₂_iff.mp ⟨_, hcounts⟩ _ hr
      exact hname (h _ hkey)
    | count hf hrules hr h =>
      obtain ⟨file, _, rules, hmap, hcounts⟩ := hread _ hf
      obtain rfl := Data.map.inj (hrules.symm.trans hmap)
      obtain ⟨rule, _, hcount, hpos⟩ := exists_forall₂_iff.mp ⟨_, hcounts⟩ _ hr
      exact absurd hpos (Int.not_lt.mpr (h _ hcount))
  · intro hfault
    obtain ⟨entries, rfl⟩ : ∃ entries, d = .map entries := by
      by_contra hno
      exact hfault (.notAMapping fun files heq => hno ⟨files, heq⟩)
    -- Each entry is read, as none of them has a fault.
    have hread : ∀ f ∈ entries, ∃ file, ReadsFile f file := by
      intro f hf
      refine (exists_readsFile_iff (hd.value hf)).mpr ⟨?_, ?_⟩
      · by_contra hno
        refine hfault (.path hf fun path hkey => ?_)
        by_contra hpath
        exact hno ⟨path, hkey, hpath⟩
      · obtain ⟨rules, hrules⟩ : ∃ rules, f.2 = .map rules := by
          by_contra hno
          exact hfault (.entry hf fun rules heq => hno ⟨rules, heq⟩)
        refine ⟨rules, hrules, fun r hr => exists_readsRule_iff.mpr ⟨?_, ?_⟩⟩
        · by_contra hno
          refine hfault (.rule hf hrules hr fun rule hkey => ?_)
          by_contra hrule
          exact hno ⟨rule, hkey, hrule⟩
        · by_contra hno
          refine hfault (.count hf hrules hr fun count hcount => ?_)
          by_contra hpos
          exact hno ⟨count, hcount, Int.not_le.mp hpos⟩
    obtain ⟨files, hfiles⟩ := exists_forall₂_iff.mpr hread
    exact ⟨_, (ofData_ok_iff hd).mpr ⟨entries, files, rfl, hfiles, rfl⟩⟩

/-- A ledger holds the files of its document that have rules. Files without rules are dropped. -/
theorem isReadFrom_of_ofData {d : Data} (hd : d.IsTree) {ledger : Ledger}
    (h : ofData d = .ok ledger) : ledger.IsReadFrom d := by
  obtain ⟨entries, files, rfl, hfiles, rfl⟩ := (ofData_ok_iff hd).mp h
  have hnodup := nodup_of_reads hd.keys (hfiles.imp fun _ _ h => h.1.1)
  refine ⟨entries, rfl, ?_⟩
  show List.Forall₂ ReadsFile _ ((OrderedMap.ofList files).entries.filter _)
  rw [OrderedMap.entries_ofList hnodup]
  have hblank : ∀ ⦃f : Scalar × Data⦄ ⦃file : String × Counts⦄, ReadsFile f file →
      ((!f.2.isBlank) = true ↔ (!file.2.entries.isEmpty) = true) := by
    rintro f file ⟨_, rules, hrules, hcounts⟩
    have hlength := hcounts.length_eq
    rw [hrules]
    simp [Data.isBlank, ← List.length_eq_zero_iff, hlength]
  exact List.rel_filter hblank hfiles

/-! ### Counts in mappings -/

/-- A value itself, or, if it is no mapping, a mapping with it under the key of counts, with
    whatever else stands there. -/
inductive Wraps (value : Data) : Data → Prop
  | same : Wraps value value
  | inside {entries : List (Scalar × Data)} (hflat : ∀ inner, value ≠ .map inner)
      (hfield : Data.field? entries countKey = some value) : Wraps value (.map entries)

/-- The same keys, with values that may be wrapped. -/
def WrapsRule (r s : Scalar × Data) : Prop := s.1 = r.1 ∧ Wraps r.2 s.2

/-- The same file, with counts that may be wrapped. -/
inductive WrapsFile (f : Scalar × Data) : Scalar × Data → Prop
  | same : WrapsFile f f
  | rules {rules rules' : List (Scalar × Data)} (hrules : f.2 = .map rules)
      (h : List.Forall₂ WrapsRule rules rules') : WrapsFile f (f.1, .map rules')

/-- The same document, with counts that may be wrapped. -/
inductive Rewraps : Data → Data → Prop
  | files {files files' : List (Scalar × Data)} (h : List.Forall₂ WrapsFile files files') :
      Rewraps (.map files) (.map files')

/-- A count in a mapping is read as the count alone. -/
theorem readCount_of_wraps {value value' : Data} (h : Wraps value value') (path rule : String) :
    readCount path rule value' = readCount path rule value := by
  cases h with
  | same => rfl
  | inside hflat hfield =>
    have hplain : readCount path rule value = readPlainCount path rule value := by
      unfold readCount
      split
      · exact absurd rfl (hflat _)
      · rfl
    rw [hplain, readCount, hfield]

theorem readRules_of_wraps {rules rules' : List (Scalar × Data)}
    (h : List.Forall₂ WrapsRule rules rules') (path : String) :
    readRules path rules' = readRules path rules := by
  induction h with
  | nil => rfl
  | @cons r s _ _ hrule _ ih =>
    obtain ⟨key, value⟩ := r
    obtain ⟨_, value'⟩ := s
    obtain ⟨rfl, hvalue⟩ := hrule
    simp only [readRules, readCount_of_wraps hvalue, ih]

theorem readFiles_of_wraps {files files' : List (Scalar × Data)}
    (h : List.Forall₂ WrapsFile files files') : readFiles files' = readFiles files := by
  induction h with
  | nil => rfl
  | @cons f _ _ _ hfile _ ih =>
    obtain ⟨key, value⟩ := f
    cases hfile with
    | same => simp only [readFiles, ih]
    | rules hrules hwraps =>
      obtain rfl : value = _ := hrules
      simp only [readFiles, readRules_of_wraps hwraps, ih]

/-- Whether counts are wrapped makes no difference, neither to a ledger nor to a refusal. A refusal
    names the file and the rule, and these stay. -/
theorem ofData_of_rewraps {d d' : Data} (h : Rewraps d d') : ofData d' = ofData d := by
  cases h with
  | files h => rw [ofData, ofData, readFiles_of_wraps h]

/-! ### Plain data -/

theorem isTree_plainData (files : FileCounts) : (plainData files).IsTree := by
  have hkeys : ∀ {β : Type} {pairs : List (String × β)} (value : String × β → Data),
      (pairs.map Prod.fst).Nodup →
        (pairs.map fun e => (Scalar.text e.1, value e)).Pairwise fun e f => e.1.sameKey f.1 = false := by
    intro _ pairs value hnodup
    refine List.pairwise_map.mpr ((List.pairwise_map.mp hnodup).imp fun hne => ?_)
    rw [Scalar.sameKey_text]
    exact decide_eq_false hne
  refine .map (hkeys _ files.nodup_keys) (List.forall_mem_map.mpr fun f _ => ?_)
  exact .map (hkeys _ f.2.nodup_keys) (List.forall_mem_map.mpr fun _ _ => .scalar)

/-- A ledger as plain data is read as the ledger. Names must not be empty, and counts must be
    positive, as they are in a ledger that was read. -/
theorem ofData_plainData {ledger : Ledger}
    (h : ∀ x ∈ ledger.entries, x.file ≠ "" ∧ x.rule ≠ "" ∧ 0 < x.count) :
    ofData (plainData ledger.files) = .ok ledger := by
  rw [ofData_ok_iff (isTree_plainData ledger.files)]
  refine ⟨_, ledger.files.entries, rfl, ?_, ?_⟩
  · rw [List.forall₂_map_left_iff, List.forall₂_same]
    intro f hf
    have hentry : ∀ r ∈ f.2.entries, f.1 ≠ "" ∧ r.1 ≠ "" ∧ 0 < r.2 :=
      fun r hr => h ⟨f.1, r.1, r.2⟩ (mem_entries.mpr ⟨f.2, hf, hr⟩)
    obtain ⟨r, hr⟩ := List.exists_mem_of_ne_nil _ (ledger.nonempty f hf)
    refine ⟨⟨rfl, (hentry r hr).1⟩, _, rfl, ?_⟩
    rw [List.forall₂_map_left_iff, List.forall₂_same]
    exact fun r hr => ⟨⟨rfl, (hentry r hr).2.1⟩, rfl, (hentry r hr).2.2⟩
  · have hfiles : OrderedMap.ofList ledger.files.entries = ledger.files :=
      OrderedMap.ext (OrderedMap.entries_ofList ledger.files.nodup_keys)
    rw [hfiles, ofFiles_files]

/-- A document is refused exactly if something is wrong with it; otherwise the ledger holds its
    files that have rules, in order, and is read again from its own plain data. It makes no
    difference whether counts stand in mappings. -/
theorem ofData_reads {d : Data} (hd : d.IsTree) :
    ((∃ cause, ofData d = .error cause) ↔ HasFault d) ∧
      (∀ ledger, ofData d = .ok ledger →
        ledger.IsReadFrom d ∧ ofData (plainData ledger.files) = .ok ledger) ∧
      ∀ d', Rewraps d d' → ofData d' = ofData d := by
  refine ⟨?_, fun ledger h => ⟨isReadFrom_of_ofData hd h, ofData_plainData fun x hx => ?_⟩,
    fun d' => ofData_of_rewraps⟩
  · have hok := exists_ofData_iff hd
    cases h : ofData d with
    | ok ledger => simpa [h] using hok
    | error cause => simpa [h] using hok
  · obtain ⟨_, _, _, _, _, _, _, _, hfile, hrule, hcount⟩ := exists_of_mem_ofData h hx
    exact ⟨name?_eq_some hfile, name?_eq_some hrule, (readCount_ok hcount).1⟩

/-- A document with a count of its own, one in a mapping with a note, and a file without rules. -/
def mixedDocument : Data :=
  .map [(.text "src/a.ts", .map [(.text "semi", .int 2),
      (.text "no-eval", .map [(.text "note", .text "old"), (.text "count", .int 1)])]),
    (.text "src/b.ts", .map [])]

/-- The same document with all counts in mappings. -/
def wrappedDocument : Data :=
  .map [(.text "src/a.ts", .map [
      (.text "semi", .map [(.text "count", .int 2), (.text "note", .null)]),
      (.text "no-eval", .map [(.text "note", .text "old"), (.text "count", .int 1)])]),
    (.text "src/b.ts", .map [])]

/-- The ledger that both are read as. -/
def mixedLedger : Ledger := ofFiles (.ofList [("src/a.ts", .ofList [("semi", 2), ("no-eval", 1)])])

/-- A document in which one count stands alone and another in a mapping. -/
theorem ofData_mixedDocument :
    mixedDocument.IsTree ∧ ofData mixedDocument = .ok mixedLedger ∧
      mixedLedger.IsReadFrom mixedDocument ∧
      ofData (plainData mixedLedger.files) = .ok mixedLedger ∧
      Rewraps mixedDocument wrappedDocument ∧ ofData wrappedDocument = .ok mixedLedger := by
  have htree : mixedDocument.IsTree := by
    refine .map (by decide) (List.forall_mem_cons.mpr ⟨.map (by decide) ?_, ?_⟩)
    · refine List.forall_mem_cons.mpr ⟨.scalar, List.forall_mem_singleton.mpr ?_⟩
      exact .map (by decide) (List.forall_mem_cons.mpr ⟨.scalar, List.forall_mem_singleton.mpr .scalar⟩)
    · exact List.forall_mem_singleton.mpr (.map .nil (List.forall_mem_nil _))
  have hwraps : Rewraps mixedDocument wrappedDocument := by
    refine .files (.cons (.rules rfl (.cons ⟨rfl, .inside nofun ?_⟩ ?_)) (.cons .same .nil))
    · simp [Data.field?, countKey]
    · exact .cons ⟨rfl, .same⟩ .nil
  have hread : ofData mixedDocument = .ok mixedLedger := by rfl
  obtain ⟨_, hledger, hrewraps⟩ := ofData_reads htree
  obtain ⟨hfiles, hagain⟩ := hledger mixedLedger hread
  exact ⟨htree, hread, hfiles, hagain, hwraps, (hrewraps _ hwraps).trans hread⟩

end Ledger

end Backlog
