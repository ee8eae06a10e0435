import Backlog.Load
import Backlog.Proofs.Json.RoundTrip
import Backlog.Proofs.Ledger.Entries
import Backlog.Proofs.Outcome
import Backlog.Proofs.Text.Utf8

namespace Backlog

open Backlog.Files Backlog.Number Backlog.Text

/-!
# Ledgers in files, written and read

A ledger whose names are not empty and whose counts are positive, and not too long, can be written
and read back. It is made of mappings with texts as keys, so what is known of documents in JSON does
most of the work; what is left is to read the document as a ledger.

* `Ledger.ofData_toData` — the document of a ledger is the ledger's;
* `Ledger.isDocument_toData` — it can be written as JSON;
* `Ledger.load_of_read` — a file with its text is loaded as the ledger;
* `Ledger.dump_reads_back` — a ledger is written in ASCII, and read as the one that was written.
-/

namespace Ledger

/-- An entry as a file may hold it: with names that are not empty, and a positive count that is not
    too long. -/
def Entry.IsStorable (x : Entry) : Prop :=
  x.file ≠ "" ∧ x.rule ≠ "" ∧ 0 < x.count ∧ isTooLong x.count = false

instance (x : Entry) : Decidable x.IsStorable := inferInstanceAs (Decidable (_ ∧ _ ∧ _ ∧ _))

/-! ### Documents -/

theorem countData_eq_mapOf (count : Int) : countData count = Json.mapOf [(countKey, .int count)] :=
  rfl

/-- The rules of a file as the members of its document. -/
def ruleMembers (rules : List (String × Int)) : List (String × Data) :=
  rules.map fun r => (r.1, countData r.2)

/-- Files as the members of a ledger's document. -/
def fileMembers (files : List (String × Counts)) : List (String × Data) :=
  files.map fun e => (e.1, Json.mapOf (ruleMembers e.2.entries))

/-- The document of a ledger has a member for each file. -/
theorem toData_eq_mapOf (ledger : Ledger) :
    ledger.toData = Json.mapOf (fileMembers ledger.files.entries) := by
  simp [toData, fileMembers, ruleMembers, Json.mapOf, Json.pairsOf]

theorem name?_text {s : String} (h : s ≠ "") : name? (.text s) = some s := by
  simp [name?, h]

/-- The rules of a file are read as they were written. -/
theorem readRules_ruleMembers {path : String} {rules : List (String × Int)}
    (h : ∀ r ∈ rules, r.1 ≠ "" ∧ 0 < r.2) :
    readRules path (Json.pairsOf (ruleMembers rules)) = .ok rules := by
  induction rules with
  | nil => rfl
  | cons r rules ih =>
    obtain ⟨hname, hcount⟩ := h r (List.mem_cons_self ..)
    have hread : readCount path r.1 (countData r.2) = .ok r.2 := by
      rw [countData, readCount]
      simp [Data.field?, countKey, readPlainCount, hcount]
    rw [ruleMembers, List.map_cons, ← ruleMembers, Json.pairsOf_cons, readRules]
    simp only [name?_text hname, hread, ih fun s hs => h s (List.mem_cons_of_mem _ hs), bind,
      Except.bind, pure, Except.pure]

/-- The files of a ledger are read as they were written. -/
theorem readFiles_fileMembers {files : List (String × Counts)}
    (h : ∀ e ∈ files, e.1 ≠ "" ∧ ∀ r ∈ e.2.entries, r.1 ≠ "" ∧ 0 < r.2) :
    readFiles (Json.pairsOf (fileMembers files)) = .ok files := by
  induction files with
  | nil => rfl
  | cons e files ih =>
    obtain ⟨hname, hrules⟩ := h e (List.mem_cons_self ..)
    have hcounts : OrderedMap.ofList e.2.entries = e.2 :=
      OrderedMap.ext (OrderedMap.entries_ofList e.2.nodup_keys)
    rw [fileMembers, List.map_cons, ← fileMembers, Json.pairsOf_cons, Json.mapOf, readFiles]
    simp only [name?_text hname, readRules_ruleMembers hrules, hcounts,
      ih fun s hs => h s (List.mem_cons_of_mem _ hs), bind, Except.bind, pure, Except.pure]

/-- A ledger is made again of its files, as none of them is without rules. -/
theorem ofFiles_files (ledger : Ledger) : ofFiles ledger.files = ledger := by
  refine Ledger.ext (OrderedMap.ext ?_)
  show ledger.files.entries.filter (fun e => !e.2.entries.isEmpty) = ledger.files.entries
  rw [List.filter_eq_self]
  intro e he
  simpa using ledger.nonempty e he

/-- What is known of each entry is known of each name and count. A file has entries, so its name is
    that of one. -/
theorem forall_files {ledger : Ledger} (h : ∀ x ∈ ledger.entries, x.IsStorable) :
    ∀ e ∈ ledger.files.entries,
      e.1 ≠ "" ∧ ∀ r ∈ e.2.entries, r.1 ≠ "" ∧ 0 < r.2 ∧ isTooLong r.2 = false := by
  intro e he
  have hentry : ∀ r ∈ e.2.entries, Entry.IsStorable ⟨e.1, r.1, r.2⟩ :=
    fun r hr => h _ (mem_entries.mpr ⟨e.2, he, hr⟩)
  -- No file of a ledger is without entries, so its name is that of one.
  obtain ⟨r, hr⟩ := List.exists_mem_of_ne_nil _ (ledger.nonempty e he)
  exact ⟨(hentry r hr).1, fun r hr => (hentry r hr).2⟩

/-- The document of a ledger is the ledger's. The text comes next; here a document is a value. -/
theorem ofData_toData {ledger : Ledger} (h : ∀ x ∈ ledger.entries, x.IsStorable) :
    ofData ledger.toData = .ok ledger := by
  have hread :
      readFiles (Json.pairsOf (fileMembers ledger.files.entries)) = .ok ledger.files.entries :=
    readFiles_fileMembers fun e he => ⟨(forall_files h e he).1,
      fun r hr => ⟨((forall_files h e he).2 r hr).1, ((forall_files h e he).2 r hr).2.1⟩⟩
  have hfiles : OrderedMap.ofList ledger.files.entries = ledger.files :=
    OrderedMap.ext (OrderedMap.entries_ofList ledger.files.nodup_keys)
  rw [toData_eq_mapOf, Json.mapOf, ofData]
  simp only [hread, hfiles, ofFiles_files, bind, Except.bind, pure, Except.pure]

/-- The document of a ledger holds only what JSON can write. Names are texts, and counts are not too
    long. -/
theorem isDocument_toData {ledger : Ledger} (h : ∀ x ∈ ledger.entries, x.IsStorable) :
    Json.IsDocument Json.IsExact ledger.toData := by
  rw [toData_eq_mapOf]
  refine .map ?_ ?_
  · simpa [fileMembers, Function.comp_def] using ledger.files.nodup_keys
  intro e he
  obtain ⟨⟨file, counts⟩, hf, rfl⟩ := List.mem_map.mp he
  refine .map ?_ ?_
  · simpa [ruleMembers, Function.comp_def] using counts.nodup_keys
  intro r hr
  obtain ⟨⟨rule, count⟩, hmem, rfl⟩ := List.mem_map.mp hr
  rw [countData_eq_mapOf]
  refine .map (by simp) fun m hm => ?_
  obtain rfl := List.mem_singleton.mp hm
  exact .scalar ((forall_files h _ hf).2 _ hmem).2.2

/-! ### Texts -/

/-- The text of a ledger holds printable ASCII characters and line feeds only. What is no such
    character has been escaped. -/
theorem isLinear_dumpChars {ledger : Ledger} (h : ∀ x ∈ ledger.entries, x.IsStorable) :
    ∀ c ∈ ledger.dumpChars, Json.IsLinear c := by
  intro c hc
  rcases List.mem_append.mp hc with hc | hc
  · exact (isDocument_toData h).isLinear 0 c hc
  · exact .inr (List.mem_singleton.mp hc)

/-- The text of a ledger is read as its document. It is read back exactly, with members in their
    order. -/
theorem parse_dumpChars {ledger : Ledger} (h : ∀ x ∈ ledger.entries, x.IsStorable) :
    Json.parse (String.ofList ledger.dumpChars) = .ok ledger.toData := by
  rw [Json.parse, String.toList_ofList, dumpChars]
  exact Json.parseChars_write Json.isReadable_asciiLines
    ((isDocument_toData h).mono fun s hs => hs.readsBack _) (List.forall_mem_singleton.mpr rfl)

/-- Nothing keeps a storable ledger from being written down. -/
theorem dump?_eq {ledger : Ledger} (h : ∀ x ∈ ledger.entries, x.IsStorable) :
    ledger.dump? = .ok (String.ofList ledger.dumpChars) := by
  rw [dump?, (isDocument_toData h).obstacle?_eq_none]

/-- A file with the text of a ledger is read as the ledger. In ASCII, bytes and characters are the
    same. -/
theorem load_of_read {ledger : Ledger} (h : ∀ x ∈ ledger.entries, x.IsStorable) {tree : FileTree}
    {path : Path}
    (hread : tree.read path.text = .ok (Utf8.encode (String.ofList ledger.dumpChars))) :
    load tree path = .ok ledger := by
  -- Reading a file unifies the ends of lines, and here there is nothing to unify.
  have hends : unifyLineEnds ledger.dumpChars = ledger.dumpChars :=
    unifyLineEnds_eq_self fun hmem => (isLinear_dumpChars h _ hmem).ascii.2 rfl
  have htext : tree.readText path = .ok (String.ofList ledger.dumpChars) := by
    rw [FileTree.readText]
    simp only [hread, Utf8.decode_encode, String.toList_ofList, hends, mapError_ok, bind,
      Except.bind, pure, Except.pure]
  rw [load]
  simp only [htext, ofText, parse_dumpChars h, ofData_toData h, mapError_ok, bind, Except.bind]

/-- A ledger is written in ASCII, without carriage returns, and read as the one that was written,
    from its text as from a file that holds this. -/
theorem dump_reads_back (ledger : Ledger) (h : ∀ x ∈ ledger.entries, x.IsStorable) :
    ∃ text, ledger.dump? = .ok text ∧ (∀ c ∈ text.toList, c.toNat < 128 ∧ c ≠ '\r') ∧
      (∃ data, Json.parse text = .ok data ∧ ofData data = .ok ledger) ∧
      ∀ (tree : FileTree) (path : Path), tree.read path.text = .ok (Utf8.encode text) →
        load tree path = .ok ledger := by
  refine ⟨String.ofList ledger.dumpChars, dump?_eq h, ?_, ⟨_, parse_dumpChars h, ofData_toData h⟩,
    fun tree path hread => load_of_read h hread⟩
  intro c hc
  rw [String.toList_ofList] at hc
  exact (isLinear_dumpChars h c hc).ascii

/-- A ledger whose names need escapes of every kind, with a count of more than sixty-four bits. -/
def escapedSample : Ledger :=
  ofFiles (.ofList [("src/\"é\" \\ 😀.ts", .ofList [("no\n\x01rule", 1), ("\x7f", 2 ^ 70)]),
    ("\r", .ofList [("ünused", 30)])])

/-- A ledger with quotes, line feeds and letters beyond ASCII in its names. -/
theorem escapedSample_reads_back :
    (∀ x ∈ escapedSample.entries, x.IsStorable) ∧
      ∃ text, escapedSample.dump? = .ok text ∧
        load ⟨.folder [("ledger.json", .file (Utf8.encode text) 0)], []⟩ ⟨0, ["ledger.json"]⟩ =
          .ok escapedSample := by
  have hstorable : ∀ x ∈ escapedSample.entries, x.IsStorable := by decide
  obtain ⟨text, hdump, _, _, hload⟩ := dump_reads_back escapedSample hstorable
  refine ⟨hstorable, text, hdump, hload _ _ ?_⟩
  have htext : (Files.Path.mk 0 ["ledger.json"]).text = "ledger.json" := by decide
  have hnames : namesOf "ledger.json" = ["ledger.json"] := by decide
  have hsize : "ledger.json".utf8ByteSize = 11 := by decide
  rw [htext, FileTree.read, FileTree.stat, FileTree.locate, hnames, hsize]
  simp [FileTree.walk, Node.find?, Node.childNamed?, Path.isIdle, FileTree.maxPathSize,
    FileTree.maxNameSize, hsize, bind, Except.bind]

end Ledger

end Backlog
