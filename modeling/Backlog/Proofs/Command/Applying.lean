import Backlog.Proofs.Cache.Graphs
import Backlog.Proofs.Command.Status
import Backlog.Proofs.Selection.Run

namespace Backlog.Command

open Backlog.Files Backlog.Files.FileTree Backlog.Text SelectionRequest

/-!
# What applying does to the ledger

The file of the ledger is read at the start of a command and written at its very end. In between, a
graph may have been stored in the cache; so it has to be shown that this write does not touch the
ledger, which holds if no path to it leads through the folder of the graphs.

* `SelectionRequest.read_run` — a selection leaves the file of the ledger alone, even if it keeps a
  graph in the cache;
* `exists_policy` — what a command selects is selected under a policy, and so makes progress;
* `run_apply` — applying writes what is left of the ledger to its file, and if it does not come to
  this, the file is as it was.
-/

/-! ### The file of the ledger -/

namespace SelectionRequest

variable {r : SelectionRequest} {tree : FileTree} {grammars : Grammars} {readers : Readers}
  {now : Int}

/-- The path of the ledger lies outside of the cache: it leads to the same place, whatever graphs
    are kept in the cache. -/
def IsApart (r : SelectionRequest) (tree : FileTree) : Prop :=
  (GraphCache.ofProject (projectRoot tree r.project)).store.IsIgnoredBy tree "dependency-graph"
    r.ledger.text

/-- The settings need a graph exactly for an active scope. So without one no graph is built and
    nothing is stored. -/
theorem neededGraph_ok {cache : Option GraphCache} {config : Config} {project : Project}
    {needed : Option (DependencyScope × ScopeGraph)}
    (h : neededGraph grammars now cache config project = .ok needed) :
    needed = none ∧ Eligibility.activeScope config.options = none ∨
      ∃ scope found, needed = some (scope, found) ∧
        Eligibility.activeScope config.options = some scope ∧
        ImportGraph.ofScope scope project cache now (builder grammars) = .ok found := by
  obtain ⟨_, _, h⟩ := bind_ok_iff.mp h
  split at h
  · rename_i hscope
    exact .inl ⟨pure_ok_iff.mp h, hscope⟩
  · rename_i scope hscope
    obtain ⟨found, hfound, h⟩ := bind_ok_iff.mp h
    exact .inr ⟨scope, found, pure_ok_iff.mp h, hscope, mapError_ok_iff.mp hfound⟩

/-- A file that is apart from the cache is as it was when a graph has been kept there. All that
    changes the tree is the write to the cache. -/
theorem read_ofScope {root : Path} (hroot : root.IsSpelled) {noCache : Bool}
    {scope : DependencyScope} {builder : Builder} {found : ScopeGraph} {text : String}
    {content : Bytes}
    (hapart : (GraphCache.ofProject root).store.IsIgnoredBy tree "dependency-graph" text)
    (h : ImportGraph.ofScope scope ⟨tree, root⟩ (cacheOf root noCache) now builder = .ok found)
    (hread : tree.read text = .ok content) : found.tree.read text = .ok content := by
  obtain ⟨key, _, ⟨_, _, _, heq⟩ | ⟨_, ⟨_, heq⟩ | ⟨used, hused, _, hset⟩⟩⟩ := ImportGraph.ofScope_ok h
  · rw [heq, hread]
  · rw [heq, hread]
  · have hcache : used = .ofProject root := by
      cases noCache with
      | true => cases hused
      | false => exact (Option.some.inj hused).symm
    obtain ⟨_, _, _, _, _, _, heq⟩ := GraphCache.set_ok_iff.mp hset
    have hspelled : (GraphCache.ofProject root).store.folder.IsSpelled :=
      (hroot.child ⟨by decide, by decide, by decide⟩).child ⟨by decide, by decide, by decide⟩
    rw [heq, hcache]
    exact CacheStore.read_write_of_ignores CacheStore.isPart_graphs (GraphCache.isSlot_slotName key)
      hspelled hapart hread

/-- A selection leaves the file of the ledger alone. Whether it comes to a result or not. -/
theorem read_run (readers : Readers) (now : Int)
    (hroot : (projectRoot tree r.project).IsSpelled) (hapart : r.IsApart tree) :
    (r.run readers tree now).1.read r.ledger.text = tree.read r.ledger.text := by
  unfold SelectionRequest.run
  dsimp only
  split
  · rfl
  · rename_i inputs hinputs
    obtain ⟨content, hread⟩ := Ledger.exists_read_of_load (inputs_ok_iff.mp hinputs).2.1
    split
    · rfl
    · rename_i needed hneeded
      rcases neededGraph_ok hneeded with ⟨rfl, _⟩ | ⟨scope, found, rfl, _, hfound⟩
      · rfl
      · rw [hread]
        exact read_ofScope hroot hapart hfound hread

/-- What a command selects is selected under a policy: the rules, the settings, the project after
    the graph has been kept, and the graph. So what is proved of selections under a policy holds of
    commands. -/
theorem exists_policy {selected : Selected} (h : (r.run readers tree now).2 = .ok selected) :
    ∃ p : Policy, p.select selected.ledger = .ok selected.selection := by
  unfold SelectionRequest.run at h
  dsimp only at h
  split at h
  · cases h
  rename_i inputs _
  split at h
  · cases h
  rename_i needed hneeded
  simp only [Inputs.select, bind_ok_iff, mapError_ok_iff, pure_ok_iff] at h
  obtain ⟨kind, hlimit, paths, hpaths, selection, hselect, rfl⟩ := h
  generalize ((needed.map fun found => found.2.tree).getD tree) = after at hpaths hselect
  let project : Project := ⟨after, projectRoot tree r.project⟩
  have hpolicy : ∀ graph, reachablePaths (fun _ => .ok graph) inputs.config.options project =
      .ok paths → Policy.select ⟨inputs.rules, inputs.config, project, graph⟩ inputs.ledger =
        .ok selection := by
    intro graph hgraph
    simp only [Policy.select, selectRule, bind_ok_iff, mapError_ok_iff]
    exact ⟨kind, hlimit, paths, hgraph, hselect⟩
  -- Without a scope no graph is looked at, so any one will do.
  rcases neededGraph_ok hneeded with ⟨rfl, hscope⟩ | ⟨scope, found, rfl, hscope, _⟩
  · obtain rfl := Except.ok.inj hpaths
    refine ⟨_, hpolicy ⟨.empty, [], .zero false, 0⟩ ?_⟩
    exact Policy.reachablePaths_ok_iff.mpr (.inl ⟨hscope, rfl⟩)
  · obtain ⟨reached, hreached, rfl⟩ := map_ok_iff.mp hpaths
    refine ⟨_, hpolicy found.graph (Policy.reachablePaths_ok_iff.mpr (.inr ?_))⟩
    exact ⟨scope, reached, hscope, mapError_ok_iff.mp hreached, rfl⟩

end SelectionRequest

/-! ### Applying -/

variable {readers : Readers} {tree : FileTree} {now : Int} {r : SelectionRequest}

/-- A failure is told by the status. -/
theorem Outcome.fails_status_ne_zero (tree : FileTree) (e : RunError) :
    (Outcome.fails tree e).status ≠ 0 := by
  unfold Outcome.fails
  split <;> exact nofun

/-- It changes nothing beyond what the selection itself has changed. -/
theorem Outcome.fails_tree (tree : FileTree) (e : RunError) : (Outcome.fails tree e).tree = tree := by
  unfold Outcome.fails
  split <;> rfl

/-- The folder of the project is spelled like a path if the current folder is. It is given on the
    command line, or it is found above the current folder. -/
theorem isSpelled_projectRoot {words : List String} {request : Request}
    (hhere : (currentFolder tree).IsSpelled) (hwords : Request.ofWords tree words = .ok request)
    (hr : request.selection? = some r) : (projectRoot tree r.project).IsSpelled := by
  obtain ⟨reading, options, _, _, hreading⟩ := exists_reading hwords hr
  cases hproject : r.project with
  | none => exact hhere
  | some project =>
    obtain ⟨value, rfl⟩ := project_of_selectionOf hreading hproject
    exact Path.isSpelled_ofText value

/-- What applying a selection does: with `write` and status 0, the file of the ledger holds what the
    selection leaves of it, which has fewer entries and none that are new; otherwise it is as it
    was. The write is the last thing that can fail, so a failure never follows on a write. -/
theorem runApply_cases (hroot : (projectRoot tree r.project).IsSpelled) (hapart : r.IsApart tree)
    (write : Bool) :
    let outcome := runApply readers tree now r write
    ((write = true ∧ outcome.status = 0) ∧
      ∃ ledger s, (r.run readers tree now).2 = .ok ⟨ledger, some s⟩ ∧
        Ledger.load tree r.ledger = .ok ledger ∧
        Ledger.load outcome.tree r.ledger = .ok (ledger.apply (some s)) ∧
        (ledger.apply (some s)).entries.Sublist ledger.entries ∧
        (ledger.apply (some s)).entries.length < ledger.entries.length) ∨
    (¬(write = true ∧ outcome.status = 0) ∧
      outcome.tree.read r.ledger.text = tree.read r.ledger.text) := by
  intro outcome
  have hread := read_run readers now hroot hapart
  have hload : ∀ {selected}, (r.run readers tree now).2 = .ok selected →
      Ledger.load tree r.ledger = .ok selected.ledger := load_of_run
  have hpolicy : ∀ {selected}, (r.run readers tree now).2 = .ok selected →
      ∃ p : Policy, p.select selected.ledger = .ok selected.selection := exists_policy
  generalize hrun : r.run readers tree now = result at hread hload hpolicy
  obtain ⟨after, e | ⟨ledger, selection⟩⟩ := result
  · have houtcome : outcome = .fails after e := by
      show runApply readers tree now r write = _
      unfold runApply
      rw [hrun]
    rw [houtcome]
    exact .inr ⟨fun h => Outcome.fails_status_ne_zero after e h.2,
      by rw [Outcome.fails_tree]; exact hread⟩
  specialize hload rfl
  have hstorable := Ledger.storable_of_load hload
  cases selection with
  | none =>
    have houtcome : outcome = ⟨1, "", [nothingSelected], after, none⟩ := by
      show runApply readers tree now r write = _
      unfold runApply
      rw [hrun]
    rw [houtcome]
    exact .inr ⟨fun h => absurd h.2 Nat.one_ne_zero, hread⟩
  | some s =>
    cases write with
    | false =>
      have houtcome := runApply_shows hstorable hrun
      refine .inr ⟨nofun, ?_⟩
      show (runApply readers tree now r false).tree.read _ = _
      rw [houtcome]
      exact hread
    | true =>
      obtain ⟨content, hcontent⟩ := Ledger.exists_read_of_load hload
      rw [hcontent] at hread
      obtain ⟨written, hwrite⟩ := exists_write_of_read hread
        (Utf8.encode (String.ofList (ledger.apply (some s)).dumpChars)) now
      have houtcome := runApply_writes hstorable hrun hwrite
      obtain ⟨p, hselect⟩ := hpolicy rfl
      obtain ⟨kind, e, happlies, _⟩ := Policy.select_ok_iff.mp hselect
      refine .inl ⟨⟨rfl, congrArg Outcome.status houtcome⟩, ledger, s, rfl, hload, ?_, ?_,
        happlies.length_entries_apply_lt hselect⟩
      · refine Ledger.load_of_read (Ledger.storable_apply hstorable s) ?_
        show (runApply readers tree now r true).tree.read _ = _
        rw [houtcome]
        exact read_write hread hwrite
      · rw [happlies.entries_apply hselect]
        exact List.filter_sublist

/-- A command line that applies a selection to a ledger apart from the cache: with `--write` and
    status 0, the file of the ledger afterwards holds the ledger without what was selected, in the
    same order, with at least one entry fewer and none that is new; in every other case the file is
    as it was. A command line that cannot be used changes nothing at all. -/
theorem run_apply (readers : Readers) (now : Int) (tree : FileTree) (words : List String)
    (hhere : (currentFolder tree).IsSpelled) :
    (∀ cause, Request.ofWords tree words = .error cause →
      (run readers tree now words).tree = tree) ∧
    ∀ r write, Request.ofWords tree words = .ok (.apply r write) → r.IsApart tree →
      let outcome := run readers tree now words
      ((write = true ∧ outcome.status = 0) ∧
        ∃ ledger s, (r.run readers tree now).2 = .ok ⟨ledger, some s⟩ ∧
          Ledger.load tree r.ledger = .ok ledger ∧
          Ledger.load outcome.tree r.ledger = .ok (ledger.apply (some s)) ∧
          (ledger.apply (some s)).entries.Sublist ledger.entries ∧
          (ledger.apply (some s)).entries.length < ledger.entries.length) ∨
      (¬(write = true ∧ outcome.status = 0) ∧
        outcome.tree.read r.ledger.text = tree.read r.ledger.text) := by
  refine ⟨fun cause hcause => ?_, fun r write hwords hapart => ?_⟩
  · unfold run
    rw [hcause]
    rcases cause with (_ | _) | _
    · rfl
    · exact Outcome.fails_tree _ _
    · rfl
  · have hroot := isSpelled_projectRoot hhere hwords (r := r) rfl
    have houtcome : run readers tree now words = runApply readers tree now r write := by
      unfold run
      rw [hwords]
      rfl
    rw [houtcome]
    exact runApply_cases hroot hapart write

/-! A ledger with one entry, in a project with little in it. -/

def payable : Ledger := .ofFiles (.ofList [("a.py", .ofList [("E1", 1)])])

/-- The ledger as it is written down. -/
def payableContent : Bytes := Utf8.encode (String.ofList payable.dumpChars)

def payableSelection : SelectionRequest := { bareSelection with onlyAutoFixable := some false }

def payableWords : List String := ["apply", "l.json", "--write", "--all-rules"]

theorem ofWords_payable (content : Bytes) :
    Request.ofWords (bareProject content) payableWords = .ok (.apply payableSelection true) := by
  have hmain : readArguments mainOptions false payableWords = .ok ⟨[], payableWords⟩ := by
    decide +kernel
  have hoptions : readArguments applyOptions true ["l.json", "--write", "--all-rules"] =
      .ok ⟨[(.write, .switch true), (.fixableOnly, .switch false)], ["l.json"]⟩ := by
    decide +kernel
  have hselection : selectionOf (bareProject content)
      ⟨[(.write, .switch true), (.fixableOnly, .switch false)], ["l.json"]⟩ applyOptions =
        .ok { payableSelection with ledger := .ofText "l.json" } := by
    show (checkValue (bareProject content) "LEDGER" "l.json" .file >>= _) = _
    rw [checkLedger_bareProject]
    rfl
  rw [Path.ofText_name (by decide)] at hselection
  exact ofWords_apply hmain hoptions rfl hselection

/-- Where graphs would be kept in the project of the example. -/
theorem locate_graphs_bareProject (content : Bytes) (followLast : Bool) :
    (bareProject content).locate (Files.Path.mk 1 [".paydown", "cache", "dependency-graph"]).text
      followLast = .ok ⟨[".paydown", "cache", "dependency-graph"], some (.folder [])⟩ := by
  have hclean : (Files.Path.mk 1 [".paydown", "cache", "dependency-graph"]).IsClean :=
    ⟨nofun, by decide⟩
  have hsize : (Files.Path.mk 1 [".paydown", "cache", "dependency-graph"]).text.utf8ByteSize <
      maxPathSize := by decide
  have hnames : ".paydown".utf8ByteSize = 8 ∧ "cache".utf8ByteSize = 5 ∧
      "dependency-graph".utf8ByteSize = 16 := by decide
  rw [locate_text _ hclean, if_neg (Nat.not_le.mpr hsize)]
  simp [bareProject, startOf, Path.isAbsolute, walk, Node.find?, Node.childNamed?, Path.isIdle,
    hnames, maxNameSize]

theorem isApart_bareProject (content : Bytes) : payableSelection.IsApart (bareProject content) := by
  have hsection : (GraphCache.ofProject (projectRoot (bareProject content)
      payableSelection.project)).store.sectionPath "dependency-graph" =
        ⟨1, [".paydown", "cache", "dependency-graph"]⟩ := by
    rw [CacheStore.sectionPath_eq CacheStore.isPart_graphs]
    rfl
  have hfolder : (bareProject content).isFolder
      (Files.Path.mk 1 [".paydown", "cache", "dependency-graph"]).text = .ok true :=
    isFolder_of_locate_folder (locate_graphs_bareProject content true)
  have hledger : payableSelection.ledger.text = "l.json" := by decide
  have hnames : namesOf "l.json" = ["l.json"] := by decide
  have hsize : "l.json".utf8ByteSize = 6 := by decide
  intro made hmake place entries hplace inner
  rw [hsection] at hmake hplace
  rw [makeFolders_of_isFolder hfolder] at hmake
  obtain rfl := Except.ok.inj hmake
  rw [locate_graphs_bareProject] at hplace
  obtain rfl := (Place.mk.inj (Except.ok.inj hplace)).1
  rw [hledger, locate, locate, hnames, hsize]
  simp [bareProject, Node.put, Node.setEntry, walk, Node.find?, Node.childNamed?, Path.isIdle,
    maxPathSize, maxNameSize, hsize]

/-- The rule of the entry is selected. It is the only one, and it fits. -/
theorem run_payable : ∃ selected,
    payableSelection.run .all (bareProject payableContent) 0 =
      (bareProject payableContent, .ok selected) ∧ selected.selection.isSome = true := by
  let config : Config := ⟨.default, { Options.default with onlyAutoFixable := false }⟩
  let root := projectRoot (bareProject payableContent) payableSelection.project
  have hsettings : payableSelection.settings Yaml.parse (bareProject payableContent) = .ok config := by
    show ((Config.load _ _ (projectRoot (bareProject payableContent) none)).mapError _ >>= _) = _
    rw [load_bareProject]
    rfl
  have hload : Ledger.load (bareProject payableContent) payableSelection.ledger = .ok payable := by
    refine Ledger.load_of_read (by decide) ?_
    have hpath : payableSelection.ledger.text = "l.json" := by decide
    rw [hpath, FileTree.read, stat_bareProject]
    rfl
  have hrules : payableSelection.loadRules Yaml.parse (bareProject payableContent) root = .ok .empty := by
    show ((FileTree.isFile _ (Files.Path.mk 1 [".paydown", "rules.yml"]).text).mapError _ >>= _) = _
    rw [isFile_bareProject _ (.inr rfl)]
    rfl
  have hinputs : payableSelection.inputs Yaml.parse (bareProject payableContent) root =
      .ok ⟨config, payable, .empty⟩ := inputs_ok_iff.mpr ⟨hsettings, hload, hrules⟩
  have hscope : payableSelection.IsUnscoped Readers.all.yaml (bareProject payableContent) := by
    intro other hother
    obtain rfl := Except.ok.inj (hsettings.symm.trans hother)
    rfl
  have hselect : ((Inputs.select ⟨config, payable, .empty⟩
      ⟨bareProject payableContent, root⟩ none).toOption.map fun selected =>
        selected.selection.isSome) = some true := by decide
  cases hresult : Inputs.select ⟨config, payable, .empty⟩
      ⟨bareProject payableContent, root⟩ none with
  | error e =>
    rw [hresult] at hselect
    cases hselect
  | ok selected =>
    rw [hresult] at hselect
    refine ⟨selected, ?_, Option.some.inj hselect⟩
    rw [run_of_isUnscoped hscope, ← hresult]
    show (_, payableSelection.inputs Yaml.parse (bareProject payableContent) root >>= _) = _
    rw [hinputs]
    rfl

theorem run_apply_payable :
    (currentFolder (bareProject payableContent)).IsSpelled ∧
      Request.ofWords (bareProject payableContent) payableWords =
        .ok (.apply payableSelection true) ∧
      payableSelection.IsApart (bareProject payableContent) ∧
      ∃ ledger s, (payableSelection.run .all (bareProject payableContent) 0).2 =
          .ok ⟨ledger, some s⟩ ∧
        Ledger.load (run .all (bareProject payableContent) 0 payableWords).tree
          payableSelection.ledger = .ok (ledger.apply (some s)) := by
  have hhere : (currentFolder (bareProject payableContent)).IsSpelled := nofun
  have hwords := ofWords_payable payableContent
  have hapart := isApart_bareProject payableContent
  refine ⟨hhere, hwords, hapart, ?_⟩
  rcases (run_apply .all 0 _ payableWords hhere).2 _ _ hwords hapart with
    ⟨_, ledger, s, hrun, _, hload, _⟩ | ⟨hnot, _⟩
  · exact ⟨ledger, s, hrun, hload⟩
  · -- the selection succeeds, and so the status is 0
    obtain ⟨selected, hrun, hsome⟩ := run_payable
    have hr : (Request.apply payableSelection true).selection? = some payableSelection := rfl
    have hstatus := (runRequest_of_ok hr hrun).2
    rw [hsome] at hstatus
    refine absurd ⟨rfl, ?_⟩ hnot
    unfold run
    rw [hwords]
    exact hstatus

end Backlog.Command
