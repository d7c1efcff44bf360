import EvalHarness.Aggregator.Merged
import EvalHarness.Lib.Text

set_option autoImplicit false

/-! # Reading the results (`docent_adapter.py`)

What `iter_records` makes of the files that match a pattern, and which of its records a finished run
leaves it. `json.loads` is a parameter: a line of the aggregator has to come back as the dictionary
it was made from. -/

namespace EvalHarness

open Text

/-! ## Records -/

/-- A value in a JSON record. -/
inductive Json where
  | null
  | bool (b : Bool)
  | num (q : ℚ)
  | str (text : String)
  | obj (fields : List (String × Json))

abbrev Record := Dict String Json

def FailureKind.name : FailureKind → String
  | .transient => "TRANSIENT"
  | .deterministic => "DETERMINISTIC"

/-- `EvalResult.to_dict`. -/
def EvalResult.toDict (row : EvalResult) : Record where
  entries :=
    [("task_id", .str row.taskId),
     ("score", .num row.score),
     ("response", .str row.response),
     ("latency_seconds", .num row.latencySeconds),
     ("batch_latency_seconds", (row.batchLatencySeconds.map Json.num).getD .null),
     ("failed", .bool row.failed),
     ("hooked", .bool row.hooked),
     ("worker_id", .num row.workerId),
     ("error", (row.error.map Json.str).getD .null),
     ("failure_kind", (row.failureKind.map (fun kind => Json.str kind.name)).getD .null),
     ("condition_scores", .obj (row.conditionScores.map (fun e => (e.1, .num e.2)))),
     ("tokens_generated", .num row.tokensGenerated),
     ("stopped_early", .bool row.stoppedEarly),
     ("hook_state", .obj (row.hookState.map (fun e => (e.1, .str e.2))))]
  nodup := by
    simp only [List.map_cons, List.map_nil]
    decide

/-- `REQUIRED_FIELDS`. -/
def requiredFields : List String := ["task_id", "score", "response", "failed", "condition_scores"]

/-- The required fields a record lacks. -/
def missingFields (rec : Record) : List String :=
  requiredFields.filter (fun f => (rec.get? f).isNone)

/-- No record of the aggregator lacks one. -/
theorem missingFields_toDict (row : EvalResult) : missingFields row.toDict = [] := by
  simp [missingFields, requiredFields, Dict.get?, EvalResult.toDict]

/-! ## Globs -/

/-- `fnmatch` with `*` and `?`. The documented patterns have no brackets. -/
def fnmatch : Str → Str → Bool
  | [], name => name.isEmpty
  | c :: pat, name =>
      if c = '*' then name.tails.any (fnmatch pat)
      else
        match name with
        | [] => false
        | d :: rest => (c = '?' || c = d) && fnmatch pat rest

/-- `glob` of a pattern in the last component, given what is in the directory: names with a leading
    dot are matched only by a pattern that has one too. -/
def glob (pattern : PurePath) (listing : List String) : List PurePath :=
  let pat := pattern.name.toList
  (listing.filter (fun name => fnmatch pat name.toList &&
    (name.toList.head? ≠ some '.' || pat.head? = some '.'))).map pattern.withName

/-! ## `iter_records` -/

/-- What a generator has yielded when it is over, and the exception that ended it, if one did. -/
structure Yielded (α : Type) where
  items : List α
  raised : Option Exc

/-- A Python list of names, as `repr` shows it. -/
def reprNames (names : List String) : String :=
  "[" ++ ", ".intercalate (names.map (fun name => "'" ++ name ++ "'")) ++ "]"

/-- `sys.exit(message)`. -/
def exit (message : String) : Exc := ⟨"SystemExit", message⟩

/-- `rec["_source"] = f"{path}:{lineno}"`. -/
def withSource (path : String) (lineno : Nat) (rec : Record) : Record :=
  rec.set "_source" (.str (path ++ ":" ++ toString lineno))

/-- The loop over the lines of a file, from line `lineno` on. -/
def iterLines (loads : String → Except Exc Record) (path : String) :
    Nat → List Str → Yielded Record
  | _, [] => ⟨[], none⟩
  | lineno, line :: lines =>
      let line := strip line
      if line = [] then iterLines loads path (lineno + 1) lines
      else
        match loads (String.ofList line) with
        | .error e =>
            -- only the error of a text that is no JSON is caught
            ⟨[], some (if e.cls = "JSONDecodeError" then
              exit s!"{path}:{lineno}: bad JSON ({e.text})" else e)⟩
        | .ok rec =>
            let missing := missingFields rec
            if missing ≠ [] then
              ⟨[], some (exit s!"{path}:{lineno}: record missing {reprNames missing}")⟩
            else
              let others := iterLines loads path (lineno + 1) lines
              ⟨withSource path lineno rec :: others.items, others.raised⟩

/-- The loop over the paths. -/
def iterPaths (loads : String → Except Exc Record) (files : Files) :
    List PurePath → Yielded Record
  | [] => ⟨[], none⟩
  | path :: paths =>
      let here := iterLines loads path.text 1 (fileLines ((files path).getD "").toList)
      match here.raised with
      | some exc => ⟨here.items, some exc⟩
      | none =>
          let others := iterPaths loads files paths
          ⟨here.items ++ others.items, others.raised⟩

/-- `sorted(paths)`. -/
def sortedPaths (paths : List PurePath) : List PurePath :=
  paths.insertionSort (fun p q => p.text ≤ q.text)

/-- `iter_records`, given what is in the directory of the pattern. -/
def iterRecords (loads : String → Except Exc Record) (files : Files) (listing : List String)
    (pattern : PurePath) : Yielded Record :=
  let paths := sortedPaths (glob pattern listing)
  if paths = [] then ⟨[], some (exit s!"no files match '{pattern.text}'")⟩
  else iterPaths loads files paths

/-! ## Reading what the aggregator writes -/

variable {loads : String → Except Exc Record} {jsonLine : EvalResult → String}

/-- The line of a result, as `json.dumps` writes dictionaries: between braces, without a line end,
    and to be loaded as the dictionary it was made from. -/
structure Readable (loads : String → Except Exc Record) (jsonLine : EvalResult → String)
    (row : EvalResult) : Prop where
  newline : '\n' ∉ (jsonLine row).toList
  carriageReturn : '\r' ∉ (jsonLine row).toList
  opening : (jsonLine row).toList.head? = some '{'
  closing : (jsonLine row).toList.getLast? = some '}'
  loads : loads (jsonLine row) = .ok row.toDict

theorem Readable.strip_eq {row : EvalResult} (h : Readable loads jsonLine row) :
    strip (jsonLine row).toList = (jsonLine row).toList := by
  refine stripIf_eq_self (fun c hc => ?_) (fun c hc => ?_)
  · rw [h.opening, Option.mem_some_iff] at hc
    subst hc
    decide
  · rw [h.closing, Option.mem_some_iff] at hc
    subst hc
    decide

/-- The generator has yielded the records of these results, in this order, and is over. -/
def Yielded.Gives (y : Yielded Record) (rows : List EvalResult) : Prop :=
  y.raised = none ∧ y.items.map (fun rec => rec.erase "_source") = rows.map EvalResult.toDict

theorem erase_withSource (path : String) (lineno : Nat) (row : EvalResult) :
    (withSource path lineno row.toDict).erase "_source" = row.toDict := by
  simp [withSource, Dict.erase, Dict.set, Dict.setEntries, EvalResult.toDict]

/-- The lines of some results give their records. -/
theorem iterLines_gives (path : String) (lineno : Nat) {rows : List EvalResult}
    (h : ∀ row ∈ rows, Readable loads jsonLine row) :
    (iterLines loads path lineno (rows.map (fun row => (jsonLine row).toList))).Gives rows := by
  induction rows generalizing lineno with
  | nil => exact ⟨rfl, rfl⟩
  | cons row rows ih =>
      have hrow := h row List.mem_cons_self
      obtain ⟨hraised, hitems⟩ := ih (lineno + 1) (fun r hr => h r (List.mem_cons_of_mem _ hr))
      have hne : (jsonLine row).toList ≠ [] := by
        intro hnil
        have hopen := hrow.opening
        rw [hnil] at hopen
        cases hopen
      simp only [List.map_cons, iterLines, hrow.strip_eq, if_neg hne, String.ofList_toList,
        hrow.loads, missingFields_toDict, ne_eq, not_true, if_false]
      refine ⟨hraised, ?_⟩
      rw [List.map_cons, List.map_cons, erase_withSource, hitems]

/-- A file with the lines of some results, between the others. -/
theorem iterPaths_gives {files : Files} {paths : List PurePath}
    {rows : PurePath → List EvalResult}
    (hfile : ∀ p ∈ paths, files p = some (fileText ((rows p).map jsonLine)))
    (h : ∀ p ∈ paths, ∀ row ∈ rows p, Readable loads jsonLine row) :
    (iterPaths loads files paths).Gives (paths.flatMap rows) := by
  induction paths with
  | nil => exact ⟨rfl, rfl⟩
  | cons p paths ih =>
      obtain ⟨hraised, hitems⟩ := ih (fun q hq => hfile q (List.mem_cons_of_mem _ hq))
        (fun q hq => h q (List.mem_cons_of_mem _ hq))
      have hrows := h p List.mem_cons_self
      have hlines : fileLines ((files p).getD "").toList
          = (rows p).map (fun row => (jsonLine row).toList) := by
        rw [hfile p List.mem_cons_self, Option.getD_some, toList_fileText, List.map_map]
        refine fileLines_flatMap (fun line hline => ?_)
        obtain ⟨row, hrow, rfl⟩ := List.mem_map.1 hline
        exact ⟨(hrows row hrow).newline, (hrows row hrow).carriageReturn⟩
      obtain ⟨hnone, hhere⟩ := iterLines_gives p.text 1 hrows
      simp only [iterPaths, hlines, hnone]
      refine ⟨hraised, ?_⟩
      rw [List.map_append, hhere, hitems, List.flatMap_cons, List.map_append]

/-! ## The results directory -/

theorem fnmatch_append {lit pat name : Str} (hlit : '*' ∉ lit) (h : fnmatch pat name = true) :
    fnmatch (lit ++ pat) (lit ++ name) = true := by
  induction lit with
  | nil => exact h
  | cons c lit ih =>
      rw [List.mem_cons, not_or] at hlit
      have hc : c ≠ '*' := fun heq => hlit.1 heq.symm
      simp [fnmatch, hc, ih hlit.2]

theorem fnmatch_star {pat name : Str} (mid : Str) (h : fnmatch pat name = true) :
    fnmatch ('*' :: pat) (mid ++ name) = true := by
  unfold fnmatch
  rw [if_pos rfl, List.any_eq_true]
  exact ⟨name, (List.mem_tails _ _).2 (List.suffix_append mid name), h⟩

/-- `results/results.jsonl`. -/
def resultsFile : PurePath := ⟨"results", "results.jsonl"⟩

/-- `results/results*.jsonl`. -/
def documentedGlob : PurePath := resultsFile.withName "results*.jsonl"

/-- The documented pattern matches every name of this kind. -/
theorem fnmatch_documented (mid : Str) :
    fnmatch documentedGlob.name.toList ("results".toList ++ (mid ++ ".jsonl".toList)) = true := by
  have hpattern : documentedGlob.name.toList = "results".toList ++ '*' :: ".jsonl".toList := by
    decide
  rw [hpattern]
  refine fnmatch_append (by decide) (fnmatch_star mid ?_)
  decide

namespace ShardedAggregator

variable {agg : ShardedAggregator} {draws : Nat → Nat → Nat} {files : Files}

/-- The files a run leaves in the directory. -/
def writtenPaths (agg : ShardedAggregator) : List PurePath :=
  if agg.nShards = 1 then [agg.outputPath] else agg.outputPath :: agg.shardPaths

theorem shardPaths_single (hone : agg.nShards = 1) : agg.shardPaths = [agg.outputPath] := by
  simp [shardPaths, shardPath, hone]

theorem mem_writtenPaths {p : PurePath} :
    p ∈ agg.writtenPaths ↔ p = agg.outputPath ∨ p ∈ agg.shardPaths := by
  unfold writtenPaths
  split
  · next hone => simp [shardPaths_single hone]
  · exact List.mem_cons

theorem nodup_writtenPaths (agg : ShardedAggregator) : agg.writtenPaths.Nodup := by
  unfold writtenPaths
  split
  · exact List.nodup_singleton _
  · next hne =>
      refine List.nodup_cons.2 ⟨fun hmem => ?_, List.nodup_range.map_on (fun i hi j hj heq => ?_)⟩
      · obtain ⟨i, _, heq⟩ := List.mem_map.1 hmem
        rw [shardPath, if_neg hne] at heq
        exact agg.outputPath.shardFile_ne i heq
      · exact eq_of_shardPath_eq (List.mem_range.1 hi) (List.mem_range.1 hj) heq

/-- The files that a run with the usual output path leaves match the documented pattern. -/
theorem writtenPaths_match (hout : agg.outputPath = resultsFile) {p : PurePath}
    (hp : p ∈ agg.writtenPaths) :
    ∃ mid, p = resultsFile.withName
      (String.ofList ("results".toList ++ (mid ++ ".jsonl".toList))) := by
  rw [mem_writtenPaths, hout] at hp
  rcases hp with rfl | hp
  · exact ⟨[], by decide⟩
  · obtain ⟨i, _, rfl⟩ := List.mem_map.1 hp
    unfold shardPath
    split
    · exact ⟨[], by rw [hout]; decide⟩
    · refine ⟨".shard".toList ++ (toString i).toList, ?_⟩
      have hstem : resultsFile.stem = "results" := by decide +kernel
      have hsuffix : resultsFile.suffix = ".jsonl" := by decide +kernel
      rw [hout, PurePath.shardFile, hstem, hsuffix]
      refine congrArg (PurePath.withName resultsFile) (String.ext ?_)
      simp

/-- The results that have their lines in a file of the run. -/
def rowsAt (agg : ShardedAggregator) (rows : List EvalResult) (p : PurePath) : List EvalResult :=
  if p = agg.outputPath then agg.mergedRows rows
  else
    match (List.range agg.nShards).find? (fun i => agg.shardPath i = p) with
    | some i => shardRows agg.cfg.shardFor i rows
    | none => []

/-- The calls that `finalize` waits for. -/
def finalizeCalls (agg : ShardedAggregator) : List (Nat × ShardCall) :=
  if agg.nShards = 1 then [] else agg.closeCalls

theorem silent_finalizeCalls (agg : ShardedAggregator) : Silent agg.finalizeCalls := by
  unfold finalizeCalls
  split
  · exact fun _ hc => absurd hc List.not_mem_nil
  · exact agg.silent_closeCalls

section Finished

variable {jsonLine : EvalResult → String} {batches : List (List EvalResult)}
  {others : List (Nat × ShardCall)} {s : Actors} (hout : agg.outputPath = resultsFile)
  (hempty : ∀ name, files (resultsFile.withName name) = none) (hothers : Silent others)
  (h : agg.Run (fun row => .ok (jsonLine row)) draws files s)
  (hsent : s.sent = agg.recordCalls batches ++ (others ++ agg.finalizeCalls))
  (hdone : ∀ i < agg.nShards, s.mailbox i = [])

include hempty

/-- There are no other files in the directory. -/
theorem written_of_isSome {actors : Nat → ResultsAggregatorImpl} {name : String}
    (hsome : ((agg.finalize (agg.disk files actors)).2 (resultsFile.withName name)).isSome) :
    resultsFile.withName name ∈ agg.writtenPaths := by
  by_contra hnot
  rw [mem_writtenPaths, not_or] at hnot
  rw [finalize_of_ne agg hnot.1, disk_of_not_mem hnot.2, hempty] at hsome
  cases hsome

include hout hothers h hsent hdone

/-- A shard has the lines of its share in its file. -/
theorem shard_file {i : Nat} (hi : i < agg.nShards) : (s.state i).file
    = fileText ((shardRows agg.cfg.shardFor i batches.flatten).map jsonLine) := by
  have hserved := Run.served_of_done h hsent (hothers.append agg.silent_finalizeCalls) (hdone i hi)
  have hmem : agg.shardPath i ∈ agg.writtenPaths :=
    mem_writtenPaths.2 (Or.inr (List.mem_map_of_mem (List.mem_range.2 hi)))
  obtain ⟨mid, hpath⟩ := writtenPaths_match hout hmem
  rw [hserved.file, Files.openAppend, hpath, hempty, Option.getD_none, String.empty_append]

/-- What is in the files of the run. -/
theorem written_file {p : PurePath} (hp : p ∈ agg.writtenPaths) :
    (agg.finalize (agg.disk files s.state)).2 p
      = some (fileText ((agg.rowsAt batches.flatten p).map jsonLine)) := by
  have hshard : ∀ i < agg.nShards, (s.state i).file
      = fileText ((shardRows agg.cfg.shardFor i batches.flatten).map jsonLine) :=
    fun i hi => shard_file hout hempty hothers h hsent hdone hi
  by_cases hpath : p = agg.outputPath
  · subst hpath
    have hfiles : ∀ i ∈ List.range agg.nShards, (s.state i).file
        = fileText ((shardRows agg.cfg.shardFor i batches.flatten).map jsonLine) :=
      fun i hi => hshard i (List.mem_range.1 hi)
    rw [output_eq, List.map_congr_left hfiles, rowsAt, if_pos rfl, mergedRows, List.map_flatMap,
      fileText_flatMap]
  · rcases mem_writtenPaths.1 hp with heq | hmem
    · exact absurd heq hpath
    · obtain ⟨i, hi, rfl⟩ := List.mem_map.1 hmem
      rw [List.mem_range] at hi
      rw [finalize_of_ne agg hpath, disk_shardPath hi, hshard i hi, rowsAt, if_neg hpath,
        find?_shardPath hi]

/-- The names in the directory. -/
theorem mem_names_iff (name : String) : name ∈ agg.writtenPaths.map PurePath.name ↔
    ((agg.finalize (agg.disk files s.state)).2 (resultsFile.withName name)).isSome := by
  constructor
  · intro hname
    obtain ⟨p, hp, rfl⟩ := List.mem_map.1 hname
    obtain ⟨mid, hpath⟩ := writtenPaths_match hout hp
    have hself : resultsFile.withName p.name = p := by rw [hpath]; rfl
    rw [hself, written_file hout hempty hothers h hsent hdone hp]
    rfl
  · exact fun hsome => List.mem_map.2 ⟨_, written_of_isSome hempty hsome, rfl⟩

/-- The documented pattern finds the files of the run, each once. -/
theorem glob_documented {listing : List String} (hnodup : listing.Nodup)
    (hlisting : ∀ name, name ∈ listing ↔
      ((agg.finalize (agg.disk files s.state)).2 (resultsFile.withName name)).isSome) :
    (glob documentedGlob listing).Perm agg.writtenPaths := by
  have hmem : ∀ name, name ∈ listing ↔ resultsFile.withName name ∈ agg.writtenPaths := by
    intro name
    rw [hlisting]
    refine ⟨written_of_isSome hempty, fun hp => ?_⟩
    exact (mem_names_iff hout hempty hothers h hsent hdone name).1 (List.mem_map_of_mem hp)
  have hall : glob documentedGlob listing = listing.map resultsFile.withName := by
    refine congrArg (List.map resultsFile.withName) (List.filter_eq_self.2 (fun name hname => ?_))
    obtain ⟨mid, hpath⟩ := writtenPaths_match hout ((hmem name).1 hname)
    have hname : name = String.ofList ("results".toList ++ (mid ++ ".jsonl".toList)) :=
      congrArg PurePath.name hpath
    have hdot : name.toList.head? ≠ some '.' := by
      rw [hname, String.toList_ofList]
      exact fun heq => absurd (Option.some.inj heq) (by decide)
    have hmatch := fnmatch_documented mid
    rw [hname, String.toList_ofList] at hdot ⊢
    simp only [hmatch, hdot, ne_eq, not_false_iff, Bool.true_and, decide_true, Bool.true_or]
  rw [hall]
  refine (List.perm_ext_iff_of_nodup ?_ agg.nodup_writtenPaths).2 (fun p => ?_)
  · exact hnodup.map (fun a b heq => congrArg PurePath.name heq)
  · constructor
    · intro hp
      obtain ⟨name, hname, rfl⟩ := List.mem_map.1 hp
      exact (hmem name).1 hname
    · intro hp
      obtain ⟨mid, rfl⟩ := writtenPaths_match hout hp
      exact List.mem_map_of_mem ((hmem _).2 hp)

end Finished

/-- Among the files of the run every result has its line once if there is one shard, else twice. -/
theorem flatMap_rowsAt_perm (agg : ShardedAggregator) (rows : List EvalResult) :
    (agg.writtenPaths.flatMap (agg.rowsAt rows)).Perm
      (if agg.nShards = 1 then rows else rows ++ rows) := by
  have hmerged : (agg.mergedRows rows).Perm rows := flatMap_shardRows_perm agg.routed rows
  have hfirst : agg.rowsAt rows agg.outputPath = agg.mergedRows rows := if_pos rfl
  unfold writtenPaths
  split
  · rw [List.flatMap_cons, List.flatMap_nil, List.append_nil, hfirst]
    exact hmerged
  · next hne =>
      have hshards : agg.shardPaths.flatMap (agg.rowsAt rows) = agg.mergedRows rows := by
        rw [shardPaths, List.flatMap_map]
        refine List.flatMap_congr (fun i hi => ?_)
        have hpath : agg.shardPath i ≠ agg.outputPath := by
          rw [shardPath, if_neg hne]
          exact agg.outputPath.shardFile_ne i
        rw [rowsAt, if_neg hpath, find?_shardPath (List.mem_range.1 hi)]
      rw [List.flatMap_cons, hfirst, hshards]
      exact hmerged.append hmerged

/-! ## What the documented command reads -/

/-- Every recorded result is read once, and nothing else is. -/
def ReadOnce (rows : List EvalResult) (y : Yielded Record) : Prop :=
  y.raised = none
    ∧ (y.items.map (fun rec => rec.erase "_source")).Perm (rows.map EvalResult.toDict)

section Finished

variable {loads : String → Except Exc Record} {jsonLine : EvalResult → String}
  {batches : List (List EvalResult)} {others : List (Nat × ShardCall)} {s : Actors}
  (hout : agg.outputPath = resultsFile)
  (hempty : ∀ name, files (resultsFile.withName name) = none)
  (hlines : ∀ row ∈ batches.flatten, Readable loads jsonLine row) (hothers : Silent others)
  (h : agg.Run (fun row => .ok (jsonLine row)) draws files s)
  (hsent : s.sent = agg.recordCalls batches ++ (others ++ agg.finalizeCalls))
  (hdone : ∀ i < agg.nShards, s.mailbox i = []) {listing : List String} (hnodup : listing.Nodup)
  (hlisting : ∀ name, name ∈ listing ↔
    ((agg.finalize (agg.disk files s.state)).2 (resultsFile.withName name)).isSome)

include hout hempty hlines hothers h hsent hdone hnodup hlisting

/-- The documented pattern gives every result once from a single shard, else twice. -/
theorem iterRecords_gives : ∃ read, read.Perm
      (if agg.nShards = 1 then batches.flatten else batches.flatten ++ batches.flatten)
    ∧ (iterRecords loads (agg.finalize (agg.disk files s.state)).2 listing
        documentedGlob).Gives read := by
  have hglob : (sortedPaths (glob documentedGlob listing)).Perm agg.writtenPaths :=
    (List.perm_insertionSort _ _).trans
      (glob_documented hout hempty hothers h hsent hdone hnodup hlisting)
  have hread : ((sortedPaths (glob documentedGlob listing)).flatMap
      (agg.rowsAt batches.flatten)).Perm
        (if agg.nShards = 1 then batches.flatten else batches.flatten ++ batches.flatten) :=
    (hglob.flatMap_right _).trans (agg.flatMap_rowsAt_perm batches.flatten)
  have hne : sortedPaths (glob documentedGlob listing) ≠ [] := by
    intro hnil
    have hmem := hglob.mem_iff.2 (mem_writtenPaths.2 (Or.inl rfl))
    rw [hnil] at hmem
    cases hmem
  refine ⟨_, hread, ?_⟩
  have hfile : ∀ p ∈ sortedPaths (glob documentedGlob listing),
      (agg.finalize (agg.disk files s.state)).2 p
        = some (fileText ((agg.rowsAt batches.flatten p).map jsonLine)) := fun p hp =>
    written_file hout hempty hothers h hsent hdone (hglob.mem_iff.1 hp)
  rw [iterRecords, if_neg hne]
  refine iterPaths_gives hfile (fun p hp row hrow => hlines row ?_)
  have hin := hread.mem_iff.1 (List.mem_flatMap.2 ⟨p, hp, hrow⟩)
  split at hin
  · exact hin
  · exact (List.mem_append.1 hin).elim id id

/-- The documented pattern reads every result once if and only if there is a single shard, or
    nothing to read. -/
theorem read_once_iff :
    ReadOnce batches.flatten
        (iterRecords loads (agg.finalize (agg.disk files s.state)).2 listing documentedGlob)
      ↔ agg.nShards = 1 ∨ batches.flatten = [] := by
  obtain ⟨read, hread, hraised, hitems⟩ := iterRecords_gives hout hempty hlines hothers h hsent
    hdone hnodup hlisting
  rw [ReadOnce, hitems]
  constructor
  · rintro ⟨-, hperm⟩
    have hlen := (hread.map EvalResult.toDict).symm.trans hperm |>.length_eq
    by_cases hone : agg.nShards = 1
    · exact Or.inl hone
    · rw [if_neg hone, List.length_map, List.length_map, List.length_append] at hlen
      exact Or.inr (List.eq_nil_of_length_eq_zero (by omega))
  · intro hcond
    refine ⟨hraised, (hread.map EvalResult.toDict).trans ?_⟩
    rcases hcond with hone | hnil
    · rw [if_pos hone]
    · simp [hnil]

end Finished

/-! ## Two results -/

/-- A facade over so many shards, all but the first for the tasks with other ids than `a`. -/
def shardedBy (n : Nat) (hn : 1 ≤ n) : ShardedAggregator where
  cfg :=
    { nWorkers := 1, batchSize := 2, tasks := []
      aggregatorShards := n, shards_pos := hn
      shardFor := fun taskId => if taskId = "a" then 0 else n - 1 }
  totalTasks := 2
  outputPathStr := "results/results.jsonl"
  outputPath := resultsFile
  routed := by
    intro taskId
    show (if taskId = "a" then 0 else n - 1) < n
    split <;> omega

def sampleRow (taskId : String) : EvalResult where
  taskId := taskId
  score := 1
  response := "4"
  latencySeconds := 2
  workerId := 0

def sampleBatch : List EvalResult := [sampleRow "a", sampleRow "b"]

/-- The JSON text of such a result. -/
def sampleLine (row : EvalResult) : String :=
  "\x7b\"task_id\": \"" ++ row.taskId ++ "\", \"score\": 1.0, \"response\": \"4\", " ++
    "\"latency_seconds\": 2.0, \"batch_latency_seconds\": null, \"failed\": false, " ++
    "\"hooked\": false, \"worker_id\": 0, \"error\": null, \"failure_kind\": null, " ++
    "\"condition_scores\": \x7b\x7d, \"tokens_generated\": 0, \"stopped_early\": false, " ++
    "\"hook_state\": \x7b\x7d\x7d"

/-- `json.loads`, for the lines of the two results. -/
def sampleLoads (text : String) : Except Exc Record :=
  if text = sampleLine (sampleRow "a") then .ok (sampleRow "a").toDict
  else if text = sampleLine (sampleRow "b") then .ok (sampleRow "b").toDict
  else .error ⟨"JSONDecodeError", "Expecting value: line 1 column 1 (char 0)"⟩

theorem not_mem_sampleLine {c : Char} (hc : c = '\n' ∨ c = '\r') {row : EvalResult}
    (hid : c ∉ row.taskId.toList) : c ∉ (sampleLine row).toList := by
  unfold sampleLine
  simp only [String.toList_append, List.mem_append, not_or]
  rcases hc with rfl | rfl
  · refine ⟨⟨⟨⟨⟨⟨?_, hid⟩, ?_⟩, ?_⟩, ?_⟩, ?_⟩, ?_⟩ <;> decide +kernel
  · refine ⟨⟨⟨⟨⟨⟨?_, hid⟩, ?_⟩, ?_⟩, ?_⟩, ?_⟩, ?_⟩ <;> decide +kernel

/-- The line of a result is a JSON object. -/
theorem sampleLine_ends (row : EvalResult) :
    (sampleLine row).toList.head? = some '{' ∧ (sampleLine row).toList.getLast? = some '}' := by
  have hfront : "\x7b\"task_id\": \"".toList.head? = some '{' := by decide +kernel
  have hback : "\"hook_state\": \x7b\x7d\x7d".toList.getLast? = some '}' := by decide +kernel
  unfold sampleLine
  simp only [String.toList_append, List.head?_append, List.getLast?_append, hfront, hback,
    Option.some_or, and_self]

theorem sample_readable : ∀ row ∈ [sampleBatch].flatten, Readable sampleLoads sampleLine row := by
  have hid : ∀ row ∈ sampleBatch, '\n' ∉ row.taskId.toList ∧ '\r' ∉ row.taskId.toList := by
    decide +kernel
  have hne : sampleLine (sampleRow "b") ≠ sampleLine (sampleRow "a") := by decide +kernel
  have hloads : ∀ row ∈ sampleBatch, sampleLoads (sampleLine row) = .ok row.toDict := by
    intro row hrow
    simp only [sampleBatch, List.mem_cons, List.not_mem_nil, or_false] at hrow
    rcases hrow with rfl | rfl
    · exact if_pos rfl
    · exact (if_neg hne).trans (if_pos rfl)
  intro row hrow
  rw [List.flatten_singleton] at hrow
  obtain ⟨hnewline, hreturn⟩ := hid row hrow
  exact ⟨not_mem_sampleLine (.inl rfl) hnewline, not_mem_sampleLine (.inr rfl) hreturn,
    (sampleLine_ends row).1, (sampleLine_ends row).2, hloads row hrow⟩

/-- The run records the two results, and `finalize` follows. -/
def finishedRun (agg : ShardedAggregator) (turns : List Nat) : Actors :=
  ((Mailbox.Actors.start (agg.start (fun _ => none))).sendAll
    (agg.recordCalls [sampleBatch] ++ agg.finalizeCalls)).executeAll
      (ResultsAggregatorImpl.exec (fun row => .ok (sampleLine row)) (fun _ _ => 0)) turns

theorem finishedRun_run (agg : ShardedAggregator) (turns : List Nat) :
    agg.Run (fun row => .ok (sampleLine row)) (fun _ _ => 0) (fun _ => none)
      (finishedRun agg turns) :=
  (Mailbox.Run.sendAll Relation.ReflTransGen.refl (fun _ _ => trivial)).executeAll turns

theorem silent_nil : Silent [] := fun _ hc => absurd hc List.not_mem_nil

def oneShard : ShardedAggregator := shardedBy 1 le_rfl

/-- A single shard, and its file alone in the directory. -/
theorem read_once_iff_single :
    ReadOnce [sampleBatch].flatten (iterRecords sampleLoads (oneShard.finalize
      (oneShard.disk (fun _ => none) (finishedRun oneShard [0]).state)).2
        (oneShard.writtenPaths.map PurePath.name) documentedGlob) := by
  have hsent : (finishedRun oneShard [0]).sent
      = oneShard.recordCalls [sampleBatch] ++ ([] ++ oneShard.finalizeCalls) := rfl
  have hdone : ∀ i < oneShard.nShards, (finishedRun oneShard [0]).mailbox i = [] := by
    decide +kernel
  exact (read_once_iff rfl (fun _ => rfl) sample_readable silent_nil (finishedRun_run oneShard [0])
    hsent hdone (by decide +kernel) (mem_names_iff rfl (fun _ => rfl) silent_nil
      (finishedRun_run oneShard [0]) hsent hdone)).2 (Or.inl rfl)

def pairOfShards : ShardedAggregator := shardedBy 2 (by decide)

/-- Two shards: each result is read from the file of its shard and from the merged one. -/
theorem read_twice : ∃ (s : Actors) (listing : List String),
    pairOfShards.Run (fun row => .ok (sampleLine row)) (fun _ _ => 0) (fun _ => none) s
      ∧ s.sent = pairOfShards.recordCalls [sampleBatch] ++ pairOfShards.finalizeCalls
      ∧ (∀ i < 2, s.mailbox i = [])
      ∧ listing = ["results.jsonl", "results.shard0.jsonl", "results.shard1.jsonl"]
      ∧ (∀ name, name ∈ listing ↔ ((pairOfShards.finalize
          (pairOfShards.disk (fun _ => none) s.state)).2 (resultsFile.withName name)).isSome)
      ∧ ¬ ReadOnce [sampleBatch].flatten (iterRecords sampleLoads (pairOfShards.finalize
          (pairOfShards.disk (fun _ => none) s.state)).2 listing documentedGlob) := by
  have hrun := finishedRun_run pairOfShards [0, 0, 1, 1]
  have hsent : (finishedRun pairOfShards [0, 0, 1, 1]).sent
      = pairOfShards.recordCalls [sampleBatch] ++ ([] ++ pairOfShards.finalizeCalls) := rfl
  have hdone : ∀ i < 2, (finishedRun pairOfShards [0, 0, 1, 1]).mailbox i = [] := by decide +kernel
  have hlisting := mem_names_iff rfl (fun _ => rfl) silent_nil hrun hsent hdone
  have hnames : pairOfShards.writtenPaths.map PurePath.name
      = ["results.jsonl", "results.shard0.jsonl", "results.shard1.jsonl"] := by decide +kernel
  rw [hnames] at hlisting
  refine ⟨_, _, hrun, hsent, hdone, rfl, hlisting, ?_⟩
  obtain ⟨read, hread, -, hitems⟩ := iterRecords_gives rfl (fun _ => rfl) sample_readable silent_nil
    hrun hsent hdone (by decide +kernel) hlisting
  rintro ⟨-, hperm⟩
  rw [hitems] at hperm
  have hlen := hperm.length_eq
  rw [List.length_map, hread.length_eq] at hlen
  exact absurd hlen (by decide)

end ShardedAggregator

end EvalHarness
