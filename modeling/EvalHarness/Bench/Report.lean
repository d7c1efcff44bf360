import EvalHarness.Bench.Measure
import EvalHarness.Bench.RunLog
import EvalHarness.DocentAdapter
import EvalHarness.Lib.Counts

set_option autoImplicit false

/-! # The report on a run (`bench/multinode/measure.py`)

`parse_results` counts the rows of the results file, and `build_report` puts the counts together
with the samples and the log. The accounting is compared with the rows that were written, and the
three phases with the samples. -/

namespace EvalHarness.Measure

open Text SampleProgress

/-! ## `parse_results` -/

/-- A key of a dictionary. Equal numbers are one key, and `True` is the number 1. -/
abbrev Key := Option (ℚ ⊕ String)

def asKey : Json → Except Exc Key
  | .null => .ok none
  | .bool b => .ok (some (.inl (if b then 1 else 0)))
  | .num q => .ok (some (.inl q))
  | .str text => .ok (some (.inr text))
  | .obj _ => .error ⟨"TypeError", "unhashable type: 'dict'"⟩

/-- What counts as true. -/
def truthy : Json → Bool
  | .null => false
  | .bool b => b
  | .num q => q ≠ 0
  | .str text => text ≠ ""
  | .obj fields => !fields.isEmpty

/-- The integer that a value is, if `isinstance(value, int)`: the booleans are integers. Of a number
    that is written with a fraction of zero, such as `1.0`, Python makes a float, which is told
    apart neither here nor in `Json`: the aggregator writes the ids of workers without one. -/
def asInt : Json → Option Int
  | .bool b => some (if b then 1 else 0)
  | .num q => if q.den = 1 then some q.num else none
  | _ => none

/-- The variables of `parse_results`. -/
structure RowCounts where
  ids : Dict Key Nat := .empty
  failed : Nat := 0
  perWorker : Dict Int Nat := .empty
  n : Nat := 0

/-- The loop, for a row. -/
def RowCounts.addRow (c : RowCounts) (row : Record) : Except Exc RowCounts :=
  match row.get? "task_id" with
  | none => .error ⟨"KeyError", "'task_id'"⟩
  | some taskId => do
      let key ← asKey taskId
      return {
        ids := c.ids.bump key 1
        failed := if ((row.get? "failed").map truthy).getD false then c.failed + 1 else c.failed
        perWorker :=
          match (row.get? "worker_id").bind asInt with
          | some wid => c.perWorker.bump wid 1
          | none => c.perWorker
        n := c.n + 1 }

/-- The loop, for a line. A line that is no object has the exception of its first subscript for
    that of `json.loads`. -/
def RowCounts.addLine (loads : String → Except Exc Record) (c : RowCounts) (line : Str) :
    Except Exc RowCounts :=
  let line := strip line
  if line = [] then .ok c
  else do
    let row ← loads (String.ofList line)
    c.addRow row

/-- What `parse_results` returns. -/
structure Results where
  rows : Nat
  unique : Nat
  duplicates : Dict Key Nat
  failedRows : Nat
  perWorker : Dict Int Nat

def RowCounts.results (c : RowCounts) : Results where
  rows := c.n
  unique := c.ids.entries.length
  duplicates := c.ids.filterItems (fun _ v => 1 < v)
  failedRows := c.failed
  perWorker := c.perWorker

/-- `parse_results`, of the text of a file. -/
def parseResults (loads : String → Except Exc Record) (text : Str) : Except Exc Results :=
  ((fileLines text).foldlM (RowCounts.addLine loads) {}).map RowCounts.results

/-! ## `build_report` -/

/-- The loop of `total_at`. -/
def totalFrom (epoch : ℚ) (best : Nat) : List Sample → Nat
  | [] => best
  | s :: rest => if s.epoch ≤ epoch then totalFrom epoch s.total rest else best

/-- `total_at`. -/
def totalAt (samples : List Sample) (epoch : ℚ) : Nat := totalFrom epoch 0 samples

/-- `rate`. -/
def rate (samples : List Sample) (start stop : ℚ) : ℚ :=
  if stop ≤ start then 0
  else ((totalAt samples stop : ℚ) - totalAt samples start) / (stop - start)

structure Phase where
  start : ℚ
  stop : ℚ
  tasksPerS : ℚ

structure Phases where
  before : Phase
  during : Phase
  after : Phase

structure Recovery where
  firstReplacementSampleEpoch : Option ℚ
  boundsFromKillS : Option (Option ℚ × ℚ)
  killToFirstReplacementBatchS : Option ℚ

structure Retried where
  tasks : Nat
  retryEvents : Nat
  note : String

structure Accounting where
  submitted : Nat
  completedUnique : Nat
  completedPct : ℚ
  rows : Nat
  duplicateTaskIds : Nat
  failedRows : Nat
  rowsOnReplacementWorkers : Nat
  pass100pct : Bool

structure Report where
  killEpoch : Option ℚ
  killEpochSource : String
  workersReadyEpoch : Option ℚ
  promotionLogEpoch : Option ℚ
  recovery : Recovery
  phases : Option Phases
  retriedDueToKill : Retried
  accounting : Accounting

/-- What `build_report` reads of `run_meta.json`. -/
structure RunMeta where
  tasks : Nat
  workers : Int

/-- The time of the first event whose message has a mark. -/
def firstWith (mark : String) (events : List LogEvent) : Option ℚ :=
  (events.find? (fun e => mark.toList <:+: e.message)).map LogEvent.epoch

def phaseOf (samples : List Sample) (start stop : ℚ) : Phase :=
  ⟨start, stop, rate samples start stop⟩

/-- The phases, given a kill, and a first and a last sample. -/
def buildPhases (samples : List Sample) (ready recovery : Option ℚ) (kill : ℚ)
    (first last : Sample) : Phases :=
  let beforeStart := ready.getD first.epoch
  let duringEnd := recovery.getD (min (kill + 60) last.epoch)
  { before := phaseOf samples beforeStart kill
    during := phaseOf samples kill duringEnd
    after := phaseOf samples duringEnd last.epoch }

/-- `accounting`. -/
def buildAccounting (info : RunMeta) (results : Results) : Accounting where
  submitted := info.tasks
  completedUnique := results.unique
  completedPct := if info.tasks ≠ 0 then 100 * results.unique / info.tasks else 0
  rows := results.rows
  duplicateTaskIds := results.duplicates.entries.length
  failedRows := results.failedRows
  rowsOnReplacementWorkers := results.perWorker.sumWhere (fun w => info.workers ≤ w)
  pass100pct := results.unique = info.tasks && results.duplicates.entries.isEmpty

/-- `build_report`. -/
def buildReport (d : Digits) (info : RunMeta) (events : List LogEvent) (samples : List Sample)
    (results : Results) (killEpoch : Option ℚ) (killSource : String) (grace : ℚ) : Report :=
  let ready := firstWith "workers ready and validated" events
  let found := (killEpoch.map (fun kill => findRecovery kill none samples)).getD (none, none)
  let retried := (killEpoch.map (fun kill => retriedTasksInWindow d events (kill - 2)
    (found.1.getD (kill + 180) + grace))).getD (0, 0)
  { killEpoch
    killEpochSource := killSource
    workersReadyEpoch := ready
    promotionLogEpoch := firstWith "replaced by standby" events
    recovery :=
      { firstReplacementSampleEpoch := found.1
        boundsFromKillS := killEpoch.bind (fun kill => found.1.map (fun recovered =>
          (found.2.map (fun before => max 0 (before - kill)), recovered - kill)))
        killToFirstReplacementBatchS := killEpoch.bind (fun kill =>
          found.1.map (fun recovered => recovered - kill)) }
    phases := killEpoch.bind (fun kill => samples.head?.bind (fun first =>
      samples.getLast?.map (buildPhases samples ready found.1 kill first)))
    retriedDueToKill :=
      { tasks := retried.1
        retryEvents := retried.2
        note := "sum over retry log events; a task re-queued twice counts twice" }
    accounting := buildAccounting info results }

/-- The exit code of `main`. -/
def exitCode (r : Report) : Nat := if r.accounting.pass100pct then 0 else 1

/-! ## The rows of a results file -/

variable {loads : String → Except Exc Record} {jsonLine : EvalResult → String}

/-- The key that the id of a result is. -/
def idKey (row : EvalResult) : Key := some (.inr row.taskId)

/-- What has been counted of some results. -/
def countsOf (rows : List EvalResult) : RowCounts where
  ids := Dict.empty.countAll (rows.map idKey)
  failed := rows.countP EvalResult.failed
  perWorker := Dict.empty.countAll (rows.map EvalResult.workerId)
  n := rows.length

theorem addRow_toDict (rows : List EvalResult) (row : EvalResult) :
    (countsOf rows).addRow row.toDict = .ok (countsOf (rows ++ [row])) := by
  have hid : row.toDict.get? "task_id" = some (.str row.taskId) := by
    simp [Dict.get?, EvalResult.toDict]
  have hfailed : row.toDict.get? "failed" = some (.bool row.failed) := by
    simp [Dict.get?, EvalResult.toDict]
  have hworker : (row.toDict.get? "worker_id").bind asInt = some row.workerId := by
    simp [Dict.get?, EvalResult.toDict, asInt]
  have hids : (Dict.empty.countAll (rows.map idKey)).bump (idKey row) 1
      = Dict.empty.countAll ((rows ++ [row]).map idKey) := by
    rw [List.map_append, Dict.countAll_append]
    rfl
  have hworkers : (Dict.empty.countAll (rows.map EvalResult.workerId)).bump row.workerId 1
      = Dict.empty.countAll ((rows ++ [row]).map EvalResult.workerId) := by
    rw [List.map_append, Dict.countAll_append]
    rfl
  have hcount : (if row.failed then rows.countP EvalResult.failed + 1
        else rows.countP EvalResult.failed) = (rows ++ [row]).countP EvalResult.failed := by
    rw [List.countP_append, List.countP_singleton]
    split
    · rfl
    · rfl
  simp only [RowCounts.addRow, hid, hfailed, hworker, Option.map_some, Option.getD_some, asKey,
    truthy]
  refine congrArg Except.ok ?_
  have hn : rows.length + 1 = (rows ++ [row]).length := by
    rw [List.length_append, List.length_singleton]
  rw [countsOf, countsOf, RowCounts.mk.injEq]
  exact ⟨hids, hcount, hworkers, hn⟩

theorem foldlM_addLine (before : List EvalResult) {rows : List EvalResult}
    (h : ∀ row ∈ rows, Readable loads jsonLine row) :
    (rows.map (fun row => (jsonLine row).toList)).foldlM (RowCounts.addLine loads) (countsOf before)
      = .ok (countsOf (before ++ rows)) := by
  induction rows generalizing before with
  | nil => rw [List.append_nil]; rfl
  | cons row rows ih =>
      have hrow := h row List.mem_cons_self
      have hrest := ih (before ++ [row]) (fun r hr => h r (List.mem_cons_of_mem _ hr))
      have hne : (jsonLine row).toList ≠ [] := by
        intro hnil
        have hopen := hrow.opening
        rw [hnil] at hopen
        cases hopen
      have hline : (countsOf before).addLine loads (jsonLine row).toList
          = .ok (countsOf (before ++ [row])) := by
        simp only [RowCounts.addLine, hrow.strip_eq, if_neg hne, String.ofList_toList, hrow.loads]
        exact addRow_toDict before row
      rw [List.map_cons, List.foldlM_cons, hline]
      rw [List.append_assoc, List.singleton_append] at hrest
      exact hrest

/-- The results file of some results is parsed to their counts. -/
theorem parseResults_fileText {rows : List EvalResult}
    (h : ∀ row ∈ rows, Readable loads jsonLine row) :
    parseResults loads (fileText (rows.map jsonLine)).toList = .ok (countsOf rows).results := by
  have hlines : fileLines (fileText (rows.map jsonLine)).toList
      = rows.map (fun row => (jsonLine row).toList) := by
    rw [toList_fileText, List.map_map]
    refine fileLines_flatMap (fun line hline => ?_)
    obtain ⟨row, hrow, rfl⟩ := List.mem_map.1 hline
    exact ⟨(h row hrow).newline, (h row hrow).carriageReturn⟩
  have hcount : (rows.map (fun row => (jsonLine row).toList)).foldlM (RowCounts.addLine loads) {}
      = .ok (countsOf rows) := foldlM_addLine [] h
  rw [parseResults, hlines, hcount]
  rfl

/-! ## The accounting -/

theorem nodup_idKeys {rows : List EvalResult} :
    (rows.map idKey).Nodup ↔ (rows.map EvalResult.taskId).Nodup := by
  have hkeys : rows.map idKey = (rows.map EvalResult.taskId).map (fun id => some (Sum.inr id)) := by
    rw [List.map_map]
    rfl
  rw [hkeys]
  refine ⟨List.Nodup.of_map _, fun h => h.map ?_⟩
  exact fun a b heq => Sum.inr.inj (Option.some.inj heq)

theorem dedup_idKeys (rows : List EvalResult) :
    (rows.map idKey).dedup.length = (rows.map EvalResult.taskId).dedup.length := by
  have hkeys : rows.map idKey = (rows.map EvalResult.taskId).map (fun id => some (Sum.inr id)) := by
    rw [List.map_map]
    rfl
  rw [hkeys, List.dedup_map_of_injective, List.length_map]
  exact fun a b heq => Sum.inr.inj (Option.some.inj heq)

theorem rowsOnReplacementWorkers_countsOf (info : RunMeta) (rows : List EvalResult) :
    (buildAccounting info (countsOf rows).results).rowsOnReplacementWorkers
      = rows.countP (fun row => info.workers ≤ row.workerId) := by
  have hsum := Dict.sumWhere_countAll (fun w : Int => decide (info.workers ≤ w)) .empty
    (rows.map EvalResult.workerId)
  rw [List.countP_map] at hsum
  exact hsum.trans (Nat.zero_add _)

theorem unique_countsOf (rows : List EvalResult) :
    (countsOf rows).results.unique = (rows.map EvalResult.taskId).dedup.length := by
  rw [← dedup_idKeys]
  exact Dict.length_countAll _

theorem duplicates_countsOf (rows : List EvalResult) :
    (countsOf rows).results.duplicates.entries = [] ↔ (rows.map EvalResult.taskId).Nodup :=
  (Dict.repeated_eq_nil_iff _).trans nodup_idKeys

/-- The report passes if and only if the ids are all different and as many as the tasks that were
    submitted. -/
theorem exitCode_countsOf (d : Digits) (info : RunMeta) (events : List LogEvent)
    (samples : List Sample) (rows : List EvalResult) (killEpoch : Option ℚ) (killSource : String)
    (grace : ℚ) :
    exitCode (buildReport d info events samples (countsOf rows).results killEpoch killSource grace)
      = 0 ↔ (rows.map EvalResult.taskId).Nodup ∧ rows.length = info.tasks := by
  have hpass : exitCode (buildReport d info events samples (countsOf rows).results killEpoch
      killSource grace) = 0 ↔ (countsOf rows).results.unique = info.tasks
        ∧ (countsOf rows).results.duplicates.entries = [] := by
    show (if (_ && _ : Bool) = true then 0 else 1) = 0 ↔ _
    rw [ite_eq_left_iff, Bool.and_eq_true, decide_eq_true_eq, List.isEmpty_iff]
    exact ⟨fun himp => by_contra (fun hnot => absurd (himp hnot) one_ne_zero),
      fun hboth hnot => absurd hboth hnot⟩
  rw [hpass, duplicates_countsOf, unique_countsOf, and_comm]
  refine and_congr_right (fun hnodup => ?_)
  rw [hnodup.dedup, List.length_map]

/-- The accounting of the report is that of the rows in the results file, and the report passes if
    and only if their ids are all different and as many as the tasks that were submitted. -/
theorem report_accounts (d : Digits) (info : RunMeta) (events : List LogEvent)
    (samples : List Sample) (killEpoch : Option ℚ) (killSource : String) (grace : ℚ)
    {rows : List EvalResult} (h : ∀ row ∈ rows, Readable loads jsonLine row) :
    ∃ results, parseResults loads (fileText (rows.map jsonLine)).toList = .ok results ∧
      let report := buildReport d info events samples results killEpoch killSource grace
      report.accounting.rows = rows.length ∧
      report.accounting.completedUnique = (rows.map EvalResult.taskId).dedup.length ∧
      report.accounting.failedRows = rows.countP EvalResult.failed ∧
      report.accounting.rowsOnReplacementWorkers
        = rows.countP (fun row => info.workers ≤ row.workerId) ∧
      (report.accounting.duplicateTaskIds = 0 ↔ (rows.map EvalResult.taskId).Nodup) ∧
      (exitCode report = 0 ↔ (rows.map EvalResult.taskId).Nodup ∧ rows.length = info.tasks) := by
  refine ⟨_, parseResults_fileText h, rfl, unique_countsOf rows, rfl, ?_, ?_, ?_⟩
  · exact rowsOnReplacementWorkers_countsOf info rows
  · exact List.length_eq_zero_iff.trans (duplicates_countsOf rows)
  · exact exitCode_countsOf d info events samples rows killEpoch killSource grace

/-- The results file of the two sample results, of which a run had submitted two. -/
theorem report_accounts_sample : ∃ results,
    parseResults ShardedAggregator.sampleLoads
        (fileText (ShardedAggregator.sampleBatch.map ShardedAggregator.sampleLine)).toList
      = .ok results ∧
    exitCode (buildReport asciiDigits ⟨2, 1⟩ [] [] results none "arg" 30) = 0 := by
  have hreadable : ∀ row ∈ ShardedAggregator.sampleBatch,
      Readable ShardedAggregator.sampleLoads ShardedAggregator.sampleLine row := by
    intro row hrow
    exact ShardedAggregator.sample_readable row (by rwa [List.flatten_singleton])
  obtain ⟨results, hparse, -, -, -, -, -, hpass⟩ :=
    report_accounts asciiDigits ⟨2, 1⟩ [] [] none "arg" 30 hreadable
  exact ⟨results, hparse, hpass.2 ⟨by decide, rfl⟩⟩

/-! ## The phases -/

/-- The tasks of a phase. -/
def Phase.tasks (p : Phase) : ℚ := p.tasksPerS * (p.stop - p.start)

/-- The epochs of some samples do not decrease. -/
def InOrder (samples : List Sample) : Prop := samples.Pairwise (fun a b => a.epoch ≤ b.epoch)

/-- From the last sample on, the total is that of the last sample. -/
theorem totalFrom_of_le {epoch : ℚ} (best : Nat) {samples : List Sample} {last : Sample}
    (hlast : samples.getLast? = some last) (h : ∀ s ∈ samples, s.epoch ≤ epoch) :
    totalFrom epoch best samples = last.total := by
  induction samples generalizing best with
  | nil => cases hlast
  | cons s rest ih =>
      have hrest := ih s.total
      rw [totalFrom, if_pos (h s List.mem_cons_self)]
      rcases rest with _ | ⟨s', rest⟩
      · obtain rfl := Option.some.inj hlast
        rfl
      · rw [List.getLast?_cons_cons] at hlast
        exact hrest hlast (fun t ht => h t (List.mem_cons_of_mem _ ht))

/-- No sample is later than the last. -/
theorem InOrder.le_last {samples : List Sample} (h : InOrder samples) {last s : Sample}
    (hlast : samples.getLast? = some last) (hs : s ∈ samples) : s.epoch ≤ last.epoch := by
  obtain ⟨before, rfl⟩ := List.getLast?_eq_some_iff.1 hlast
  rcases List.mem_append.1 hs with hbefore | hself
  · exact (List.pairwise_append.1 h).2.2 s hbefore last List.mem_cons_self
  · rw [List.mem_singleton.1 hself]

theorem totalAt_last {samples : List Sample} (h : InOrder samples) {last : Sample}
    (hlast : samples.getLast? = some last) {epoch : ℚ} (hepoch : last.epoch ≤ epoch) :
    totalAt samples epoch = last.total :=
  totalFrom_of_le 0 hlast (fun _ hs => (h.le_last hlast hs).trans hepoch)

theorem phaseOf_tasks_of_le (samples : List Sample) {start stop : ℚ} (h : start ≤ stop) :
    (phaseOf samples start stop).tasks = totalAt samples stop - totalAt samples start := by
  show rate samples start stop * (stop - start) = _
  unfold rate
  split
  · next hle => rw [le_antisymm h hle, sub_self, sub_self, mul_zero]
  · next hlt =>
      have hne : stop - start ≠ 0 := by
        intro heq
        exact hlt (by linarith)
      exact div_mul_cancel₀ _ hne

theorem phaseOf_tasks_of_ge (samples : List Sample) {start stop : ℚ} (h : stop ≤ start) :
    (phaseOf samples start stop).tasks = 0 := by
  show rate samples start stop * (stop - start) = 0
  rw [rate, if_pos h, zero_mul]

/-- What is reported as the recovery is a sample at or after the kill. -/
theorem findRecovery_mem {kill : ℚ} {samples : List Sample} {recovered : ℚ} {prevE : Option ℚ}
    (h : (findRecovery kill prevE samples).1 = some recovered) :
    kill ≤ recovered ∧ ∃ s ∈ samples, s.epoch = recovered := by
  rw [findRecovery_fst] at h
  obtain ⟨s, hfind, rfl⟩ := Option.map_eq_some_iff.1 h
  obtain ⟨hin, hlater⟩ := List.mem_filter.1 (List.mem_of_find?_eq_some hfind)
  exact ⟨of_decide_eq_true hlater, s, hin, rfl⟩

/-- The phases follow each other and end with the last sample, and their tasks are all that were
    completed since the first of them began. -/
theorem phases_account (d : Digits) (info : RunMeta) (events : List LogEvent)
    {samples : List Sample} (hordered : InOrder samples) (results : Results) (killEpoch : Option ℚ)
    (killSource : String) (grace : ℚ) {p : Phases} {last : Sample}
    (hphases : (buildReport d info events samples results killEpoch killSource grace).phases
      = some p) (hlast : samples.getLast? = some last) :
    killEpoch = some p.during.start ∧ p.before.stop = p.during.start ∧
      p.during.stop = p.after.start ∧ p.after.stop = last.epoch ∧
      p.before.tasks + p.during.tasks + p.after.tasks
        = last.total - totalAt samples (min p.before.start p.during.start) := by
  obtain ⟨kill, rfl, hsome⟩ := Option.bind_eq_some_iff.1 hphases
  obtain ⟨first, hfirst, hlast'⟩ := Option.bind_eq_some_iff.1 hsome
  rw [hlast, Option.map_some, Option.some_inj] at hlast'
  obtain rfl := hlast'
  refine ⟨rfl, rfl, rfl, rfl, ?_⟩
  simp only [buildPhases]
  generalize (firstWith "workers ready and validated" events).getD first.epoch = beforeStart
  simp only [Option.map_some, Option.getD_some]
  generalize hend : ((findRecovery kill none samples).1.getD (min (kill + 60) last.epoch))
    = duringEnd
  have hdone := totalAt_last hordered hlast (le_refl last.epoch)
  have hle : duringEnd ≤ last.epoch ∧ (kill ≤ duringEnd ∨ duringEnd = last.epoch) := by
    rcases hfound : (findRecovery kill none samples).1 with _ | recovered
    · rw [hfound, Option.getD_none] at hend
      subst hend
      refine ⟨min_le_right _ _, ?_⟩
      rcases min_choice (kill + 60) last.epoch with hmin | hmin
      · refine Or.inl ?_
        rw [hmin]
        linarith
      · exact Or.inr hmin
    · rw [hfound, Option.getD_some] at hend
      subst hend
      obtain ⟨hkill, s, hs, rfl⟩ := findRecovery_mem hfound
      exact ⟨hordered.le_last hlast hs, Or.inl hkill⟩
  have hbefore : (phaseOf samples beforeStart kill).tasks
      = totalAt samples kill - totalAt samples (min beforeStart kill) := by
    rcases le_total beforeStart kill with hstart | hstart
    · rw [phaseOf_tasks_of_le samples hstart, min_eq_left hstart]
    · rw [phaseOf_tasks_of_ge samples hstart, min_eq_right hstart, sub_self]
  have hduring : (phaseOf samples kill duringEnd).tasks
      = totalAt samples duringEnd - totalAt samples kill := by
    rcases le_total kill duringEnd with hkill | hkill
    · exact phaseOf_tasks_of_le samples hkill
    · -- the run is over before the kill
      rcases hle.2 with hafter | heq
      · rw [le_antisymm hkill hafter, phaseOf_tasks_of_ge samples le_rfl, sub_self]
      · have hover := totalAt_last hordered hlast (heq ▸ hkill)
        rw [phaseOf_tasks_of_ge samples hkill, heq, hdone, hover, sub_self]
  have hafter := phaseOf_tasks_of_le samples hle.1
  show (phaseOf samples beforeStart kill).tasks + (phaseOf samples kill duringEnd).tasks
    + (phaseOf samples duringEnd last.epoch).tasks = _
  rw [hbefore, hduring, hafter, hdone]
  show _ = (last.total : ℚ) - totalAt samples (min beforeStart kill)
  ring

/-- A kill at 3, and a replacement with rows in the sample at 6. -/
theorem phases_account_firstKill : ∃ p,
    (buildReport asciiDigits ⟨20, 2⟩ [] firstKillLog (countsOf []).results (some 3) "arg" 30).phases
      = some p ∧
      p.before.tasks + p.during.tasks + p.after.tasks = 14 := by
  have hordered : InOrder firstKillLog := by
    simp only [InOrder, firstKillLog]
    decide +kernel
  have hphases : (buildReport asciiDigits ⟨20, 2⟩ [] firstKillLog (countsOf []).results (some 3)
      "arg" 30).phases = some (buildPhases firstKillLog none
        (findRecovery 3 none firstKillLog).1 3 ⟨0, 0, 0⟩
        ⟨6, 14, 4⟩) := rfl
  obtain ⟨-, -, -, -, hsum⟩ := phases_account asciiDigits ⟨20, 2⟩ [] hordered
    (countsOf []).results (some 3) "arg" 30 hphases rfl
  have hnone : totalAt firstKillLog (min 0 3) = 0 := by decide +kernel
  refine ⟨_, hphases, hsum.trans ?_⟩
  show ((14 : Nat) : ℚ) - totalAt firstKillLog (min 0 3) = 14
  rw [hnone]
  norm_num

end EvalHarness.Measure
