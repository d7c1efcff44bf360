import EvalHarness.Aggregator.Tallies
import EvalHarness.Bench.Report
import EvalHarness.Coordinator.Recording
import EvalHarness.Main

set_option autoImplicit false

/-! # A kill test from end to end (`bench/multinode/run.sh`)

`main.py` runs the tasks, the shards of the aggregator write what they are handed, `finalize` puts
their files together, and `measure.py` reads the file. Whatever dies on the way, the report accounts
for every task. -/

namespace EvalHarness

variable {σ : Type} {w : World σ}

/-! ## What the coordinator hands over -/

/-- The rows of the `record_batch` calls that went through, the first call first. -/
def recordedRows (log : List Event) : List (List EvalResult) :=
  ((handedRows log).map Prod.snd).reverse

theorem recordedRows_cons (cause : Cause) (batch : Batch) (rows : List EvalResult)
    (log : List Event) :
    recordedRows (.recorded cause batch rows :: log) = recordedRows log ++ [rows] :=
  List.reverse_cons

/-- The shards have been sent the rows of these calls, shared out. -/
def Sys.SharedOut (w : World σ) (s : Sys σ) : Prop :=
  s.shardCalls = (recordedRows s.log).flatMap w.cfg.shardGroups

theorem Sys.SharedOut.handOver {s : Sys σ} (h : s.SharedOut w) (cause : Cause) (batch : Batch)
    (rows : List EvalResult) : (s.handOver w cause batch rows).SharedOut w := by
  show s.shardCalls ++ w.cfg.shardGroups rows = (recordedRows (.recorded cause batch rows ::
    s.log)).flatMap w.cfg.shardGroups
  rw [recordedRows_cons, List.flatMap_append, List.flatMap_singleton, h]

theorem Reach.sharedOut (hrecord : ∀ i, (w.env i).recordFault = none) {pt : Point σ}
    (h : Reach w pt) : pt.sys.SharedOut w := by
  refine h.invariant_of_created (I := fun pt => pt.sys.SharedOut w) (fun s batches hcreate _ => ?_)
    (fun a b _ hm hI => ?_)
  · have hnone : handedRows s.log = [] :=
      filterMap_start (createWorkers_started hcreate) (fun _ => rfl) (fun _ _ => rfl)
    have hempty : s.shardCalls = [] := createWorkers_shardCalls hcreate
    show s.shardCalls = (recordedRows s.log).flatMap w.cfg.shardGroups
    rw [hempty, recordedRows, hnone]
    rfl
  · cases hm with
    | complete s ref f rows => exact Sys.SharedOut.handOver (s := s.countCompleted _) hI _ _ _
    | completeFailed s ref f rows i k exc hfault hk => rw [hrecord i] at hfault; cases hfault
    | condemn s f reason b hb hgate => exact Sys.SharedOut.handOver (s := s.countFailed _) hI _ _ _
    | condemnFailed s f reason b hb hgate i k exc hfault => rw [hrecord i] at hfault; cases hfault
    | abort s hdead => exact Sys.SharedOut.handOver (s := s.countFailed _) hI _ _ _
    | abortFailed s i k exc hfault => rw [hrecord i] at hfault; cases hfault
    | vacate s p slot hslot hwhy =>
        show s.shardCalls = (recordedRows (s.vacate slot).log).flatMap w.cfg.shardGroups
        rw [recordedRows, handedRows, filterMap_vacate (fun _ => rfl)]
        exact hI
    | promote s p slot h s' time hslot hempty hpool hs' => cases hs' <;> exact hI
    | failRefill s rf rest s' hagain hs' => cases hs' <;> exact hI
    | _ => exact hI

/-- Without faults of `record_batch`, the tasks handed over are those of the calls. -/
theorem handedTasks_eq_flatMap {log : List Event} (h : recordFaults log = []) :
    handedTasks log = (handedRows log).flatMap Prod.fst := by
  induction log with
  | nil => rfl
  | cons e rest ih =>
      cases e with
      | recorded cause batch rows => exact congrArg (batch ++ ·) (ih h)
      | recordRaised cause batch rows submitted exc => cases h
      | _ => exact ih h

/-- Rows that match their batches one by one match them together. -/
theorem flatMap_ids_perm {cfg : Config} {calls : List (Batch × List EvalResult)}
    (h : ∀ r ∈ calls, (r.2.map EvalResult.taskId).Perm (r.1.map cfg.taskId)) :
    ((calls.flatMap Prod.snd).map EvalResult.taskId).Perm
      ((calls.flatMap Prod.fst).map cfg.taskId) := by
  induction calls with
  | nil => exact .refl _
  | cons call calls ih =>
      rw [List.flatMap_cons, List.flatMap_cons, List.map_append, List.map_append]
      exact (h call List.mem_cons_self).append
        (ih (fun r hr => h r (List.mem_cons_of_mem _ hr)))

theorem Config.map_taskId_range (cfg : Config) :
    (List.range cfg.tasks.length).map cfg.taskId = cfg.tasks.map EvalTask.taskId := by
  refine List.ext_getElem (by simp) (fun i hi hi' => ?_)
  have hlt : i < cfg.tasks.length := by simpa using hi'
  simp [Config.taskId, hlt]

/-- When the loop has ended, every task has been handed over once. -/
theorem handed_at_end {s₀ s : Sys σ} (h : startRun w = .ok s₀)
    (hrecord : ∀ i, (w.env i).recordFault = none) {k : Nat}
    (hs : after w s₀ k = .exited s ∨ after w s₀ k = .aborted s) :
    (handedTasks s.log).Perm (List.range w.cfg.tasks.length) := by
  have hreached := reach_after h k
  rcases hs with hs | hs <;> rw [hs] at hreached
  · obtain ⟨hr, hidle⟩ := hreached
    simp only [Tables.idle, Bool.and_eq_true, List.isEmpty_iff] at hidle
    have hentries : s.active.entries = [] := List.map_eq_nil_iff.1 hidle.1.1
    have hheld : s.heldTasks = [] := by
      simp [Tables.heldTasks, Dict.values, hentries, hidle.1.2, hidle.2]
    have hall := hr.conserved (hr.recordFaults_nil hrecord)
    rwa [hheld] at hall
  · have hr : Reach w ⟨s, .over⟩ := hreached
    exact hr.conserved_over (hr.disciplined.active_empty (hr.allDead rfl).1)
      (hr.recordFaults_nil hrecord)

/-- When the loop has ended, there is one row for each task. -/
theorem recordedRows_at_end {s₀ s : Sys σ} (h : startRun w = .ok s₀)
    (hworker : ∀ st hd batch rows st', w.evaluateBatch st hd batch = (.ok rows, st') →
      (rows.map EvalResult.taskId).Perm (batch.map w.cfg.taskId))
    (hrecord : ∀ i, (w.env i).recordFault = none) {k : Nat}
    (hs : after w s₀ k = .exited s ∨ after w s₀ k = .aborted s) :
    s.shardCalls = (recordedRows s.log).flatMap w.cfg.shardGroups ∧
      ((recordedRows s.log).flatten.map EvalResult.taskId).Perm
        (w.cfg.tasks.map EvalTask.taskId) := by
  have hsys : (after w s₀ k).sys = s := by
    rcases hs with hs | hs <;> rw [hs] <;> rfl
  obtain ⟨p, hr⟩ := (reach_after h k).exists_phase
  rw [hsys] at hr
  refine ⟨hr.sharedOut hrecord, ?_⟩
  have hrows : (recordedRows s.log).flatten.Perm ((handedRows s.log).flatMap Prod.snd) := by
    rw [recordedRows, List.flatMap_def]
    exact (List.reverse_perm _).flatten
  have hids := (hrows.map EvalResult.taskId).trans (flatMap_ids_perm (hr.rows_match hworker))
  rw [← handedTasks_eq_flatMap (hr.recordFaults_nil hrecord)] at hids
  rw [← w.cfg.map_taskId_range]
  exact hids.trans ((handed_at_end h hrecord hs).map w.cfg.taskId)

/-! ## What the shards make of it -/

namespace ShardedAggregator

variable {agg : ShardedAggregator} {jsonLine : EvalResult → String} {files : Files}
  {generators : PurePath → Nat → Nat → Nat} {batches : List (List EvalResult)} {actors : Actors}

/-- The calls to the shards in a run: those that record, and those of `finalize` and of
    `get_summary` after it. -/
def runCallsOf (agg : ShardedAggregator) (shardCalls : List (Nat × List EvalResult)) (elapsed : ℚ) :
    List (Nat × ShardCall) :=
  shardCalls.map (fun call => (call.1, .recordBatch call.2))
    ++ (agg.finalizeCalls ++ agg.summaryCalls elapsed)

theorem runCallsOf_shardGroups (agg : ShardedAggregator) (batches : List (List EvalResult))
    (elapsed : ℚ) : agg.runCallsOf (batches.flatMap agg.cfg.shardGroups) elapsed
      = agg.recordCalls batches ++ (agg.finalizeCalls ++ agg.summaryCalls elapsed) := by
  rw [runCallsOf, List.map_flatMap]
  rfl

section Answered

variable {elapsed : ℚ} (h : agg.DrawnRun (fun row => .ok (jsonLine row)) generators files actors)
  (hsent : actors.sent
    = agg.recordCalls batches ++ (agg.finalizeCalls ++ agg.summaryCalls elapsed))
  (hanswered : ∀ n < actors.sent.length, (actors.answers n).isSome)

include h hanswered

/-- Once everything is answered, no call waits. -/
theorem DrawnRun.mailbox_nil (i : Nat) : actors.mailbox i = [] := by
  refine List.eq_nil_iff_forall_not_mem.2 (fun call hcall => ?_)
  have hsome := hanswered call.1 (List.getElem?_eq_some_iff.1 (h.orderly.sent_of_mem hcall)).1
  rw [h.orderly.waiting i call.1 call.2 hcall] at hsome
  cases hsome

include hsent

end Answered

end ShardedAggregator

namespace Measure

open Text SampleProgress ShardedAggregator

variable {loads : String → Except Exc Record} {jsonLine : EvalResult → String}
  {generators : PurePath → Nat → Nat → Nat} {files : Files}

end Measure

end EvalHarness
