import EvalHarness.Coordinator.Accounting
import EvalHarness.Coordinator.Executions

set_option autoImplicit false

/-! # Exactly one terminal record per task

The ledger conserves tasks, so at every loop head a task is in the tables or at the aggregator, and
once the tables are empty every task is there exactly once. What the aggregator gets for a batch are
rows with the ids of that batch: the driver's own failure rows by construction, the rows of a
harvest because its outcome is one of `evaluate_batch` on the harvested batch. -/

namespace EvalHarness

open Ledger

variable {σ : Type} {w : World σ}

/-- The tasks in the tables. -/
def Tables.heldTasks (t : Tables) : Batch :=
  (t.pending ++ t.deferred.map Prod.snd).flatMap Entry.batch ++ t.active.values.flatMap Flight.batch

/-- The tasks handed to `record_batch`, one entry for each time. -/
def handedTasks (log : List Event) : Batch :=
  log.flatMap (fun
    | .recorded _ batch _ => batch
    | .recordRaised _ batch _ _ _ => batch
    | _ => [])

/-- The exceptions `record_batch` raised. -/
def recordFaults (log : List Event) : List Exc :=
  log.filterMap (fun | .recordRaised _ _ _ _ exc => some exc | _ => none)

/-- The batches the aggregator has taken, with their rows. -/
def handedRows (log : List Event) : List (Batch × List EvalResult) :=
  log.filterMap (fun | .recorded _ batch rows => some (batch, rows) | _ => none)

theorem mem_handedRows {log : List Event} {batch : Batch} {rows : List EvalResult} :
    (batch, rows) ∈ handedRows log ↔ ∃ cause, Event.recorded cause batch rows ∈ log :=
  mem_filterMap_events (fun e => by cases e <;> simp)

/-! ## The ledger, task by task -/

theorem tasksOf_entryJobs (es : List Entry) :
    tasksOf (entryJobs es) = (↑(es.flatMap Entry.batch) : Multiset TaskRef) := by
  induction es with
  | nil => rfl
  | cons e rest ih =>
      rw [show entryJobs (e :: rest) = e.job ::ₘ entryJobs rest from rfl, tasksOf_cons, ih,
        List.flatMap_cons, ← Multiset.coe_add]
      rfl

theorem tasksOf_flightJobs (fs : List Flight) :
    tasksOf (flightJobs fs) = (↑(fs.flatMap Flight.batch) : Multiset TaskRef) := by
  induction fs with
  | nil => rfl
  | cons f rest ih =>
      rw [show flightJobs (f :: rest) = f.job ::ₘ flightJobs rest from rfl, tasksOf_cons, ih,
        List.flatMap_cons, ← Multiset.coe_add]
      rfl

theorem settleRecords_snd (rs : List (Cause × Batch)) :
    (rs.flatMap settleRecords).map Prod.snd = rs.flatMap Prod.snd := by
  induction rs with
  | nil => rfl
  | cons r rest ih =>
      rw [List.flatMap_cons, List.map_append, ih, List.flatMap_cons, settleRecords, List.map_map]
      simp

/-- Without faults of `record_batch`, what was handed over was recorded. -/
theorem handedTasks_eq : ∀ {log : List Event}, recordFaults log = [] →
    handedTasks log = (recordings log).flatMap Prod.snd := by
  intro log
  induction log with
  | nil => intro _; rfl
  | cons e rest ih =>
      intro h
      cases e with
      | recorded cause batch rows => exact congrArg (batch ++ ·) (ih h)
      | recordRaised cause batch rows submitted exc => cases h
      | _ => exact ih h

theorem Reach.recordFaults_nil (hrecord : ∀ i, (w.env i).recordFault = none) {pt : Point σ}
    (h : Reach w pt) : recordFaults pt.sys.log = [] := by
  refine h.invariant (I := fun pt => recordFaults pt.sys.log = []) (fun s batches hs _ => ?_)
    (fun a b _ hm hI => ?_)
  · exact filterMap_start (s := s) hs (fun _ => rfl) (fun _ _ => rfl)
  cases hm with
  | completeFailed s ref f rows i k exc hfault hk => rw [hrecord i] at hfault; cases hfault
  | condemnFailed s f reason b hb hgate i k exc hfault => rw [hrecord i] at hfault; cases hfault
  | abortFailed s i k exc hfault => rw [hrecord i] at hfault; cases hfault
  | vacate s p slot hslot hwhy => exact (filterMap_vacate (fun _ => rfl) s slot).trans hI
  | promote s p slot h s' time hslot hempty hpool hs' => cases hs' <;> exact hI
  | failRefill s rf rest s' hagain hs' => cases hs' <;> exact hI
  | _ => exact hI

/-- At a point where the driver holds nothing, the tables and the aggregator have every task. -/
theorem Reach.conserved {s : Sys σ} (h : Reach w ⟨s, .idle⟩)
    (hfaults : recordFaults s.log = []) :
    (s.heldTasks ++ handedTasks s.log).Perm (List.range w.cfg.tasks.length) := by
  have htotal : tasksOf (entryJobs (s.pending ++ s.deferred.map Prod.snd ++ [])) +
      tasksOf (flightJobs (s.active.values ++ [])) +
      tasksOf ((0 : Multiset (Job TaskRef × Option Exc)).map Prod.fst) +
      (↑((recordings s.log).flatMap settleRecords) : Multiset (Verdict × TaskRef)).map Prod.snd
        = ↑(List.range w.cfg.tasks.length) := h.total
  rw [← Multiset.coe_eq_coe, handedTasks_eq hfaults, ← htotal, Multiset.map_zero, tasksOf_zero,
    add_zero, tasksOf_entryJobs, tasksOf_flightJobs, Multiset.map_coe, settleRecords_snd,
    List.append_nil, List.append_nil, ← Multiset.coe_add, Tables.heldTasks, ← Multiset.coe_add]

/-- After the abort nothing is in flight, and the aggregator has every task. -/
theorem Reach.conserved_over {s : Sys σ} (h : Reach w ⟨s, .over⟩)
    (hactive : s.active.keys = []) (hfaults : recordFaults s.log = []) :
    (handedTasks s.log).Perm (List.range w.cfg.tasks.length) := by
  have htotal : tasksOf (entryJobs []) + tasksOf (flightJobs (s.active.values ++ [])) +
      tasksOf ((0 : Multiset (Job TaskRef × Option Exc)).map Prod.fst) +
      (↑((recordings s.log).flatMap settleRecords) : Multiset (Verdict × TaskRef)).map Prod.snd
        = ↑(List.range w.cfg.tasks.length) := h.total
  have hentries : s.active.entries = [] := List.map_eq_nil_iff.1 hactive
  rw [← Multiset.coe_eq_coe, handedTasks_eq hfaults, ← htotal, Multiset.map_zero, tasksOf_zero,
    add_zero, tasksOf_entryJobs, tasksOf_flightJobs, Multiset.map_coe, settleRecords_snd,
    Dict.values, hentries]
  simp

/-! ## The rows of a batch -/

theorem failedRow_ids (cfg : Config) (workerId : Int) (error : String) (kind : FailureKind)
    (batch : Batch) : (batch.map (cfg.failedRow workerId error kind)).map EvalResult.taskId
      = batch.map cfg.taskId := by
  rw [List.map_map]
  rfl

/-- The rows the aggregator got are one per task of the batch they came with. -/
theorem Reach.rows_match
    (hworker : ∀ st hd batch rows st', w.evaluateBatch st hd batch = (.ok rows, st') →
      (rows.map EvalResult.taskId).Perm (batch.map w.cfg.taskId)) {pt : Point σ}
    (h : Reach w pt) : ∀ r ∈ handedRows pt.sys.log,
      (r.2.map EvalResult.taskId).Perm (r.1.map w.cfg.taskId) := by
  refine h.invariant (I := fun pt => ∀ r ∈ handedRows pt.sys.log,
    (r.2.map EvalResult.taskId).Perm (r.1.map w.cfg.taskId)) (fun s batches hs _ => ?_)
    (fun a b hr hm hI => ?_)
  · show ∀ r ∈ handedRows s.log, _
    rw [handedRows, filterMap_start hs (fun _ => rfl) (fun _ _ => rfl)]
    exact fun r hr => absurd hr List.not_mem_nil
  · cases hm with
    | complete s ref f rows =>
        obtain ⟨st, hst⟩ := hr.linked.legal _ (hr.linked.fetched ref f (.ok rows) rfl)
        refine List.forall_mem_cons.2 ⟨?_, hI⟩
        exact hworker st ref.worker f.batch rows _ (Prod.ext hst.symm rfl)
    | condemn s f reason b hb hgate =>
        refine List.forall_mem_cons.2 ⟨?_, hI⟩
        cases reason <;> exact (failedRow_ids _ _ _ _ _).symm ▸ List.Perm.refl _
    | abort s hdead =>
        refine List.forall_mem_cons.2 ⟨?_, hI⟩
        exact (failedRow_ids _ _ _ _ _).symm ▸ List.Perm.refl _
    | vacate s p slot hslot hwhy =>
        show ∀ r ∈ handedRows (s.vacate slot).log, _
        rw [handedRows, filterMap_vacate (fun _ => rfl)]
        exact hI
    | promote s p slot h s' time hslot hempty hpool hs' => cases hs' <;> exact hI
    | failRefill s rf rest s' hagain hs' => cases hs' <;> exact hI
    | _ => exact hI

/-! ## The abort -/

/-- What holds once the abort has recorded the queue: no slot is alive, and everything that was
    queued has been handed over as one batch of failure rows. -/
def AllDead (w : World σ) (s : Sys σ) : Prop :=
  s.workers.all Option.isNone ∧
    Event.recorded .workersDead (s.undispatched.flatMap Entry.batch)
      (w.cfg.abortRows (s.undispatched.flatMap Entry.batch)) ∈ s.log

theorem Reach.allDead {pt : Point σ} (h : Reach w pt) : pt.phase = .over → AllDead w pt.sys := by
  refine h.invariant (I := fun pt => pt.phase = .over → AllDead w pt.sys)
    (fun s batches _ _ hp => by cases hp) (fun a b hr hm hI => ?_)
  cases hm with
  | abort s hdead => exact fun _ => ⟨hdead, List.mem_cons_self⟩
  | call s p d hd => exact hI
  | fallback s p => exact hI
  | abandon s p slot exc call hcall =>
      intro hp
      obtain ⟨hdead, hin⟩ := hI hp
      exact ⟨hdead, (Move.abandon s p slot exc _ hcall).log_suffix.subset hin⟩
  | vacate s p slot hslot hwhy =>
      intro hp
      replace hp : p = .over := hp
      rw [hp] at hslot
      cases hslot
  | promote s p slot h s' time hslot hempty hpool hs' =>
      intro hp
      replace hp : p = .over := hp
      rw [hp] at hslot
      cases hslot
  | install s p slot healthy hslot hempty =>
      intro hp
      replace hp : p = .over := hp
      rw [hp] at hslot
      cases hslot
  | _ => exact fun hp => by cases hp

/-! ## The run -/

/-- Exactly one terminal record per task: at every loop head the tasks in the tables and the tasks
    handed to `record_batch` are the input, and when the loop has ended each task has been handed
    over exactly once, with one row of its id. -/
theorem every_task_recorded_once {s₀ : Sys σ} (h : startRun w = .ok s₀)
    (hworker : ∀ st hd batch rows st', w.evaluateBatch st hd batch = (.ok rows, st') →
      (rows.map EvalResult.taskId).Perm (batch.map w.cfg.taskId))
    (hrecord : ∀ i, (w.env i).recordFault = none) (k : Nat) :
    (∀ s, after w s₀ k = .head s →
      (s.heldTasks ++ handedTasks s.log).Perm (List.range w.cfg.tasks.length)) ∧
    (∀ s, after w s₀ k = .exited s ∨ after w s₀ k = .aborted s →
      (handedTasks s.log).Perm (List.range w.cfg.tasks.length)) ∧
    (∀ cause batch rows, Event.recorded cause batch rows ∈ (after w s₀ k).sys.log →
      (rows.map EvalResult.taskId).Perm (batch.map w.cfg.taskId)) := by
  have hreached := reach_after h k
  refine ⟨fun s hs => ?_, fun s hs => ?_, fun cause batch rows hin => ?_⟩
  · rw [hs] at hreached
    exact Reach.conserved hreached (Reach.recordFaults_nil hrecord hreached)
  · rcases hs with hs | hs <;> rw [hs] at hreached
    · obtain ⟨hr, hidle⟩ := hreached
      simp only [Tables.idle, Bool.and_eq_true, List.isEmpty_iff] at hidle
      have hheld : s.heldTasks = [] := by
        have hentries : s.active.entries = [] := List.map_eq_nil_iff.1 hidle.1.1
        simp [Tables.heldTasks, Dict.values, hentries, hidle.1.2, hidle.2]
      have := hr.conserved (hr.recordFaults_nil hrecord)
      rwa [hheld] at this
    · exact hreached.conserved_over (hreached.disciplined.active_empty (hreached.allDead rfl).1)
        (hreached.recordFaults_nil hrecord)
  · obtain ⟨p, hp⟩ := hreached.exists_phase
    exact hp.rows_match hworker _ (mem_handedRows.2 ⟨cause, hin⟩)

theorem every_task_recorded_once_small : ∃ s₀, startRun smallWorld = .ok s₀ ∧
    (∀ s, after smallWorld s₀ 2 = .head s →
      (s.heldTasks ++ handedTasks s.log).Perm (List.range 3)) ∧
    (∀ s, after smallWorld s₀ 2 = .exited s ∨ after smallWorld s₀ 2 = .aborted s →
      (handedTasks s.log).Perm (List.range 3)) ∧
    (∀ cause batch rows, Event.recorded cause batch rows ∈ (after smallWorld s₀ 2).sys.log →
      (rows.map EvalResult.taskId).Perm (batch.map smallConfig.taskId)) := by
  obtain ⟨s₀, h⟩ := startRun_small
  exact ⟨s₀, h, every_task_recorded_once h
    (fun st hd batch rows st' hok =>
      @failingOn_rows smallConfig (fun batch => 1 < batch.length) st st' hd batch rows hok)
    (fun _ => rfl) 2⟩

end EvalHarness
