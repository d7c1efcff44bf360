import EvalHarness.Coordinator.Standby

set_option autoImplicit false

/-! # `DistributedEvalCoordinator.run`

The scheduling loop and everything it calls, one definition per function of the source. The loop is
`advance`, one iteration per step; `after w s k` is where it stands after `k` of them. -/

namespace EvalHarness

variable {σ : Type}

/-! ## Dispatch -/

/-- The ref of the next `evaluate_batch` call to a worker. -/
def Sys.freshRef (s : Sys σ) (h : Handle) : ObjectRef := ⟨h, s.nextCall⟩

/-- `active[ref] = (worker_idx, batch, retry_count)` for a batch just sent to the worker `h`. -/
def Sys.launch (slot : Nat) (e : Entry) (h : Handle) (s : Sys σ) : Sys σ :=
  let flight : Flight := ⟨slot, e.batch, e.retryCount⟩
  { s.emit (.dispatched (s.freshRef h) flight s.toTables) with
    nextCall := s.nextCall + 1
    ray := s.ray.submit (s.freshRef h) e.batch
    active := s.active.set (s.freshRef h) flight }

/-- `ref_timeouts[ref] = time`. -/
def Sys.stamp (ref : ObjectRef) (time : ℚ) (s : Sys σ) : Sys σ :=
  { s with refTimeouts := s.refTimeouts.set ref time }

/-- `submit`: send a batch to the worker of a slot; a dead slot puts it back on `pending`. -/
def submit (w : World σ) (slot : Nat) (e : Entry) (s : Sys σ) : Sys σ :=
  match (s.workers[slot]?).join with
  | none => { s with pending := s.pending ++ [e] }
  | some h =>
      let ref := s.freshRef h
      let s := (s.launch slot e h).call w
      (s.stamp ref s.ray.clock).emit (.submitted ref s.ray.clock)

/-- Move the deferred batches with a wake-up time up to `now` into `pending`. -/
def Sys.wakeUp (now : ℚ) (s : Sys σ) : Sys σ :=
  { s with
    pending := s.pending ++ (s.deferred.filter (fun d => d.1 ≤ now)).map Prod.snd
    deferred := s.deferred.filter (fun d => ¬ d.1 ≤ now) }

/-- `promote_ready_retries`: move deferred batches whose wake-up has arrived into `pending`. -/
def promoteReadyRetries (w : World σ) (s : Sys σ) : Sys σ :=
  let s := s.call w
  s.wakeUp s.ray.clock

/-- The slots with a batch in flight. -/
def Tables.busy (t : Tables) : List Nat := t.active.values.map Flight.slot

/-- The loop of `dispatch_pending_to_idle` over the slots still to be looked at. -/
def dispatchToSlots (w : World σ) (busy : List Nat) : List Nat → Sys σ → Sys σ
  | [], s => s
  | i :: slots, s =>
      match s.pending with
      | [] => s
      | e :: rest =>
          if (s.workers[i]?).join = none ∨ i ∈ busy then
            dispatchToSlots w busy slots s
          else
            dispatchToSlots w busy slots (submit w i e { s with pending := rest })

/-- `dispatch_pending_to_idle`: hand pending work to idle workers. -/
def dispatchPendingToIdle (w : World σ) (s : Sys σ) : Sys σ :=
  if s.pending.isEmpty then s
  else dispatchToSlots w s.busy (List.range w.cfg.nWorkers) s

/-- `_assign_next`: give a freed worker its next batch, if any. -/
def assignNext (w : World σ) (slot : Nat) (s : Sys σ) : Sys σ :=
  match s.pending with
  | [] => s
  | e :: rest => submit w slot e { s with pending := rest }

/-- Fill the pipeline: one batch for each available slot, while there are batches. -/
def fillPipeline (w : World σ) : List Nat → Sys σ → List Nat × Sys σ
  | [], s => ([], s)
  | i :: available, s =>
      match s.pending with
      | [] => (i :: available, s)
      | e :: rest => fillPipeline w available (submit w i e { s with pending := rest })

/-! ## Success and failure of a batch -/

/-- `_handle_success`. -/
def handleSuccess (w : World σ) (batch : Batch) (results : List EvalResult) (s : Sys σ) :
    Act σ (Sys σ) :=
  record w .completed batch results (s.countCompleted results.length)

/-- `_retry_entries`: the split policy, counting splits. -/
def countedRetryEntries (batch : Batch) (retryCount : Nat) (s : Sys σ) : List Entry × Sys σ :=
  let entries := retryEntries batch retryCount
  (entries, { s with splitCount := s.splitCount + if 1 < entries.length then 1 else 0 })

/-- The budget gate both failure paths apply, with the exceptions of `batch[0]`. -/
def budgetOf (w : World σ) (batch : Batch) (s : Sys σ) : Act σ Int :=
  (w.cfg.taskMaxRetries batch).mapError (fun exc => ⟨exc, s⟩)

/-- `_handle_failure`: health-check the worker, then decide whether the batch should retry; if not,
    record one terminal failure per task. -/
def handleFailure (w : World σ) (exc : Exc) (f : Flight) (s : Sys σ) : Act σ (Bool × Sys σ) := do
  let kind := classifyFailure exc
  let s := checkAndReplaceIfPoisoned w f.slot s
  let taskMaxRetries ← budgetOf w f.batch s
  if f.retryCount < taskMaxRetries ∧ (kind = .transient ∨ 1 < f.batch.length) then
    return (true, s)
  else
    let s ← record w (.exception kind) f.batch
      (f.batch.map (w.cfg.failedRow f.slot exc.text kind)) (s.countFailed f.batch.length)
    return (false, s)

/-- The loop scheduling the retries of a failed batch, with a backoff drawn for each entry. -/
def deferEntries (w : World σ) (retryCount : Nat) : List Entry → Sys σ → Act σ (Sys σ)
  | [], s => .ok s
  | e :: rest, s =>
      let jitter := (s.reply w).jitter
      let s := s.call w
      match backoffSeconds retryCount jitter with
      | .error exc => .error ⟨exc, s⟩
      | .ok delay =>
          deferEntries w retryCount rest
            ({ s with deferred := s.deferred ++ [(s.ray.clock + delay, e)] }.countRetried 1)

/-- The `except` branch around a harvest: decide, and schedule the retries. -/
def recoverBatch (w : World σ) (f : Flight) (exc : Exc) (s : Sys σ) : Act σ (Sys σ) := do
  let (shouldRetry, s) ← handleFailure w exc f (s.emit (.failed f exc))
  if shouldRetry then
    let (entries, s) := countedRetryEntries f.batch f.retryCount s
    deferEntries w f.retryCount entries s
  else
    return s

/-- The `try` block around a harvest. -/
def settleBatch (w : World σ) (f : Flight) (out : Outcome) (s : Sys σ) : Act σ (Sys σ) :=
  match out with
  | .ok results => handleSuccess w f.batch results s
  | .error exc => .error ⟨exc, s⟩

/-- Harvest a resolved ref: take it out of the tables, settle its batch, and give the freed worker
    its next one. -/
def harvest (w : World σ) (ref : ObjectRef) (out : Outcome) (s : Sys σ) : Act σ (Sys σ) :=
  match s.active.get? ref with
  | none => .error ⟨⟨"KeyError", "done_ref"⟩, s⟩
  | some f => do
      let s := (s.dropRef ref).emit (.harvested ref f)
      let s := s.call w
      let s ← match settleBatch w f out s with
        | .ok s => .ok s
        | .error raised => recoverBatch w f raised.exc raised.sys
      return assignNext w f.slot s

/-! ## Hung workers -/

/-- What an eviction does with the batch: back to `pending` within the budget, else one terminal
    failure per task. -/
def requeueOrCondemn (w : World σ) (f : Flight) (s : Sys σ) : Act σ (Sys σ) := do
  let taskMaxRetries ← budgetOf w f.batch s
  if f.retryCount < taskMaxRetries then
    let (entries, s) := countedRetryEntries f.batch f.retryCount s
    return { s with pending := s.pending ++ entries }.countRetried entries.length
  else
    record w .hung f.batch
      (f.batch.map (w.cfg.failedRow f.slot (w.cfg.hungError f.retryCount) .transient))
      (s.countFailed f.batch.length)

/-- One ref of the timeout scan: evict it if it is older than the hang threshold, replace its
    worker, and give the replacement its first batch. -/
def scanRef (w : World σ) (now : ℚ) (s : Sys σ) (ref : ObjectRef) : Act σ (Sys σ) :=
  match s.active.get? ref with
  | none => .ok s
  | some f => do
      let submittedAt := (s.refTimeouts.get? ref).getD now
      let resolved := (s.ray.resolved.get? ref).isSome
      let s := s.emit (.visited ref now submittedAt resolved)
      if now - submittedAt < w.cfg.hangThresholdS then
        return s
      else
        let s := (s.dropRef ref).emit (.evicted ref f resolved)
        let s ← requeueOrCondemn w f s
        return assignNext w f.slot (replaceWorker w f.slot s).2

/-- `_handle_timeouts`: scan a snapshot of the active refs against one clock reading. -/
def handleTimeouts (w : World σ) (s : Sys σ) : Act σ (Sys σ) :=
  let s := s.call w
  s.active.keys.foldlM (scanRef w s.ray.clock) s

/-! ## The loop -/

/-- Where `run` stands: at the loop head, past the loop because nothing is left to do, past the loop
    by the all-workers-dead abort, or left by an exception. -/
inductive Status (σ : Type) where
  | head (s : Sys σ)
  | exited (s : Sys σ)
  | aborted (s : Sys σ)
  | raised (exc : Exc) (s : Sys σ)

def Status.sys : Status σ → Sys σ
  | .head s | .exited s | .aborted s | .raised _ s => s

/-- Everything queued, in the order the abort records it. -/
def Tables.undispatched (t : Tables) : List Entry := t.pending ++ t.deferred.map Prod.snd

/-- The all-workers-dead abort: a terminal failure for every undispatched task. -/
def abortRun (w : World σ) (s : Sys σ) : Act σ (Sys σ) :=
  let batch := s.undispatched.flatMap Entry.batch
  record w .workersDead batch
    (batch.map (w.cfg.failedRow (-1) "all workers dead before dispatch" .transient))
    (s.countFailed batch.length)

/-- Wait for one ref and harvest it if one is done, then scan for hung workers. -/
def waitAndHarvest (w : World σ) (s : Sys σ) : Act σ (Sys σ) := do
  let s := s.emit (.waiting s.toTables)
  let pick := (s.reply w).pick
  let s := s.call w
  let s ← match s.ray.wait pick s.active.keys with
    | some (ref, out) => harvest w ref out s
    | none => .ok s
  handleTimeouts w s

/-- The body of the loop. -/
def iteration (w : World σ) (s : Sys σ) : Status σ :=
  let s := pollStandbyRefills w s
  if s.workers.all Option.isNone then
    match abortRun w s with
    | .ok s => .aborted s
    | .error raised => .raised raised.exc raised.sys
  else
    let s := promoteReadyRetries w s
    let now := s.ray.clock
    let s := dispatchPendingToIdle w s
    if s.active.keys.isEmpty then
      .head ((s.emit (.sleeping s.toTables now)).sleep w retryPollInterval)
    else
      match waitAndHarvest w s with
      | .ok s => .head s
      | .error raised => .raised raised.exc raised.sys

/-- `active or deferred or pending` is false. -/
def Tables.idle (t : Tables) : Bool :=
  t.active.keys.isEmpty && t.deferred.isEmpty && t.pending.isEmpty

/-- One step of the loop: test the condition, run the body. -/
def advance (w : World σ) : Status σ → Status σ
  | .head s => if s.idle then .exited s else iteration w s
  | status => status

def after (w : World σ) (s : Sys σ) (k : Nat) : Status σ := (advance w)^[k] (.head s)

/-! ## Start and end -/

/-- The coordinator when `run` is entered. -/
def Sys.initial (w : World σ) : Sys σ where
  workers := []
  pending := []
  deferred := []
  active := Dict.empty
  refTimeouts := Dict.empty
  standbyPool := []
  standbyRefills := []
  nextWorkerId := w.cfg.nWorkers
  stats := {}
  runStart := w.startClock
  splitCount := 0
  writeRefs := 0
  metrics := {}
  shardCalls := []
  nextActor := 0
  nextCall := 0
  ray := ⟨w.startClock, 0, Dict.empty, Dict.empty, w.backend, []⟩
  log := []

/-- `run` up to the first loop head: create the workers, chunk the tasks, fill the pipeline. -/
def startRun (w : World σ) : Act σ (Sys σ) := do
  let s ← createWorkers w (Sys.initial w)
  let batches ← (makeBatches (List.range w.cfg.tasks.length) w.cfg.batchSize).mapError
    (fun exc => ⟨exc, s⟩)
  let s := { s with pending := batches.map (fun batch => ⟨batch, 0⟩) }
  let available := (List.range w.cfg.nWorkers).filter (fun i => (s.workers[i]?).join.isSome)
  let (available, s) := fillPipeline w available s
  if available.isEmpty ∧ s.active.keys.isEmpty then
    .error ⟨⟨"RuntimeError", "All workers failed to start. Check model_name, GPU " ++
      "availability, and Ray resources."⟩, s⟩
  else
    return s

/-- `_standby_summary`. -/
structure StandbySummary where
  configured : Nat
  stats : StandbyStats
  finalPoolSize : Nat
  refillsInFlightAtExit : Nat

/-- What `run` adds to the aggregator's summary. -/
structure RunSummary where
  workerStats : List WorkerStats
  hangThresholdS : ℚ
  retrySplits : Nat
  standby : StandbySummary

def standbySummary (w : World σ) (s : Sys σ) : StandbySummary where
  configured := w.cfg.standby
  stats := s.stats
  finalPoolSize := s.standbyPool.length
  refillsInFlightAtExit := s.standbyRefills.length

/-- `ray.get(self._write_refs)`: drain the aggregator writes; nothing to wait for without any. -/
def drainWrites (w : World σ) (s : Sys σ) : Act σ (Sys σ) :=
  if s.writeRefs = 0 then
    .ok s
  else
    let drain := (s.reply w).drain
    let s := s.call w
    match drain with
    | some exc => .error ⟨exc, s⟩
    | none => .ok { s with writeRefs := 0 }

/-- `ray.get([w.get_stats.remote() for w in live_workers])`. -/
def collectStats (w : World σ) : List Handle → Sys σ → Act σ (List WorkerStats × Sys σ)
  | [], s => .ok ([], s)
  | _ :: hs, s =>
      let stats := (s.reply w).stats
      let s := s.call w
      match stats with
      | .error exc => .error ⟨exc, s⟩
      | .ok st => (collectStats w hs s).map (fun r => (st :: r.1, r.2))

/-- `aggregator.finalize()`: a single shard has nothing to seal; several are closed and merged. -/
def finalizeAggregator (w : World σ) (s : Sys σ) : Act σ (Sys σ) :=
  if w.cfg.aggregatorShards = 1 then
    .ok (s.emit (.finalized false))
  else
    let finalize := (s.reply w).finalize
    let s := s.call w
    match finalize with
    | some exc => .error ⟨exc, s⟩
    | none => .ok (s.emit (.finalized true))

/-- `aggregator.get_summary()`. -/
def aggregatorSummary (w : World σ) (s : Sys σ) : Act σ (Sys σ) :=
  let summary := (s.reply w).summary
  let s := s.call w
  match summary with
  | some exc => .error ⟨exc, s⟩
  | none => .ok s

/-- `_teardown_standby`: kill idle standbys and abandoned refills. -/
def teardownStandby (w : World σ) (s : Sys σ) : Sys σ :=
  let s := s.standbyPool.foldl (killActor w) s
  let s := (s.standbyRefills.map Refill.handle).foldl (killActor w) s
  { s with standbyPool := [], standbyRefills := [] }

/-- `run` after the loop: drain, stats, finalize, summary, teardown. -/
def finishRun (w : World σ) (s : Sys σ) : Act σ (RunSummary × Sys σ) := do
  let s ← drainWrites w s
  let (workerStats, s) ← collectStats w (s.workers.filterMap id) s
  let s ← finalizeAggregator w s
  let s ← aggregatorSummary w s
  let summary : RunSummary :=
    { workerStats
      hangThresholdS := w.cfg.hangThresholdS
      retrySplits := s.splitCount
      standby := standbySummary w s }
  return (summary, teardownStandby w s)

/-- The whole of `run`, given that many iterations of the loop; `none` if it is still going. -/
def run (w : World σ) (fuel : Nat) : Option (Act σ (RunSummary × Sys σ)) :=
  match startRun w with
  | .error raised => some (.error raised)
  | .ok s =>
      match after w s fuel with
      | .head _ => none
      | .exited s | .aborted s => some (finishRun w s)
      | .raised exc s => some (.error ⟨exc, s⟩)

end EvalHarness
