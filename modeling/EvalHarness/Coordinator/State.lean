import EvalHarness.Aggregator.Routing

set_option autoImplicit false

/-! # State of a coordinator run

`Tables` are the variables of `run` the scheduler works on; `Sys` adds the coordinator's own fields,
the cluster, and `log`, the calls the driver has made so far (latest first). Calls whose legality
depends on the tables (a submission, a wait) log a copy of them. A Python exception that leaves a
function is the `Except.error` of its model, together with the state at that moment. -/

namespace EvalHarness

/-- A value of `active`: the slot whose worker has the batch, and the batch. -/
structure Flight where
  slot : Nat
  batch : Batch
  retryCount : Nat
deriving DecidableEq, Repr

def Flight.entry (f : Flight) : Entry := ⟨f.batch, f.retryCount⟩

/-- The scheduler's tables: worker slots (`none` is a dead slot), batches ready to dispatch,
    batches waiting for their wake-up time, batches in flight, and submission timestamps. -/
structure Tables where
  workers : List (Option Handle)
  pending : List Entry
  deferred : List (ℚ × Entry)
  active : Dict ObjectRef Flight
  refTimeouts : Dict ObjectRef ℚ

/-- Why a batch reached the aggregator. -/
inductive Cause where
  | completed
  | exception (kind : FailureKind)
  | hung
  | workersDead
deriving DecidableEq, Repr

/-- What the driver does, as an observer of its calls sees it. `submitted` is the return of a
    submission, with the clock at that moment; `visited` is one ref looked at by the timeout scan,
    with the clock reading and the timestamp it compares and whether the ref had resolved by then;
    `recordRaised` has the number of shard groups that were submitted; `checked` is a readiness
    check, with the number of the call that answered it, or without one when the driver stopped
    waiting; `attemptFailed` is a blocking replacement attempt that raised after its constructor
    call had returned an actor. -/
inductive Event where
  | dispatched (ref : ObjectRef) (flight : Flight) (tables : Tables)
  | submitted (ref : ObjectRef) (now : ℚ)
  | harvested (ref : ObjectRef) (flight : Flight)
  | failed (flight : Flight) (exc : Exc)
  | visited (ref : ObjectRef) (now submittedAt : ℚ) (resolved : Bool)
  | evicted (ref : ObjectRef) (flight : Flight) (resolved : Bool)
  | recorded (cause : Cause) (batch : Batch) (rows : List EvalResult)
  | recordRaised (cause : Cause) (batch : Batch) (rows : List EvalResult) (submitted : Nat)
      (exc : Exc)
  | waiting (tables : Tables)
  | sleeping (tables : Tables) (now : ℚ)
  | constructed (handle : Handle)
  | checked (handle : Handle) (call : Option Nat)
  | probed (handle : Handle) (healthy : Bool)
  | attemptFailed (handle : Handle) (exc : Exc)
  | killed (handle : Handle)
  | finalized (merged : Bool)

/-- An in-flight refill of the standby pool. -/
structure Refill where
  handle : Handle
  submittedAt : ℚ
  attempt : Nat
deriving DecidableEq

/-- `_standby_stats`, the configured size apart. -/
structure StandbyStats where
  promotions : Nat := 0
  refillsStarted : Nat := 0
  refillsCompleted : Nat := 0
  refillFailures : Nat := 0
  fallbacks : Nat := 0
  poolTimeline : List (ℚ × Nat) := []

/-- The counts the coordinator reports to its metrics seam. -/
structure Counts where
  completed : Nat := 0
  failed : Nat := 0
  retried : Nat := 0
  replaced : Nat := 0

/-- A coordinator in the middle of `run`. `nextActor` and `nextCall` number the actors and the calls
    so that every construction and every submission is fresh; `shardCalls` are the calls submitted
    to the aggregator shards. -/
structure Sys (σ : Type) extends Tables where
  standbyPool : List Handle
  standbyRefills : List Refill
  nextWorkerId : Nat
  stats : StandbyStats
  runStart : ℚ
  splitCount : Nat
  writeRefs : Nat
  metrics : Counts
  shardCalls : List (Nat × List EvalResult)
  nextActor : Nat
  nextCall : Nat
  ray : RayState σ
  log : List Event

/-- Everything a run depends on: the coordinator and its tasks, the workers' code and its initial
    state, the time at which `run` starts, and what the outside does in each call of the driver. -/
structure World (σ : Type) where
  cfg : Config
  evaluateBatch : EvaluateBatch σ
  backend : σ
  startClock : ℚ := 0
  env : Nat → Reply

/-- An exception leaving a function, with the state it leaves behind. -/
structure Raised (σ : Type) where
  exc : Exc
  sys : Sys σ

/-- What a function that may raise gives back. -/
abbrev Act (σ α : Type) := Except (Raised σ) α

variable {σ : Type}

/-! ## Calls -/

/-- The reply to the driver's next call. -/
def Sys.reply (w : World σ) (s : Sys σ) : Reply := w.env s.ray.step

/-- Make a call: time passes and workers work. -/
def Sys.call (w : World σ) (s : Sys σ) : Sys σ :=
  { s with ray := s.ray.call w.evaluateBatch (s.reply w) 0 }

/-- `time.sleep(seconds)`. -/
def Sys.sleep (w : World σ) (s : Sys σ) (seconds : ℚ) : Sys σ :=
  { s with ray := s.ray.call w.evaluateBatch (s.reply w) seconds }

def Sys.emit (s : Sys σ) (e : Event) : Sys σ := { s with log := e :: s.log }

def Sys.countFailed (s : Sys σ) (n : Nat) : Sys σ :=
  { s with metrics := { s.metrics with failed := s.metrics.failed + n } }

def Sys.countCompleted (s : Sys σ) (n : Nat) : Sys σ :=
  { s with metrics := { s.metrics with completed := s.metrics.completed + n } }

def Sys.countRetried (s : Sys σ) (n : Nat) : Sys σ :=
  { s with metrics := { s.metrics with retried := s.metrics.retried + n } }

/-- Take a ref out of `active` and `ref_timeouts`. -/
def Sys.dropRef (s : Sys σ) (ref : ObjectRef) : Sys σ :=
  { s with active := s.active.erase ref, refTimeouts := s.refTimeouts.erase ref }

/-! ## Recording -/

/-- The state after a `record_batch` call that went through. -/
def Sys.handOver (w : World σ) (cause : Cause) (batch : Batch) (rows : List EvalResult)
    (s : Sys σ) : Sys σ :=
  { s with
    shardCalls := s.shardCalls ++ w.cfg.shardGroups rows
    writeRefs := s.writeRefs + (w.cfg.shardGroups rows).length }.emit (.recorded cause batch rows)

/-- The state after a `record_batch` call that raised with `k` shard groups submitted. -/
def Sys.handOverFailed (w : World σ) (cause : Cause) (batch : Batch) (rows : List EvalResult)
    (k : Nat) (exc : Exc) (s : Sys σ) : Sys σ :=
  { s with shardCalls := s.shardCalls ++ (w.cfg.shardGroups rows).take k }.emit
    (.recordRaised cause batch rows k exc)

/-- `_record`: hand rows to `record_batch`, one call per shard group. When it raises, the groups
    before the failing one have been submitted. -/
def record (w : World σ) (cause : Cause) (batch : Batch) (rows : List EvalResult) (s : Sys σ) :
    Act σ (Sys σ) :=
  let fault := (s.reply w).recordFault.filter (fun f => f.1 < (w.cfg.shardGroups rows).length)
  let s := s.call w
  match fault with
  | some (k, exc) => .error ⟨exc, s.handOverFailed w cause batch rows k exc⟩
  | none => .ok (s.handOver w cause batch rows)

/-- The result row of a task the coordinator gives up on. -/
def Config.failedRow (cfg : Config) (workerId : Int) (error : String) (kind : FailureKind)
    (t : TaskRef) : EvalResult where
  taskId := cfg.taskId t
  score := 0
  response := ""
  latencySeconds := 0
  batchLatencySeconds := none
  failed := true
  workerId := workerId
  error := some error
  failureKind := some kind

/-- The error text of a batch that hung once too often. -/
def Config.hungError (cfg : Config) (retryCount : Nat) : String :=
  s!"batch hung >= {roundHalfEven cfg.hangThresholdS}s {retryCount + 1} time(s); " ++
    "retry budget exhausted"

end EvalHarness
