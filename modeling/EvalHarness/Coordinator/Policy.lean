import EvalHarness.Ray

set_option autoImplicit false

/-! # Configuration and retry policy of the coordinator

The constructor's checks and derived values, and the module-level functions `classify_failure`,
`retry_entries` and `backoff_seconds`: everything that decides about a retry without touching the
driver's tables. -/

namespace EvalHarness

/-! ## Constants -/

def workerInitTimeoutS : ℚ := 120
def hangThresholdMinS : ℚ := 120
def hangMultiplier : ℚ := 2
def hangMarginS : ℚ := 30
def retryPollInterval : ℚ := 1
def standbyRefillMaxAttempts : Nat := 3
def replaceMaxAttempts : Nat := 3
def defaultBatchSizeHf : Nat := 4
def defaultBatchSizeVllm : Nat := 64

/-! ## Configuration -/

inductive BackendKind where
  | hf
  | vllm
deriving DecidableEq, Repr

/-- A coordinator together with the task list its `run` is called on. `shardFor` is
    `ShardedAggregator.shard_for`, the routing of a task id to an aggregator shard. -/
structure Config where
  nWorkers : Nat
  modelName : String := "distilgpt2"
  maxRetries : Int := 2
  taskTimeout : ℚ := 60
  batchSize : Nat
  aggregatorShards : Nat := 1
  shards_pos : 1 ≤ aggregatorShards := by exact Nat.one_pos
  standby : Nat := 0
  shardFor : String → Nat := fun _ => 0
  tasks : List EvalTask

/-- `DistributedEvalCoordinator.__init__`: the default batch size of the backend, and the two
    argument checks. -/
def Config.init (nWorkers : Nat) (modelName : String) (backend : BackendKind) (maxRetries : Int)
    (taskTimeout : ℚ) (batchSize : Option Nat) (aggregatorShards standby : Int)
    (shardFor : String → Nat) (tasks : List EvalTask) : Except Exc Config :=
  let batchSize := batchSize.getD
    (if backend = .vllm then defaultBatchSizeVllm else defaultBatchSizeHf)
  if h : aggregatorShards < 1 then
    .error ⟨"ValueError", s!"aggregator_shards must be >= 1, got {aggregatorShards}"⟩
  else if standby < 0 then
    .error ⟨"ValueError", s!"standby must be >= 0, got {standby}"⟩
  else
    .ok
      { nWorkers, modelName, maxRetries, taskTimeout, batchSize, shardFor, tasks
        aggregatorShards := aggregatorShards.toNat
        shards_pos := by omega
        standby := standby.toNat }

/-- The arguments are refused for a number of shards below one and for a negative number of
    standbys, and for nothing else. -/
theorem Config.isOk_init_iff {nWorkers : Nat} {modelName : String} {backend : BackendKind}
    {maxRetries : Int} {taskTimeout : ℚ} {batchSize : Option Nat} {aggregatorShards standby : Int}
    {shardFor : String → Nat} {tasks : List EvalTask} :
    (Config.init nWorkers modelName backend maxRetries taskTimeout batchSize aggregatorShards
      standby shardFor tasks).isOk = true ↔ 1 ≤ aggregatorShards ∧ 0 ≤ standby := by
  unfold Config.init
  dsimp only
  split
  · next hshards => exact iff_of_false Bool.false_ne_true (fun h => by omega)
  · next hshards =>
      split
      · next hstandby => exact iff_of_false Bool.false_ne_true (fun h => by omega)
      · next hstandby => exact iff_of_true rfl (by omega)

/-- Every configuration is what the constructor makes of its own values. -/
theorem Config.init_self (cfg : Config) (backend : BackendKind) :
    Config.init cfg.nWorkers cfg.modelName backend cfg.maxRetries cfg.taskTimeout
      (some cfg.batchSize) cfg.aggregatorShards cfg.standby cfg.shardFor cfg.tasks = .ok cfg := by
  have hshards := cfg.shards_pos
  unfold Config.init
  dsimp only
  rw [dif_neg (by omega), if_neg (by omega)]
  rfl

/-- `hang_threshold_s = max(MIN, MULTIPLIER * task_timeout + MARGIN)`. -/
def Config.hangThresholdS (cfg : Config) : ℚ :=
  max hangThresholdMinS (hangMultiplier * cfg.taskTimeout + hangMarginS)

def Config.taskId (cfg : Config) (t : TaskRef) : String :=
  ((cfg.tasks[t]?).map EvalTask.taskId).getD ""

/-- The retry budget of one task: its own if set, else the coordinator's. -/
def Config.budget (cfg : Config) (t : TaskRef) : Int :=
  ((cfg.tasks[t]?).bind EvalTask.maxRetries).getD cfg.maxRetries

/-- `task_max_retries`, as both failure paths compute it: the budget of `batch[0]`. -/
def Config.taskMaxRetries (cfg : Config) : Batch → Except Exc Int
  | [] => .error ⟨"IndexError", "list index out of range"⟩
  | t :: _ => .ok (cfg.budget t)

/-- The largest effective retry budget of the run, and at least 0. -/
def Config.maxBudget (cfg : Config) : Nat :=
  ((List.range cfg.tasks.length).map (fun t => (cfg.budget t).toNat)).foldr max 0

/-! ## `classify_failure` -/

def deterministicPatterns : List String :=
  ["token indices sequence length", "index out of range"]

/-- `str.lower()` of one character, as far as a search for ASCII text can see it: besides `A`-`Z`,
    only KELVIN SIGN and CAPITAL I WITH DOT ABOVE lower to text with an ASCII letter in it. -/
def lowerChar (c : Char) : List Char :=
  if c = '\u212A' then ['k']
  else if c = '\u0130' then ['i', '\u0307']
  else [c.toLower]

/-- TRANSIENT = retry may succeed; DETERMINISTIC = the error will recur if the same work is
    re-run. -/
def classifyFailure (exc : Exc) : FailureKind :=
  let msg := exc.text.toList.flatMap lowerChar
  if deterministicPatterns.any (fun pattern => decide (pattern.toList <:+: msg)) then
    .deterministic
  else
    .transient

/-! ## `retry_entries` -/

/-- A batch waiting to be dispatched, with the number of failed attempts behind it. -/
structure Entry where
  batch : Batch
  retryCount : Nat
deriving DecidableEq, Repr

/-- Split policy: a multi-task batch goes back as two midpoint halves, a singleton whole. -/
def retryEntries (batch : Batch) (retryCount : Nat) : List Entry :=
  if batch.length ≤ 1 then
    [⟨batch, retryCount + 1⟩]
  else
    [⟨batch.take (batch.length / 2), retryCount + 1⟩,
     ⟨batch.drop (batch.length / 2), retryCount + 1⟩]

theorem retryEntries_flatten (batch : Batch) (rc : Nat) :
    ((retryEntries batch rc).map Entry.batch).flatten = batch := by
  unfold retryEntries
  split <;> simp

theorem retryEntries_retryCount {batch : Batch} {rc : Nat} :
    ∀ e ∈ retryEntries batch rc, e.retryCount = rc + 1 := by
  unfold retryEntries
  split <;> simp

/-- Splitting a non-empty batch never produces an empty half. -/
theorem retryEntries_ne_nil {batch : Batch} {rc : Nat} (h : batch ≠ []) :
    ∀ e ∈ retryEntries batch rc, e.batch ≠ [] := by
  unfold retryEntries
  have hpos := List.length_pos_iff.2 h
  split
  · simpa using h
  · next hlen =>
      intro e he
      simp only [List.mem_cons, List.not_mem_nil, or_false] at he
      rcases he with rfl | rfl
      · apply List.ne_nil_of_length_pos
        simp only [List.length_take]
        omega
      · apply List.ne_nil_of_length_pos
        simp only [List.length_drop]
        omega

/-! ## `backoff_seconds` -/

def overflowError : Exc := ⟨"OverflowError", "int too large to convert to float"⟩

/-- `x * n` for a float `x` and an int `n`: the int is converted first, and one of 2^1024 or more
    has no float. -/
@[irreducible] def floatMulInt (x : ℚ) (n : Nat) : Except Exc ℚ :=
  if n < 2 ^ 1024 then .ok (x * n) else .error overflowError

/-- Exponential backoff, full jitter, cap 8 s: `uniform(0, min(8.0, 0.5 * 2 ** retry_count))` with
    the unit draw `u`. -/
def backoffSeconds (retryCount : Nat) (u : ℚ) : Except Exc ℚ :=
  (floatMulInt (1 / 2) (2 ^ retryCount)).map (fun x => u * min 8 x)

/-- The retry counts whose backoff has no float. -/
theorem backoffSeconds_error_iff (rc : Nat) (u : ℚ) :
    (∃ exc, backoffSeconds rc u = .error exc) ↔ 1024 ≤ rc := by
  have hpow : ∀ m : Nat, 2 ^ rc < 2 ^ m ↔ rc < m :=
    fun m => Nat.pow_lt_pow_iff_right Nat.one_lt_two
  unfold backoffSeconds floatMulInt
  by_cases h : rc < 1024
  · rw [if_pos ((hpow 1024).2 h)]
    simp [Except.map, h]
  · rw [if_neg (fun hlt => h ((hpow 1024).1 hlt))]
    simp [Except.map, Nat.le_of_not_lt h]

theorem backoffSeconds_error {rc : Nat} {u : ℚ} {exc : Exc}
    (h : backoffSeconds rc u = .error exc) : exc = overflowError ∧ 1024 ≤ rc := by
  refine ⟨?_, (backoffSeconds_error_iff rc u).1 ⟨exc, h⟩⟩
  unfold backoffSeconds floatMulInt at h
  split at h
  · simp [Except.map] at h
  · simpa [Except.map] using h.symm

end EvalHarness
