import EvalHarness.Coordinator.Policy

set_option autoImplicit false

/-! # Fault injection (`fault_injection.py`)

A worker with fault injection asks a decider shared by all workers whether the batch at hand fails.
The decider counts the queries for each batch key and draws from a generator seeded with everything
the decision may depend on, so the draw is a function of these: `Decision`. The hash that routes a
key to a decider shard is a function of the key: `stableSeed`. -/

namespace EvalHarness

/-- The tuple of the task ids of a batch. -/
abbrev BatchKey := List String

/-- Whether `random.Random(_stable_seed(seed, batch_key, attempt, failure_rate)).random()` is below
    the failure rate. -/
abbrev Decision := Int → BatchKey → Nat → ℚ → Bool

/-! ## The decider -/

/-- `FailureDeciderImpl`. -/
structure FailureDecider where
  seed : Int
  attempts : Dict BatchKey Nat

/-- How often a key has been asked about. -/
def FailureDecider.attempt (d : FailureDecider) (key : BatchKey) : Nat :=
  (d.attempts.get? key).getD 0

/-- `should_fail`. -/
def FailureDecider.shouldFail (decision : Decision) (d : FailureDecider) (batchKey : BatchKey)
    (failureRate : ℚ) : Bool × FailureDecider :=
  let attempt := d.attempt batchKey
  (decision d.seed batchKey attempt failureRate,
    { d with attempts := d.attempts.set batchKey (attempt + 1) })

theorem FailureDecider.attempt_shouldFail (decision : Decision) (d : FailureDecider)
    (key key' : BatchKey) (rate : ℚ) :
    (d.shouldFail decision key rate).2.attempt key'
      = if key' = key then d.attempt key + 1 else d.attempt key' := by
  unfold shouldFail attempt
  simp only [Dict.get?_set]
  by_cases h : key' = key <;> simp [h]

/-! ## Sharding -/

/-- `decider_shard_index`. -/
def deciderShardIndex (stableSeed : BatchKey → Nat) (batchKey : BatchKey) (nShards : Nat) : Nat :=
  stableSeed batchKey % nShards

/-- `ShardedFailureDecider`: several deciders with the same seed. A decider that is not sharded is
    one shard. -/
structure ShardedFailureDecider where
  seed : Int
  nShards : Nat
  nShards_pos : 0 < nShards
  shards : Fin nShards → FailureDecider
  seed_eq : ∀ i, (shards i).seed = seed

namespace ShardedFailureDecider

/-- Deciders that have not been asked anything. -/
def fresh (seed : Int) (nShards : Nat) (hpos : 0 < nShards) : ShardedFailureDecider where
  seed := seed
  nShards := nShards
  nShards_pos := hpos
  shards := fun _ => ⟨seed, Dict.empty⟩
  seed_eq := fun _ => rfl

/-- `__init__`. -/
def init (seed : Int) (nShards : Nat) : Except Exc ShardedFailureDecider :=
  if h : nShards < 1 then
    .error ⟨"ValueError", s!"n_shards must be >= 1, got {nShards}"⟩
  else
    .ok (fresh seed nShards (Nat.not_lt.1 h))

variable (stableSeed : BatchKey → Nat)

/-- `_shard_for`: a single shard gets everything. -/
def shardFor (d : ShardedFailureDecider) (batchKey : BatchKey) : Fin d.nShards :=
  if d.nShards = 1 then ⟨0, d.nShards_pos⟩
  else ⟨deciderShardIndex stableSeed batchKey d.nShards, Nat.mod_lt _ d.nShards_pos⟩

/-- `should_fail`, asked of the shard of the key. -/
def shouldFail (decision : Decision) (d : ShardedFailureDecider) (batchKey : BatchKey)
    (failureRate : ℚ) : Bool × ShardedFailureDecider :=
  let i := d.shardFor stableSeed batchKey
  let answer := (d.shards i).shouldFail decision batchKey failureRate
  (answer.1,
    { d with
      shards := Function.update d.shards i answer.2
      seed_eq := fun k => by
        rw [Function.update_apply]
        split
        · exact d.seed_eq i
        · exact d.seed_eq k })

/-- How often a key has been asked about, at its shard. -/
def attempt (d : ShardedFailureDecider) (key : BatchKey) : Nat :=
  (d.shards (d.shardFor stableSeed key)).attempt key

theorem init_fresh {seed : Int} {nShards : Nat} {d : ShardedFailureDecider}
    (h : init seed nShards = .ok d) : d.seed = seed ∧ ∀ key, d.attempt stableSeed key = 0 := by
  unfold init at h
  split at h <;> cases h
  exact ⟨rfl, fun key => rfl⟩

/-- The answer depends on the number of earlier queries for the same key, whatever the shard. -/
theorem shouldFail_fst (decision : Decision) (d : ShardedFailureDecider) (key : BatchKey)
    (rate : ℚ) :
    (d.shouldFail stableSeed decision key rate).1
      = decision d.seed key (d.attempt stableSeed key) rate := by
  simp only [shouldFail, FailureDecider.shouldFail, attempt, d.seed_eq]

/-- A query counts for its own key only. -/
theorem attempt_shouldFail (decision : Decision) (d : ShardedFailureDecider)
    (key key' : BatchKey) (rate : ℚ) :
    (d.shouldFail stableSeed decision key rate).2.attempt stableSeed key'
      = if key' = key then d.attempt stableSeed key + 1 else d.attempt stableSeed key' := by
  show (Function.update d.shards (d.shardFor stableSeed key) _ (d.shardFor stableSeed key')).attempt
    key' = _
  rw [Function.update_apply]
  by_cases hshard : d.shardFor stableSeed key' = d.shardFor stableSeed key
  · rw [if_pos hshard, FailureDecider.attempt_shouldFail]
    simp only [attempt, hshard]
  · -- another shard has another key
    have hkey : key' ≠ key := fun heq => hshard (by rw [heq])
    rw [if_neg hshard, if_neg hkey]
    rfl

end ShardedFailureDecider

/-! ## The worker -/

/-- What the workers with fault injection share or keep: the decider, the tasks each worker has
    counted as failed by an injected fault, and the state of the workers without fault injection. -/
structure FaultState (σ : Type) where
  decider : ShardedFailureDecider
  tasksFailed : Dict Handle Nat
  inner : σ

variable {σ : Type}

/-- `_should_fail`: ask the decider about the ids of the tasks. -/
def shouldFailBatch (decision : Decision) (stableSeed : BatchKey → Nat) (failureRate : ℚ)
    (cfg : Config) (decider : ShardedFailureDecider) (tasks : Batch) :
    Bool × ShardedFailureDecider :=
  decider.shouldFail stableSeed decision (tasks.map cfg.taskId) failureRate

def injectedFailure (workerId : Nat) : Exc :=
  ⟨"RuntimeError", s!"injected failure (worker {workerId})"⟩

/-- `evaluate_batch` of `FaultInjectingHFWorkerImpl` and `FaultInjectingVLLMWorkerImpl`, around the
    `evaluate_batch` of the class they extend. -/
def faultInjecting (decision : Decision) (stableSeed : BatchKey → Nat) (failureRate : ℚ)
    (cfg : Config) (inner : EvaluateBatch σ) : EvaluateBatch (FaultState σ) := fun st hd tasks =>
  let answer := shouldFailBatch decision stableSeed failureRate cfg st.decider tasks
  if answer.1 then
    (.error (injectedFailure hd.workerId),
      { st with
        decider := answer.2
        tasksFailed := st.tasksFailed.set hd ((st.tasksFailed.get? hd).getD 0 + tasks.length) })
  else
    let result := inner st.inner hd tasks
    (result.1, { st with decider := answer.2, inner := result.2 })

section

variable {decision : Decision} {stableSeed : BatchKey → Nat} {failureRate : ℚ} {cfg : Config}
  {inner : EvaluateBatch σ}

theorem faultInjecting_of_fails {st : FaultState σ} {hd : Handle} {tasks : Batch}
    (h : (shouldFailBatch decision stableSeed failureRate cfg st.decider tasks).1 = true) :
    (faultInjecting decision stableSeed failureRate cfg inner st hd tasks).1
      = .error (injectedFailure hd.workerId) := by
  simp [faultInjecting, h]

theorem faultInjecting_of_passes {st : FaultState σ} {hd : Handle} {tasks : Batch}
    (h : (shouldFailBatch decision stableSeed failureRate cfg st.decider tasks).1 = false) :
    (faultInjecting decision stableSeed failureRate cfg inner st hd tasks).1
      = (inner st.inner hd tasks).1 := by
  simp [faultInjecting, h]

theorem faultInjecting_decider (st : FaultState σ) (hd : Handle) (tasks : Batch) :
    (faultInjecting decision stableSeed failureRate cfg inner st hd tasks).2.decider
      = (st.decider.shouldFail stableSeed decision (tasks.map cfg.taskId) failureRate).2 := by
  cases h : (shouldFailBatch decision stableSeed failureRate cfg st.decider tasks).1 <;>
    simp [faultInjecting, h] <;> rfl

/-- Where nothing else fails, the decider decides. -/
theorem faultInjecting_failed (hinner : ∀ st hd tasks, Outcome.failed (inner st hd tasks).1 = false)
    (st : FaultState σ) (hd : Handle) (tasks : Batch) :
    Outcome.failed (faultInjecting decision stableSeed failureRate cfg inner st hd tasks).1
      = decision st.decider.seed (tasks.map cfg.taskId)
        (st.decider.attempt stableSeed (tasks.map cfg.taskId)) failureRate := by
  refine Eq.trans ?_ (ShardedFailureDecider.shouldFail_fst stableSeed decision st.decider _ _)
  show _ = (shouldFailBatch decision stableSeed failureRate cfg st.decider tasks).1
  cases h : (shouldFailBatch decision stableSeed failureRate cfg st.decider tasks).1
  · rw [faultInjecting_of_passes h, hinner]
  · rw [faultInjecting_of_fails h]
    rfl

theorem faultInjecting_error (hinner : ∀ st hd tasks, Outcome.failed (inner st hd tasks).1 = false)
    {st : FaultState σ} {hd : Handle} {tasks : Batch} {exc : Exc}
    (h : (faultInjecting decision stableSeed failureRate cfg inner st hd tasks).1 = .error exc) :
    exc = injectedFailure hd.workerId := by
  cases hfails : (shouldFailBatch decision stableSeed failureRate cfg st.decider tasks).1
  · rw [faultInjecting_of_passes hfails] at h
    have hok := hinner st.inner hd tasks
    rw [h] at hok
    cases hok
  · rw [faultInjecting_of_fails hfails] at h
    cases h
    rfl

end

/-! ## Injected failures are transient -/

/-- `str.lower` leaves digits alone. -/
theorem lowerChar_of_isDigit {c : Char} (h : c.isDigit) : lowerChar c = [c] := by
  rw [Char.isDigit_iff_toNat] at h
  have hne : ∀ d : Char, '9'.toNat < d.toNat → c ≠ d := by
    rintro d hd rfl
    exact absurd h.2 (not_le.2 hd)
  rw [lowerChar, if_neg (hne _ (by decide)), if_neg (hne _ (by decide)), Char.toLower]
  refine congrArg (fun c => [c]) (dif_neg (fun hupper => ?_))
  have hA : 65 ≤ c.toNat := UInt32.le_iff_toNat_le.1 hupper.1
  have h9 : c.toNat ≤ 57 := h.2
  omega

/-- An injected failure has no letter `q` and no letter `x`, which every pattern has one of. -/
theorem injectedFailure_text (workerId : Nat) :
    ∀ c ∈ (injectedFailure workerId).text.toList.flatMap lowerChar, c ≠ 'q' ∧ c ≠ 'x' := by
  have htext : (injectedFailure workerId).text.toList
      = "injected failure (worker ".toList ++ Nat.toDigits 10 workerId ++ ")".toList := by
    show ("injected failure (worker " ++ toString workerId ++ ")").toList = _
    rw [String.toList_append, String.toList_append, Nat.toString_eq_repr, Nat.toList_repr]
  have hbefore : ∀ c ∈ "injected failure (worker ".toList.flatMap lowerChar,
      c ≠ 'q' ∧ c ≠ 'x' := by simp [lowerChar, Char.toLower]
  have hafter : ∀ c ∈ ")".toList.flatMap lowerChar, c ≠ 'q' ∧ c ≠ 'x' := by
    simp [lowerChar, Char.toLower]
  rw [htext, List.flatMap_append, List.flatMap_append]
  intro c hc
  rcases List.mem_append.1 hc with hc | hc
  · rcases List.mem_append.1 hc with hc | hc
    · exact hbefore c hc
    · obtain ⟨d, hd, hin⟩ := List.mem_flatMap.1 hc
      have hdigit := Nat.isDigit_of_mem_toDigits (by norm_num) le_rfl hd
      rw [lowerChar_of_isDigit hdigit, List.mem_singleton] at hin
      subst hin
      constructor <;> rintro rfl <;> revert hdigit <;> decide
  · exact hafter c hc

/-- No injected failure reads like one that would recur. -/
theorem injectedFailure_transient (workerId : Nat) :
    classifyFailure (injectedFailure workerId) = .transient := by
  have hnone := injectedFailure_text workerId
  unfold classifyFailure
  generalize (injectedFailure workerId).text.toList.flatMap lowerChar = msg at hnone
  refine if_neg (fun hany => ?_)
  obtain ⟨pattern, hin, hinfix⟩ := List.any_eq_true.1 hany
  have hsub := (of_decide_eq_true hinfix).subset
  simp only [deterministicPatterns, List.mem_cons, List.not_mem_nil, or_false] at hin
  rcases hin with rfl | rfl
  · exact (hnone 'q' (hsub (by decide))).1 rfl
  · exact (hnone 'x' (hsub (by decide))).2 rfl

end EvalHarness
