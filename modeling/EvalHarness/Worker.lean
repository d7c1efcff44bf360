import EvalHarness.FaultInjection
import EvalHarness.HookCriterion
import EvalHarness.Scoring

set_option autoImplicit false

/-! # What the backends share (`worker.py`)

Which failures are the engine's own, the rows a worker builds, and the contract of `EvalBackend`: a
call answers with one row for each task, or it fails, and the counters of `get_stats` say which. -/

namespace EvalHarness

open Text

/-! ## Engine-fatal failures -/

/-- The class hierarchy of the exceptions: the names in `type(exc).__mro__`, and which classes are
    subclasses of `TimeoutError`. -/
structure ExcClasses where
  mro : String → List String
  isTimeout : String → Bool
  mro_runtimeError : mro "RuntimeError" = ["RuntimeError", "Exception", "BaseException", "object"]
  isTimeout_timeoutError : isTimeout "TimeoutError" = true

/-- `_ENGINE_FATAL_EXC_NAMES`. -/
def engineFatalExcNames : List String :=
  ["EngineDeadError", "EngineGenerateError", "AsyncEngineDeadError", "OutOfMemoryError"]

/-- `_CUDA_ERROR_PATTERNS`. -/
def cudaErrorPatterns : List String :=
  ["cuda error", "cuda out of memory", "device-side assert", "illegal memory access", "cublas",
    "cudnn", "nccl"]

/-- `_is_engine_fatal`: the engine is not to be trusted for further batches. -/
def isEngineFatal (classes : ExcClasses) (exc : Exc) : Bool :=
  if classes.isTimeout exc.cls then false
  else if (classes.mro exc.cls).any engineFatalExcNames.contains then true
  else
    let msg := exc.text.toList.flatMap lowerChar
    cudaErrorPatterns.any (fun pattern => decide (pattern.toList <:+: msg))

/-- Neighbours in a text that has both, one behind the other. -/
theorem mem_zip_tail_of_within {α : Type} {a b : α} {l : List α} (h : [a, b] <:+: l) :
    (a, b) ∈ l.zip l.tail := by
  obtain ⟨before, after, rfl⟩ := h
  induction before with
  | nil => simp
  | cons x before ih =>
      cases hrest : before ++ [a, b] ++ after with
      | nil => simp at hrest
      | cons y rest =>
          rw [hrest] at ih
          rw [List.cons_append, List.cons_append, hrest]
          exact List.mem_cons_of_mem _ ih

theorem mem_zip_tail_append {α : Type} {a b : α} {l m : List α}
    (h : (a, b) ∈ (l ++ m).zip (l ++ m).tail) :
    (a, b) ∈ l.zip l.tail ∨ l.getLast? = some a ∨ a ∈ m := by
  induction l with
  | nil => exact .inr (.inr (List.of_mem_zip h).1)
  | cons x l ih => cases l with
    | nil => cases m with
      | nil => simp at h
      | cons y m =>
          rcases List.mem_cons.1 h with heq | hin
          · cases heq
            exact .inr (.inl rfl)
          · exact .inr (.inr (List.of_mem_zip hin).1)
    | cons y l =>
        rcases List.mem_cons.1 h with heq | hin
        · cases heq
          exact .inl (List.mem_cons_self ..)
        · rcases ih hin with hin | hlast | hin
          · exact .inl (List.mem_cons_of_mem _ hin)
          · exact .inr (.inl (by rw [List.getLast?_cons_cons, hlast]))
          · exact .inr (.inr hin)

/-- The text of an injected failure is in lower case. -/
theorem lower_injectedFailure (workerId : Nat) :
    (injectedFailure workerId).text.toList.flatMap lowerChar
      = "injected failure (worker ".toList ++ (Nat.toDigits 10 workerId ++ [')']) := by
  have htext : (injectedFailure workerId).text.toList
      = "injected failure (worker ".toList ++ (Nat.toDigits 10 workerId ++ [')']) := by
    show ("injected failure (worker " ++ toString workerId ++ ")").toList = _
    simp [String.toList_append, Nat.toString_eq_repr]
  have hdigits : (Nat.toDigits 10 workerId).flatMap lowerChar = Nat.toDigits 10 workerId := by
    rw [← List.flatMap_singleton' (Nat.toDigits 10 workerId)]
    conv_lhs => rw [List.flatMap_singleton']
    exact List.flatMap_congr (fun c hc => lowerChar_of_isDigit
      (Nat.isDigit_of_mem_toDigits (by norm_num) le_rfl hc))
  rw [htext, List.flatMap_append, List.flatMap_append, hdigits]
  rfl

/-- An injected failure says nothing about the engine: its text has no `m` and no `v`, and neither
    `cu` nor `nc`. -/
theorem injectedFailure_not_fatal (classes : ExcClasses) (workerId : Nat) :
    isEngineFatal classes (injectedFailure workerId) = false := by
  have hbehind : ∀ c ∈ Nat.toDigits 10 workerId ++ [')'], c ∉ ['c', 'm', 'n', 'v'] := by
    intro c hc
    rcases List.mem_append.1 hc with hc | hc
    · have hdigit := Nat.isDigit_of_mem_toDigits (by norm_num) le_rfl hc
      intro hin
      simp only [List.mem_cons, List.not_mem_nil, or_false] at hin
      rcases hin with rfl | rfl | rfl | rfl <;> revert hdigit <;> decide
    · rw [List.mem_singleton.1 hc]
      decide
  have hletter : ∀ c, c = 'm' ∨ c = 'v' →
      c ∉ (injectedFailure workerId).text.toList.flatMap lowerChar := by
    intro c hc hin
    rw [lower_injectedFailure] at hin
    rcases List.mem_append.1 hin with hin | hin
    · rcases hc with rfl | rfl <;> revert hin <;> decide
    · rcases hc with rfl | rfl <;> exact hbehind _ hin (by decide)
  have hpair : ∀ p : Char × Char, p = ('c', 'u') ∨ p = ('n', 'c') →
      ¬ [p.1, p.2] <:+: (injectedFailure workerId).text.toList.flatMap lowerChar := by
    intro p hp hin
    rw [lower_injectedFailure] at hin
    rcases mem_zip_tail_append (mem_zip_tail_of_within hin) with hin | hin | hin
    · rcases hp with rfl | rfl <;> revert hin <;> decide
    · rcases hp with rfl | rfl <;> revert hin <;> decide
    · rcases hp with rfl | rfl <;> exact hbehind _ hin (by decide)
  have hpatterns : ∀ pattern ∈ cudaErrorPatterns, ('m' ∈ pattern.toList ∨ 'v' ∈ pattern.toList) ∨
      ['c', 'u'] <+: pattern.toList ∨ ['n', 'c'] <+: pattern.toList := by decide
  unfold isEngineFatal
  split
  · rfl
  · rw [if_neg (by show ¬ (classes.mro "RuntimeError").any _ = true; rw [classes.mro_runtimeError]
                   decide)]
    refine List.any_eq_false.2 (fun pattern hpattern hin => ?_)
    have hinside := of_decide_eq_true hin
    rcases hpatterns pattern hpattern with (hm | hv) | hcu | hnc
    · exact hletter 'm' (.inl rfl) (hinside.subset hm)
    · exact hletter 'v' (.inr rfl) (hinside.subset hv)
    · exact hpair ('c', 'u') (.inl rfl) (hcu.isInfix.trans hinside)
    · exact hpair ('n', 'c') (.inr rfl) (hnc.isInfix.trans hinside)

/-! ## Rows -/

/-- What the process of a worker provides: the tables of Unicode, the seed of its `hash`, its
    scorer, its exception classes, and the attribute `triggered_by` of a hook. -/
structure Runtime (σ : Type) where
  unicode : UnicodeTables
  hashSeed : HashSeed
  scorer : RubricScorer := RubricScorer.init none
  classes : ExcClasses
  triggeredBy : σ → Option String

namespace Runtime

variable {σ : Type} (rt : Runtime σ)

def score (response : Str) (task : ScoredTask) : ℚ × List (String × ℚ) :=
  let scored := rt.scorer.score rt.unicode rt.hashSeed response task
  (scored.1, scored.2.entries)

/-- `_collect_hook_state`: the key is set anew by every hook that has triggered. -/
def collectHookState (hooks : List (InterventionHook σ)) : List (String × String) :=
  (hooks.foldl (fun state hook => match rt.triggeredBy hook.state with
    | some triggered => state.set "triggered_by" triggered
    | none => state) (Dict.empty : Dict String String)).entries

/-- The row of a task of a batch. -/
def batchRow (workerId : Nat) (batchLatency : ℚ) (size : Nat) (tokens : Nat) (task : ScoredTask)
    (response : Str) : EvalResult where
  taskId := task.taskId
  score := (rt.score response task).1
  response := String.ofList response
  latencySeconds := batchLatency / size
  batchLatencySeconds := some batchLatency
  workerId := workerId
  conditionScores := (rt.score response task).2
  tokensGenerated := tokens

/-- The row of a task evaluated with hooks. -/
def hookedRow (workerId : Nat) (elapsed : ℚ) (tokens : Nat) (stoppedEarly : Bool)
    (hooks : List (InterventionHook σ)) (task : ScoredTask) (response : Str) : EvalResult where
  taskId := task.taskId
  score := (rt.score response task).1
  response := String.ofList response
  latencySeconds := elapsed
  batchLatencySeconds := none
  hooked := true
  workerId := workerId
  conditionScores := (rt.score response task).2
  tokensGenerated := tokens
  stoppedEarly := stoppedEarly
  hookState := rt.collectHookState hooks

end Runtime

/-- `batch_latency / len(tasks)` of no tasks. -/
def zeroDivision : Exc := ⟨"ZeroDivisionError", "float division by zero"⟩

end EvalHarness
