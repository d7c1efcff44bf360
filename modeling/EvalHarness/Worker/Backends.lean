import EvalHarness.Scoring.Topic
import EvalHarness.Worker.Answers

set_option autoImplicit false

/-! # The contract of `EvalBackend`, and the backends that keep it

Whatever the pipeline, the clock and the decider do: a batch is answered with one row for each task,
in order, or it raises, and the counters of `get_stats` say how many tasks went each way. -/

namespace EvalHarness

open Text

/-! ## The contract -/

/-- `EvalBackend`: the three methods, over the states of a worker and what the outside does during a
    call. -/
structure EvalBackend (ω ρ : Type) where
  evaluateBatch : ω → ρ → List ScoredTask → Outcome × ω
  healthCheck : ω → Bool
  getStats : ω → WorkerStats

namespace EvalBackend

variable {ω ρ : Type} (b : EvalBackend ω ρ)

/-- A call that has been answered or has raised. -/
structure Called where
  tasks : List ScoredTask
  outcome : Outcome

/-- The calls of a worker, one after the other. -/
def call (s : ω) : List (ρ × List ScoredTask) → List Called × ω
  | [] => ([], s)
  | (r, tasks) :: calls =>
      let answer := b.evaluateBatch s r tasks
      let later := call answer.2 calls
      (⟨tasks, answer.1⟩ :: later.1, later.2)

/-- The number of tasks in the calls with a property. -/
def tasksIn (called : List Called) (p : Outcome → Bool) : Nat :=
  ((called.filter (fun c => p c.outcome)).map (fun c => c.tasks.length)).sum

/-- What one call is to do, where the outside behaves as it should. -/
structure Lawful (fair : ρ → List ScoredTask → Prop) : Prop where
  rows : ∀ s r tasks rows, fair r tasks → (b.evaluateBatch s r tasks).1 = .ok rows →
    rows.map EvalResult.taskId = tasks.map (fun task => task.taskId) ∧
    ∀ row ∈ rows, row.failed = false ∧ row.workerId = (b.getStats s).workerId
  completed : ∀ s r tasks, fair r tasks → (b.getStats s).poisoned = false →
    (b.getStats (b.evaluateBatch s r tasks).2).completed
      = (b.getStats s).completed + if (b.evaluateBatch s r tasks).1.failed then 0 else tasks.length
  failed : ∀ s r tasks, fair r tasks → (b.getStats s).poisoned = false →
    (b.getStats (b.evaluateBatch s r tasks).2).failed
      = (b.getStats s).failed + if (b.evaluateBatch s r tasks).1.failed then tasks.length else 0
  workerId : ∀ s r tasks,
    (b.getStats (b.evaluateBatch s r tasks).2).workerId = (b.getStats s).workerId
  healthy : ∀ s r tasks, (b.getStats s).poisoned = false →
    (b.getStats (b.evaluateBatch s r tasks).2).poisoned = false
  reported : ∀ s, b.healthCheck s = !(b.getStats s).poisoned

/-- What all calls together come to. -/
structure Accounts (s : ω) (called : List Called) (s' : ω) : Prop where
  rows : ∀ c ∈ called, ∀ rows, c.outcome = .ok rows →
    rows.map EvalResult.taskId = c.tasks.map (fun task => task.taskId) ∧
    ∀ row ∈ rows, row.failed = false ∧ row.workerId = (b.getStats s).workerId
  completed : (b.getStats s').completed
    = (b.getStats s).completed + tasksIn called (fun out => !out.failed)
  failed : (b.getStats s').failed = (b.getStats s).failed + tasksIn called Outcome.failed
  healthy : (b.getStats s').poisoned = false ∧ b.healthCheck s' = true

variable {b}

end EvalBackend

/-! ## The HF backend -/

/-- `_TimeoutCriterion`. -/
structure TimeoutCriterion where
  deadline : ℚ
  timedOut : Bool := false

/-- `__call__`, at a reading of the clock. -/
def TimeoutCriterion.call (c : TimeoutCriterion) (now : ℚ) : Bool × TimeoutCriterion :=
  if c.deadline ≤ now then (true, { c with timedOut := true }) else (false, c)

/-- `HFWorkerImpl`. -/
structure HFWorkerImpl where
  workerId : Nat
  modelName : String := "distilgpt2"
  taskTimeout : ℚ := 60
  tasksCompleted : Nat := 0
  tasksFailed : Nat := 0
  poisoned : Bool := false

/-- One run of the pipeline: the clock when it starts and at each step of the generation, how long
    it takes, and the generated texts or what it raises. -/
structure PipelineReply where
  start : ℚ
  clocks : List ℚ
  batchLatency : ℚ
  outputs : Except Exc (List Str)

namespace HFWorkerImpl

variable {σ : Type} (rt : Runtime σ) (str : ℚ → String)

def timeoutError (w : HFWorkerImpl) (size : Nat) : Exc where
  cls := "TimeoutError"
  text := s!"Worker {w.workerId}: batch of {size} exceeded {str w.taskTimeout}s; "
    ++ "partial outputs discarded"

/-- `evaluate_batch`. The rows count as completed one by one. -/
def evaluateBatch (w : HFWorkerImpl) (r : PipelineReply) (tasks : List ScoredTask) :
    Outcome × HFWorkerImpl :=
  if w.poisoned then
    (.error ⟨"RuntimeError",
      s!"Worker {w.workerId} is poisoned. Coordinator must replace worker."⟩, w)
  else
    let criterion : TimeoutCriterion := { deadline := r.start + w.taskTimeout }
    let criterion := r.clocks.foldl (fun c now => (c.call now).2) criterion
    match r.outputs with
    | .error exc => (.error exc, { w with tasksFailed := w.tasksFailed + tasks.length })
    | .ok rawOutputs =>
        if criterion.timedOut then
          (.error (timeoutError str w tasks.length),
            { w with tasksFailed := w.tasksFailed + tasks.length })
        else if tasks.isEmpty then (.error zeroDivision, w)
        else
          (.ok ((tasks.zip rawOutputs).map (fun answer =>
            rt.batchRow w.workerId r.batchLatency tasks.length 0 answer.1 answer.2)),
            { w with tasksCompleted := w.tasksCompleted + (tasks.zip rawOutputs).length })

def backend : EvalBackend HFWorkerImpl PipelineReply where
  evaluateBatch := evaluateBatch rt str
  healthCheck := fun w => !w.poisoned
  getStats := fun w =>
    { workerId := w.workerId, model := w.modelName, backend := "hf", completed := w.tasksCompleted,
      failed := w.tasksFailed, poisoned := w.poisoned }

end HFWorkerImpl

/-! ## Fault injection -/

/-- `FaultInjectingHFWorkerImpl`, around the backend it extends: the decider's answer comes first.
    `fail` counts failed tasks. -/
def EvalBackend.faultInjecting {ω ρ : Type} (b : EvalBackend ω ρ) (fail : ω → Nat → ω) :
    EvalBackend ω (Bool × ρ) where
  evaluateBatch := fun s r tasks =>
    if r.1 then (.error (injectedFailure (b.getStats s).workerId), fail s tasks.length)
    else b.evaluateBatch s r.2 tasks
  healthCheck := b.healthCheck
  getStats := b.getStats

/-- Injected failures keep the contract. -/
theorem EvalBackend.Lawful.faultInjecting {ω ρ : Type} {b : EvalBackend ω ρ}
    {fair : ρ → List ScoredTask → Prop} (h : b.Lawful fair) {fail : ω → Nat → ω}
    (hfail : ∀ s n, b.getStats (fail s n)
      = { b.getStats s with failed := (b.getStats s).failed + n }) :
    (b.faultInjecting fail).Lawful (fun r tasks => fair r.2 tasks) where
  rows := by
    rintro s ⟨fails, r⟩ tasks rows hfair hrows
    cases fails with
    | true => cases hrows
    | false => exact h.rows s r tasks rows hfair hrows
  completed := by
    rintro s ⟨fails, r⟩ tasks hfair hs
    cases fails with
    | true =>
        show (b.getStats (fail s tasks.length)).completed = _
        rw [hfail]
        rfl
    | false => exact h.completed s r tasks hfair hs
  failed := by
    rintro s ⟨fails, r⟩ tasks hfair hs
    cases fails with
    | true =>
        show (b.getStats (fail s tasks.length)).failed = _
        rw [hfail]
        rfl
    | false => exact h.failed s r tasks hfair hs
  workerId := by
    rintro s ⟨fails, r⟩ tasks
    cases fails with
    | true =>
        show (b.getStats (fail s tasks.length)).workerId = _
        rw [hfail]
        rfl
    | false => exact h.workerId s r tasks
  healthy := by
    rintro s ⟨fails, r⟩ tasks hs
    cases fails with
    | true =>
        show (b.getStats (fail s tasks.length)).poisoned = false
        rw [hfail]
        exact hs
    | false => exact h.healthy s r tasks hs
  reported := h.reported

/-- `self.tasks_failed += len(tasks)`. -/
def HFWorkerImpl.fail (w : HFWorkerImpl) (size : Nat) : HFWorkerImpl :=
  { w with tasksFailed := w.tasksFailed + size }

/-! ## The fake backend -/

/-- `FakeLatencyWorkerImpl`. -/
structure FakeLatencyWorkerImpl where
  workerId : Nat
  modelName : String := "fake-latency"
  latencyS : ℚ := 1 / 50
  jitter : ℚ := 1 / 10
  failureRate : ℚ := 0
  hasDecider : Bool := false
  tasksCompleted : Nat := 0
  tasksFailed : Nat := 0

/-- What the decider would answer, and the draw of `uniform(-1.0, 1.0)`. -/
structure FakeReply where
  fails : Bool
  draw : ℚ

namespace FakeLatencyWorkerImpl

def row (w : FakeLatencyWorkerImpl) (sleepS : ℚ) (size : Nat) (task : ScoredTask) : EvalResult where
  taskId := task.taskId
  score := 1
  response := "ok"
  latencySeconds := if size = 0 then 0 else sleepS / size
  batchLatencySeconds := some sleepS
  workerId := w.workerId
  tokensGenerated := 1

/-- `evaluate_batch`. -/
def evaluateBatch (w : FakeLatencyWorkerImpl) (r : FakeReply) (tasks : List ScoredTask) :
    Outcome × FakeLatencyWorkerImpl :=
  if 0 < w.failureRate ∧ w.hasDecider ∧ r.fails then
    (.error ⟨"RuntimeError", s!"injected failure (fake worker {w.workerId})"⟩,
      { w with tasksFailed := w.tasksFailed + tasks.length })
  else
    let sleepS := max 0 (w.latencyS * (1 + w.jitter * r.draw))
    (.ok (tasks.map (w.row sleepS tasks.length)),
      { w with tasksCompleted := w.tasksCompleted + tasks.length })

def backend : EvalBackend FakeLatencyWorkerImpl FakeReply where
  evaluateBatch := evaluateBatch
  healthCheck := fun _ => true
  getStats := fun w =>
    { workerId := w.workerId, model := w.modelName, backend := "fake-latency",
      completed := w.tasksCompleted, failed := w.tasksFailed, poisoned := false }

end FakeLatencyWorkerImpl

/-! ## All calls of a worker -/

end EvalHarness
