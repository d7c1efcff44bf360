import EvalHarness.Worker

set_option autoImplicit false

/-! # The vLLM worker as an async actor (`VLLMWorkerImpl`)

The worker is an async actor: several calls can be in progress at a time, and each gives way to the
others wherever it awaits. A call is therefore a small state machine of its own, and what the engine
does, a timeout and the return of an `abort` are things that happen to one call. A run takes them in
any order, over any number of calls.

The first steps of the coroutines that `gather` starts run one after the other with nothing in
between, so a new batch takes its request ids in one go. -/

namespace EvalHarness

open Text

/-- `output.outputs[0]`: the text so far and its tokens. -/
structure Completion where
  text : Str
  tokenIds : List Nat
deriving DecidableEq

/-- The engine, as the worker knows it: what it submitted and was given, whose streams ended and
    what it aborted, each in order. -/
structure Engine where
  submitted : List (String × Str) := []
  yielded : List (String × Completion) := []
  finished : List String := []
  aborted : List String := []

namespace Engine

/-- `generate`, for several requests. -/
def submit (e : Engine) (requests : List (String × Str)) : Engine :=
  { e with submitted := e.submitted ++ requests }

/-- A stream yields. -/
def yield (e : Engine) (requestId : String) (output : Completion) : Engine :=
  { e with yielded := e.yielded ++ [(requestId, output)] }

/-- A stream ends. -/
def finish (e : Engine) (requestId : String) : Engine :=
  { e with finished := e.finished ++ [requestId] }

/-- `abort`. -/
def abort (e : Engine) (requestId : String) : Engine :=
  { e with aborted := e.aborted ++ [requestId] }

end Engine

/-- `_run_one`, from its request on. -/
structure RunOne where
  requestId : String
  finalOutput : Option Completion := none
  ended : Bool := false

/-- What `_run_one` returns, once its stream has ended. -/
def RunOne.returns (r : RunOne) : Option Completion := if r.ended then r.finalOutput else none

/-- The loop of `evaluate_with_hooks`: its variables, and the callbacks that its hooks have got. -/
structure HookLoop (σ : Type) where
  hooks : List (InterventionHook σ)
  accumulated : Str := []
  tokenCount : Nat := 0
  delivered : List (Str × Str) := []

/-- One turn of the loop: whether some hook wants to stop. -/
def HookLoop.output {σ : Type} (l : HookLoop σ) (completion : Completion) : Bool × HookLoop σ :=
  let newText := completion.text.drop l.accumulated.length
  let heard := if newText.isEmpty then l.hooks else l.hooks.map (fun hook => { hook with
    state := hook.onDelta hook.state newText completion.text })
  let (stop, hooks) := HookCriterion.anyShouldStop completion.text heard
  (stop, { hooks
           accumulated := completion.text
           tokenCount := completion.tokenIds.length
           delivered := if newText.isEmpty then l.delivered
            else l.delivered ++ [(newText, completion.text)] })

/-- Where a call stands: in `gather`; in the loop over its stream; awaiting the `abort` of a hooked
    run that a hook has stopped; behind the loop; in the handler of an exception, with the requests
    it has still to abort; or at its end. -/
inductive CallPhase (σ : Type) where
  | gathering (runs : List RunOne)
  | looping (loop : HookLoop σ)
  | stopping (loop : HookLoop σ)
  | left (loop : HookLoop σ) (stoppedEarly : Bool)
  | failing (exc : Exc) (toAbort : List String)
  | returned (rows : List EvalResult)
  | raised (exc : Exc)

/-- A call of `evaluate_batch` or `evaluate_with_hooks`, with the requests it has submitted. -/
structure Call (σ : Type) where
  hooked : Bool := false
  tasks : List ScoredTask
  requestIds : List String
  phase : CallPhase σ

/-- The attributes of the worker that its methods change. -/
structure VLLMWorkerImpl where
  workerId : Nat
  tasksCompleted : Nat := 0
  tasksFailed : Nat := 0
  requestCounter : Nat := 0
  lastError : Option Exc := none

namespace VLLMWorkerImpl

/-- `_next_request_id`, when the counter stands at `n`. -/
def requestId (workerId n : Nat) : String := s!"w{workerId}-r{n + 1}"

/-- The next ids, one for each of some tasks. -/
def nextRequestIds (w : VLLMWorkerImpl) (size : Nat) : List String :=
  (List.range size).map (fun i => requestId w.workerId (w.requestCounter + i))

def takeRequestIds (w : VLLMWorkerImpl) (size : Nat) : VLLMWorkerImpl :=
  { w with requestCounter := w.requestCounter + size }

def failed (w : VLLMWorkerImpl) (size : Nat) : VLLMWorkerImpl :=
  { w with tasksFailed := w.tasksFailed + size }

/-- The engine proved itself: the flag is cleared. -/
def proved (w : VLLMWorkerImpl) : VLLMWorkerImpl := { w with lastError := none }

def completed (w : VLLMWorkerImpl) (size : Nat) : VLLMWorkerImpl :=
  { w with tasksCompleted := w.tasksCompleted + size }

/-- `_note_batch_failure`. -/
def noteBatchFailure (classes : ExcClasses) (w : VLLMWorkerImpl) (exc : Exc) : VLLMWorkerImpl :=
  if isEngineFatal classes exc then { w with lastError := some exc } else w

end VLLMWorkerImpl

/-- What happens to a call: a stream of it yields or ends; the engine, a hook or the timeout raises;
    an `abort` returns or raises; the call goes on to its end. -/
inductive Happening where
  | output (i : Nat) (completion : Completion)
  | finish (i : Nat)
  | raise (exc : Exc)
  | abort (fault : Option Exc)
  | conclude (elapsed : ℚ)

/-- The assertion at the end of `_run_one`. -/
def noOutput : Exc := ⟨"AssertionError", "engine produced no output"⟩

variable {σ : Type}

/-- What is left of `evaluate_batch` when `gather` has returned. -/
def VLLMWorkerImpl.answerBatch (rt : Runtime σ) (w : VLLMWorkerImpl) (tasks : List ScoredTask)
    (outputs : List Completion) (batchLatency : ℚ) : VLLMWorkerImpl × CallPhase σ :=
  if tasks.isEmpty then (w.proved, .raised zeroDivision)
  else (w.proved.completed (tasks.zip outputs).length,
    .returned ((tasks.zip outputs).map (fun answer => rt.batchRow w.workerId batchLatency
      tasks.length answer.2.tokenIds.length answer.1 answer.2.text)))

namespace Call

/-- One thing happens to a call; nothing where it cannot happen. -/
def advance (rt : Runtime σ) (w : VLLMWorkerImpl) (e : Engine) (call : Call σ) :
    Happening → Option (VLLMWorkerImpl × Engine × Call σ)
  | .output i completion => match call.phase with
    | .gathering runs =>
        match runs[i]? with
        | none => none
        | some run =>
            if run.ended then none
            else some (w, e.yield run.requestId completion,
              { call with phase := .gathering (runs.set i { run with finalOutput := completion }) })
    | .looping loop =>
        match call.requestIds with
        | [requestId] =>
            let (stop, loop) := loop.output completion
            some (w, e.yield requestId completion,
              { call with phase := if stop then .stopping loop else .looping loop })
        | _ => none
    | _ => none
  | .finish i => match call.phase with
    | .gathering runs =>
        match runs[i]? with
        | none => none
        | some run =>
            if run.ended then none
            else match run.finalOutput with
              | none => some (w, e.finish run.requestId,
                  { call with phase := .failing noOutput call.requestIds })
              | some _ => some (w, e.finish run.requestId,
                  { call with phase := .gathering (runs.set i { run with ended := true }) })
    | .looping loop =>
        match call.requestIds with
        | [requestId] => some (w, e.finish requestId, { call with phase := .left loop false })
        | _ => none
    | _ => none
  | .raise exc => match call.phase with
    | .gathering _ => some (w, e, { call with phase := .failing exc call.requestIds })
    | .looping _ => some (w.failed 1, e, { call with phase := .failing exc call.requestIds })
    | _ => none
  | .abort fault => match call.phase with
    | .stopping loop =>
        match call.requestIds, fault with
        | [requestId], none => some (w, e.abort requestId, { call with phase := .left loop true })
        | [requestId], some exc => some (w.failed 1, e.abort requestId,
            { call with phase := .failing exc call.requestIds })
        | _, _ => none
    | .failing exc (requestId :: toAbort) =>
        some (w, e.abort requestId, { call with phase := .failing exc toAbort })
    | _ => none
  | .conclude elapsed => match call.phase with
    | .gathering runs =>
        match runs.mapM RunOne.returns with
        | none => none
        | some outputs =>
            let (w, phase) := w.answerBatch rt call.tasks outputs elapsed
            some (w, e, { call with phase })
    | .left loop stoppedEarly =>
        some (w.proved.completed 1, e, { call with phase := .returned (call.tasks.map
          (fun task => rt.hookedRow w.workerId elapsed loop.tokenCount stoppedEarly loop.hooks task
            loop.accumulated)) })
    | .failing exc [] =>
        -- with hooks, the failure was counted before the abort
        some (
          (if call.hooked then w else w.failed call.tasks.length).noteBatchFailure rt.classes exc,
          e, { call with phase := .raised exc })
    | _ => none

/-- The steps of a call, by what it does: the inversion of `advance`. -/
inductive Advances (rt : Runtime σ) (w : VLLMWorkerImpl) (e : Engine) (call : Call σ) :
    VLLMWorkerImpl → Engine → Call σ → Prop where
  | yields (runs : List RunOne) (i : Nat) (run : RunOne) (completion : Completion)
      (hphase : call.phase = .gathering runs)
      (hrun : runs[i]? = some run) (hlive : run.ended = false) :
      Advances rt w e call w (e.yield run.requestId completion)
        { call with phase := .gathering (runs.set i { run with finalOutput := some completion }) }
  | ends (runs : List RunOne) (i : Nat) (run : RunOne) (hphase : call.phase = .gathering runs)
      (hrun : runs[i]? = some run)
      (hlive : run.ended = false) (hout : run.finalOutput.isSome) :
      Advances rt w e call w (e.finish run.requestId)
        { call with phase := .gathering (runs.set i { run with ended := true }) }
  | endsEmpty (runs : List RunOne) (i : Nat) (run : RunOne) (hphase : call.phase = .gathering runs)
      (hrun : runs[i]? = some run) :
      Advances rt w e call w (e.finish run.requestId)
        { call with phase := .failing noOutput call.requestIds }
  | breaks (runs : List RunOne) (exc : Exc) (hphase : call.phase = .gathering runs) :
      Advances rt w e call w e { call with phase := .failing exc call.requestIds }
  | hears (loop : HookLoop σ) (completion : Completion) (requestId : String)
      (hphase : call.phase = .looping loop)
      (hids : call.requestIds = [requestId]) :
      Advances rt w e call w (e.yield requestId completion)
        { call with phase := if (loop.output completion).1 then .stopping (loop.output completion).2
            else .looping (loop.output completion).2 }
  | runsOut (loop : HookLoop σ) (requestId : String) (hphase : call.phase = .looping loop)
      (hids : call.requestIds = [requestId]) :
      Advances rt w e call w (e.finish requestId) { call with phase := .left loop false }
  | breaksLoop (loop : HookLoop σ) (exc : Exc) (hphase : call.phase = .looping loop) :
      Advances rt w e call (w.failed 1) e
        { call with phase := .failing exc call.requestIds }
  | stops (loop : HookLoop σ) (requestId : String) (hphase : call.phase = .stopping loop)
      (hids : call.requestIds = [requestId]) :
      Advances rt w e call w (e.abort requestId) { call with phase := .left loop true }
  | failsToStop (loop : HookLoop σ) (requestId : String) (exc : Exc)
      (hphase : call.phase = .stopping loop)
      (hids : call.requestIds = [requestId]) :
      Advances rt w e call (w.failed 1) (e.abort requestId)
        { call with phase := .failing exc call.requestIds }
  | aborts (exc : Exc) (requestId : String) (toAbort : List String)
      (hphase : call.phase = .failing exc (requestId :: toAbort)) :
      Advances rt w e call w (e.abort requestId)
        { call with phase := .failing exc toAbort }
  | answers (runs : List RunOne) (outputs : List Completion) (elapsed : ℚ)
      (hphase : call.phase = .gathering runs)
      (houts : runs.mapM RunOne.returns = some outputs) :
      Advances rt w e call (w.answerBatch rt call.tasks outputs elapsed).1 e
        { call with phase := (w.answerBatch rt call.tasks outputs elapsed).2 }
  | answersHooked (loop : HookLoop σ) (stoppedEarly : Bool) (elapsed : ℚ)
      (hphase : call.phase = .left loop stoppedEarly) :
      Advances rt w e call (w.proved.completed 1) e
        { call with phase := .returned (call.tasks.map (fun task => rt.hookedRow w.workerId elapsed
            loop.tokenCount stoppedEarly loop.hooks task loop.accumulated)) }
  | givesUp (exc : Exc) (hphase : call.phase = .failing exc []) :
      Advances rt w e call
        ((if call.hooked then w else w.failed call.tasks.length).noteBatchFailure rt.classes exc) e
        { call with phase := .raised exc }

theorem advances_of_advance {rt : Runtime σ} {w w' : VLLMWorkerImpl} {e e' : Engine}
    {call call' : Call σ} {what : Happening}
    (h : call.advance rt w e what = some (w', e', call')) : Advances rt w e call w' e' call' := by
  cases what with
  | output i completion =>
      simp only [advance] at h
      split at h
      · next runs hphase =>
          split at h
          · cases h
          · next run hrun =>
              split at h
              · cases h
              · next hlive =>
                  cases h
                  exact .yields runs i run completion hphase hrun (by simpa using hlive)
      · next loop hphase =>
          split at h
          · next requestId hids =>
              cases h
              exact .hears loop completion requestId hphase hids
          · cases h
      · cases h
  | finish i =>
      simp only [advance] at h
      split at h
      · next runs hphase =>
          split at h
          · cases h
          · next run hrun =>
              split at h
              · cases h
              · next hlive =>
                  split at h
                  · cases h
                    exact .endsEmpty runs i run hphase hrun
                  · next hout =>
                      cases h
                      exact .ends runs i run hphase hrun (by simpa using hlive) (by rw [hout]; rfl)
      · next loop hphase =>
          split at h
          · next requestId hids =>
              cases h
              exact .runsOut loop requestId hphase hids
          · cases h
      · cases h
  | raise exc =>
      simp only [advance] at h
      split at h
      · next runs hphase =>
          cases h
          exact .breaks runs exc hphase
      · next loop hphase =>
          cases h
          exact .breaksLoop loop exc hphase
      · cases h
  | abort fault =>
      simp only [advance] at h
      split at h
      · next loop hphase =>
          split at h
          · next requestId hids =>
              cases h
              exact .stops loop requestId hphase hids
          · next requestId exc hids =>
              cases h
              exact .failsToStop loop requestId exc hphase hids
          · cases h
      · next exc requestId toAbort hphase =>
          cases h
          exact .aborts exc requestId toAbort hphase
      · cases h
  | conclude elapsed =>
      simp only [advance] at h
      split at h
      · next runs hphase =>
          split at h
          · cases h
          · next outputs houts =>
              cases h
              exact .answers runs outputs elapsed hphase houts
      · next loop stoppedEarly hphase =>
          cases h
          exact .answersHooked loop stoppedEarly elapsed hphase
      · next exc hphase =>
          cases h
          exact .givesUp exc hphase
      · cases h

/-- What the caller gets, once the call is over. -/
def outcome? (call : Call σ) : Option Outcome := match call.phase with
  | .returned rows => some (.ok rows)
  | .raised exc => some (.error exc)
  | _ => none

end Call

/-- The actor: the worker, its engine, the calls it has received, and what has become of them, in
    the order in which they ended. -/
structure VLLMActor (σ : Type) where
  worker : VLLMWorkerImpl
  engine : Engine := {}
  calls : List (Call σ) := []
  outcomes : List (Nat × Outcome) := []

/-- One step of the actor: a call comes in (to the fault-injecting worker, it may be failed at
    once), or something happens to a call in progress. -/
inductive ActorEvent (σ : Type) where
  | evaluateBatch (tasks : List ScoredTask)
  | injectFailure (tasks : List ScoredTask)
  | evaluateWithHooks (task : ScoredTask) (hooks : List (InterventionHook σ))
  | happen (k : Nat) (what : Happening)

/-- What the engine says about itself: its property `errored` (`false` where there is none), and its
    `check_health`, if it has one, which may raise or run out of time. -/
structure EngineHealth where
  errored : Except Exc Bool := .ok false
  checkHealth : Option (Except Exc Unit) := none

namespace VLLMActor

/-- A call that has just come in. -/
def receive (a : VLLMActor σ) (worker : VLLMWorkerImpl) (call : Call σ) : VLLMActor σ where
  worker := worker
  engine := a.engine.submit (call.requestIds.zip (call.tasks.map ScoredTask.prompt))
  calls := a.calls ++ [call]
  outcomes := a.outcomes ++ (call.outcome?.map (fun out => (a.calls.length, out))).toList

/-- After a step of a call. -/
def advanced (a : VLLMActor σ) (k : Nat) (worker : VLLMWorkerImpl) (engine : Engine)
    (call : Call σ) : VLLMActor σ where
  worker := worker
  engine := engine
  calls := a.calls.set k call
  outcomes := a.outcomes ++ (call.outcome?.map (fun out => (k, out))).toList

def newBatch (a : VLLMActor σ) (tasks : List ScoredTask) : Call σ :=
  let requestIds := a.worker.nextRequestIds tasks.length
  { tasks, requestIds, phase := .gathering (requestIds.map (fun requestId => { requestId })) }

def newHooked (a : VLLMActor σ) (task : ScoredTask) (hooks : List (InterventionHook σ)) : Call σ :=
  { hooked := true, tasks := [task], requestIds := a.worker.nextRequestIds 1
    phase := .looping { hooks } }

def newInjected (a : VLLMActor σ) (tasks : List ScoredTask) : Call σ :=
  { tasks, requestIds := [], phase := .raised (injectedFailure a.worker.workerId) }

def step (rt : Runtime σ) (a : VLLMActor σ) : ActorEvent σ → Option (VLLMActor σ)
  | .evaluateBatch tasks =>
      some (a.receive (a.worker.takeRequestIds tasks.length) (a.newBatch tasks))
  | .evaluateWithHooks task hooks =>
      some (a.receive (a.worker.takeRequestIds 1) (a.newHooked task hooks))
  | .injectFailure tasks => some (a.receive (a.worker.failed tasks.length) (a.newInjected tasks))
  | .happen k what => match a.calls[k]? with
    | none => none
    | some call => match call.advance rt a.worker a.engine what with
      | none => none
      | some (worker, engine, call) => some (a.advanced k worker engine call)

/-- A worker just constructed. -/
def fresh (workerId : Nat) : VLLMActor σ := { worker := { workerId } }

/-- The states of a worker in any run: whatever calls come in, and however what happens to them is
    interleaved. -/
inductive Reachable (rt : Runtime σ) (workerId : Nat) : VLLMActor σ → Prop where
  | fresh : Reachable rt workerId (fresh workerId)
  | step {a b : VLLMActor σ} (event : ActorEvent σ) (ha : Reachable rt workerId a)
      (hstep : a.step rt event = some b) : Reachable rt workerId b

/-- The actor after some steps, if they are all possible. -/
def run (rt : Runtime σ) (a : VLLMActor σ) : List (ActorEvent σ) → Option (VLLMActor σ)
  | [] => some a
  | event :: events => match a.step rt event with
    | none => none
    | some b => run rt b events

theorem Reachable.run {rt : Runtime σ} {workerId : Nat} {a b : VLLMActor σ}
    {events : List (ActorEvent σ)} (ha : Reachable rt workerId a) (h : a.run rt events = some b) :
    Reachable rt workerId b := by
  induction events generalizing a with
  | nil =>
      cases h
      exact ha
  | cons event events ih =>
      simp only [VLLMActor.run] at h
      split at h
      · cases h
      · next c hstep => exact ih (.step event ha hstep) h

/-- The calls that come in, with the worker after their first steps. -/
inductive Arrives (a : VLLMActor σ) : VLLMWorkerImpl → Call σ → Prop where
  | batch (tasks : List ScoredTask) :
      Arrives a (a.worker.takeRequestIds tasks.length) (a.newBatch tasks)
  | hooked (task : ScoredTask) (hooks : List (InterventionHook σ)) :
      Arrives a (a.worker.takeRequestIds 1) (a.newHooked task hooks)
  | injected (tasks : List ScoredTask) :
      Arrives a (a.worker.failed tasks.length) (a.newInjected tasks)

/-- The steps of the actor. -/
theorem step_cases {rt : Runtime σ} {a b : VLLMActor σ} {event : ActorEvent σ}
    (h : a.step rt event = some b) :
    (∃ worker call, Arrives a worker call ∧ b = a.receive worker call) ∨
    (∃ k call worker engine call', a.calls[k]? = some call ∧
      call.Advances rt a.worker a.engine worker engine call' ∧
      b = a.advanced k worker engine call') := by
  cases event with
  | evaluateBatch tasks => exact .inl ⟨_, _, .batch tasks, (Option.some.inj h).symm⟩
  | evaluateWithHooks task hooks => exact .inl ⟨_, _, .hooked task hooks, (Option.some.inj h).symm⟩
  | injectFailure tasks => exact .inl ⟨_, _, .injected tasks, (Option.some.inj h).symm⟩
  | happen k what =>
      simp only [step] at h
      split at h
      · cases h
      · next call hcall =>
          split at h
          · cases h
          · next worker engine call' hadvance =>
              exact .inr ⟨k, call, worker, engine, call', hcall,
                Call.advances_of_advance hadvance, (Option.some.inj h).symm⟩

/-- Rule of induction: what a fresh worker has, and every call that comes in and every step of a
    call keep, holds in every run. -/
theorem Reachable.invariant {rt : Runtime σ} {workerId : Nat} {I : VLLMActor σ → Prop}
    (hfresh : I (VLLMActor.fresh workerId))
    (harrive : ∀ a worker call, Reachable rt workerId a → I a → Arrives a worker call →
      I (a.receive worker call))
    (hadvance : ∀ a k call worker engine call', Reachable rt workerId a → I a →
      a.calls[k]? = some call → call.Advances rt a.worker a.engine worker engine call' →
      I (a.advanced k worker engine call'))
    {a : VLLMActor σ} (h : Reachable rt workerId a) : I a := by
  induction h with
  | fresh => exact hfresh
  | step event ha hstep ih =>
      rcases step_cases hstep with ⟨worker, call, harr, rfl⟩ |
        ⟨k, call, worker, engine, call', hcall,
        hadv, rfl⟩
      · exact harrive _ worker call ha ih harr
      · exact hadvance _ k call worker engine call' ha ih hcall hadv

/-- `health_check`: the flag, then the engine's own word. -/
def healthCheck (a : VLLMActor σ) (health : EngineHealth) : Bool :=
  if a.worker.lastError.isSome then false
  else match health.errored with
    | .error _ | .ok true => false
    | .ok false => match health.checkHealth with
      | none => true
      | some (.error _) => false
      | some (.ok ()) => true

/-- `get_stats`. -/
def getStats (modelName : String) (a : VLLMActor σ) : WorkerStats where
  workerId := a.worker.workerId
  model := modelName
  backend := "vllm"
  completed := a.worker.tasksCompleted
  failed := a.worker.tasksFailed
  poisoned := a.worker.lastError.isSome

end VLLMActor

end EvalHarness
