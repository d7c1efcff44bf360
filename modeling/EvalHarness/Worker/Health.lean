import EvalHarness.Worker.Answers

set_option autoImplicit false

/-! # What the vLLM worker says of itself

The counters of `get_stats` and the flag that `health_check` and `get_stats` report, against what
has become of the calls, in every run. -/

namespace EvalHarness

open Text

variable {σ : Type} {rt : Runtime σ} {workerId : Nat}

/-! ## Counters -/

namespace Call

/-- The tasks of a call that count as completed. -/
def completedTasks (call : Call σ) : Nat := match call.phase with
  | .returned _ => call.tasks.length
  | _ => 0

/-- The tasks of a call that count as failed: with hooks, as soon as the exception is caught;
    without them, when all requests have been aborted. -/
def failedTasks (call : Call σ) : Nat := match call.phase with
  | .failing _ _ => if call.hooked then call.tasks.length else 0
  | .raised _ => call.tasks.length
  | _ => 0

variable {w w' : VLLMWorkerImpl} {e e' : Engine} {call call' : Call σ}

@[simp] theorem noteBatchFailure_tasksCompleted (classes : ExcClasses) (w : VLLMWorkerImpl)
    (exc : Exc) : (w.noteBatchFailure classes exc).tasksCompleted = w.tasksCompleted := by
  unfold VLLMWorkerImpl.noteBatchFailure
  split <;> rfl

@[simp] theorem noteBatchFailure_tasksFailed (classes : ExcClasses) (w : VLLMWorkerImpl)
    (exc : Exc) : (w.noteBatchFailure classes exc).tasksFailed = w.tasksFailed := by
  unfold VLLMWorkerImpl.noteBatchFailure
  split <;> rfl

/-- What a step of a call adds to the counters is what it adds to the tasks that count. -/
theorem Advances.counts (h : call.Advances rt w e w' e' call') (hsound : call.Sound rt workerId e) :
    w'.tasksCompleted + call.completedTasks = w.tasksCompleted + call'.completedTasks ∧
    w'.tasksFailed + call.failedTasks = w.tasksFailed + call'.failedTasks := by
  cases h with
  | yields runs i run completion hphase hi hlive => simp [completedTasks, failedTasks, hphase]
  | ends runs i run hphase hi hlive hout => simp [completedTasks, failedTasks, hphase]
  | endsEmpty runs i run hphase hi =>
      simp only [Sound, hphase] at hsound
      simp [completedTasks, failedTasks, hphase, hsound.1]
  | breaks runs exc hphase =>
      simp only [Sound, hphase] at hsound
      simp [completedTasks, failedTasks, hphase, hsound.1]
  | hears loop completion requestId hphase hids =>
      cases hstop : (loop.output completion).1 <;> simp [completedTasks, failedTasks, hphase]
  | runsOut loop requestId hphase hids => simp [completedTasks, failedTasks, hphase]
  | breaksLoop loop exc hphase =>
      simp only [Sound, hphase] at hsound
      obtain ⟨⟨hhooked, hone, -⟩, -⟩ := hsound
      simp [completedTasks, failedTasks, hphase, hhooked, hone, VLLMWorkerImpl.failed]
  | stops loop requestId hphase hids => simp [completedTasks, failedTasks, hphase]
  | failsToStop loop requestId exc hphase hids =>
      simp only [Sound, hphase] at hsound
      obtain ⟨⟨hhooked, hone, -⟩, -⟩ := hsound
      simp [completedTasks, failedTasks, hphase, hhooked, hone, VLLMWorkerImpl.failed]
  | aborts exc requestId toAbort hphase => simp [completedTasks, failedTasks, hphase]
  | answers runs outputs elapsed hphase houts =>
      simp only [Sound, hphase] at hsound
      obtain ⟨-, hlen, hids, -⟩ := hsound
      have hcount : outputs.length = call.tasks.length := by
        rw [(mapM_returns houts).1, ← hlen, ← hids, List.length_map]
      unfold VLLMWorkerImpl.answerBatch
      split
      · next hempty =>
          simp [completedTasks, failedTasks, hphase, List.isEmpty_iff.1 hempty,
            VLLMWorkerImpl.proved]
      · simp [completedTasks, failedTasks, hphase, hcount, VLLMWorkerImpl.proved,
          VLLMWorkerImpl.completed]
  | answersHooked loop stoppedEarly elapsed hphase =>
      simp only [Sound, hphase] at hsound
      obtain ⟨⟨-, hone, -⟩, -⟩ := hsound
      simp [completedTasks, failedTasks, hphase, hone, VLLMWorkerImpl.proved,
        VLLMWorkerImpl.completed]
  | givesUp exc hphase =>
      simp only [Sound, hphase] at hsound
      cases hhooked : call.hooked <;>
        simp [completedTasks, failedTasks, hphase, hhooked, VLLMWorkerImpl.failed]

theorem counted_of_ended {call : Call σ} (h : call.outcome?.isSome) :
    call.completedTasks + call.failedTasks = call.tasks.length := by
  unfold outcome? at h
  split at h
  · next rows hphase => simp [completedTasks, failedTasks, hphase]
  · next exc hphase => simp [completedTasks, failedTasks, hphase]
  · cases h

end Call

namespace VLLMActor

/-- The counters follow the calls. -/
structure Counted (a : VLLMActor σ) : Prop where
  completed : a.worker.tasksCompleted = (a.calls.map Call.completedTasks).sum
  failed : a.worker.tasksFailed = (a.calls.map Call.failedTasks).sum

theorem Arrives.counts {a : VLLMActor σ} {worker : VLLMWorkerImpl} {call : Call σ}
    (h : Arrives a worker call) :
    worker.tasksCompleted = a.worker.tasksCompleted + call.completedTasks ∧
      worker.tasksFailed = a.worker.tasksFailed + call.failedTasks := by
  cases h with
  | batch tasks => exact ⟨rfl, rfl⟩
  | hooked task hooks => exact ⟨rfl, rfl⟩
  | injected tasks => exact ⟨rfl, rfl⟩

theorem Reachable.counted {a : VLLMActor σ} (h : Reachable rt workerId a) : Counted a := by
  refine h.invariant ⟨rfl, rfl⟩ (fun a worker call _ hI harr => ?_)
    (fun a k call worker engine call' hr hI hcall hadv => ?_)
  · obtain ⟨hcompleted, hfailed⟩ := harr.counts
    constructor
    · simp [VLLMActor.receive, hcompleted, hI.completed]
    · simp [VLLMActor.receive, hfailed, hI.failed]
  · obtain ⟨hcompleted, hfailed⟩ := hadv.counts (hr.coherent.sound k call hcall)
    have hsumCompleted := Sessions.sum_map_set Call.completedTasks hcall call'
    have hsumFailed := Sessions.sum_map_set Call.failedTasks hcall call'
    have hcompletedBefore := hI.completed
    have hfailedBefore := hI.failed
    constructor
    · show worker.tasksCompleted = ((a.calls.set k call').map Call.completedTasks).sum
      omega
    · show worker.tasksFailed = ((a.calls.set k call').map Call.failedTasks).sum
      omega

/-- The counters of `get_stats`, at every moment of a run: the tasks of the calls that returned, and
    those of the calls that raised or (with hooks) are about to. Once no call is in progress, they
    add up to all tasks that were handed in. -/
theorem counters_exact {a : VLLMActor σ} (h : Reachable rt workerId a) (modelName : String) :
    (a.getStats modelName).completed = (a.calls.map Call.completedTasks).sum ∧
    (a.getStats modelName).failed = (a.calls.map Call.failedTasks).sum ∧
    ((∀ call ∈ a.calls, call.outcome?.isSome) →
      (a.getStats modelName).completed + (a.getStats modelName).failed
        = (a.calls.map (fun call => call.tasks.length)).sum) := by
  have hcounted := h.counted
  refine ⟨hcounted.completed, hcounted.failed, fun hended => ?_⟩
  show a.worker.tasksCompleted + a.worker.tasksFailed = _
  rw [hcounted.completed, hcounted.failed, ← List.sum_map_add]
  exact congrArg List.sum
    (List.map_congr_left (fun call hcall => Call.counted_of_ended (hended call hcall)))

theorem counters_exact_small : ∃ a : VLLMActor Unit,
    a.calls.map Call.tasks = [[smallTask "a", smallTask "b"], [smallTask "c"]] ∧
    (a.getStats "m").completed + (a.getStats "m").failed
      = (a.calls.map (fun call => call.tasks.length)).sum := by
  obtain ⟨a, ha, -, -, htasks, -, -, hended⟩ := reachable_small
  exact ⟨a, htasks, (counters_exact ha "m").2.2 hended⟩

end VLLMActor

/-! ## The flag -/

/-- What the end of a call makes of the flag: an engine-fatal failure raises it, an answer clears
    it, and any other failure leaves it as it is. -/
def setsFlag (classes : ExcClasses) (ended : Nat × Outcome) : Option (Option Exc) :=
  match ended.2 with
  | .ok _ => some none
  | .error exc => if isEngineFatal classes exc then some (some exc) else none

/-- The flag after some calls have ended. -/
def flagOf (classes : ExcClasses) (outcomes : List (Nat × Outcome)) : Option Exc :=
  outcomes.foldl (fun flag ended => (setsFlag classes ended).getD flag) none

/-- The flag after a step, by whether it has ended a call. -/
def flagAfter (classes : ExcClasses) (flag : Option Exc) (outcome : Option Outcome) : Option Exc :=
  match outcome with
  | none => flag
  | some (.ok _) => none
  | some (.error exc) => if isEngineFatal classes exc then some exc else flag

theorem flagOf_append (classes : ExcClasses) (outcomes : List (Nat × Outcome)) (k : Nat)
    (outcome : Option Outcome) :
    flagOf classes (outcomes ++ (outcome.map (fun out => (k, out))).toList)
      = flagAfter classes (flagOf classes outcomes) outcome := by
  match outcome with
  | none => simp [flagAfter]
  | some (.ok rows) => simp [flagOf, flagAfter, setsFlag]
  | some (.error exc) =>
      simp only [flagOf, flagAfter, Option.map_some, Option.toList_some, List.foldl_append,
        List.foldl_cons, List.foldl_nil, setsFlag]
      split <;> rfl

theorem Call.Advances.flag {w w' : VLLMWorkerImpl} {e e' : Engine} {call call' : Call σ}
    (h : call.Advances rt w e w' e' call') (htasks : call.tasks ≠ []) :
    w'.lastError = flagAfter rt.classes w.lastError call'.outcome? := by
  cases h with
  | hears loop completion requestId hphase hids =>
      cases hstop : (loop.output completion).1 <;> rfl
  | answers runs outputs elapsed hphase houts =>
      have hsome : call.tasks.isEmpty = false := by simpa using htasks
      simp [VLLMWorkerImpl.answerBatch, hsome, Call.outcome?, flagAfter, VLLMWorkerImpl.proved,
        VLLMWorkerImpl.completed]
  | givesUp exc hphase =>
      show (VLLMWorkerImpl.noteBatchFailure rt.classes _ exc).lastError
        = if isEngineFatal rt.classes exc then some exc else w.lastError
      unfold VLLMWorkerImpl.noteBatchFailure
      split
      · rfl
      · cases call.hooked <;> rfl
  | _ => rfl

namespace VLLMActor

theorem Arrives.flag {a : VLLMActor σ} {worker : VLLMWorkerImpl} {call : Call σ}
    (h : Arrives a worker call) (classes : ExcClasses) :
    worker.lastError = flagAfter classes a.worker.lastError call.outcome? := by
  cases h with
  | batch tasks => rfl
  | hooked task hooks => rfl
  | injected tasks =>
      show a.worker.lastError = if isEngineFatal classes (injectedFailure a.worker.workerId) then _
        else _
      rw [injectedFailure_not_fatal]
      rfl

/-- The flag follows the ends of the calls, if no batch is empty. -/
theorem Reachable.lastError_eq {a : VLLMActor σ} (h : Reachable rt workerId a)
    (hbatches : ∀ call ∈ a.calls, call.tasks ≠ []) :
    a.worker.lastError = flagOf rt.classes a.outcomes := by
  refine h.invariant (I := fun a => (∀ call ∈ a.calls, call.tasks ≠ []) →
    a.worker.lastError = flagOf rt.classes a.outcomes) (fun _ => rfl)
    (fun a worker call _ hI harr hne => ?_)
    (fun a k call worker engine call' hr hI hcall hadv hne => ?_) hbatches
  · have hbefore := hI (fun c hc => hne c (List.mem_append_left _ hc))
    show worker.lastError = flagOf rt.classes (a.outcomes ++ _)
    rw [flagOf_append, ← hbefore]
    exact harr.flag rt.classes
  · have htasks : call'.tasks ≠ [] := hne call' (List.mem_of_getElem?
      (List.getElem?_set_self (List.getElem?_eq_some_iff.1 hcall).1))
    rw [hadv.keeps.tasks] at htasks
    have hold : ∀ c ∈ a.calls, c.tasks ≠ [] := by
      intro c hc
      obtain ⟨j, hj⟩ := List.getElem?_of_mem hc
      by_cases hjk : k = j
      · subst hjk
        rw [hcall, Option.some.injEq] at hj
        exact hj ▸ htasks
      · exact hne c (List.mem_of_getElem? ((List.getElem?_set_ne hjk).trans hj))
    show worker.lastError = flagOf rt.classes (a.outcomes ++ _)
    rw [flagOf_append, ← hI hold]
    exact hadv.flag htasks

/-- The worker reports itself unhealthy, and `get_stats` reports it poisoned, exactly while an
    engine-fatal failure stands: some call has ended with one, and since then every call that ended
    has failed too, for reasons that are not the engine's. A timeout or an injected failure neither
    raises the flag nor clears it. -/
theorem unhealthy_iff {a : VLLMActor σ} (h : Reachable rt workerId a)
    (hbatches : ∀ call ∈ a.calls, call.tasks ≠ []) (modelName : String) :
    (a.healthCheck {} = !(a.getStats modelName).poisoned) ∧
    ((a.getStats modelName).poisoned = true ↔ ∃ before k exc after,
      a.outcomes = before ++ (k, .error exc) :: after ∧ isEngineFatal rt.classes exc = true ∧
      ∀ ended ∈ after, ∃ exc', ended.2 = .error exc' ∧ isEngineFatal rt.classes exc' = false) := by
  constructor
  · show (if a.worker.lastError.isSome then false else true) = !a.worker.lastError.isSome
    cases a.worker.lastError.isSome <;> rfl
  · have hnotSet : ∀ ended : Nat × Outcome, setsFlag rt.classes ended = none ↔
        ∃ exc, ended.2 = .error exc ∧ isEngineFatal rt.classes exc = false := by
      rintro ⟨k, exc | rows⟩ <;> simp [setsFlag]
    have hsets : ∀ (k : Nat) (out : Outcome) (exc : Exc),
        setsFlag rt.classes (k, out) = some (some exc) →
        out = .error exc ∧ isEngineFatal rt.classes exc = true := by
      rintro k (exc | rows) exc' hset
      · simp only [setsFlag] at hset
        split at hset
        · next hfatal =>
            cases hset
            exact ⟨rfl, hfatal⟩
        · cases hset
      · cases hset
    show a.worker.lastError.isSome = true ↔ _
    rw [h.lastError_eq hbatches, Option.isSome_iff_exists]
    constructor
    · rintro ⟨exc, hflag⟩
      rcases (Sessions.foldl_latest (setsFlag rt.classes) none a.outcomes (some exc)).1 hflag with
        ⟨before, ⟨k, out⟩, after, hsplit, hset, hafter⟩ | ⟨-, hnone⟩
      · obtain ⟨rfl, hfatal⟩ := hsets k out exc hset
        exact ⟨before, k, exc, after, hsplit, hfatal,
          fun ended hin => (hnotSet ended).1 (hafter ended hin)⟩
      · cases hnone
    · rintro ⟨before, k, exc, after, hsplit, hfatal, hafter⟩
      refine ⟨exc, (Sessions.foldl_latest (setsFlag rt.classes) none a.outcomes (some exc)).2
        (.inl ⟨before, (k, .error exc), after, hsplit, ?_, fun ended hin => ?_⟩)⟩
      · simp [setsFlag, hfatal]
      · exact (hnotSet ended).2 (hafter ended hin)

theorem unhealthy_iff_small : ∃ a : VLLMActor Unit,
    (a.getStats "m").poisoned = true ∧ a.healthCheck {} = false := by
  obtain ⟨a, ha, hout, -, htasks, -⟩ := reachable_small
  have hbatches : ∀ call ∈ a.calls, call.tasks ≠ [] := by
    intro call hcall
    have hin := List.mem_map_of_mem (f := Call.tasks) hcall
    rw [htasks] at hin
    intro hempty
    simp [hempty] at hin
  obtain ⟨hhealth, hpoisoned⟩ := unhealthy_iff ha hbatches "m"
  have hflag : (a.getStats "m").poisoned = true := hpoisoned.2
    ⟨[(0, .ok smallRows)], 1, ⟨"EngineDeadError", "engine died"⟩, [], hout, by decide, by simp⟩
  exact ⟨a, hflag, by rw [hhealth, hflag]; rfl⟩

end VLLMActor

end EvalHarness
