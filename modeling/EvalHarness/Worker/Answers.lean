import EvalHarness.Scoring.Topic
import EvalHarness.Worker.Requests

set_option autoImplicit false

/-! # What the vLLM worker answers

In every run, with any number of calls in progress and their steps interleaved in any way: a call
gets the outputs of its own requests and nothing else, it ends at most once, and nothing it has
asked of the engine is still running when it has ended. -/

namespace EvalHarness

open Text

variable {σ : Type} {rt : Runtime σ} {workerId : Nat}

/-! ## What a step leaves alone -/

namespace Call

variable {w w' : VLLMWorkerImpl} {e e' : Engine} {call call' : Call σ}

/-- A step of a call changes neither what was asked of it nor what is asked of the engine, and it is
    a step of a call that has not ended. -/
structure Advances.Keeps (w : VLLMWorkerImpl) (e : Engine) (call : Call σ) (w' : VLLMWorkerImpl)
    (e' : Engine) (call' : Call σ) : Prop where
  hooked : call'.hooked = call.hooked
  tasks : call'.tasks = call.tasks
  requestIds : call'.requestIds = call.requestIds
  workerId : w'.workerId = w.workerId
  requestCounter : w'.requestCounter = w.requestCounter
  submitted : e'.submitted = e.submitted
  unfinished : call.outcome? = none

theorem noteBatchFailure_workerId (classes : ExcClasses) (w : VLLMWorkerImpl) (exc : Exc) :
    (w.noteBatchFailure classes exc).workerId = w.workerId := by
  unfold VLLMWorkerImpl.noteBatchFailure
  split <;> rfl

theorem noteBatchFailure_requestCounter (classes : ExcClasses) (w : VLLMWorkerImpl) (exc : Exc) :
    (w.noteBatchFailure classes exc).requestCounter = w.requestCounter := by
  unfold VLLMWorkerImpl.noteBatchFailure
  split <;> rfl

theorem Advances.keeps (h : call.Advances rt w e w' e' call') :
    Advances.Keeps w e call w' e' call' := by
  cases h with
  | answers runs outputs elapsed hphase houts =>
      refine ⟨rfl, rfl, rfl, ?_, ?_, rfl, by simp [outcome?, hphase]⟩
      · unfold VLLMWorkerImpl.answerBatch
        split <;> rfl
      · unfold VLLMWorkerImpl.answerBatch
        split <;> rfl
  | givesUp exc hphase =>
      refine ⟨rfl, rfl, rfl, ?_, ?_, rfl, by simp [outcome?, hphase]⟩
      · rw [noteBatchFailure_workerId]
        split <;> rfl
      · rw [noteBatchFailure_requestCounter]
        split <;> rfl
  | _ => exact ⟨rfl, rfl, rfl, rfl, rfl, rfl, by simp [outcome?, *]⟩

/-- A step of a call touches its own requests only. -/
theorem Advances.other (h : call.Advances rt w e w' e' call') (hsound : call.Sound rt workerId e)
    {rid : String} (hrid : rid ∉ call.requestIds) : e'.view rid = e.view rid := by
  have hrun : ∀ {runs : List RunOne} {i : Nat} {run : RunOne}, call.phase = .gathering runs →
      runs[i]? = some run → rid ≠ run.requestId := by
    rintro runs i run hphase hi rfl
    simp only [Sound, hphase] at hsound
    rw [← hsound.2.2.1] at hrid
    exact hrid (List.mem_map_of_mem (List.mem_of_getElem? hi))
  have hsingle : ∀ {requestId : String}, call.requestIds = [requestId] → rid ≠ requestId := by
    rintro requestId hids rfl
    exact hrid (by rw [hids]; exact List.mem_singleton_self _)
  cases h with
  | yields runs i run completion hphase hi _ => exact e.view_yield (hrun hphase hi) completion
  | ends runs i run hphase hi _ _ => exact e.view_finish (hrun hphase hi)
  | endsEmpty runs i run hphase hi => exact e.view_finish (hrun hphase hi)
  | hears loop completion requestId _ hids => exact e.view_yield (hsingle hids) completion
  | runsOut loop requestId _ hids => exact e.view_finish (hsingle hids)
  | stops loop requestId _ hids => exact e.view_abort (hsingle hids)
  | failsToStop loop requestId exc _ hids => exact e.view_abort (hsingle hids)
  | aborts exc requestId toAbort hphase =>
      refine e.view_abort ?_
      rintro rfl
      simp only [Sound, hphase] at hsound
      obtain ⟨-, done, hids, -⟩ := hsound
      exact hrid (by rw [hids]; simp)
  | _ => rfl

end Call

/-! ## The actor -/

namespace VLLMActor

/-- The ids of all requests, call by call. -/
def requestIds (a : VLLMActor σ) : List String := (a.calls.map Call.requestIds).flatten

/-- The requests of a call, as it submits them. -/
def requestsOf (call : Call σ) : List (String × Str) :=
  call.requestIds.zip (call.tasks.map ScoredTask.prompt)

/-- What holds in every state of the actor. -/
structure Coherent (rt : Runtime σ) (workerId : Nat) (a : VLLMActor σ) : Prop where
  ofWorker : a.worker.workerId = workerId
  numbered : a.requestIds
    = (List.range a.worker.requestCounter).map (VLLMWorkerImpl.requestId workerId)
  submitted : a.engine.submitted = (a.calls.map requestsOf).flatten
  fits : ∀ call ∈ a.calls, call.requestIds.length ≤ call.tasks.length
  unknown : ∀ rid, rid ∉ a.requestIds → a.engine.view rid = (none, false, 0)
  sound : ∀ (k : Nat) (call : Call σ), a.calls[k]? = some call → call.Sound rt workerId a.engine
  ended : ∀ k out, (k, out) ∈ a.outcomes ↔
    ∃ call, a.calls[k]? = some call ∧ call.outcome? = some out
  once : (a.outcomes.map Prod.fst).Nodup

theorem Coherent.nodup {a : VLLMActor σ} (h : Coherent rt workerId a) : a.requestIds.Nodup := by
  rw [h.numbered]
  exact nodup_requestIds _ _

theorem Coherent.requestIds_nodup {a : VLLMActor σ} (h : Coherent rt workerId a) {k : Nat}
    {call : Call σ} (hcall : a.calls[k]? = some call) : call.requestIds.Nodup :=
  (List.nodup_flatten.1 h.nodup).1 _ (List.mem_map_of_mem (List.mem_of_getElem? hcall))

theorem coherent_fresh : Coherent rt workerId (VLLMActor.fresh (σ := σ) workerId) where
  ofWorker := rfl
  numbered := rfl
  submitted := rfl
  fits := fun call h => absurd h List.not_mem_nil
  unknown := fun _ _ => rfl
  sound := fun k call h => by simp [fresh] at h
  ended := fun k out => by simp [fresh]
  once := List.nodup_nil

/-- A call that comes in takes the next request ids. -/
theorem Arrives.takes {a : VLLMActor σ} {worker : VLLMWorkerImpl} {call : Call σ}
    (h : Arrives a worker call) : worker.workerId = a.worker.workerId ∧
      call.requestIds = a.worker.nextRequestIds call.requestIds.length ∧
      worker.requestCounter = a.worker.requestCounter + call.requestIds.length := by
  cases h with
  | batch tasks => simp [newBatch, VLLMWorkerImpl.takeRequestIds, VLLMWorkerImpl.nextRequestIds]
  | hooked task hooks =>
      simp [newHooked, VLLMWorkerImpl.takeRequestIds, VLLMWorkerImpl.nextRequestIds]
  | injected tasks => simp [newInjected, VLLMWorkerImpl.failed, VLLMWorkerImpl.nextRequestIds]

theorem Arrives.fits {a : VLLMActor σ} {worker : VLLMWorkerImpl} {call : Call σ}
    (h : Arrives a worker call) : call.requestIds.length ≤ call.tasks.length := by
  cases h with
  | batch tasks => simp [newBatch, VLLMWorkerImpl.nextRequestIds]
  | hooked task hooks => simp [newHooked, VLLMWorkerImpl.nextRequestIds]
  | injected tasks => simp [newInjected]

/-- It knows nothing of its requests yet. -/
theorem Arrives.sound {a : VLLMActor σ} {worker : VLLMWorkerImpl} {call : Call σ}
    (h : Arrives a worker call) {e : Engine}
    (hview : ∀ rid ∈ call.requestIds, e.view rid = (none, false, 0)) :
    call.Sound rt workerId e := by
  have hblank : ∀ rid ∈ call.requestIds, e.lastOutput rid = none ∧ e.aborts rid = 0 := by
    intro rid hrid
    have := hview rid hrid
    simp only [Engine.view, Prod.mk.injEq] at this
    exact ⟨this.1, this.2.2⟩
  cases h with
  | batch tasks =>
      refine ⟨rfl, by simp [newBatch, VLLMWorkerImpl.nextRequestIds], ?_, ?_⟩
      · simp [newBatch, Function.comp_def]
      · intro i run hrun
        simp only [List.getElem?_map, Option.map_eq_some_iff] at hrun
        obtain ⟨rid, hrid, rfl⟩ := hrun
        obtain ⟨hlast, huntouched⟩ := hblank rid (List.mem_of_getElem? hrid)
        exact ⟨hlast.symm, (fun hended => by cases hended), huntouched⟩
  | hooked task hooks =>
      refine ⟨⟨rfl, rfl, by simp [newHooked, VLLMWorkerImpl.nextRequestIds]⟩, fun rid hrid => ?_⟩
      obtain ⟨hlast, huntouched⟩ := hblank rid hrid
      have hanswer : e.answer rid = ⟨[], []⟩ := by rw [Engine.answer, hlast]; rfl
      exact ⟨⟨by rw [hanswer], by rw [hanswer]; rfl⟩, huntouched⟩
  | injected tasks => exact fun rid hrid => absurd hrid List.not_mem_nil

theorem Coherent.receive {a : VLLMActor σ} {worker : VLLMWorkerImpl} {call : Call σ}
    (h : Coherent rt workerId a) (harr : Arrives a worker call) :
    Coherent rt workerId (a.receive worker call) := by
  obtain ⟨hworker, hids, hcounter⟩ := harr.takes
  have hnext : call.requestIds = (List.range call.requestIds.length).map
      (fun i => VLLMWorkerImpl.requestId workerId (a.worker.requestCounter + i)) := by
    conv_lhs => rw [hids]
    rw [VLLMWorkerImpl.nextRequestIds, h.ofWorker]
  have hall : (a.receive worker call).requestIds = a.requestIds ++ call.requestIds := by
    simp [requestIds, VLLMActor.receive]
  have hnew : ∀ rid ∈ call.requestIds, a.engine.view rid = (none, false, 0) := by
    intro rid hrid
    refine h.unknown rid (fun hold => ?_)
    rw [hnext] at hrid
    obtain ⟨i, -, rfl⟩ := List.mem_map.1 hrid
    rw [h.numbered] at hold
    obtain ⟨n, hn, heq⟩ := List.mem_map.1 hold
    have hlt := List.mem_range.1 hn
    have := (requestId_injective heq).2
    omega
  refine {
    ofWorker := hworker.trans h.ofWorker
    numbered := ?_
    submitted := ?_
    fits := fun c hc => ?_
    unknown := fun rid hrid => h.unknown rid (fun hin => hrid (hall ▸ List.mem_append_left _ hin))
    sound := Sessions.forall_append Call.requestIds Engine.view (Call.Sound rt workerId)
      (fun e e' c hview hc => hc.frame hview) (e := a.engine) (fun _ => rfl) h.sound
      (harr.sound hnew)
    ended := fun k out => ?_
    once := ?_ }
  · rw [hall, h.numbered]
    show _ = (List.range worker.requestCounter).map _
    rw [hcounter, List.range_add, List.map_append, List.map_map]
    exact congrArg _ hnext
  · show a.engine.submitted ++ _ = _
    simp [h.submitted, VLLMActor.receive, requestsOf]
  · rcases List.mem_append.1 hc with hc | hc
    · exact h.fits c hc
    · rw [List.mem_singleton.1 hc]
      exact harr.fits
  · simp only [VLLMActor.receive, List.mem_append, h.ended, Option.mem_toList,
      Option.map_eq_some_iff,
      Prod.mk.injEq]
    constructor
    · rintro (⟨c, hc, hout⟩ | ⟨out, hout, rfl, rfl⟩)
      · exact ⟨c, by rw [List.getElem?_append_left (List.getElem?_eq_some_iff.1 hc).1, hc], hout⟩
      · exact ⟨call, List.getElem?_concat_length, hout⟩
    · rintro ⟨c, hc, hout⟩
      rcases Nat.lt_or_ge k a.calls.length with hlt | hge
      · rw [List.getElem?_append_left hlt] at hc
        exact .inl ⟨c, hc, hout⟩
      · rw [List.getElem?_append_right hge, List.getElem?_singleton] at hc
        split at hc
        · next hk =>
            cases hc
            exact .inr ⟨out, hout, by omega, rfl⟩
        · cases hc
  · show ((a.outcomes ++ (call.outcome?.map (fun out => (a.calls.length, out))).toList).map
      Prod.fst).Nodup
    rw [List.map_append, List.nodup_append]
    refine ⟨h.once, ?_, fun k hk k' hk' => ?_⟩
    · cases call.outcome? <;> simp
    · obtain ⟨⟨k, out⟩, hin, rfl⟩ := List.mem_map.1 hk
      obtain ⟨c, hc, -⟩ := (h.ended k out).1 hin
      have hlt := (List.getElem?_eq_some_iff.1 hc).1
      have hlast : k' = a.calls.length := by
        cases hcall : call.outcome? with
        | none => simp [hcall] at hk'
        | some out => simpa [hcall] using hk'
      show k ≠ k'
      omega

theorem Coherent.advanced {a : VLLMActor σ} {k : Nat} {call call' : Call σ}
    {worker : VLLMWorkerImpl} {engine : Engine} (h : Coherent rt workerId a)
    (hcall : a.calls[k]? = some call)
    (hadv : call.Advances rt a.worker a.engine worker engine call') :
    Coherent rt workerId (a.advanced k worker engine call') := by
  have hkeeps := hadv.keeps
  have hsound := h.sound k call hcall
  have hids : (a.advanced k worker engine call').requestIds = a.requestIds :=
    congrArg List.flatten (Sessions.map_set_eq Call.requestIds hcall hkeeps.requestIds)
  have hlt : k < a.calls.length := (List.getElem?_eq_some_iff.1 hcall).1
  refine {
    ofWorker := hkeeps.workerId.trans h.ofWorker
    numbered := ?_
    submitted := ?_
    fits := fun c hc => ?_
    unknown := fun rid hrid => ?_
    sound := Sessions.forall_set Call.requestIds Engine.view (Call.Sound rt workerId)
      (fun e e' c hview hc => hc.frame hview) (e := a.engine) h.nodup hcall
      (fun rid hrid => hadv.other hsound hrid) h.sound
      (hsound.advances h.ofWorker (h.requestIds_nodup hcall) hadv)
    ended := fun j out => ?_
    once := ?_ }
  · rw [hids, h.numbered]
    show _ = (List.range worker.requestCounter).map _
    rw [hkeeps.requestCounter]
  · have hsame : (a.calls.set k call').map requestsOf = a.calls.map requestsOf :=
      Sessions.map_set_eq requestsOf hcall
        (by rw [requestsOf, hkeeps.requestIds, hkeeps.tasks, requestsOf])
    show engine.submitted = ((a.calls.set k call').map requestsOf).flatten
    rw [hkeeps.submitted, hsame, h.submitted]
  · rcases List.mem_or_eq_of_mem_set hc with hc | rfl
    · exact h.fits c hc
    · rw [hkeeps.requestIds, hkeeps.tasks]
      exact h.fits call (List.mem_of_getElem? hcall)
  · rw [hids] at hrid
    refine (hadv.other hsound (fun hin => hrid ?_)).trans (h.unknown rid hrid)
    exact List.mem_flatten.2 ⟨_, List.mem_map_of_mem (List.mem_of_getElem? hcall), hin⟩
  · simp only [VLLMActor.advanced, List.mem_append, h.ended, Option.mem_toList,
      Option.map_eq_some_iff, Prod.mk.injEq]
    constructor
    · rintro (⟨c, hc, hout⟩ | ⟨out, hout, rfl, rfl⟩)
      · have hne : k ≠ j := by
          rintro rfl
          rw [hcall, Option.some.injEq] at hc
          rw [← hc, hkeeps.unfinished] at hout
          cases hout
        exact ⟨c, by rw [List.getElem?_set_ne hne, hc], hout⟩
      · exact ⟨call', List.getElem?_set_self hlt, hout⟩
    · rintro ⟨c, hc, hout⟩
      by_cases hne : k = j
      · subst hne
        rw [List.getElem?_set_self hlt, Option.some.injEq] at hc
        exact .inr ⟨out, hc ▸ hout, rfl, rfl⟩
      · rw [List.getElem?_set_ne hne] at hc
        exact .inl ⟨c, hc, hout⟩
  · show ((a.outcomes ++ (call'.outcome?.map (fun out => (k, out))).toList).map Prod.fst).Nodup
    rw [List.map_append, List.nodup_append]
    refine ⟨h.once, ?_, fun j hj k' hk' => ?_⟩
    · cases call'.outcome? <;> simp
    · obtain ⟨⟨j, out⟩, hin, rfl⟩ := List.mem_map.1 hj
      obtain ⟨c, hc, hout⟩ := (h.ended j out).1 hin
      have hlast : k' = k := by
        cases hcall' : call'.outcome? with
        | none => simp [hcall'] at hk'
        | some out => simpa [hcall'] using hk'
      rintro rfl
      rw [show j = k from hlast, hcall, Option.some.injEq] at hc
      rw [← hc, hkeeps.unfinished] at hout
      cases hout

theorem Reachable.coherent {a : VLLMActor σ} (h : Reachable rt workerId a) :
    Coherent rt workerId a :=
  h.invariant coherent_fresh (fun _ _ _ _ hI harr => hI.receive harr)
    (fun _ _ _ _ _ _ _ hI hcall hadv => hI.advanced hcall hadv)

/-! ## Requests -/

/-- The ids of the requests an engine has got are those of the calls, in order. -/
theorem Coherent.submitted_ids {a : VLLMActor σ} (h : Coherent rt workerId a) :
    a.engine.submitted.map Prod.fst = a.requestIds := by
  rw [h.submitted, List.map_flatten, List.map_map, requestIds]
  congr 1
  refine List.map_congr_left (fun call hcall => List.map_fst_zip ?_)
  rw [List.length_map]
  exact h.fits call hcall

/-! ## A small run -/

/-- A process that knows only a few exception classes. -/
def smallRuntime : Runtime Unit where
  unicode := basicUnicode
  hashSeed := promptOrder
  classes :=
    { mro := fun cls => [cls, "Exception", "BaseException", "object"]
      isTimeout := fun cls => cls = "TimeoutError"
      mro_runtimeError := rfl
      isTimeout_timeoutError := rfl }
  triggeredBy := fun _ => none

def smallTask (taskId : String) : ScoredTask := { taskId, prompt := "Name a city.".toList }

/-- Two batches at a time: the second fails on the engine's death, while the first gets its outputs,
    the later one first. -/
def smallEvents : List (ActorEvent Unit) :=
  [.evaluateBatch [smallTask "a", smallTask "b"], .evaluateBatch [smallTask "c"],
    .happen 0 (.output 1 ⟨"Paris".toList, [5, 6]⟩),
    .happen 1 (.raise ⟨"EngineDeadError", "engine died"⟩),
    .happen 0 (.output 0 ⟨"Rome".toList, [7]⟩), .happen 0 (.finish 0), .happen 1 (.abort none),
    .happen 0 (.finish 1), .happen 0 (.conclude 2), .happen 1 (.conclude 2)]

/-- The rows of the first batch. -/
def smallRows : List EvalResult :=
  [smallRuntime.batchRow 3 2 2 1 (smallTask "a") "Rome".toList,
    smallRuntime.batchRow 3 2 2 2 (smallTask "b") "Paris".toList]

theorem reachable_small : ∃ a : VLLMActor Unit, Reachable smallRuntime 3 a ∧
    a.outcomes = [(0, .ok smallRows), (1, .error ⟨"EngineDeadError", "engine died"⟩)] ∧
    a.engine.submitted.map Prod.fst = ["w3-r1", "w3-r2", "w3-r3"] ∧
    a.calls.map Call.tasks = [[smallTask "a", smallTask "b"], [smallTask "c"]] ∧
    a.calls.map Call.requestIds = [["w3-r1", "w3-r2"], ["w3-r3"]] ∧
    a.calls.map Call.hooked = [false, false] ∧ (∀ call ∈ a.calls, call.outcome?.isSome) := by
  have hrun : ∃ a, (VLLMActor.fresh 3).run smallRuntime smallEvents = some a ∧
      a.outcomes = [(0, .ok smallRows), (1, .error ⟨"EngineDeadError", "engine died"⟩)] ∧
      a.engine.submitted.map Prod.fst = ["w3-r1", "w3-r2", "w3-r3"] ∧
      a.calls.map Call.tasks = [[smallTask "a", smallTask "b"], [smallTask "c"]] ∧
      a.calls.map Call.requestIds = [["w3-r1", "w3-r2"], ["w3-r3"]] ∧
      a.calls.map Call.hooked = [false, false] ∧
      a.calls.map (fun call => call.outcome?.isSome) = [true, true] :=
    ⟨_, rfl, rfl, rfl, rfl, rfl, rfl, rfl⟩
  obtain ⟨a, hrun, hout, hids, htasks, hrids, hhooked, hended⟩ := hrun
  refine ⟨a, Reachable.fresh.run hrun, hout, hids, htasks, hrids, hhooked, fun call hcall => ?_⟩
  have hin := List.mem_map_of_mem (f := fun call : Call Unit => call.outcome?.isSome) hcall
  rw [hended] at hin
  simpa using hin

/-- No two requests have the same id, neither on one worker nor on two of different ids. -/
theorem request_ids_distinct {workerId' : Nat} {a b : VLLMActor σ} (ha : Reachable rt workerId a)
    (hb : Reachable rt workerId' b) : (a.engine.submitted.map Prod.fst).Nodup ∧
      (workerId ≠ workerId' → ∀ rid ∈ a.engine.submitted.map Prod.fst,
        rid ∉ b.engine.submitted.map Prod.fst) := by
  have hca := ha.coherent
  have hcb := hb.coherent
  rw [hca.submitted_ids, hcb.submitted_ids]
  refine ⟨hca.nodup, fun hne rid hrid hrid' => hne ?_⟩
  rw [hca.numbered] at hrid
  rw [hcb.numbered] at hrid'
  obtain ⟨n, -, rfl⟩ := List.mem_map.1 hrid
  obtain ⟨n', -, heq⟩ := List.mem_map.1 hrid'
  exact (requestId_injective heq).1.symm

theorem request_ids_distinct_small : ∃ a b : VLLMActor Unit,
    a.engine.submitted.map Prod.fst = ["w3-r1", "w3-r2", "w3-r3"] ∧
    b.engine.submitted.map Prod.fst = ["w4-r1"] ∧
    (a.engine.submitted.map Prod.fst).Nodup ∧ ∀ rid ∈ a.engine.submitted.map Prod.fst,
      rid ∉ b.engine.submitted.map Prod.fst := by
  obtain ⟨a, ha, -, hids, -⟩ := reachable_small
  have hb : ∃ b, (VLLMActor.fresh 4).run smallRuntime [.evaluateBatch [smallTask "d"]] = some b ∧
      b.engine.submitted.map Prod.fst = ["w4-r1"] := ⟨_, rfl, rfl⟩
  obtain ⟨b, hrun, hids'⟩ := hb
  have hdistinct := request_ids_distinct ha (Reachable.fresh.run hrun)
  exact ⟨a, b, hids, hids', hdistinct.1, hdistinct.2 (by decide)⟩

/-! ## Answers -/

/-- A call ends at most once. When it has ended with rows, there is one for each of its tasks, in
    order, and each row tells what the engine gave for the request of its own task: whatever else
    the worker was doing meanwhile. -/
theorem answers_own {a : VLLMActor σ} (h : Reachable rt workerId a) :
    (a.outcomes.map Prod.fst).Nodup ∧
    ∀ k rows, (k, Except.ok rows) ∈ a.outcomes → ∃ call, a.calls[k]? = some call ∧
      rows.map EvalResult.taskId = call.tasks.map (fun task => task.taskId) ∧
      ∀ (i : Nat) (row : EvalResult), rows[i]? = some row → ∃ task rid,
        call.tasks[i]? = some task ∧ call.requestIds[i]? = some rid ∧
        (rid, task.prompt) ∈ a.engine.submitted ∧
        row.response = String.ofList (a.engine.answer rid).text ∧
        (row.score, row.conditionScores) = rt.score (a.engine.answer rid).text task ∧
        row.tokensGenerated = (a.engine.answer rid).tokenIds.length ∧
        row.workerId = workerId ∧ row.failed = false ∧ row.hooked = call.hooked := by
  have hco := h.coherent
  refine ⟨hco.once, fun k rows hout => ?_⟩
  obtain ⟨call, hcall, hended⟩ := (hco.ended k _).1 hout
  have hsound := hco.sound k call hcall
  have hphase : call.phase = .returned rows := by
    unfold Call.outcome? at hended
    split at hended
    · next rows' hphase =>
        cases hended
        exact hphase
    · cases hended
    · cases hended
  simp only [Call.Sound, hphase] at hsound
  obtain ⟨hlen, hrows⟩ := hsound
  refine ⟨call, hcall, ?_, fun i row hrow => ?_⟩
  · apply List.ext_getElem?
    intro i
    rw [List.getElem?_map, List.getElem?_map]
    cases hrow : rows[i]? with
    | none =>
        have hbeyond : call.tasks.length ≤ i := by
          rw [← hlen]
          exact List.getElem?_eq_none_iff.1 hrow
        rw [List.getElem?_eq_none_iff.2 hbeyond]
        rfl
    | some row =>
        obtain ⟨task, rid, htask, -, -, hof⟩ := hrows i row hrow
        rw [htask]
        exact congrArg some hof.taskId
  · obtain ⟨task, rid, htask, hrid, hhooked, hof⟩ := hrows i row hrow
    refine ⟨task, rid, htask, hrid, ?_, hof.response, hof.score, hof.tokens, hof.workerId,
      hof.succeeded, hhooked⟩
    rw [hco.submitted]
    refine List.mem_flatten.2
      ⟨requestsOf call, List.mem_map_of_mem (List.mem_of_getElem? hcall), ?_⟩
    refine List.mem_of_getElem?
      (List.getElem?_zip_eq_some.2 ⟨hrid, ?_⟩ : _ = some (rid, task.prompt))
    rw [List.getElem?_map, htask]
    rfl

theorem answers_own_small : ∃ a : VLLMActor Unit, (0, Except.ok smallRows) ∈ a.outcomes ∧
    (a.outcomes.map Prod.fst).Nodup ∧ ∃ call, a.calls[0]? = some call ∧
      smallRows.map EvalResult.taskId = call.tasks.map (fun task => task.taskId) := by
  obtain ⟨a, ha, hout, -⟩ := reachable_small
  have hin : (0, Except.ok smallRows) ∈ a.outcomes := by
    rw [hout]
    exact List.mem_cons_self ..
  obtain ⟨honce, hown⟩ := answers_own ha
  obtain ⟨call, hcall, hids, -⟩ := hown 0 smallRows hin
  exact ⟨a, hin, honce, call, hcall, hids⟩

/-! ## Aborts -/

/-- Nothing a call has asked of the engine is still running when the call has ended: each request
    has run to its end or has been aborted. The requests of a call that raised have all been
    aborted, exactly once each without hooks; those of a call that returned, only where a hook has
    stopped it. -/
theorem nothing_left_running {a : VLLMActor σ} (h : Reachable rt workerId a) :
    ∀ k out, (k, out) ∈ a.outcomes → ∃ call, a.calls[k]? = some call ∧
      ∀ (i : Nat) (rid : String), call.requestIds[i]? = some rid →
        (rid ∈ a.engine.finished ∨ 0 < a.engine.aborted.count rid) ∧
        (∀ exc, out = .error exc → 1 ≤ a.engine.aborted.count rid ∧
          a.engine.aborted.count rid ≤ (if call.hooked then 2 else 1)) ∧
        ∀ rows, out = .ok rows → ∃ row, rows[i]? = some row ∧
          a.engine.aborted.count rid = if row.stoppedEarly then 1 else 0 := by
  have hco := h.coherent
  intro k out hout
  obtain ⟨call, hcall, hended⟩ := (hco.ended k _).1 hout
  have hsound := hco.sound k call hcall
  refine ⟨call, hcall, fun i rid hrid => ?_⟩
  unfold Call.outcome? at hended
  split at hended
  · next rows hphase =>
      cases hended
      simp only [Call.Sound, hphase] at hsound
      obtain ⟨hlen, hrows⟩ := hsound
      have hi : i < rows.length := by
        have := hco.fits call (List.mem_of_getElem? hcall)
        have := (List.getElem?_eq_some_iff.1 hrid).1
        omega
      obtain ⟨task, rid', -, hrid', -, hof⟩ := hrows i rows[i] (List.getElem?_eq_getElem hi)
      rw [hrid, Option.some.injEq] at hrid'
      subst hrid'
      refine ⟨?_, (fun exc hexc => by cases hexc), fun rows' hrows' => ?_⟩
      · cases hstop : rows[i].stoppedEarly with
        | true =>
            have habort := hof.aborts
            rw [hstop, if_pos rfl] at habort
            exact .inr (Nat.lt_of_lt_of_eq Nat.one_pos habort.symm)
        | false => exact .inl (hof.ended hstop)
      · cases hrows'
        exact ⟨rows[i], List.getElem?_eq_getElem hi, hof.aborts⟩
  · next exc hphase =>
      cases hended
      simp only [Call.Sound, hphase] at hsound
      have haborted := hsound rid (List.mem_of_getElem? hrid)
      exact ⟨.inr haborted.1, fun _ _ => haborted, fun rows hrows => by cases hrows⟩
  · cases hended

theorem nothing_left_running_small : ∃ a : VLLMActor Unit, ∃ call,
    (1, Except.error ⟨"EngineDeadError", "engine died"⟩) ∈ a.outcomes ∧ a.calls[1]? = some call ∧
      ∀ (i : Nat) (rid : String), call.requestIds[i]? = some rid →
        1 ≤ a.engine.aborted.count rid ∧
          a.engine.aborted.count rid ≤ (if call.hooked then 2 else 1) := by
  obtain ⟨a, ha, hout, -⟩ := reachable_small
  have hin : (1, Except.error ⟨"EngineDeadError", "engine died"⟩) ∈ a.outcomes := by
    rw [hout]
    exact List.mem_cons_of_mem _ (List.mem_singleton_self _)
  obtain ⟨call, hcall, hrunning⟩ := nothing_left_running ha 1 _ hin
  exact ⟨a, call, hin, hcall, fun i rid hrid => (hrunning i rid hrid).2.1 _ rfl⟩

end VLLMActor

end EvalHarness
