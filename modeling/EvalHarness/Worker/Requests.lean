import EvalHarness.Aggregator.Paths
import EvalHarness.Lib.Sessions
import EvalHarness.Worker.Actor

set_option autoImplicit false

/-! # The requests of the vLLM worker

No two requests have the same id, on one worker or on two. Each call owns the requests it submitted,
and what it knows of them is what the engine gave for them, however the calls are interleaved. -/

namespace EvalHarness

open Text

/-! ## Request ids -/

theorem toList_requestId (workerId n : Nat) : (VLLMWorkerImpl.requestId workerId n).toList
    = 'w' :: (Nat.toDigits 10 workerId ++ '-' :: 'r' :: Nat.toDigits 10 (n + 1)) := by
  show ("w" ++ toString workerId ++ "-r" ++ toString (n + 1)).toList = _
  simp [String.toList_append, Nat.toString_eq_repr]

/-- The worker and the number can be read off a request id. -/
theorem requestId_injective {workerId workerId' n n' : Nat}
    (h : VLLMWorkerImpl.requestId workerId n = VLLMWorkerImpl.requestId workerId' n') :
    workerId = workerId' ∧ n = n' := by
  have hlist := congrArg String.toList h
  have hdash : ∀ m, '-' ∉ Nat.toDigits 10 m := by
    intro m hm
    exact absurd (Nat.isDigit_of_mem_toDigits (by norm_num) le_rfl hm) (by decide)
  rw [toList_requestId, toList_requestId, List.cons.injEq] at hlist
  have hbehind : ∀ m, '-' ∉ 'r' :: Nat.toDigits 10 m := by
    intro m hm
    rcases List.mem_cons.1 hm with hr | hm
    · exact absurd hr (by decide)
    · exact hdash m hm
  obtain ⟨hworker, -, hcounted⟩ :=
    (List.append_cons_inj_of_notMem (hdash workerId) (hbehind (n + 1))).1 hlist.2
  have hnumber := (List.cons.inj hcounted).2
  have hofDigits : ∀ {a b : Nat}, Nat.toDigits 10 a = Nat.toDigits 10 b → a = b :=
    fun heq => by simpa using congrArg (Nat.ofDigitChars 10 · 0) heq
  have hsucc := hofDigits hnumber
  exact ⟨hofDigits hworker, by omega⟩

theorem nodup_requestIds (workerId n : Nat) :
    ((List.range n).map (VLLMWorkerImpl.requestId workerId)).Nodup :=
  List.nodup_range.map (fun _ _ h => (requestId_injective h).2)

/-! ## What the engine has done for a request -/

namespace Engine

/-- The last output for a request. -/
def lastOutput (e : Engine) (requestId : String) : Option Completion :=
  (e.yielded.filter (fun output => output.1 = requestId)).getLast?.map Prod.snd

/-- The answer to a request so far. -/
def answer (e : Engine) (requestId : String) : Completion :=
  (e.lastOutput requestId).getD ⟨[], []⟩

def aborts (e : Engine) (requestId : String) : Nat := e.aborted.count requestId

/-- What a call can know of one of its requests. -/
def view (e : Engine) (requestId : String) : Option Completion × Bool × Nat :=
  (e.lastOutput requestId, e.finished.contains requestId, e.aborts requestId)

variable (e : Engine) (requestId other : String)

@[simp] theorem lastOutput_yield (output : Completion) : (e.yield requestId output).lastOutput other
    = if other = requestId then some output else e.lastOutput other := by
  unfold lastOutput yield
  rw [List.filter_append]
  by_cases h : other = requestId
  · simp [h]
  · simp [h, Ne.symm h]

@[simp] theorem lastOutput_finish :
    (e.finish requestId).lastOutput other = e.lastOutput other := rfl

@[simp] theorem lastOutput_abort : (e.abort requestId).lastOutput other = e.lastOutput other := rfl

@[simp] theorem aborts_yield (output : Completion) :
    (e.yield requestId output).aborts other = e.aborts other := rfl

@[simp] theorem aborts_finish : (e.finish requestId).aborts other = e.aborts other := rfl

@[simp] theorem aborts_abort : (e.abort requestId).aborts other
    = e.aborts other + if requestId = other then 1 else 0 := by
  simp [aborts, abort, List.count_append, List.count_singleton]

@[simp] theorem finished_yield (output : Completion) :
    (e.yield requestId output).finished = e.finished := rfl

@[simp] theorem finished_abort : (e.abort requestId).finished = e.finished := rfl

@[simp] theorem mem_finished_finish :
    other ∈ (e.finish requestId).finished ↔ other ∈ e.finished ∨ other = requestId := by
  simp [finish]

theorem view_yield {requestId other : String} (h : other ≠ requestId) (output : Completion) :
    (e.yield requestId output).view other = e.view other := by
  simp [view, h]

theorem view_finish {requestId other : String} (h : other ≠ requestId) :
    (e.finish requestId).view other = e.view other := by
  simp [view, h]

theorem view_abort {requestId other : String} (h : other ≠ requestId) :
    (e.abort requestId).view other = e.view other := by
  simp [view, Ne.symm h]

end Engine

/-! ## What a call knows -/

section

variable {σ : Type} (rt : Runtime σ) (workerId : Nat) (e : Engine)

/-- A coroutine of `gather` holds the last output of its own request. -/
structure RunOne.Follows (run : RunOne) : Prop where
  output : run.finalOutput = e.lastOutput run.requestId
  ended : run.ended = true → run.requestId ∈ e.finished
  untouched : e.aborts run.requestId = 0

/-- A loop has read what the engine gave for its request. -/
structure HookLoop.Follows (requestId : String) (loop : HookLoop σ) : Prop where
  text : loop.accumulated = (e.answer requestId).text
  tokens : loop.tokenCount = (e.answer requestId).tokenIds.length

/-- A row tells what the engine gave for one request, scored for one task. The request has been
    aborted once if a hook stopped it, and has run to its end otherwise. -/
structure RowOf (task : ScoredTask) (requestId : String) (row : EvalResult) : Prop where
  taskId : row.taskId = task.taskId
  response : row.response = String.ofList (e.answer requestId).text
  score : (row.score, row.conditionScores) = rt.score (e.answer requestId).text task
  tokens : row.tokensGenerated = (e.answer requestId).tokenIds.length
  workerId : row.workerId = workerId
  succeeded : row.failed = false
  aborts : e.aborts requestId = if row.stoppedEarly then 1 else 0
  ended : row.stoppedEarly = false → requestId ∈ e.finished

namespace Call

/-- A call with one task and one request. -/
def Single (call : Call σ) : Prop :=
  call.hooked = true ∧ call.tasks.length = 1 ∧ call.requestIds.length = 1

/-- How often a request may have been aborted in the end: a hooked one a second time, when the first
    `abort` has raised. -/
def abortLimit (call : Call σ) : Nat := if call.hooked then 2 else 1

/-- What a call knows of its requests, by where it stands. -/
def Sound (call : Call σ) : Prop := match call.phase with
  | .gathering runs => call.hooked = false ∧ call.requestIds.length = call.tasks.length ∧
      runs.map RunOne.requestId = call.requestIds ∧
      ∀ (i : Nat) (run : RunOne), runs[i]? = some run → run.Follows e
  | .looping loop | .stopping loop => call.Single ∧
      ∀ rid ∈ call.requestIds, loop.Follows e rid ∧ e.aborts rid = 0
  | .left loop stoppedEarly => call.Single ∧ ∀ rid ∈ call.requestIds, loop.Follows e rid ∧
      e.aborts rid = (if stoppedEarly then 1 else 0) ∧ (stoppedEarly = false → rid ∈ e.finished)
  | .failing _ toAbort => (call.hooked = true → call.Single) ∧
      ∃ done, call.requestIds = done ++ toAbort ∧
        (∀ rid ∈ done, 1 ≤ e.aborts rid ∧ e.aborts rid ≤ call.abortLimit) ∧
        ∀ rid ∈ toAbort, e.aborts rid < call.abortLimit
  | .returned rows => rows.length = call.tasks.length ∧
      ∀ (i : Nat) (row : EvalResult), rows[i]? = some row → ∃ task rid,
        call.tasks[i]? = some task ∧ call.requestIds[i]? = some rid ∧ row.hooked = call.hooked ∧
          RowOf rt workerId e task rid row
  | .raised _ => ∀ rid ∈ call.requestIds, 1 ≤ e.aborts rid ∧ e.aborts rid ≤ call.abortLimit

end Call

variable {rt workerId e} {e' : Engine}

theorem Engine.view_eq_iff {rid : String} : e'.view rid = e.view rid ↔
    e'.lastOutput rid = e.lastOutput rid ∧ (rid ∈ e'.finished ↔ rid ∈ e.finished) ∧
      e'.aborts rid = e.aborts rid := by
  simp [Engine.view]

theorem RunOne.Follows.frame {run : RunOne} (h : run.Follows e)
    (hview : e'.view run.requestId = e.view run.requestId) : run.Follows e' := by
  obtain ⟨hlast, hfin, hab⟩ := Engine.view_eq_iff.1 hview
  exact ⟨h.output.trans hlast.symm, fun hended => hfin.2 (h.ended hended), hab.trans h.untouched⟩

theorem Engine.answer_congr {rid : String} (hview : e'.view rid = e.view rid) :
    e'.answer rid = e.answer rid := by
  rw [Engine.answer, (Engine.view_eq_iff.1 hview).1, Engine.answer]

theorem HookLoop.Follows.frame {rid : String} {loop : HookLoop σ} (h : loop.Follows e rid)
    (hview : e'.view rid = e.view rid) : loop.Follows e' rid := by
  have hanswer := Engine.answer_congr hview
  exact ⟨by rw [h.text, hanswer], by rw [h.tokens, hanswer]⟩

theorem RowOf.frame {task : ScoredTask} {rid : String} {row : EvalResult}
    (h : RowOf rt workerId e task rid row) (hview : e'.view rid = e.view rid) :
    RowOf rt workerId e' task rid row := by
  have hanswer := Engine.answer_congr hview
  obtain ⟨-, hfin, hab⟩ := Engine.view_eq_iff.1 hview
  exact {
    taskId := h.taskId
    response := by rw [h.response, hanswer]
    score := by rw [h.score, hanswer]
    tokens := by rw [h.tokens, hanswer]
    workerId := h.workerId
    succeeded := h.succeeded
    aborts := hab.trans h.aborts
    ended := fun hrow => hfin.2 (h.ended hrow) }

/-- What a call knows depends on its own requests only. -/
theorem Call.Sound.frame {call : Call σ} (h : call.Sound rt workerId e)
    (hview : ∀ rid ∈ call.requestIds, e'.view rid = e.view rid) : call.Sound rt workerId e' := by
  have haborts : ∀ rid ∈ call.requestIds, e'.aborts rid = e.aborts rid :=
    fun rid hrid => (Engine.view_eq_iff.1 (hview rid hrid)).2.2
  unfold Call.Sound at h ⊢
  split at h
  · obtain ⟨hhooked, hlen, hids, hruns⟩ := h
    refine ⟨hhooked, hlen, hids, fun i run hrun => (hruns i run hrun).frame (hview _ ?_)⟩
    rw [← hids]
    exact List.mem_map_of_mem (List.mem_of_getElem? hrun)
  · exact ⟨h.1, fun rid hrid => ⟨(h.2 rid hrid).1.frame (hview rid hrid),
      (haborts rid hrid).trans (h.2 rid hrid).2⟩⟩
  · exact ⟨h.1, fun rid hrid => ⟨(h.2 rid hrid).1.frame (hview rid hrid),
      (haborts rid hrid).trans (h.2 rid hrid).2⟩⟩
  · refine ⟨h.1, fun rid hrid => ?_⟩
    obtain ⟨hfollows, hab, hfin⟩ := h.2 rid hrid
    exact ⟨hfollows.frame (hview rid hrid), (haborts rid hrid).trans hab,
      fun hstop => (Engine.view_eq_iff.1 (hview rid hrid)).2.1.2 (hfin hstop)⟩
  · obtain ⟨hsingle, done, hids, hdone, htodo⟩ := h
    refine ⟨hsingle, done, hids, fun rid hrid => ?_, fun rid hrid => ?_⟩
    · rw [haborts rid (by rw [hids]; exact List.mem_append_left _ hrid)]
      exact hdone rid hrid
    · rw [haborts rid (by rw [hids]; exact List.mem_append_right _ hrid)]
      exact htodo rid hrid
  · refine ⟨h.1, fun i row hrow => ?_⟩
    obtain ⟨task, rid, htask, hrid, hhooked, hof⟩ := h.2 i row hrow
    exact ⟨task, rid, htask, hrid, hhooked, hof.frame (hview rid (List.mem_of_getElem? hrid))⟩
  · intro rid hrid
    rw [haborts rid hrid]
    exact h rid hrid

/-! ## What a step keeps -/

/-- What `gather` returns: the final output of each coroutine, in order. -/
theorem mapM_returns {runs : List RunOne} {outputs : List Completion}
    (h : runs.mapM RunOne.returns = some outputs) : outputs.length = runs.length ∧
    ∀ (i : Nat) (out : Completion), outputs[i]? = some out →
      ∃ run, runs[i]? = some run ∧ run.ended = true ∧ run.finalOutput = some out := by
  induction runs generalizing outputs with
  | nil =>
      simp only [List.mapM_nil] at h
      cases h
      simp
  | cons run runs ih =>
      rw [List.mapM_cons] at h
      obtain ⟨first, hfirst, h⟩ := Option.bind_eq_some_iff.1 h
      obtain ⟨rest, hrest, h⟩ := Option.bind_eq_some_iff.1 h
      cases h
      obtain ⟨hlen, hall⟩ := ih hrest
      refine ⟨by simp [hlen], fun i out hout => ?_⟩
      cases i with
      | zero =>
          simp only [List.getElem?_cons_zero, Option.some.injEq] at hout
          subst hout
          unfold RunOne.returns at hfirst
          split at hfirst
          · next hended => exact ⟨run, rfl, hended, hfirst⟩
          · cases hfirst
      | succ i => exact hall i out hout

/-- The coroutines of a call, when one of them has moved on. -/
theorem forall_runs_set {runs : List RunOne} {i : Nat} {run run' : RunOne}
    (hnodup : (runs.map RunOne.requestId).Nodup) (hrun : runs[i]? = some run)
    (hother : ∀ rid, rid ≠ run.requestId → e'.view rid = e.view rid)
    (hfollows : ∀ (j : Nat) (r : RunOne), runs[j]? = some r → r.Follows e)
    (hnew : run'.Follows e') :
    ∀ (j : Nat) (r : RunOne), (runs.set i run')[j]? = some r → r.Follows e' := by
  refine Sessions.forall_set (fun r : RunOne => [r.requestId]) Engine.view RunOne.Follows
    (fun e e' r hview h => h.frame (hview _ (List.mem_singleton_self _))) ?_ hrun
    (fun rid hrid => hother rid (by simpa using hrid)) hfollows hnew
  rw [← List.flatMap_def, ← List.map_eq_flatMap]
  exact hnodup

theorem HookLoop.follows_output (e : Engine) (rid : String) (loop : HookLoop σ)
    (completion : Completion) :
    (loop.output completion).2.Follows (e.yield rid completion) rid := by
  have hanswer : (e.yield rid completion).answer rid = completion := by simp [Engine.answer]
  exact ⟨by rw [hanswer]; rfl, by rw [hanswer]; rfl⟩

theorem Call.abortLimit_pos (call : Call σ) : 0 < call.abortLimit := by
  unfold Call.abortLimit
  split <;> omega

/-- A batch that fails has all its requests to abort. -/
theorem Call.Sound.failing {call : Call σ} {runs : List RunOne} {exc : Exc}
    (h : call.Sound rt workerId e) (hphase : call.phase = .gathering runs)
    (haborts : ∀ rid, e'.aborts rid = e.aborts rid) :
    Call.Sound rt workerId e' { call with phase := .failing exc call.requestIds } := by
  simp only [Call.Sound, hphase] at h ⊢
  obtain ⟨hhooked, -, hids, hruns⟩ := h
  refine ⟨fun hh => ?_, [], rfl, by simp, fun rid hrid => ?_⟩
  · rw [hhooked] at hh
    cases hh
  · rw [← hids] at hrid
    obtain ⟨run, hrun, rfl⟩ := List.mem_map.1 hrid
    obtain ⟨i, hi⟩ := List.getElem?_of_mem hrun
    rw [haborts, (hruns i run hi).untouched]
    exact Call.abortLimit_pos _

/-- A step of a call keeps what it knows. -/
theorem Call.Sound.advances {w w' : VLLMWorkerImpl} {call call' : Call σ}
    (hw : w.workerId = workerId) (hnodup : call.requestIds.Nodup) (h : call.Sound rt workerId e)
    (hadv : call.Advances rt w e w' e' call') : call'.Sound rt workerId e' := by
  cases hadv with
  | yields runs i run completion hphase hrun hlive =>
      simp only [Call.Sound, hphase] at h ⊢
      obtain ⟨hhooked, hlen, hids, hruns⟩ := h
      refine ⟨hhooked, hlen, (Sessions.map_set_eq RunOne.requestId hrun (by rfl)).trans hids, ?_⟩
      refine forall_runs_set (hids ▸ hnodup) hrun (fun rid hne => e.view_yield hne completion) hruns
        ⟨?_, ?_, ?_⟩
      · simp
      · intro hended
        rw [hlive] at hended
        cases hended
      · exact (hruns i run hrun).untouched
  | ends runs i run hphase hrun hlive hout =>
      simp only [Call.Sound, hphase] at h ⊢
      obtain ⟨hhooked, hlen, hids, hruns⟩ := h
      refine ⟨hhooked, hlen, (Sessions.map_set_eq RunOne.requestId hrun (by rfl)).trans hids, ?_⟩
      refine forall_runs_set (hids ▸ hnodup) hrun (fun rid hne => e.view_finish hne) hruns
        ⟨?_, ?_, ?_⟩
      · exact (hruns i run hrun).output
      · intro _
        simp
      · exact (hruns i run hrun).untouched
  | endsEmpty runs i run hphase hrun =>
      exact h.failing hphase (fun rid => rfl)
  | breaks runs exc hphase => exact h.failing hphase (fun rid => rfl)
  | hears loop completion requestId hphase hids =>
      simp only [Call.Sound, hphase] at h
      obtain ⟨hsingle, hloop⟩ := h
      have hsound : ∀ rid ∈ call.requestIds, (loop.output completion).2.Follows
          (e.yield requestId completion) rid ∧ (e.yield requestId completion).aborts rid = 0 := by
        intro rid hrid
        have huntouched := (hloop rid hrid).2
        rw [hids, List.mem_singleton] at hrid
        subst hrid
        exact ⟨HookLoop.follows_output e rid loop completion, huntouched⟩
      unfold Call.Sound
      cases (loop.output completion).1 with
      | true => exact ⟨hsingle, hsound⟩
      | false => exact ⟨hsingle, hsound⟩
  | runsOut loop requestId hphase hids =>
      simp only [Call.Sound, hphase] at h ⊢
      refine ⟨h.1, fun rid hrid => ?_⟩
      obtain ⟨hfollows, huntouched⟩ := h.2 rid hrid
      rw [hids, List.mem_singleton] at hrid
      exact ⟨⟨hfollows.text, hfollows.tokens⟩, huntouched, fun _ => by simp [hrid]⟩
  | breaksLoop loop exc hphase =>
      simp only [Call.Sound, hphase] at h ⊢
      refine ⟨fun _ => h.1, [], rfl, by simp, fun rid hrid => ?_⟩
      rw [(h.2 rid hrid).2]
      exact call.abortLimit_pos
  | stops loop requestId hphase hids =>
      simp only [Call.Sound, hphase] at h ⊢
      refine ⟨h.1, fun rid hrid => ?_⟩
      obtain ⟨hfollows, huntouched⟩ := h.2 rid hrid
      rw [hids, List.mem_singleton] at hrid
      subst hrid
      exact ⟨⟨hfollows.text, hfollows.tokens⟩, by simp [huntouched], fun hstop => by cases hstop⟩
  | failsToStop loop requestId exc hphase hids =>
      simp only [Call.Sound, hphase] at h ⊢
      refine ⟨fun _ => h.1, [], rfl, by simp, fun rid hrid => ?_⟩
      have huntouched := (h.2 rid hrid).2
      rw [hids, List.mem_singleton] at hrid
      subst hrid
      simp [Call.abortLimit, h.1.1, huntouched]
  | aborts exc requestId toAbort hphase =>
      simp only [Call.Sound, hphase] at h ⊢
      obtain ⟨hsingle, done, hids, hdone, htodo⟩ := h
      rw [hids, List.nodup_append, List.nodup_cons] at hnodup
      obtain ⟨-, ⟨hnotin, -⟩, hapart⟩ := hnodup
      refine ⟨hsingle, done ++ [requestId], by rw [hids]; simp, fun rid hrid => ?_,
        fun rid hrid => ?_⟩
      · rcases List.mem_append.1 hrid with hrid | hrid
        · have hne : requestId ≠ rid := Ne.symm (hapart rid hrid requestId (by simp))
          simp only [Engine.aborts_abort, if_neg hne, Nat.add_zero]
          exact hdone rid hrid
        · have heq := List.mem_singleton.1 hrid
          have hlt := htodo requestId (by simp)
          simp only [Engine.aborts_abort, heq, if_true]
          exact ⟨by omega, hlt⟩
      · have hne : requestId ≠ rid := fun heq => hnotin (heq ▸ hrid)
        simp only [Engine.aborts_abort, if_neg hne, Nat.add_zero]
        exact htodo rid (List.mem_cons_of_mem _ hrid)
  | answers runs outputs elapsed hphase houts =>
      simp only [Call.Sound, hphase] at h
      obtain ⟨hhooked, hlen, hids, hruns⟩ := h
      obtain ⟨hcount, hreturns⟩ := mapM_returns houts
      unfold VLLMWorkerImpl.answerBatch
      split
      · next hempty =>
          have hnone : call.requestIds = [] := by
            rw [List.isEmpty_iff.1 hempty] at hlen
            exact List.length_eq_zero_iff.1 hlen
          simp [Call.Sound, hnone]
      · have houtputs : outputs.length = call.tasks.length := by
          rw [← hlen, ← hids, List.length_map, hcount]
        simp only [Call.Sound, List.length_map, List.length_zip, houtputs, Nat.min_self, true_and]
        intro i row hrow
        rw [List.getElem?_map, Option.map_eq_some_iff] at hrow
        obtain ⟨⟨task, out⟩, hanswer, rfl⟩ := hrow
        obtain ⟨htask, hout⟩ := List.getElem?_zip_eq_some.1 hanswer
        obtain ⟨run, hrun, hended, hfinal⟩ := hreturns i out hout
        have hfollows := hruns i run hrun
        have hlast : e.answer run.requestId = out := by
          rw [Engine.answer, ← hfollows.output, hfinal]
          rfl
        refine ⟨task, run.requestId, htask, ?_, hhooked.symm, ?_⟩
        · rw [← hids, List.getElem?_map, hrun]
          rfl
        · exact {
            taskId := rfl
            response := by rw [hlast]; rfl
            score := by rw [hlast]; rfl
            tokens := by rw [hlast]; rfl
            workerId := congrArg Nat.cast hw
            succeeded := rfl
            aborts := hfollows.untouched
            ended := fun _ => hfollows.ended hended }
  | answersHooked loop stoppedEarly elapsed hphase =>
      simp only [Call.Sound, hphase] at h ⊢
      obtain ⟨⟨hhooked, htasks, hrids⟩, hloop⟩ := h
      refine ⟨List.length_map _, fun i row hrow => ?_⟩
      rw [List.getElem?_map, Option.map_eq_some_iff] at hrow
      obtain ⟨task, htask, rfl⟩ := hrow
      have hi : i < call.requestIds.length := by
        have := (List.getElem?_eq_some_iff.1 htask).1
        omega
      obtain ⟨hfollows, haborts, hended⟩ := hloop _ (List.getElem_mem hi)
      refine ⟨task, call.requestIds[i], htask, List.getElem?_eq_getElem hi, hhooked.symm, ?_⟩
      exact {
        taskId := rfl
        response := by rw [← hfollows.text]; rfl
        score := by rw [← hfollows.text]; rfl
        tokens := hfollows.tokens
        workerId := congrArg Nat.cast hw
        succeeded := rfl
        aborts := haborts
        ended := hended }
  | givesUp exc hphase =>
      simp only [Call.Sound, hphase] at h ⊢
      obtain ⟨-, done, hids, hdone, -⟩ := h
      rw [List.append_nil] at hids
      rw [hids]
      exact hdone

end

end EvalHarness
