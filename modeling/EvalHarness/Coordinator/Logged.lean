import EvalHarness.Coordinator.Loop

set_option autoImplicit false

/-! # What each function logs

The moves of `Protocol.lean` may be made in more orders than the functions make them: nothing there
says that an eviction is followed by the replacement of the worker, or that the results of a harvest
are recorded before anything else happens. Here the functions are asked directly which events they
log, one lemma per function in the order of the source. -/

namespace EvalHarness

variable {σ : Type} {w : World σ}

/-- The events about actors. -/
def Event.staffing : Event → Bool
  | .constructed _ | .checked _ _ | .probed _ _ | .attemptFailed _ _ | .killed _ => true
  | _ => false

/-- The events of a submission. -/
def Event.sending : Event → Bool
  | .dispatched .. | .submitted .. => true
  | _ => false

/-- Every event but a submission, a harvest, an eviction and the record of results. -/
def Event.internal : Event → Bool
  | .dispatched .. | .harvested .. | .evicted .. | .recorded .completed _ _ => false
  | _ => true

/-- Every event but an eviction and the record of results. -/
def Event.ordinary : Event → Bool
  | .evicted .. | .recorded .completed _ _ => false
  | _ => true

theorem Event.internal_of_staffing (e : Event) (h : e.staffing = true) : e.internal = true := by
  cases e <;> simp_all [Event.staffing, Event.internal]

theorem Event.ordinary_of_internal (e : Event) (h : e.internal = true) : e.ordinary = true := by
  cases e with
  | recorded cause batch rows => cases cause <;> simp_all [Event.internal, Event.ordinary]
  | _ => simp_all [Event.internal, Event.ordinary]

theorem Event.ordinary_of_sending (e : Event) (h : e.sending = true) : e.ordinary = true := by
  cases e <;> simp_all [Event.sending, Event.ordinary]

/-- From `s` to `s'` only events of one kind are logged. -/
def Logs (P : Event → Bool) (s s' : Sys σ) : Prop :=
  ∃ news, s'.log = news ++ s.log ∧ ∀ e ∈ news, P e = true

variable {P Q : Event → Bool}

theorem Logs.of_eq {s s' : Sys σ} (h : s'.log = s.log) : Logs P s s' := ⟨[], h, by simp⟩

theorem Logs.refl (s : Sys σ) : Logs P s s := .of_eq rfl

theorem Logs.one {s s' : Sys σ} {e : Event} (h : s'.log = e :: s.log) (he : P e = true) :
    Logs P s s' :=
  ⟨[e], h, by simpa using he⟩

theorem Logs.trans {a b c : Sys σ} (h : Logs P a b) (h' : Logs P b c) : Logs P a c := by
  obtain ⟨news, hlog, hnews⟩ := h
  obtain ⟨news', hlog', hnews'⟩ := h'
  refine ⟨news' ++ news, by rw [hlog', hlog, List.append_assoc], fun e he => ?_⟩
  rcases List.mem_append.1 he with he | he
  · exact hnews' e he
  · exact hnews e he

theorem Logs.mono {s s' : Sys σ} (h : Logs P s s') (hPQ : ∀ e, P e = true → Q e = true) :
    Logs Q s s' := by
  obtain ⟨news, hlog, hnews⟩ := h
  exact ⟨news, hlog, fun e he => hPQ e (hnews e he)⟩

theorem Logs.mem {s s' : Sys σ} (h : Logs P s s') {e : Event} (he : e ∈ s.log) : e ∈ s'.log := by
  obtain ⟨news, hlog, -⟩ := h
  rw [hlog]
  exact List.mem_append_right news he

/-- The same for a function that may raise: for the state it leaves either way. -/
def ActLogs (P : Event → Bool) (s : Sys σ) : Act σ (Sys σ) → Prop
  | .ok s' => Logs P s s'
  | .error raised => Logs P s raised.sys

theorem ActLogs.after {a b : Sys σ} {r : Act σ (Sys σ)} (h : Logs P a b) (h' : ActLogs P b r) :
    ActLogs P a r := by
  cases r with
  | ok s => exact h.trans h'
  | error raised => exact h.trans h'

theorem ActLogs.mono {s : Sys σ} {r : Act σ (Sys σ)} (h : ActLogs P s r)
    (hPQ : ∀ e, P e = true → Q e = true) : ActLogs Q s r := by
  cases r with
  | ok s' => exact Logs.mono h hPQ
  | error raised => exact Logs.mono h hPQ

/-! ## Refills and replacement -/

theorem startStandbyRefill_logs (attempt : Nat) (s : Sys σ) :
    Logs Event.staffing s (startStandbyRefill w attempt s) := by
  unfold startStandbyRefill
  cases (s.reply w).construct with
  | some exc => exact .of_eq rfl
  | none => exact .one rfl rfl

theorem failRefill_logs (h : Handle) (attempt : Nat) (s : Sys σ) :
    Logs Event.staffing s (failRefill w h attempt s) := by
  have hkill : Logs Event.staffing s (killActor w s.countRefillFailure h) := .one rfl rfl
  unfold failRefill
  split
  · exact hkill.trans (startStandbyRefill_logs _ _)
  · exact hkill

/-- A refill that is given up is killed. -/
theorem failRefill_killed (h : Handle) (attempt : Nat) (s : Sys σ) :
    Event.killed h ∈ (failRefill w h attempt s).log := by
  have hkill : Event.killed h ∈ (killActor w s.countRefillFailure h).log := List.mem_cons_self
  unfold failRefill
  split
  · exact (startStandbyRefill_logs _ _).mem hkill
  · exact hkill

theorem pollRefill_logs (s : Sys σ) (rf : Refill) :
    Logs Event.staffing s (pollRefill w s rf) := by
  have hchecked : ∀ {s' : Sys σ} {call : Option Nat},
      s'.log = .checked rf.handle call :: s.log → Logs Event.staffing s s' :=
    fun hlog => .one hlog rfl
  unfold pollRefill
  dsimp only
  split
  · split
    · exact (hchecked rfl).trans (.one rfl rfl)
    · exact (hchecked rfl).trans (failRefill_logs _ _ _)
  · split
    · exact (hchecked rfl).trans (failRefill_logs _ _ _)
    · exact .of_eq rfl

theorem pollStandbyRefills_logs (s : Sys σ) :
    Logs Event.staffing s (pollStandbyRefills w s) := by
  have hfold : ∀ (refills : List Refill) (s : Sys σ),
      Logs Event.staffing s (refills.foldl (pollRefill w) s) := by
    intro refills
    induction refills with
    | nil => intro s; exact .refl s
    | cons rf rest ih => intro s; exact (pollRefill_logs s rf).trans (ih _)
  exact (Logs.of_eq rfl).trans (hfold s.standbyRefills { s with standbyRefills := [] })

theorem attemptReplace_logs (slot : Nat) (s : Sys σ) :
    Logs Event.staffing s (attemptReplace w slot s).2 := by
  have hthree : ∀ {e : Event} {call : Option Nat} {s' : Sys σ}, e.staffing = true →
      s'.log = e :: .checked ((s.call w).freshHandle slot) call ::
        .constructed ((s.call w).freshHandle slot) :: s.log →
      Logs Event.staffing s s' := by
    intro e call s' he hlog
    refine ⟨[e, _, _], hlog, fun e' he' => ?_⟩
    simp only [List.mem_cons, List.not_mem_nil, or_false] at he'
    rcases he' with rfl | rfl | rfl
    · exact he
    · rfl
    · rfl
  unfold attemptReplace
  dsimp only
  split
  · exact .of_eq rfl
  · split
    · exact hthree rfl rfl
    · exact hthree rfl rfl
    · exact hthree rfl rfl

theorem blockingReplace_logs (slot maxAttempts left : Nat) (s : Sys σ) :
    Logs Event.staffing s (blockingReplace w slot maxAttempts left s).2 := by
  induction left generalizing s with
  | zero => exact .refl s
  | succ left ih =>
      have hone := attemptReplace_logs (w := w) slot s
      unfold blockingReplace
      split
      · next s' h =>
          rw [h] at hone
          exact hone
      · next s' h =>
          rw [h] at hone
          exact (hone.trans (.of_eq rfl)).trans (ih _)

theorem replaceWorker_logs (slot : Nat) (s : Sys σ) :
    Logs Event.staffing (s.vacate slot) (replaceWorker w slot s).2 := by
  unfold replaceWorker
  dsimp only
  split
  · exact (Logs.of_eq rfl).trans (startStandbyRefill_logs _ _)
  · split
    · exact (Logs.of_eq rfl).trans (blockingReplace_logs _ _ _ _)
    · exact (Logs.of_eq rfl).trans (blockingReplace_logs _ _ _ _)

theorem vacate_logs (slot : Nat) (s : Sys σ) : Logs Event.staffing s (s.vacate slot) := by
  refine ⟨_, rfl, fun e he => ?_⟩
  obtain ⟨h, -, rfl⟩ := Option.map_eq_some_iff.1 (Option.mem_toList.1 he)
  rfl

/-- A worker that is replaced is killed. -/
theorem replaceWorker_killed {slot : Nat} {s : Sys σ} {h : Handle}
    (hh : (s.workers[slot]?).join = some h) :
    Event.killed h ∈ (replaceWorker w slot s).2.log := by
  refine (replaceWorker_logs slot s).mem ?_
  show Event.killed h ∈ (((s.workers[slot]?).join).map Event.killed).toList ++ s.log
  rw [hh]
  exact List.mem_cons_self

theorem checkAndReplaceIfPoisoned_logs (slot : Nat) (s : Sys σ) :
    Logs Event.staffing s (checkAndReplaceIfPoisoned w slot s) := by
  have hreplace := (vacate_logs slot (s.call w)).trans (replaceWorker_logs (w := w) slot (s.call w))
  unfold checkAndReplaceIfPoisoned
  split
  · exact .refl s
  · dsimp only
    split
    · exact .of_eq rfl
    · exact (Logs.of_eq rfl).trans hreplace

/-- A worker that fails its health check, or misses it, is killed. -/
theorem checkAndReplaceIfPoisoned_killed {slot : Nat} {s : Sys σ} {h : Handle}
    (hh : (s.workers[slot]?).join = some h) (hhealth : (s.reply w).health ≠ .ok true) :
    Event.killed h ∈ (checkAndReplaceIfPoisoned w slot s).log := by
  have hcall : ((s.call w).workers[slot]?).join = some h := hh
  unfold checkAndReplaceIfPoisoned
  rw [hh]
  dsimp only
  split
  · next htrue => exact absurd htrue hhealth
  · exact replaceWorker_killed hcall

/-! ## Dispatch -/

theorem submit_logs (slot : Nat) (e : Entry) (s : Sys σ) :
    Logs Event.sending s (submit w slot e s) := by
  unfold submit
  split
  · exact .of_eq rfl
  · next h _ =>
      have hlaunch : Logs Event.sending s (s.launch slot e h) := .one rfl rfl
      exact hlaunch.trans (.one rfl rfl)

/-- Submitting the first of the pending batches. -/
theorem submit_next_logs (slot : Nat) (e : Entry) (rest : List Entry) (s : Sys σ) :
    Logs Event.sending s (submit w slot e { s with pending := rest }) := by
  have hrest : Logs Event.sending s { s with pending := rest } := .of_eq rfl
  exact hrest.trans (submit_logs slot e _)

theorem assignNext_logs (slot : Nat) (s : Sys σ) :
    Logs Event.sending s (assignNext w slot s) := by
  unfold assignNext
  split
  · exact .refl s
  · exact submit_next_logs slot _ _ s

theorem dispatchToSlots_logs (busy slots : List Nat) (s : Sys σ) :
    Logs Event.sending s (dispatchToSlots w busy slots s) := by
  induction slots generalizing s with
  | nil => exact .refl s
  | cons i slots ih =>
      unfold dispatchToSlots
      split
      · exact .refl s
      · split
        · exact ih s
        · exact (submit_next_logs i _ _ s).trans (ih _)

theorem dispatchPendingToIdle_logs (s : Sys σ) :
    Logs Event.sending s (dispatchPendingToIdle w s) := by
  unfold dispatchPendingToIdle
  split
  · exact .refl s
  · exact dispatchToSlots_logs _ _ s

theorem fillPipeline_logs (available : List Nat) (s : Sys σ) :
    Logs Event.sending s (fillPipeline w available s).2 := by
  induction available generalizing s with
  | nil => exact .refl s
  | cons i available ih =>
      unfold fillPipeline
      split
      · exact .refl s
      · exact (submit_next_logs i _ _ s).trans (ih _)

/-! ## Recording and recovery -/

/-- Giving a batch up, and the abort, log no result. -/
theorem record_logs {cause : Cause} (hcause : cause ≠ .completed) (batch : Batch)
    (rows : List EvalResult) (s : Sys σ) :
    ActLogs Event.internal s (record w cause batch rows s) := by
  rcases record_cases (w := w) cause batch rows s with h | ⟨k, exc, -, -, h⟩
  · rw [h]
    refine Logs.one rfl ?_
    cases cause <;> simp_all [Event.internal]
  · rw [h]
    exact Logs.one rfl rfl

theorem deferEntries_logs (retryCount : Nat) (entries : List Entry) (s : Sys σ) :
    ActLogs Event.internal s (deferEntries w retryCount entries s) := by
  induction entries generalizing s with
  | nil => exact Logs.refl s
  | cons e rest ih =>
      unfold deferEntries
      dsimp only
      split
      · exact Logs.of_eq rfl
      · exact ActLogs.after (Logs.of_eq rfl) (ih _)

theorem recoverBatch_logs (f : Flight) (exc : Exc) (s : Sys σ) :
    ActLogs Event.internal s (recoverBatch w f exc s) := by
  have hcheck : Logs Event.internal s
      (checkAndReplaceIfPoisoned w f.slot (s.emit (.failed f exc))) :=
    (Logs.one rfl rfl).trans
      ((checkAndReplaceIfPoisoned_logs f.slot _).mono Event.internal_of_staffing)
  unfold recoverBatch handleFailure budgetOf
  refine ActLogs.after hcheck ?_
  generalize checkAndReplaceIfPoisoned w f.slot (s.emit (.failed f exc)) = s'
  cases w.cfg.taskMaxRetries f.batch with
  | error e => exact Logs.refl s'
  | ok b =>
      by_cases hgate : f.retryCount < b ∧ (classifyFailure exc = .transient ∨ 1 < f.batch.length)
      · simp only [Except.mapError, bind, Except.bind, pure, Except.pure, if_pos hgate]
        exact ActLogs.after (Logs.of_eq rfl) (deferEntries_logs _ _ _)
      · simp only [Except.mapError, bind, Except.bind, pure, Except.pure, if_neg hgate]
        have hcause : Cause.exception (classifyFailure exc) ≠ .completed := by simp
        have hrecord := record_logs (w := w) hcause
          f.batch (f.batch.map (w.cfg.failedRow f.slot exc.text (classifyFailure exc)))
          (s'.countFailed f.batch.length)
        revert hrecord
        cases record w (.exception (classifyFailure exc)) f.batch
          (f.batch.map (w.cfg.failedRow f.slot exc.text (classifyFailure exc)))
          (s'.countFailed f.batch.length) with
        | ok s'' => exact fun h => (Logs.of_eq rfl).trans h
        | error raised => exact fun h => (Logs.of_eq rfl).trans h

theorem requeueOrCondemn_logs (f : Flight) (s : Sys σ) :
    ActLogs Event.internal s (requeueOrCondemn w f s) := by
  unfold requeueOrCondemn budgetOf
  cases w.cfg.taskMaxRetries f.batch with
  | error e => exact Logs.refl s
  | ok b =>
      simp only [Except.mapError, bind, Except.bind]
      split
      · exact Logs.of_eq rfl
      · exact ActLogs.after (Logs.of_eq rfl) (record_logs (by simp) _ _ _)

/-- An eviction leaves the slots alone until the worker is replaced. -/
theorem requeueOrCondemn_workers {f : Flight} {s s' : Sys σ}
    (h : requeueOrCondemn w f s = .ok s') : s'.workers = s.workers := by
  unfold requeueOrCondemn budgetOf at h
  cases hb : w.cfg.taskMaxRetries f.batch with
  | error e => simp [hb, Except.mapError, bind, Except.bind] at h
  | ok b =>
      simp only [hb, Except.mapError, bind, Except.bind] at h
      split at h
      · simp only [pure, Except.pure, Except.ok.injEq] at h
        subst h
        rfl
      · rcases record_cases (w := w) .hung f.batch
          (f.batch.map (w.cfg.failedRow f.slot (w.cfg.hungError f.retryCount) .transient))
          (s.countFailed f.batch.length) with h' | ⟨k, exc, -, -, h'⟩
        · rw [h'] at h
          cases h
          rfl
        · rw [h'] at h
          cases h

end EvalHarness
