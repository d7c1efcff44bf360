import EvalHarness.Coordinator.Loop

set_option autoImplicit false

/-! # The submissions of refills

Where in an iteration of the loop `_start_standby_refill` is called: for a refill that failed while
it was polled, and by every replacement that promotes a standby. Past the polling, nothing but these
promotions touches the pool and the refills in flight. -/

namespace EvalHarness

variable {σ : Type} {w : World σ}

/-- A call of `_start_standby_refill`: its attempt, and the state it is made in. -/
structure Submission (σ : Type) where
  attempt : Nat
  sys : Sys σ

/-- Its constructor call raises. -/
def Submission.refused (w : World σ) (sub : Submission σ) : Bool :=
  (sub.sys.reply w).construct.isSome

/-! ## Where they are made -/

/-- Whether a refill that is polled fails: its ping raises, its backend is not valid, or the ping is
    still unanswered when its time is over. -/
def refillFails (w : World σ) (s : Sys σ) (rf : Refill) : Bool :=
  let next := s.call w
  if (s.reply w).ready then
    match (next.reply w).health, (next.reply w).validate with
    | .ok _, none => false
    | _, _ => true
  else
    workerInitTimeoutS < (next.call w).ray.clock - rf.submittedAt

/-- The state in which a refill that is polled is found to have failed. -/
def refillChecked (w : World σ) (s : Sys σ) (rf : Refill) : Sys σ :=
  ((s.call w).call w).emit
    (.checked rf.handle (if (s.reply w).ready then some (s.call w).ray.step else none))

/-- In `_fail_refill`. -/
def pollSubmissions (w : World σ) (s : Sys σ) (rf : Refill) : List (Submission σ) :=
  if refillFails w s rf ∧ rf.attempt + 1 < standbyRefillMaxAttempts then
    [⟨rf.attempt + 1, killActor w (refillChecked w s rf).countRefillFailure rf.handle⟩]
  else []

/-- In `_poll_standby_refills`, over refills taken off the list. -/
def pollAllSubmissions (w : World σ) : List Refill → Sys σ → List (Submission σ)
  | [], _ => []
  | rf :: refills, s => pollSubmissions w s rf ++ pollAllSubmissions w refills (pollRefill w s rf)

/-- In `_replace_worker`. -/
def replaceSubmissions (w : World σ) (slot : Nat) (s : Sys σ) : List (Submission σ) :=
  let s := (s.vacate slot).call w
  match s.standbyPool.getLast? with
  | some promoted => [⟨0, sampleStandbyPool w (s.promote slot promoted)⟩]
  | none => []

/-- In `_check_and_replace_if_poisoned`. -/
def checkSubmissions (w : World σ) (slot : Nat) (s : Sys σ) : List (Submission σ) :=
  match (s.workers[slot]?).join with
  | none => []
  | some _ =>
      match (s.reply w).health with
      | .ok true => []
      | _ => replaceSubmissions w slot (s.call w)

/-- In the harvest of a resolved ref. -/
def harvestSubmissions (w : World σ) (ref : ObjectRef) (out : Outcome) (s : Sys σ) :
    List (Submission σ) :=
  match s.active.get? ref with
  | none => []
  | some f =>
      match settleBatch w f out (((s.dropRef ref).emit (.harvested ref f)).call w) with
      | .ok _ => []
      | .error raised => checkSubmissions w f.slot (raised.sys.emit (.failed f raised.exc))

/-- At one ref of the timeout scan. -/
def scanSubmissions (w : World σ) (now : ℚ) (s : Sys σ) (ref : ObjectRef) : List (Submission σ) :=
  match s.active.get? ref with
  | none => []
  | some f =>
      let submittedAt := (s.refTimeouts.get? ref).getD now
      let resolved := (s.ray.resolved.get? ref).isSome
      let s := s.emit (.visited ref now submittedAt resolved)
      if now - submittedAt < w.cfg.hangThresholdS then []
      else
        match requeueOrCondemn w f ((s.dropRef ref).emit (.evicted ref f resolved)) with
        | .ok s => replaceSubmissions w f.slot s
        | .error _ => []

/-- In the timeout scan, over the refs still to be looked at. -/
def scanAllSubmissions (w : World σ) (now : ℚ) : List ObjectRef → Sys σ → List (Submission σ)
  | [], _ => []
  | ref :: refs, s =>
      scanSubmissions w now s ref ++
        match scanRef w now s ref with
        | .ok s => scanAllSubmissions w now refs s
        | .error _ => []

/-- In `_handle_timeouts`. -/
def timeoutSubmissions (w : World σ) (s : Sys σ) : List (Submission σ) :=
  let s := s.call w
  scanAllSubmissions w s.ray.clock s.active.keys s

/-- In the wait for a ref and what follows it. -/
def waitSubmissions (w : World σ) (s : Sys σ) : List (Submission σ) :=
  let s := s.emit (.waiting s.toTables)
  let pick := (s.reply w).pick
  let s := s.call w
  match s.ray.wait pick s.active.keys with
  | some (ref, out) =>
      harvestSubmissions w ref out s ++
        match harvest w ref out s with
        | .ok s => timeoutSubmissions w s
        | .error _ => []
  | none => timeoutSubmissions w s

/-- While the refills in flight are polled in an iteration. -/
def polledSubmissions (w : World σ) (s : Sys σ) : List (Submission σ) :=
  pollAllSubmissions w s.standbyRefills { s with standbyRefills := [] }

/-- In the rest of an iteration. -/
def promotedSubmissions (w : World σ) (s : Sys σ) : List (Submission σ) :=
  if (dispatchPhase w s).active.keys.isEmpty then [] else waitSubmissions w (dispatchPhase w s)

/-! ## Promotions -/

/-- What promotions do to the pool and to the refills in flight, given their submissions. -/
structure Promoted (w : World σ) (s s' : Sys σ) (subs : List (Submission σ)) : Prop where
  pool : s'.standbyPool.length + subs.length = s.standbyPool.length
  promotions : s'.stats.promotions = s.stats.promotions + subs.length
  refills : s'.standbyRefills.map Refill.attempt = s.standbyRefills.map Refill.attempt
    ++ List.replicate (subs.countP (fun sub => !sub.refused w)) 0
  first : ∀ sub ∈ subs, sub.attempt = 0

/-- Where there are none, the pool and the refills in flight stay as they are. -/
theorem Promoted.none {s s' : Sys σ} (hpool : s'.standbyPool = s.standbyPool)
    (hpromotions : s'.stats.promotions = s.stats.promotions)
    (hrefills : s'.standbyRefills = s.standbyRefills) : Promoted w s s' [] where
  pool := by rw [hpool]; rfl
  promotions := hpromotions
  refills := by simp [hrefills]
  first := fun _ h => absurd h List.not_mem_nil

theorem Promoted.trans {a b c : Sys σ} {subs subs' : List (Submission σ)}
    (h : Promoted w a b subs) (h' : Promoted w b c subs') : Promoted w a c (subs ++ subs') where
  pool := by
    rw [List.length_append, ← h.pool, ← h'.pool]
    omega
  promotions := by
    rw [List.length_append, h'.promotions, h.promotions]
    omega
  refills := by
    rw [h'.refills, h.refills, List.countP_append, List.append_assoc,
      List.replicate_append_replicate]
  first := by
    intro sub hsub
    rcases List.mem_append.1 hsub with hin | hin
    · exact h.first sub hin
    · exact h'.first sub hin

theorem Promoted.trans_none {a b c : Sys σ} {subs : List (Submission σ)}
    (h : Promoted w a b subs) (h' : Promoted w b c []) : Promoted w a c subs := by
  have htrans := h.trans h'
  rwa [List.append_nil] at htrans

/-- What leaves the pool and the refills in flight alone may come first. -/
theorem Promoted.after {a b c : Sys σ} {subs : List (Submission σ)} (h : Promoted w b c subs)
    (hpool : b.standbyPool = a.standbyPool) (hpromotions : b.stats.promotions = a.stats.promotions)
    (hrefills : b.standbyRefills = a.standbyRefills) : Promoted w a c subs :=
  (Promoted.none hpool hpromotions hrefills).trans h

theorem Promoted.refl (s : Sys σ) : Promoted w s s [] := .none rfl rfl rfl

/-! ## Dispatch -/

theorem submit_promoted (slot : Nat) (e : Entry) (rest : List Entry) (s : Sys σ) :
    Promoted w s (submit w slot e { s with pending := rest }) [] := by
  unfold submit
  split
  · exact .none rfl rfl rfl
  · exact .none rfl rfl rfl

theorem assignNext_promoted (slot : Nat) (s : Sys σ) :
    Promoted w s (assignNext w slot s) [] := by
  unfold assignNext
  split
  · exact .refl s
  · next e rest _ => exact submit_promoted slot e rest s

theorem fillPipeline_promoted (available : List Nat) (s : Sys σ) :
    Promoted w s (fillPipeline w available s).2 [] := by
  induction available generalizing s with
  | nil => exact .refl s
  | cons i available ih =>
      unfold fillPipeline
      split
      · exact .refl s
      · next e rest _ => exact (submit_promoted i e rest s).trans_none (ih _)

theorem dispatchPendingToIdle_promoted (s : Sys σ) :
    Promoted w s (dispatchPendingToIdle w s) [] := by
  have hslots : ∀ (busy slots : List Nat) (s : Sys σ),
      Promoted w s (dispatchToSlots w busy slots s) [] := by
    intro busy slots
    induction slots with
    | nil => exact fun s => .refl s
    | cons i slots ih =>
        intro s
        unfold dispatchToSlots
        split
        · exact .refl s
        · next e rest _ =>
            split
            · exact ih s
            · exact (submit_promoted i e rest s).trans_none (ih _)
  unfold dispatchPendingToIdle
  split
  · exact .refl s
  · exact hslots _ _ s

theorem dispatchPhase_promoted (s : Sys σ) :
    Promoted w (pollStandbyRefills w s) (dispatchPhase w s) [] :=
  (dispatchPendingToIdle_promoted (promoteReadyRetries w (pollStandbyRefills w s))).after
    rfl rfl rfl

/-! ## Replacement -/

theorem blockingReplace_promoted (slot maxAttempts left : Nat) (s : Sys σ) :
    Promoted w s (blockingReplace w slot maxAttempts left s).2 [] := by
  have hattempt : ∀ s : Sys σ, Promoted w s (attemptReplace w slot s).2 [] := by
    intro s
    unfold attemptReplace
    dsimp only
    generalize hbuilt : (s.call w).construct ((s.call w).freshHandle slot) = built
    have hconstruct : Promoted w s built [] := hbuilt ▸ .none rfl rfl rfl
    split
    · exact .none rfl rfl rfl
    · split <;> exact hconstruct.trans_none (.none rfl rfl rfl)
  induction left generalizing s with
  | zero => exact .refl s
  | succ left ih =>
      have hone := hattempt s
      unfold blockingReplace
      split
      · next s' heq =>
          rw [heq] at hone
          exact hone
      · next s' heq =>
          rw [heq] at hone
          exact hone.trans_none ((ih _).after rfl rfl rfl)

/-- A refill attempt is in flight, or its constructor call raised. -/
theorem startStandbyRefill_refills (attempt : Nat) (s : Sys σ) :
    (startStandbyRefill w attempt s).standbyRefills.map Refill.attempt
      = s.standbyRefills.map Refill.attempt
        ++ if (⟨attempt, s⟩ : Submission σ).refused w then [] else [attempt] := by
  unfold startStandbyRefill Submission.refused
  cases (s.reply w).construct with
  | none =>
      show (s.standbyRefills ++ [_]).map Refill.attempt = _
      rw [List.map_append]
      rfl
  | some exc => exact (List.append_nil _).symm

theorem startStandbyRefill_pool (attempt : Nat) (s : Sys σ) :
    (startStandbyRefill w attempt s).standbyPool = s.standbyPool
      ∧ (startStandbyRefill w attempt s).stats.promotions = s.stats.promotions := by
  unfold startStandbyRefill
  cases (s.reply w).construct <;> exact ⟨rfl, rfl⟩

theorem promote_promoted {slot : Nat} {h : Handle} {s : Sys σ}
    (hpool : s.standbyPool.getLast? = some h) :
    Promoted w s (startStandbyRefill w 0 (sampleStandbyPool w (s.promote slot h)))
      [⟨0, sampleStandbyPool w (s.promote slot h)⟩] := by
  obtain ⟨hkept, hcount⟩ :=
    startStandbyRefill_pool (w := w) 0 (sampleStandbyPool w (s.promote slot h))
  refine ⟨?_, hcount, ?_, fun sub hsub => by rw [List.mem_singleton.1 hsub]⟩
  · rw [hkept, ← List.dropLast_append_getLast? h hpool, List.length_append]
    rfl
  · rw [startStandbyRefill_refills, List.countP_singleton]
    cases (⟨0, sampleStandbyPool w (s.promote slot h)⟩ : Submission σ).refused w <;> rfl

theorem replaceWorker_promoted (slot : Nat) (s : Sys σ) :
    Promoted w s (replaceWorker w slot s).2 (replaceSubmissions w slot s) := by
  have hvacate : Promoted w s ((s.vacate slot).call w) [] := .none rfl rfl rfl
  unfold replaceWorker replaceSubmissions
  dsimp only
  cases hpool : ((s.vacate slot).call w).standbyPool.getLast? with
  | some h => exact hvacate.trans (promote_promoted hpool)
  | none =>
      refine hvacate.trans_none ?_
      dsimp only
      split
      · exact (blockingReplace_promoted slot _ _ _).after rfl rfl rfl
      · exact blockingReplace_promoted slot _ _ _

theorem checkAndReplaceIfPoisoned_promoted (slot : Nat) (s : Sys σ) :
    Promoted w s (checkAndReplaceIfPoisoned w slot s) (checkSubmissions w slot s) := by
  have hcall : Promoted w s (s.call w) [] := .none rfl rfl rfl
  unfold checkAndReplaceIfPoisoned checkSubmissions
  dsimp only
  cases (s.workers[slot]?).join with
  | none => exact .refl s
  | some old =>
      cases (s.reply w).health with
      | error exc => exact hcall.trans (replaceWorker_promoted slot (s.call w))
      | ok healthy =>
          cases healthy with
          | true => exact hcall
          | false => exact hcall.trans (replaceWorker_promoted slot (s.call w))

/-! ## Harvest -/

theorem record_promoted (cause : Cause) (batch : Batch) (rows : List EvalResult) (s : Sys σ) :
    (∀ s', record w cause batch rows s = .ok s' → Promoted w s s' [])
      ∧ ∀ raised, record w cause batch rows s = .error raised → Promoted w s raised.sys [] := by
  rcases record_cases (w := w) cause batch rows s with h | ⟨k, exc, -, -, h⟩
  · rw [h]
    refine ⟨fun s' heq => ?_, fun raised heq => by cases heq⟩
    rw [← Except.ok.inj heq]
    exact .none rfl rfl rfl
  · rw [h]
    refine ⟨fun s' heq => (by cases heq), fun raised heq => ?_⟩
    rw [← Except.error.inj heq]
    exact .none rfl rfl rfl

theorem settleBatch_promoted (f : Flight) (out : Outcome) (s : Sys σ) :
    (∀ s', settleBatch w f out s = .ok s' → Promoted w s s' [])
      ∧ ∀ raised, settleBatch w f out s = .error raised → Promoted w s raised.sys [] := by
  cases out with
  | ok results =>
      obtain ⟨hok, herror⟩ := record_promoted (w := w) .completed f.batch results
        (s.countCompleted results.length)
      exact ⟨fun s' h => (hok s' h).after rfl rfl rfl, fun r h => (herror r h).after rfl rfl rfl⟩
  | error exc =>
      refine ⟨fun s' heq => (by cases heq), fun raised heq => ?_⟩
      rw [← Except.error.inj heq]
      exact .refl s

theorem deferEntries_promoted (retryCount : Nat) : ∀ (entries : List Entry) (s s' : Sys σ),
    deferEntries w retryCount entries s = .ok s' → Promoted w s s' [] := by
  intro entries
  induction entries with
  | nil =>
      intro s s' h
      rw [← Except.ok.inj h]
      exact .refl s
  | cons e rest ih =>
      intro s s' h
      unfold deferEntries at h
      dsimp only at h
      split at h
      · cases h
      · exact (ih _ s' h).after rfl rfl rfl

theorem handleFailure_promoted {exc : Exc} {f : Flight} {s : Sys σ} {decided : Bool × Sys σ}
    (h : handleFailure w exc f s = .ok decided) :
    Promoted w s decided.2 (checkSubmissions w f.slot s) := by
  have hcheck := checkAndReplaceIfPoisoned_promoted (w := w) f.slot s
  refine hcheck.trans_none ?_
  obtain ⟨b, -, hgate⟩ := Act.bind_ok.1 h
  split at hgate
  · rw [← Except.ok.inj hgate]
    exact .refl _
  · obtain ⟨recorded, hrecord, hret⟩ := Act.bind_ok.1 hgate
    rw [← Except.ok.inj hret]
    exact ((record_promoted _ _ _ _).1 recorded hrecord).after rfl rfl rfl

theorem recoverBatch_promoted {f : Flight} {exc : Exc} {s s' : Sys σ}
    (h : recoverBatch w f exc s = .ok s') :
    Promoted w s s' (checkSubmissions w f.slot (s.emit (.failed f exc))) := by
  obtain ⟨decided, hdecided, hretry⟩ := Act.bind_ok.1 h
  have hhandled := handleFailure_promoted hdecided
  refine Promoted.after (b := s.emit (.failed f exc)) (hhandled.trans_none ?_) rfl rfl rfl
  dsimp only at hretry
  split at hretry
  · exact (deferEntries_promoted _ _ _ s' hretry).after rfl rfl rfl
  · rw [← Except.ok.inj hretry]
    exact .refl _

theorem harvest_promoted {ref : ObjectRef} {out : Outcome} {s s' : Sys σ}
    (h : harvest w ref out s = .ok s') :
    Promoted w s s' (harvestSubmissions w ref out s) := by
  unfold harvest at h
  unfold harvestSubmissions
  cases hf : s.active.get? ref with
  | none =>
      rw [hf] at h
      cases h
  | some f =>
      rw [hf] at h
      dsimp only at h ⊢
      obtain ⟨hok, herror⟩ := settleBatch_promoted (w := w) f out
        (((s.dropRef ref).emit (.harvested ref f)).call w)
      cases hsettle : settleBatch w f out (((s.dropRef ref).emit (.harvested ref f)).call w) with
      | ok settled =>
          rw [hsettle] at h
          rw [← Except.ok.inj h]
          exact ((hok settled hsettle).trans_none (assignNext_promoted f.slot settled)).after
            rfl rfl rfl
      | error raised =>
          rw [hsettle] at h
          obtain ⟨recovered, hrecover, hassign⟩ := Act.bind_ok.1 h
          rw [← Except.ok.inj hassign]
          have hwhole := ((herror raised hsettle).trans (recoverBatch_promoted hrecover)).trans_none
            (assignNext_promoted f.slot recovered)
          exact hwhole.after rfl rfl rfl

/-! ## Timeout scan -/

theorem requeueOrCondemn_promoted {f : Flight} {s s' : Sys σ}
    (h : requeueOrCondemn w f s = .ok s') : Promoted w s s' [] := by
  obtain ⟨b, -, hgate⟩ := Act.bind_ok.1 h
  split at hgate
  · rw [← Except.ok.inj hgate]
    exact .none rfl rfl rfl
  · exact ((record_promoted _ _ _ _).1 s' hgate).after rfl rfl rfl

theorem scanRef_promoted {now : ℚ} {ref : ObjectRef} {s s' : Sys σ}
    (h : scanRef w now s ref = .ok s') : Promoted w s s' (scanSubmissions w now s ref) := by
  unfold scanRef at h
  unfold scanSubmissions
  cases hf : s.active.get? ref with
  | none =>
      rw [hf] at h
      rw [← Except.ok.inj h]
      exact .refl s
  | some f =>
      rw [hf] at h
      dsimp only at h ⊢
      split at h
      · next hage =>
          rw [← Except.ok.inj h, if_pos hage]
          exact .none rfl rfl rfl
      · next hage =>
          rw [if_neg hage]
          generalize hvisited : s.emit (.visited ref now ((s.refTimeouts.get? ref).getD now)
            (s.ray.resolved.get? ref).isSome) = visited at h ⊢
          obtain ⟨requeued, hrequeue, hassign⟩ := Act.bind_ok.1 h
          have hwhole := ((requeueOrCondemn_promoted hrequeue).trans
            (replaceWorker_promoted f.slot requeued)).trans_none
              (assignNext_promoted f.slot (replaceWorker w f.slot requeued).2)
          rw [hrequeue, ← Except.ok.inj hassign]
          rw [← hvisited] at hwhole
          exact hwhole.after rfl rfl rfl

theorem scanAll_promoted {now : ℚ} : ∀ (refs : List ObjectRef) {s s' : Sys σ},
    refs.foldlM (scanRef w now) s = .ok s' →
      Promoted w s s' (scanAllSubmissions w now refs s) := by
  intro refs
  induction refs with
  | nil =>
      intro s s' h
      rw [← Except.ok.inj h]
      exact .refl s
  | cons ref refs ih =>
      intro s s' h
      rw [List.foldlM_cons] at h
      obtain ⟨scanned, hone, hrest⟩ := Act.bind_ok.1 h
      rw [scanAllSubmissions, hone]
      exact (scanRef_promoted hone).trans (ih hrest)

theorem handleTimeouts_promoted {s s' : Sys σ} (h : handleTimeouts w s = .ok s') :
    Promoted w s s' (timeoutSubmissions w s) :=
  (scanAll_promoted (s.call w).active.keys h).after rfl rfl rfl

/-! ## An iteration -/

theorem waitAndHarvest_promoted {s s' : Sys σ} (h : waitAndHarvest w s = .ok s') :
    Promoted w s s' (waitSubmissions w s) := by
  unfold waitAndHarvest at h
  unfold waitSubmissions
  dsimp only at h ⊢
  have hwait : Promoted w s ((s.emit (.waiting s.toTables)).call w) [] := .none rfl rfl rfl
  generalize ((s.emit (.waiting s.toTables)).reply w).pick = pick at h ⊢
  generalize (s.emit (.waiting s.toTables)).call w = waited at h hwait ⊢
  cases hw : waited.ray.wait pick waited.active.keys with
  | none =>
      rw [hw] at h
      exact hwait.trans (handleTimeouts_promoted h)
  | some done =>
      rw [hw] at h
      obtain ⟨harvested, hharvest, htimeouts⟩ := Act.bind_ok.1 h
      dsimp only at hharvest ⊢
      rw [hharvest]
      exact hwait.trans ((harvest_promoted hharvest).trans (handleTimeouts_promoted htimeouts))

/-- Past the polling, an iteration makes promotions and nothing else of the pool. -/
theorem iteration_promoted {s s' : Sys σ} (h : iteration w s = .head s') :
    Promoted w (pollStandbyRefills w s) s' (promotedSubmissions w s) := by
  have hdispatch := dispatchPhase_promoted (w := w) s
  unfold promotedSubmissions
  rw [iteration_eq] at h
  split at h
  · split at h <;> cases h
  · split at h
    · next hempty =>
        rw [if_pos hempty]
        cases h
        exact hdispatch.trans_none (.none rfl rfl rfl)
    · next hne =>
        rw [if_neg hne]
        split at h
        · next harvested hw =>
            cases h
            exact hdispatch.trans (waitAndHarvest_promoted hw)
        · cases h

end EvalHarness
