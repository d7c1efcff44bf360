import EvalHarness.Coordinator.State

set_option autoImplicit false

/-! # Worker replacement and the standby pool

`_create_workers`, `_replace_worker` with its blocking fallback, and the asynchronous refills of the
standby pool. None of these touches the batch tables; a `health_check` reply that is not an
exception counts as ready, whatever it says, exactly as in the source. -/

namespace EvalHarness

variable {σ : Type}

/-! ## Constructing actors -/

/-- The actor the next constructor call returns. -/
def Sys.freshHandle (s : Sys σ) (workerId : Nat) : Handle := ⟨s.nextActor, workerId⟩

/-- A constructor call that returned `h`. -/
def Sys.construct (s : Sys σ) (h : Handle) : Sys σ :=
  { s with nextActor := s.nextActor + 1 }.emit (.constructed h)

def Sys.setSlot (s : Sys σ) (slot : Nat) (h : Option Handle) : Sys σ :=
  { s with workers := s.workers.set slot h }

/-- Append `[elapsed_s, ready_pool_size]` to the pool timeline, at the clock reading `now`. -/
def Sys.samplePool (now : ℚ) (s : Sys σ) : Sys σ :=
  { s with stats := { s.stats with
      poolTimeline := s.stats.poolTimeline ++
        [(round3 (now - s.runStart), s.standbyPool.length)] } }

/-- `_sample_standby_pool`. -/
def sampleStandbyPool (w : World σ) (s : Sys σ) : Sys σ :=
  let s := s.call w
  s.samplePool s.ray.clock

/-- `ray.kill(handle, no_restart=True)`, its exceptions swallowed. -/
def killActor (w : World σ) (s : Sys σ) (h : Handle) : Sys σ :=
  (s.call w).emit (.killed h)

/-! ## Refills -/

/-- A refill attempt failed. -/
def Sys.countRefillFailure (s : Sys σ) : Sys σ :=
  { s with stats := { s.stats with refillFailures := s.stats.refillFailures + 1 } }

/-- The constructor call of a refill: it draws the next worker id. -/
def Sys.constructRefill (s : Sys σ) : Sys σ :=
  { s.construct (s.freshHandle s.nextWorkerId) with nextWorkerId := s.nextWorkerId + 1 }

/-- A refill with readiness ping submitted at `time` joins the in-flight list. -/
def Sys.addRefill (h : Handle) (time : ℚ) (attempt : Nat) (s : Sys σ) : Sys σ :=
  { s with
    standbyRefills := s.standbyRefills ++ [⟨h, time, attempt⟩]
    stats := { s.stats with refillsStarted := s.stats.refillsStarted + 1 } }

/-- A standby that answered its ping joins the pool. -/
def Sys.joinPool (h : Handle) (healthy : Bool) (s : Sys σ) : Sys σ :=
  { s.emit (.probed h healthy) with
    standbyPool := s.standbyPool ++ [h]
    stats := { s.stats with refillsCompleted := s.stats.refillsCompleted + 1 } }

/-- `_start_standby_refill`: submit a construction without waiting on it. -/
def startStandbyRefill (w : World σ) (attempt : Nat) (s : Sys σ) : Sys σ :=
  let construct := (s.reply w).construct
  let s := s.call w
  match construct with
  | some _ => s.countRefillFailure
  | none =>
      let h := s.freshHandle s.nextWorkerId
      let s := s.constructRefill.call w
      s.addRefill h s.ray.clock attempt

/-- `_fail_refill`: kill the actor and retry up to `STANDBY_REFILL_MAX_ATTEMPTS`. -/
def failRefill (w : World σ) (h : Handle) (attempt : Nat) (s : Sys σ) : Sys σ :=
  let s := killActor w s.countRefillFailure h
  if attempt + 1 < standbyRefillMaxAttempts then startStandbyRefill w (attempt + 1) s else s

/-- One round of `_poll_standby_refills` over an in-flight refill taken off the list. -/
def pollRefill (w : World σ) (s : Sys σ) (rf : Refill) : Sys σ :=
  let ready := (s.reply w).ready
  let s := s.call w
  if ready then
    let call := s.ray.step
    let health := (s.reply w).health
    let validate := (s.reply w).validate
    let s := (s.call w).emit (.checked rf.handle (some call))
    match health, validate with
    | .ok healthy, none => sampleStandbyPool w (s.joinPool rf.handle healthy)
    | _, _ => failRefill w rf.handle rf.attempt s
  else
    let s := s.call w
    if workerInitTimeoutS < s.ray.clock - rf.submittedAt then
      failRefill w rf.handle rf.attempt (s.emit (.checked rf.handle none))
    else
      { s with standbyRefills := s.standbyRefills ++ [rf] }

/-- `_poll_standby_refills`: the list is emptied first, so that a retry started meanwhile is not
    polled in the same round. -/
def pollStandbyRefills (w : World σ) (s : Sys σ) : Sys σ :=
  s.standbyRefills.foldl (pollRefill w) { s with standbyRefills := [] }

/-! ## Replacement -/

/-- One attempt of `_blocking_replace`: the new worker, or the exception that ended the attempt. An
    actor whose readiness check or validation raised is left behind. -/
def attemptReplace (w : World σ) (slot : Nat) (s : Sys σ) : Bool × Sys σ :=
  let construct := (s.reply w).construct
  let s := s.call w
  match construct with
  | some _ => (false, s)
  | none =>
      let h := s.freshHandle slot
      let s := s.construct h
      let call := s.ray.step
      let health := (s.reply w).health
      let validate := (s.reply w).validate
      let s := (s.call w).emit (.checked h (some call))
      match health, validate with
      | .error exc, _ => (false, s.emit (.attemptFailed h exc))
      | .ok _, some exc => (false, s.emit (.attemptFailed h exc))
      | .ok healthy, none => (true, (s.emit (.probed h healthy)).setSlot slot (some h))

/-- `_blocking_replace` with `left` of `maxAttempts` attempts to go. -/
def blockingReplace (w : World σ) (slot maxAttempts : Nat) : Nat → Sys σ → Bool × Sys σ
  | 0, s => (false, s)
  | left + 1, s =>
      match attemptReplace w slot s with
      | (true, s) => (true, s)
      | (false, s) =>
          blockingReplace w slot maxAttempts left (s.sleep w (2 * (maxAttempts - left : Nat)))

/-- Empty a slot, and note the kill of its actor if it had one. -/
def Sys.vacate (slot : Nat) (s : Sys σ) : Sys σ :=
  { s.setSlot slot none with
    metrics := { s.metrics with replaced := s.metrics.replaced + 1 }
    log := (((s.workers[slot]?).join).map Event.killed).toList ++ s.log }

/-- Take the standby that became ready last out of the pool and into a slot. -/
def Sys.promote (slot : Nat) (h : Handle) (s : Sys σ) : Sys σ :=
  { s.setSlot slot (some h) with
    standbyPool := s.standbyPool.dropLast
    stats := { s.stats with promotions := s.stats.promotions + 1 } }

/-- A replacement found a configured pool empty. -/
def Sys.countFallback (s : Sys σ) : Sys σ :=
  { s with stats := { s.stats with fallbacks := s.stats.fallbacks + 1 } }

/-- `_replace_worker`: empty the slot and kill its actor, then promote the standby that became ready
    last, or construct a replacement and wait for it. -/
def replaceWorker (w : World σ) (slot : Nat) (s : Sys σ) : Bool × Sys σ :=
  let s := (s.vacate slot).call w
  match s.standbyPool.getLast? with
  | some promoted => (true, startStandbyRefill w 0 (sampleStandbyPool w (s.promote slot promoted)))
  | none =>
      let s := if 0 < w.cfg.standby then s.countFallback else s
      blockingReplace w slot replaceMaxAttempts replaceMaxAttempts s

/-- `_check_and_replace_if_poisoned`: health-check the worker of a slot; replace it if it is
    unreachable or reports unhealthy. -/
def checkAndReplaceIfPoisoned (w : World σ) (slot : Nat) (s : Sys σ) : Sys σ :=
  match (s.workers[slot]?).join with
  | none => s
  | some _ =>
      let health := (s.reply w).health
      let s := s.call w
      match health with
      | .ok true => s
      | _ => (replaceWorker w slot s).2

/-! ## Startup -/

/-- Construct the actors with the given worker ids, one after the other. -/
def constructAll (w : World σ) : List Nat → Sys σ → Act σ (List Handle × Sys σ)
  | [], s => .ok ([], s)
  | id :: ids, s =>
      let construct := (s.reply w).construct
      let s := s.call w
      match construct with
      | some exc => .error ⟨exc, s⟩
      | none =>
          let h := s.freshHandle id
          (constructAll w ids (s.construct h)).map (fun r => (h :: r.1, r.2))

/-- The error of a pool that is not up in time. -/
def Config.initTimeoutError (cfg : Config) : Exc where
  cls := "RuntimeError"
  text := "Workers did not become healthy within 120.0s. Most common cause: " ++
    s!"--workers ({cfg.nWorkers}) + --standby ({cfg.standby}) exceeds available GPUs, or the " ++
    s!"model '{cfg.modelName}' failed to load. Check `ray status` and worker logs."

/-- The init barrier: every actor answers its first health check. -/
def awaitHealthy (w : World σ) : List Handle → Sys σ → Act σ (Sys σ)
  | [], s => .ok s
  | h :: hs, s =>
      let call := s.ray.step
      let health := (s.reply w).health
      let s := s.call w
      match health with
      | .error exc =>
          .error ⟨if exc.cls = "GetTimeoutError" then w.cfg.initTimeoutError else exc, s⟩
      | .ok healthy =>
          awaitHealthy w hs ((s.emit (.checked h (some call))).emit (.probed h healthy))

/-- `validate_backend` of every actor. -/
def validateAll (w : World σ) : List Handle → Sys σ → Act σ (Sys σ)
  | [], s => .ok s
  | _ :: hs, s =>
      let validate := (s.reply w).validate
      let s := s.call w
      match validate with
      | some exc => .error ⟨exc, s⟩
      | none => validateAll w hs s

/-- `_create_workers`: primaries and standbys from the same factory, one barrier for all. -/
def createWorkers (w : World σ) (s : Sys σ) : Act σ (Sys σ) := do
  let n := w.cfg.nWorkers
  let (workers, s) ← constructAll w (List.range n) s
  let s := { s with
    standbyPool := [], standbyRefills := [], nextWorkerId := n, stats := {} }
  let (standbys, s) ← constructAll w (List.range' n w.cfg.standby) s
  let s := { s with nextWorkerId := n + w.cfg.standby }
  let s ← awaitHealthy w (workers ++ standbys) s
  let s ← validateAll w (workers ++ standbys) s
  let s := sampleStandbyPool w { s with standbyPool := standbys }
  return { s with workers := workers.map some }

end EvalHarness
