import EvalHarness.Coordinator.Run

set_option autoImplicit false

/-! # The state `_create_workers` leaves

The actors of a run are numbered by construction, and at startup the worker ids run with them:
actor `k` has worker id `k`, the first `n_workers` of them in the slots, the others in the pool. -/

namespace EvalHarness

variable {σ : Type} {w : World σ}

/-- The `k`-th actor constructed at startup. -/
def startHandle (k : Nat) : Handle := ⟨k, k⟩

/-- The coordinator when `_create_workers` has returned. -/
structure Started (w : World σ) (s : Sys σ) : Prop where
  workers : s.workers = (List.range w.cfg.nWorkers).map (fun k => some (startHandle k))
  pending : s.pending = []
  deferred : s.deferred = []
  active : s.active = Dict.empty
  refTimeouts : s.refTimeouts = Dict.empty
  standbyPool : s.standbyPool = (List.range' w.cfg.nWorkers w.cfg.standby).map startHandle
  standbyRefills : s.standbyRefills = []
  nextWorkerId : s.nextWorkerId = w.cfg.nWorkers + w.cfg.standby
  stats : ∃ time, s.stats = { poolTimeline := [(time, w.cfg.standby)] }
  splitCount : s.splitCount = 0
  metrics : s.metrics = {}
  nextActor : s.nextActor = w.cfg.nWorkers + w.cfg.standby
  nextCall : s.nextCall = 0
  inFlight : s.ray.inFlight = Dict.empty
  resolved : s.ray.resolved = Dict.empty
  backend : s.ray.backend = w.backend
  executed : s.ray.executed = []
  log : ∃ probes, s.log = probes ++ ((List.range (w.cfg.nWorkers + w.cfg.standby)).map
      (fun k => Event.constructed (startHandle k))).reverse ∧
    ∀ e ∈ probes, (∃ h call, e = .checked h call) ∨ ∃ h b, e = .probed h b

/-- Nothing has been submitted to a worker yet. -/
def RayState.Unused (w : World σ) (r : RayState σ) : Prop :=
  r.inFlight = Dict.empty ∧ r.resolved = Dict.empty ∧ r.backend = w.backend ∧ r.executed = []

theorem RayState.Unused.call {r : RayState σ} (h : r.Unused w) (reply : Reply) (d : ℚ) :
    (r.call w.evaluateBatch reply d).Unused w := by
  refine RayState.call_induct (fun r' => r'.Unused w) h ?_
  intro r' ref h'
  have hnone : r'.inFlight.get? ref = none := by rw [h'.1]; rfl
  rw [RayState.execute, hnone]
  exact h'

/-- What the startup loops leave alone: they construct actors, log, and let time pass. -/
structure Booting (w : World σ) (s s' : Sys σ) : Prop where
  tables : s'.toTables = s.toTables
  standbyRefills : s'.standbyRefills = s.standbyRefills
  stats : s'.stats = s.stats
  splitCount : s'.splitCount = s.splitCount
  metrics : s'.metrics = s.metrics
  nextCall : s'.nextCall = s.nextCall
  unused : s.ray.Unused w → s'.ray.Unused w

theorem Booting.refl (s : Sys σ) : Booting w s s := ⟨rfl, rfl, rfl, rfl, rfl, rfl, id⟩

theorem Booting.trans {a b c : Sys σ} (h : Booting w a b) (h' : Booting w b c) :
    Booting w a c where
  tables := h'.tables.trans h.tables
  standbyRefills := h'.standbyRefills.trans h.standbyRefills
  stats := h'.stats.trans h.stats
  splitCount := h'.splitCount.trans h.splitCount
  metrics := h'.metrics.trans h.metrics
  nextCall := h'.nextCall.trans h.nextCall
  unused := fun hu => h'.unused (h.unused hu)

theorem Booting.call (s : Sys σ) : Booting w s (s.call w) :=
  ⟨rfl, rfl, rfl, rfl, rfl, rfl, fun hu => hu.call _ 0⟩

section Keeps

variable {β : Type} (f : Sys σ → β)

/-- What no construction changes is as it was after all of them. -/
theorem constructAll_keeps
    (hf : ∀ s id, f ((s.call w).construct ((s.call w).freshHandle id)) = f s) {ids : List Nat}
    {s : Sys σ} {r : List Handle × Sys σ} (h : constructAll w ids s = .ok r) : f r.2 = f s := by
  induction ids generalizing s r with
  | nil =>
      simp only [constructAll, Except.ok.injEq] at h
      subst h
      rfl
  | cons id ids ih =>
      simp only [constructAll] at h
      split at h
      · cases h
      · cases hrec : constructAll w ids ((s.call w).construct ((s.call w).freshHandle id)) with
        | error raised => rw [hrec] at h; cases h
        | ok r' =>
            rw [hrec] at h
            cases h
            exact (ih hrec).trans (hf s id)

theorem awaitHealthy_keeps
    (hf : ∀ s hd call healthy,
      f (((s.call w).emit (.checked hd (some call))).emit (.probed hd healthy)) = f s)
    {hs : List Handle} {s s' : Sys σ} (h : awaitHealthy w hs s = .ok s') : f s' = f s := by
  induction hs generalizing s with
  | nil =>
      simp only [awaitHealthy, Except.ok.injEq] at h
      subst h
      rfl
  | cons hd hs ih =>
      simp only [awaitHealthy] at h
      split at h
      · cases h
      · next healthy _ => exact (ih h).trans (hf s hd s.ray.step healthy)

theorem validateAll_keeps (hf : ∀ s, f (s.call w) = f s) {hs : List Handle} {s s' : Sys σ}
    (h : validateAll w hs s = .ok s') : f s' = f s := by
  induction hs generalizing s with
  | nil =>
      simp only [validateAll, Except.ok.injEq] at h
      subst h
      rfl
  | cons hd hs ih =>
      simp only [validateAll] at h
      split at h
      · cases h
      · exact (ih h).trans (hf s)

end Keeps

theorem constructAll_spec (m k : Nat) (s : Sys σ) (hk : s.nextActor = k) (hs : List Handle)
    (s' : Sys σ) (h : constructAll w (List.range' k m) s = .ok (hs, s')) :
    hs = (List.range' k m).map startHandle ∧ Booting w s s' ∧ s'.nextActor = k + m ∧
      s'.log = ((List.range' k m).map (fun k => Event.constructed (startHandle k))).reverse
        ++ s.log := by
  induction m generalizing k s hs with
  | zero =>
      simp only [List.range'_zero, constructAll, Except.ok.injEq, Prod.mk.injEq] at h
      obtain ⟨rfl, rfl⟩ := h
      exact ⟨rfl, .refl s, by simp [hk], by simp⟩
  | succ m ih =>
      rw [List.range'_succ] at h ⊢
      simp only [constructAll] at h
      split at h
      · cases h
      · cases hrec : constructAll w (List.range' (k + 1) m)
            ((s.call w).construct ((s.call w).freshHandle k)) with
        | error raised => rw [hrec] at h; cases h
        | ok r =>
            rw [hrec] at h
            simp only [Except.map, Except.ok.injEq, Prod.mk.injEq] at h
            obtain ⟨rfl, rfl⟩ := h
            have hnext : ((s.call w).construct ((s.call w).freshHandle k)).nextActor = k + 1 :=
              congrArg (· + 1) hk
            have hfresh : (s.call w).freshHandle k = startHandle k := by
              simp only [Sys.freshHandle, startHandle, Sys.call, hk]
            have hone : Booting w s ((s.call w).construct ((s.call w).freshHandle k)) :=
              (Booting.call s).trans ⟨rfl, rfl, rfl, rfl, rfl, rfl, id⟩
            obtain ⟨hhs, hboot, hact, hlog⟩ := ih (k + 1) _ hnext r.1 hrec
            refine ⟨by rw [hhs, hfresh]; rfl, hone.trans hboot, by omega, ?_⟩
            rw [hlog, hfresh]
            simp [Sys.construct, Sys.emit, Sys.call]

theorem awaitHealthy_spec (hs : List Handle) (s s' : Sys σ) (h : awaitHealthy w hs s = .ok s') :
    Booting w s s' ∧ s'.nextActor = s.nextActor ∧ s'.nextWorkerId = s.nextWorkerId ∧
      ∃ l, s'.log = l ++ s.log ∧
        ∀ e ∈ l, (∃ hd call, e = .checked hd call) ∨ ∃ hd b, e = .probed hd b := by
  induction hs generalizing s with
  | nil =>
      simp only [awaitHealthy, Except.ok.injEq] at h
      subst h
      exact ⟨.refl s, rfl, rfl, [], rfl, by simp⟩
  | cons hd hs ih =>
      simp only [awaitHealthy] at h
      split at h
      · cases h
      · next healthy _ =>
          have hone : Booting w s (((s.call w).emit (.checked hd (some s.ray.step))).emit
              (.probed hd healthy)) :=
            (Booting.call s).trans ⟨rfl, rfl, rfl, rfl, rfl, rfl, id⟩
          obtain ⟨hboot, hact, hid, l, hlog, hl⟩ := ih _ h
          refine ⟨hone.trans hboot, hact, hid,
            l ++ [.probed hd healthy, .checked hd (some s.ray.step)], ?_, ?_⟩
          · rw [hlog]
            simp [Sys.emit, Sys.call]
          · intro e he
            rcases List.mem_append.1 he with he | he
            · exact hl e he
            · rcases List.mem_pair.1 he with rfl | rfl
              · exact Or.inr ⟨hd, healthy, rfl⟩
              · exact Or.inl ⟨hd, _, rfl⟩

theorem validateAll_spec (hs : List Handle) (s s' : Sys σ) (h : validateAll w hs s = .ok s') :
    Booting w s s' ∧ s'.nextActor = s.nextActor ∧ s'.nextWorkerId = s.nextWorkerId ∧
      s'.log = s.log := by
  induction hs generalizing s with
  | nil =>
      simp only [validateAll, Except.ok.injEq] at h
      subst h
      exact ⟨.refl s, rfl, rfl, rfl⟩
  | cons hd hs ih =>
      simp only [validateAll] at h
      split at h
      · cases h
      · obtain ⟨hboot, hact, hid, hlog⟩ := ih _ h
        exact ⟨(Booting.call s).trans hboot, hact, hid, hlog⟩

/-- The state between the two construction loops. -/
def Sys.resetStandby (w : World σ) (s : Sys σ) : Sys σ :=
  { s with standbyPool := [], standbyRefills := [], nextWorkerId := w.cfg.nWorkers, stats := {} }

/-- The phases of `_create_workers`, one after the other. -/
theorem createWorkers_phases {s : Sys σ} (h : createWorkers w (Sys.initial w) = .ok s) :
    ∃ workers s₁ standbys s₂ s₃ s₄,
      constructAll w (List.range' 0 w.cfg.nWorkers) (Sys.initial w) = .ok (workers, s₁) ∧
      constructAll w (List.range' w.cfg.nWorkers w.cfg.standby) (s₁.resetStandby w)
        = .ok (standbys, s₂) ∧
      awaitHealthy w (workers ++ standbys)
        { s₂ with nextWorkerId := w.cfg.nWorkers + w.cfg.standby } = .ok s₃ ∧
      validateAll w (workers ++ standbys) s₃ = .ok s₄ ∧
      s = { sampleStandbyPool w { s₄ with standbyPool := standbys } with
        workers := workers.map some } := by
  simp only [createWorkers, bind, Except.bind, pure, Except.pure] at h
  rw [List.range_eq_range'] at h
  split at h
  · cases h
  · next primaries hprimaries =>
      split at h
      · cases h
      · next pool hpool =>
          split at h
          · cases h
          · next s₃ hawait =>
              split at h
              · cases h
              · next s₄ hvalidate =>
                  simp only [Except.ok.injEq] at h
                  exact ⟨_, _, _, _, s₃, s₄, hprimaries, hpool, hawait, hvalidate, h.symm⟩

theorem createWorkers_started {s : Sys σ} (h : createWorkers w (Sys.initial w) = .ok s) :
    Started w s := by
  obtain ⟨workers, s₁, standbys, s₂, s₃, s₄, h₁, h₂, h₃, h₄, rfl⟩ := createWorkers_phases h
  obtain ⟨hworkers, hboot₁, hact₁, hlog₁⟩ := constructAll_spec _ 0 _ rfl _ _ h₁
  obtain ⟨hstandbys, hboot₂, hact₂, hlog₂⟩ :=
    constructAll_spec _ w.cfg.nWorkers (s₁.resetStandby w) (hact₁.trans (Nat.zero_add _)) _ _ h₂
  obtain ⟨hboot₃, hact₃, hid₃, l, hlog₃, hl⟩ := awaitHealthy_spec _ _ _ h₃
  obtain ⟨hboot₄, hact₄, hid₄, hlog₄⟩ := validateAll_spec _ _ _ h₄
  -- no phase of the startup touches the tables of the loop
  have htables : s₄.toTables = (Sys.initial w).toTables :=
    hboot₄.tables.trans (hboot₃.tables.trans (hboot₂.tables.trans hboot₁.tables))
  have hunused : s₄.ray.Unused w :=
    hboot₄.unused (hboot₃.unused (hboot₂.unused (hboot₁.unused ⟨rfl, rfl, rfl, rfl⟩)))
  have hunused' : (s₄.call w).ray.Unused w := hunused.call _ 0
  have hlog : s₄.log = l ++ ((List.range (w.cfg.nWorkers + w.cfg.standby)).map
      (fun k => Event.constructed (startHandle k))).reverse := by
    rw [hlog₄, hlog₃]
    show l ++ s₂.log = _
    rw [hlog₂]
    show l ++ (_ ++ s₁.log) = _
    rw [hlog₁, List.range_eq_range', ← List.range'_append_1, List.map_append, List.reverse_append]
    simp [Sys.initial]
  refine
    { workers := ?_, pending := congrArg Tables.pending htables
      deferred := congrArg Tables.deferred htables, active := congrArg Tables.active htables
      refTimeouts := congrArg Tables.refTimeouts htables, standbyPool := hstandbys
      standbyRefills := hboot₄.standbyRefills.trans
        (hboot₃.standbyRefills.trans hboot₂.standbyRefills)
      nextWorkerId := hid₄.trans hid₃
      stats := ?_
      splitCount := hboot₄.splitCount.trans
        (hboot₃.splitCount.trans (hboot₂.splitCount.trans hboot₁.splitCount))
      metrics := hboot₄.metrics.trans
        (hboot₃.metrics.trans (hboot₂.metrics.trans hboot₁.metrics))
      nextActor := hact₄.trans (hact₃.trans hact₂)
      nextCall := hboot₄.nextCall.trans
        (hboot₃.nextCall.trans (hboot₂.nextCall.trans hboot₁.nextCall))
      inFlight := hunused'.1, resolved := hunused'.2.1, backend := hunused'.2.2.1
      executed := hunused'.2.2.2
      log := ⟨l, hlog, hl⟩ }
  · show workers.map some = _
    rw [hworkers, List.map_map, ← List.range_eq_range']
    rfl
  · have hstats : s₄.stats = {} := hboot₄.stats.trans (hboot₃.stats.trans hboot₂.stats)
    have hsample : ∀ st : StandbyStats, st = {} → ∀ entry,
        ({ st with poolTimeline := st.poolTimeline ++ [entry] } : StandbyStats)
          = { poolTimeline := [entry] } := by rintro _ rfl _; rfl
    have hlen : standbys.length = w.cfg.standby := by simp [hstandbys]
    exact ⟨round3 ((s₄.call w).ray.clock - s₄.runStart), hlen ▸ hsample _ hstats _⟩

/-! ## A prompt cluster

The cluster of the concrete runs: nothing fails, every driver call takes a second, and during each
call the first `n` actors execute whatever has been submitted to them. -/

def promptReply (n step : Nat) : Reply where
  elapsed := 1
  elapsed_nonneg := by decide
  finished := (List.range n).flatMap (fun a =>
    (List.range (step + 1)).map (fun call => ⟨startHandle a, call⟩))

/-- One row per task, with nothing in it. -/
def emptyRows (cfg : Config) (batch : Batch) : List EvalResult :=
  batch.map (fun t =>
    { taskId := cfg.taskId t, score := 0, response := "", latencySeconds := 0, workerId := 0 })

/-- Workers that fail on the batches `fails` selects, with a transient exception. -/
def failingOn (cfg : Config) (fails : Batch → Bool) : EvaluateBatch Unit := fun _ _ batch =>
  (if fails batch then .error ⟨"RuntimeError", "boom"⟩ else .ok (emptyRows cfg batch), ())

theorem failingOn_rows {cfg : Config} {fails : Batch → Bool} {st st' : Unit} {hd : Handle}
    {batch : Batch} {rows : List EvalResult}
    (h : failingOn cfg fails st hd batch = (.ok rows, st')) :
    (rows.map EvalResult.taskId).Perm (batch.map cfg.taskId) := by
  unfold failingOn at h
  split at h
  · cases h
  · cases h
    rw [emptyRows, List.map_map]
    rfl

/-- Three tasks on two workers; the first batch fails as a whole. -/
def smallConfig : Config where
  nWorkers := 2
  batchSize := 2
  standby := 1
  tasks := [⟨"a", none⟩, ⟨"b", none⟩, ⟨"c", none⟩]

def smallWorld : World Unit where
  cfg := smallConfig
  evaluateBatch := failingOn smallConfig (fun batch => 1 < batch.length)
  backend := ()
  env := promptReply 3

end EvalHarness
