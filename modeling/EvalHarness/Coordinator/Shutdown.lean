import EvalHarness.Coordinator.Accounting
import EvalHarness.Coordinator.Actors

set_option autoImplicit false

/-! # The end of a run

After the loop `run` drains the writes, asks every live worker for its stats, seals the results,
asks the aggregator for its summary, and only then kills what is left of the standby pool. Nothing
in this sequence is guarded, so a call that raises skips the ones after it. -/

namespace EvalHarness

variable {σ : Type} {w : World σ}

/-! ## What the calls leave alone -/

@[simp] theorem RayState.execute_step (evaluateBatch : EvaluateBatch σ) (r : RayState σ)
    (ref : ObjectRef) : (r.execute evaluateBatch ref).step = r.step := by
  unfold RayState.execute
  split <;> rfl

@[simp] theorem RayState.call_step (evaluateBatch : EvaluateBatch σ) (reply : Reply) (atLeast : ℚ)
    (r : RayState σ) : (r.call evaluateBatch reply atLeast).step = r.step + 1 :=
  RayState.call_induct (fun r' => r'.step = r.step + 1) rfl
    (fun r' ref h => by rw [execute_step, h])

/-- `n` calls later, with the same workers and standbys. -/
structure Later (s s' : Sys σ) (n : Nat) : Prop where
  step : s'.ray.step = s.ray.step + n
  workers : s'.workers = s.workers
  standbyPool : s'.standbyPool = s.standbyPool
  standbyRefills : s'.standbyRefills = s.standbyRefills
  log : ∀ e ∈ s.log, e ∈ s'.log

theorem Later.refl (s : Sys σ) : Later s s 0 := ⟨rfl, rfl, rfl, rfl, fun _ => id⟩

theorem Later.trans {a b c : Sys σ} {m n : Nat} (h : Later a b m) (h' : Later b c n) :
    Later a c (m + n) where
  step := by rw [h'.step, h.step, Nat.add_assoc]
  workers := h'.workers.trans h.workers
  standbyPool := h'.standbyPool.trans h.standbyPool
  standbyRefills := h'.standbyRefills.trans h.standbyRefills
  log := fun e he => h'.log e (h.log e he)

theorem Later.call (s : Sys σ) : Later s (s.call w) 1 :=
  ⟨by simp [Sys.call], rfl, rfl, rfl, fun _ => id⟩

theorem Later.emit (s : Sys σ) (e : Event) : Later s (s.emit e) 0 :=
  ⟨rfl, rfl, rfl, rfl, fun _ => List.mem_cons_of_mem e⟩

/-! ## One call after the other -/

def Act.raised? {α : Type} : Act σ α → Option (Raised σ)
  | .error raised => some raised
  | .ok _ => none

theorem Act.raised?_eq_some {α : Type} {x : Act σ α} {raised : Raised σ} :
    Act.raised? x = some raised ↔ x = .error raised := by
  cases x <;> simp [Act.raised?]

/-- The number of calls `drainWrites` makes. -/
def Sys.drainCalls (s : Sys σ) : Nat := if s.writeRefs = 0 then 0 else 1

/-- With every write done the drain goes through. -/
theorem drainWrites_ok {s : Sys σ} (hdrain : (s.reply w).drain = none) :
    ∃ s', drainWrites w s = .ok s' ∧ Later s s' s.drainCalls := by
  unfold drainWrites Sys.drainCalls
  split
  · exact ⟨s, rfl, .refl s⟩
  · simp only [hdrain]
    exact ⟨_, rfl, ⟨(Later.call s).step, rfl, rfl, rfl, fun _ => id⟩⟩

theorem collectStats_later {hs : List Handle} {s : Sys σ} {r : List WorkerStats × Sys σ}
    (h : collectStats w hs s = .ok r) : Later s r.2 hs.length := by
  induction hs generalizing s r with
  | nil =>
      cases h
      exact .refl s
  | cons hd hs ih =>
      simp only [collectStats] at h
      split at h
      · cases h
      · cases hrec : collectStats w hs (s.call w) with
        | error raised => simp [hrec, Except.map] at h
        | ok r' =>
            simp only [hrec, Except.map, Except.ok.injEq] at h
            subst h
            simpa [Nat.add_comm] using (Later.call s).trans (ih hrec)

/-- The stats arrive if and only if every worker answers. -/
theorem collectStats_ok_iff (hs : List Handle) (s : Sys σ) :
    (∃ r, collectStats w hs s = .ok r) ↔
      ∀ j < hs.length, ∃ st, (w.env (s.ray.step + j)).stats = .ok st := by
  induction hs generalizing s with
  | nil => simp [collectStats]
  | cons hd hs ih =>
      have hnext : (s.call w).ray.step = s.ray.step + 1 := (Later.call s).step
      have hsplit : (∀ j < (hd :: hs).length, ∃ st, (w.env (s.ray.step + j)).stats = .ok st) ↔
          (∃ st, (s.reply w).stats = .ok st) ∧
            ∀ j < hs.length, ∃ st, (w.env ((s.call w).ray.step + j)).stats = .ok st := by
        rw [List.length_cons, Nat.forall_lt_succ_left, hnext]
        simp only [Nat.add_zero, Nat.add_assoc, Nat.add_comm 1]
        rfl
      rw [hsplit, ← ih, collectStats]
      cases hst : (s.reply w).stats with
      | error exc => simp
      | ok st =>
          cases hrec : collectStats w hs (s.call w) <;> simp [Except.map]

/-- The number of calls `finalizeAggregator` makes. -/
def Config.finalizeCalls (cfg : Config) : Nat := if cfg.aggregatorShards = 1 then 0 else 1

/-- The results are sealed: several shards are merged into one file. -/
def Sys.Sealed (w : World σ) (s : Sys σ) : Prop :=
  ∃ merged, Event.finalized merged ∈ s.log ∧ (1 < w.cfg.aggregatorShards → merged = true)

theorem finalizeAggregator_ok_iff (s : Sys σ) :
    (∃ s', finalizeAggregator w s = .ok s') ↔
      (w.cfg.aggregatorShards ≠ 1 → (s.reply w).finalize = none) := by
  unfold finalizeAggregator
  split
  · next hone => simp [hone]
  · next hmany => cases hfin : (s.reply w).finalize <;> simp [hmany]

theorem finalizeAggregator_later {s s' : Sys σ} (h : finalizeAggregator w s = .ok s') :
    Later s s' w.cfg.finalizeCalls ∧ s'.Sealed w := by
  unfold finalizeAggregator at h
  unfold Config.finalizeCalls
  split at h
  · next hone =>
      cases h
      rw [if_pos hone]
      exact ⟨.emit s _, false, List.mem_cons_self, fun hmany => by omega⟩
  · next hmany =>
      simp only at h
      split at h
      · cases h
      · cases h
        rw [if_neg hmany]
        exact ⟨(Later.call s).trans (.emit _ _), true, List.mem_cons_self, fun _ => rfl⟩

theorem aggregatorSummary_ok_iff (s : Sys σ) :
    (∃ s', aggregatorSummary w s = .ok s') ↔ (s.reply w).summary = none := by
  unfold aggregatorSummary
  cases hsum : (s.reply w).summary <;> simp

theorem aggregatorSummary_later {s s' : Sys σ} (h : aggregatorSummary w s = .ok s') :
    Later s s' 1 := by
  simp only [aggregatorSummary] at h
  split at h
  · cases h
  · cases h
    exact .call s

/-! ## Teardown -/

theorem killActor_foldl_log (hs : List Handle) (s : Sys σ) :
    (∀ h ∈ hs, Event.killed h ∈ (hs.foldl (killActor w) s).log) ∧
      ∀ e ∈ s.log, e ∈ (hs.foldl (killActor w) s).log := by
  induction hs generalizing s with
  | nil => simp
  | cons hd hs ih =>
      obtain ⟨hkilled, hkept⟩ := ih (killActor w s hd)
      refine ⟨fun h hin => ?_, fun e he => hkept e (List.mem_cons_of_mem _ he)⟩
      rcases List.mem_cons.1 hin with rfl | hin
      · exact hkept _ List.mem_cons_self
      · exact hkilled h hin

/-- The teardown kills every idle standby and every abandoned refill. -/
theorem teardownStandby_log (s : Sys σ) :
    (∀ h, h ∈ s.standbyPool ∨ h ∈ s.standbyRefills.map Refill.handle →
      Event.killed h ∈ (teardownStandby w s).log) ∧
        ∀ e ∈ s.log, e ∈ (teardownStandby w s).log := by
  -- the refills are read before the pool is killed and again after it: `killActor` keeps them
  have hkeep : ∀ (hs : List Handle) (s : Sys σ),
      (hs.foldl (killActor w) s).standbyRefills = s.standbyRefills := by
    intro hs
    induction hs with
    | nil => intro s; rfl
    | cons hd hs ih => intro s; exact ih _
  obtain ⟨hpool, hkept⟩ := killActor_foldl_log (w := w) s.standbyPool s
  obtain ⟨hrefills, hkept'⟩ := killActor_foldl_log (w := w)
    (s.standbyRefills.map Refill.handle) (s.standbyPool.foldl (killActor w) s)
  have hlog : (teardownStandby w s).log = ((s.standbyRefills.map Refill.handle).foldl
      (killActor w) (s.standbyPool.foldl (killActor w) s)).log := by
    simp only [teardownStandby, hkeep]
  rw [hlog]
  refine ⟨fun h hin => ?_, fun e he => hkept' e (hkept e he)⟩
  rcases hin with hin | hin
  · exact hkept' _ (hpool h hin)
  · exact hrefills h hin

/-! ## The whole sequence -/

/-- The call of the driver that asks the first live worker for its stats. -/
def Sys.statsCall (s : Sys σ) : Nat := s.ray.step + s.drainCalls

/-- The call that closes the shards, if there are several. -/
def Sys.finalizeCall (s : Sys σ) : Nat := s.statsCall + (s.workers.filterMap id).length

/-- Everyone the end-of-run sequence asks answers: every live worker, the shards and the
    aggregator. -/
structure Responsive (w : World σ) (s : Sys σ) : Prop where
  stats : ∀ j < (s.workers.filterMap id).length,
    ∃ st, (w.env (s.statsCall + j)).stats = .ok st
  finalize : w.cfg.aggregatorShards ≠ 1 → (w.env s.finalizeCall).finalize = none
  summary : (w.env (s.finalizeCall + w.cfg.finalizeCalls)).summary = none

/-- The run that left the loop in `s` yields its results: a summary, sealed files, and no standby or
    refill left alive. -/
def Delivers (w : World σ) (s : Sys σ) (result : Option (Act σ (RunSummary × Sys σ))) : Prop :=
  ∃ summary s', result = some (.ok (summary, s')) ∧ s'.Sealed w ∧
    ∀ h, h ∈ s.standbyPool ∨ h ∈ s.standbyRefills.map Refill.handle → Event.killed h ∈ s'.log

theorem finishRun_delivers_iff {s : Sys σ} (hdrain : (s.reply w).drain = none) :
    Delivers w s (some (finishRun w s)) ↔ Responsive w s := by
  obtain ⟨s₁, hs₁, hlater₁⟩ := drainWrites_ok hdrain
  have hlive : s₁.workers.filterMap id = s.workers.filterMap id := by rw [hlater₁.workers]
  have hstats : s₁.ray.step = s.statsCall := hlater₁.step
  constructor
  · rintro ⟨summary, s', hrun, -, -⟩
    rw [Option.some_inj, finishRun] at hrun
    obtain ⟨_, hd, hrun⟩ := Act.bind_ok.1 hrun
    obtain rfl : s₁ = _ := Except.ok.inj (hs₁.symm.trans hd)
    obtain ⟨⟨st, s₂⟩, hs₂, hrun⟩ := Act.bind_ok.1 hrun
    obtain ⟨s₃, hs₃, hrun⟩ := Act.bind_ok.1 hrun
    obtain ⟨s₄, hs₄, -⟩ := Act.bind_ok.1 hrun
    have hstep₂ : s₂.ray.step = s.finalizeCall := by
      rw [(collectStats_later hs₂).step, hlive, hstats, Sys.finalizeCall]
    have hstep₃ := (finalizeAggregator_later hs₃).1.step
    refine ⟨?_, ?_, ?_⟩
    · simpa only [hlive, hstats] using (collectStats_ok_iff _ s₁).1 ⟨_, hs₂⟩
    · simpa only [Sys.reply, hstep₂] using (finalizeAggregator_ok_iff s₂).1 ⟨_, hs₃⟩
    · simpa only [Sys.reply, hstep₃, hstep₂] using (aggregatorSummary_ok_iff s₃).1 ⟨_, hs₄⟩
  · intro hresp
    obtain ⟨⟨st, s₂⟩, hs₂⟩ := (collectStats_ok_iff (w := w) (s₁.workers.filterMap id) s₁).2
      (by simpa only [hlive, hstats] using hresp.stats)
    have hlater₂ := collectStats_later hs₂
    have hstep₂ : s₂.ray.step = s.finalizeCall := by
      rw [hlater₂.step, hlive, hstats, Sys.finalizeCall]
    obtain ⟨s₃, hs₃⟩ := (finalizeAggregator_ok_iff (w := w) s₂).2
      (by simpa only [Sys.reply, hstep₂] using hresp.finalize)
    obtain ⟨hlater₃, merged, hmerged, hmany⟩ := finalizeAggregator_later hs₃
    obtain ⟨s₄, hs₄⟩ := (aggregatorSummary_ok_iff (w := w) s₃).2
      (by simpa only [Sys.reply, hlater₃.step, hstep₂] using hresp.summary)
    have hlater₄ := aggregatorSummary_later hs₄
    have hlater := ((hlater₁.trans hlater₂).trans hlater₃).trans hlater₄
    obtain ⟨hkilled, hkept⟩ := teardownStandby_log (w := w) s₄
    have hrun : ∃ summary, finishRun w s = .ok (summary, teardownStandby w s₄) :=
      ⟨_, Act.bind_ok.2 ⟨s₁, hs₁, Act.bind_ok.2 ⟨(st, s₂), hs₂, Act.bind_ok.2
        ⟨s₃, hs₃, Act.bind_ok.2 ⟨s₄, hs₄, rfl⟩⟩⟩⟩⟩
    obtain ⟨summary, hrun⟩ := hrun
    refine ⟨summary, teardownStandby w s₄, by rw [hrun],
      ⟨merged, hkept _ (hlater₄.log _ hmerged), hmany⟩, ?_⟩
    rw [← hlater.standbyPool, ← hlater.standbyRefills]
    exact hkilled

/-- A run that has left the loop, its writes done, yields its results if and only if everyone the
    end-of-run sequence asks answers. -/
theorem run_delivers_iff {s₀ s : Sys σ} (h : startRun w = .ok s₀) (k : Nat)
    (hs : after w s₀ k = .exited s ∨ after w s₀ k = .aborted s)
    (hdrain : (s.reply w).drain = none) : Delivers w s (run w k) ↔ Responsive w s := by
  have hrun : run w k = some (finishRun w s) := by
    rcases hs with hs | hs <;> simp [run, h, hs]
  rw [hrun, finishRun_delivers_iff hdrain]

theorem run_delivers_iff_small : ∃ s₀ s, startRun smallWorld = .ok s₀ ∧
    after smallWorld s₀ 5 = .exited s ∧
    (Delivers smallWorld s (run smallWorld 5) ↔ Responsive smallWorld s) := by
  obtain ⟨s₀, s, h, hs, -⟩ := exists_exited (w := smallWorld) (k := 5) (P := fun _ => True)
    (by decide +kernel)
  exact ⟨s₀, s, h, hs, run_delivers_iff h 5 (Or.inl hs) rfl⟩

/-! ## A worker that dies idle

One worker with a standby, one task, two shards. The worker dies after its batch, so its
`get_stats` call raises. -/

def mortalConfig : Config where
  nWorkers := 1
  batchSize := 1
  standby := 1
  aggregatorShards := 2
  shards_pos := Nat.two_pos
  tasks := [⟨"a", none⟩]

def mortalReply (step : Nat) : Reply :=
  { promptReply 2 step with stats := .error ⟨"RayActorError", "The actor died"⟩ }

def mortalWorld : World Unit where
  cfg := mortalConfig
  evaluateBatch := failingOn mortalConfig (fun _ => false)
  backend := ()
  env := mortalReply

/-- The finalizations, and whether they merged the shards. -/
def finalizations (log : List Event) : List Bool :=
  log.filterMap (fun | .finalized merged => some merged | _ => none)

theorem mem_finalizations {log : List Event} {merged : Bool} :
    merged ∈ finalizations log ↔ Event.finalized merged ∈ log :=
  mem_filterMap_event (fun e => by cases e <;> simp)

/-- Every task is recorded and every write done, and yet `run` raises, the shards are not merged and
    the standby is not killed. -/
theorem results_lost : ∃ s₀ s raised, startRun mortalWorld = .ok s₀ ∧
    after mortalWorld s₀ 2 = .exited s ∧ (∀ i, (mortalWorld.env i).drain = none) ∧
    recordings s.log = [(.completed, [0])] ∧
    run mortalWorld 2 = some (.error raised) ∧ (∀ merged, Event.finalized merged ∉ raised.sys.log) ∧
    ∃ h ∈ s.standbyPool, Event.killed h ∉ raised.sys.log := by
  obtain ⟨s₀, s, h, hs, hrecorded, hpool, raised, hraised, hsealed, hkilled⟩ :=
    exists_exited (w := mortalWorld) (k := 2)
      (P := fun s => recordings s.log = [(.completed, [0])] ∧ startHandle 1 ∈ s.standbyPool ∧
        ∃ raised ∈ Act.raised? (finishRun mortalWorld s),
          finalizations raised.sys.log = [] ∧ startHandle 1 ∉ killed raised.sys.log)
      (by decide +kernel)
  have hrun : run mortalWorld 2 = some (.error raised) := by
    simp [run, h, hs, Act.raised?_eq_some.1 hraised]
  refine ⟨s₀, s, raised, h, hs, fun _ => rfl, hrecorded, hrun, fun merged hin => ?_,
    startHandle 1, hpool, fun hin => hkilled (mem_killed.2 hin)⟩
  rw [← mem_finalizations, hsealed] at hin
  cases hin

end EvalHarness
