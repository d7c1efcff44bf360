import EvalHarness.FaultInjection
import EvalHarness.Coordinator.Bisection
import EvalHarness.Coordinator.Splits

set_option autoImplicit false

/-! # Injected faults are reproducible

The decider counts queries per key, and the key of a batch is its task ids, so with distinct ids the
number of earlier queries is the number of earlier attempts at the same batch: fault injection is a
fault plan, and the plan depends on the work only. Two runs on the same work then have the same
forest of retries, however their batches are scheduled. -/

namespace EvalHarness

open Ledger

variable {σ τ : Type}

/-! ## Keys -/

section

variable {cfg : Config}

theorem taskId_inj (hdistinct : (cfg.tasks.map EvalTask.taskId).Nodup) {t t' : TaskRef}
    (ht : t < cfg.tasks.length) (ht' : t' < cfg.tasks.length) (h : cfg.taskId t = cfg.taskId t') :
    t = t' := by
  have hget : ∀ u, u < cfg.tasks.length →
      (cfg.tasks.map EvalTask.taskId)[u]? = some (cfg.taskId u) := by
    intro u hu
    simp [Config.taskId, List.getElem?_eq_getElem hu]
  refine (List.getElem?_inj (by simpa using ht) hdistinct).1 ?_
  rw [hget t ht, hget t' ht', h]

/-- The ids of known tasks tell batches apart. -/
theorem batchKey_inj (hdistinct : (cfg.tasks.map EvalTask.taskId).Nodup) {batch batch' : Batch}
    (hknown : ∀ t ∈ batch, t < cfg.tasks.length) (hknown' : ∀ t ∈ batch', t < cfg.tasks.length)
    (h : batch.map cfg.taskId = batch'.map cfg.taskId) : batch = batch' := by
  induction batch generalizing batch' with
  | nil => simpa using h.symm
  | cons t rest ih =>
      cases batch' with
      | nil => simp at h
      | cons t' rest' =>
          simp only [List.map_cons, List.cons.injEq] at h
          rw [List.forall_mem_cons] at hknown hknown'
          rw [taskId_inj hdistinct hknown.1 hknown'.1 h.1, ih hknown.2 hknown'.2 h.2]

end

/-! ## Fault injection as a plan -/

/-- Which attempts at a batch the decider lets fail. -/
def Config.injected (cfg : Config) (decision : Decision) (seed : Int) (failureRate : ℚ) :
    Batch → Nat → Prop :=
  fun batch attempt => decision seed (batch.map cfg.taskId) attempt failureRate = true

/-- `evaluate_batch` fails exactly when the shared decider, made with the given seed, says so. -/
structure Injecting (decision : Decision) (seed : Int) (failureRate : ℚ)
    (w : World (FaultState σ)) : Prop where
  worker : ∃ stableSeed inner, (∀ st hd tasks, Outcome.failed (inner st hd tasks).1 = false) ∧
    w.evaluateBatch = faultInjecting decision stableSeed failureRate w.cfg inner
  decider : ∃ nShards, ShardedFailureDecider.init seed nShards = .ok w.backend.decider

theorem Injecting.plan {decision : Decision} {seed : Int} {failureRate : ℚ}
    {w : World (FaultState σ)} (h : Injecting decision seed failureRate w)
    (hdistinct : (w.cfg.tasks.map EvalTask.taskId).Nodup) :
    ∃ agrees, FaultPlan w .transient (w.cfg.injected decision seed failureRate) agrees := by
  obtain ⟨⟨stableSeed, inner, hinner, hworker⟩, nShards, hinit⟩ := h
  obtain ⟨hseed, hfresh⟩ := ShardedFailureDecider.init_fresh stableSeed hinit
  refine ⟨fun st tries => st.decider.seed = seed ∧
    ∀ batch, (∀ t ∈ batch, t < w.cfg.tasks.length) →
      st.decider.attempt stableSeed (batch.map w.cfg.taskId) = tries batch, ?_, ?_, ?_, ?_⟩
  · exact ⟨hseed, fun batch _ => hfresh _⟩
  · rintro st tries hd batch ⟨hst, hcount⟩ hknown
    rw [hworker, faultInjecting_failed hinner, hst, hcount batch hknown]
    rfl
  · rintro st tries hd batch ⟨hst, hcount⟩ hknown
    rw [hworker, faultInjecting_decider]
    refine ⟨hst, fun batch' hknown' => ?_⟩
    rw [ShardedFailureDecider.attempt_shouldFail, Function.update_apply, hcount batch hknown,
      hcount batch' hknown']
    by_cases heq : batch' = batch
    · simp [heq]
    · have hkey : batch'.map w.cfg.taskId ≠ batch.map w.cfg.taskId :=
        fun hkey => heq (batchKey_inj hdistinct hknown' hknown hkey)
      rw [if_neg hkey, if_neg heq]
  · intro st hd batch exc hexc
    rw [hworker] at hexc
    rw [faultInjecting_error hinner hexc, injectedFailure_transient]

/-! ## Two runs on the same work -/

/-- The same tasks, chunked alike, with the same budgets. -/
structure Config.SameWork (cfg cfg' : Config) : Prop where
  tasks : cfg'.tasks = cfg.tasks
  batchSize : cfg'.batchSize = cfg.batchSize
  maxRetries : cfg'.maxRetries = cfg.maxRetries

theorem Config.SameWork.symm {cfg cfg' : Config} (h : cfg.SameWork cfg') : cfg'.SameWork cfg :=
  ⟨h.tasks.symm, h.batchSize.symm, h.maxRetries.symm⟩

theorem Config.SameWork.batches {cfg cfg' : Config} (h : cfg.SameWork cfg') :
    cfg'.batches = cfg.batches := by
  simp only [Config.batches, h.tasks, h.batchSize]

theorem Config.SameWork.taskId {cfg cfg' : Config} (h : cfg.SameWork cfg') :
    cfg'.taskId = cfg.taskId := by
  funext t
  simp only [Config.taskId, h.tasks]

/-- The forest of retries depends on the work and the plan only. -/
theorem Config.SameWork.rules {cfg cfg' : Config} (h : cfg.SameWork cfg') (kind : FailureKind)
    (fails : Batch → Nat → Prop) : cfg'.rules kind fails = cfg.rules kind fails := by
  have hbudget : cfg'.taskMaxRetries = cfg.taskMaxRetries := by
    funext batch
    cases batch <;> simp only [Config.taskMaxRetries, Config.budget, h.tasks, h.maxRetries]
  have hagain : cfg'.again kind = cfg.again kind := by
    funext j
    simp only [Config.again, hbudget]
  simp only [Config.rules, hagain, h.batches]

theorem Config.SameWork.injected {cfg cfg' : Config} (h : cfg.SameWork cfg') (decision : Decision)
    (seed : Int) (failureRate : ℚ) :
    cfg'.injected decision seed failureRate = cfg.injected decision seed failureRate := by
  unfold Config.injected
  rw [h.taskId]

theorem Config.SameWork.backable {cfg cfg' : Config} (h : cfg.SameWork cfg') {kind : FailureKind}
    {fails : Batch → Nat → Prop} (hb : cfg.Backable kind fails) : cfg'.Backable kind fails := by
  rintro j n ⟨hnode, hfails, hagain, hlate⟩
  have hrules := h.rules kind fails
  have hagain' : cfg'.again kind = cfg.again kind := congrArg Rules.again hrules
  exact hb j n ⟨hrules ▸ hnode, hfails, hagain' ▸ hagain, hlate⟩

/-- Every task has a terminal outcome in both runs, the same one and after the same number of
    attempts, and both runs have split equally often. -/
structure SameOutcomes (cfg : Config) (s : Sys σ) (s' : Sys τ) : Prop where
  recorded : ∀ t < cfg.tasks.length, Succeeded s.log t ∨ Failed s.log t
  succeeded : ∀ t < cfg.tasks.length, Succeeded s'.log t ↔ Succeeded s.log t
  failed : ∀ t < cfg.tasks.length, Failed s'.log t ↔ Failed s.log t
  attempts : ∀ t < cfg.tasks.length, dispatchCount s'.log t = dispatchCount s.log t
  splits : s'.splitCount = s.splitCount

section

variable {w : World σ} {w' : World τ} {kind : FailureKind} {fails : Batch → Nat → Prop}
  {agrees : σ → (Batch → Nat) → Prop} {agrees' : τ → (Batch → Nat) → Prop}

/-- Two runs with the same plan that have exited agree. -/
theorem sameOutcomes_of_exited (hplan : FaultPlan w kind fails agrees)
    (hplan' : FaultPlan w' kind fails agrees') (hcalm : Calm w) (hcalm' : Calm w')
    (hwork : w.cfg.SameWork w'.cfg) (hn : 0 < w.cfg.nWorkers) (hn' : 0 < w'.cfg.nWorkers)
    {s : Sys σ} {s' : Sys τ} (h : Reach w ⟨s, .idle⟩) (h' : Reach w' ⟨s', .idle⟩)
    (hev : evictions s.log = []) (hev' : evictions s'.log = []) (hidle : s.idle)
    (hidle' : s'.idle) : SameOutcomes w.cfg s s' := by
  have hproper := w.cfg.rules_proper kind fails
  have hrules := hwork.rules kind fails
  have hgrown := h.grown hplan hcalm hn hev
  have hgrown' := h'.grown hplan' hcalm' hn' hev'
  -- both runs settle a task in the one leaf it has
  have hboth : ∀ t < w.cfg.tasks.length, (Succeeded s.log t ∨ Failed s.log t) ∧
      (Succeeded s'.log t ↔ Succeeded s.log t) ∧ (Failed s'.log t ↔ Failed s.log t) ∧
      dispatchCount s'.log t = dispatchCount s.log t := by
    intro t ht
    obtain ⟨v, hv⟩ := h.settled_of_idle hidle t ht
    have hv' := h'.settled_of_idle hidle' t (by rwa [hwork.tasks])
    obtain ⟨j, n, hleaf, htj, -⟩ := hgrown.settled v t hv
    obtain ⟨hok, hfailed, hcount⟩ := outcome_of_leaf hgrown hleaf htj ⟨v, hv⟩
    obtain ⟨hok', hfailed', hcount'⟩ := outcome_of_leaf hgrown' (hrules ▸ hleaf) htj hv'
    refine ⟨?_, hok'.trans hok.symm, hfailed'.trans hfailed.symm, hcount'.trans hcount.symm⟩
    exact (em (fails j.tasks n)).symm.imp hok.2 hfailed.2
  refine ⟨fun t ht => (hboth t ht).1, fun t ht => (hboth t ht).2.1, fun t ht => (hboth t ht).2.2.1,
    fun t ht => (hboth t ht).2.2.2, ?_⟩
  have hrecorded' := h'.recorded hplan' hcalm' hn' hev' hidle'
  rw [hrules] at hrecorded'
  exact (h.recorded hplan hcalm hn hev hidle).splitCount_eq hproper hrecorded'
    (congrArg List.length hwork.tasks) hwork.batches

/-- Two runs with the same plan that are over agree unless a backoff has overflowed. -/
theorem sameOutcomes_iff (hplan : FaultPlan w kind fails agrees)
    (hplan' : FaultPlan w' kind fails agrees') (hcalm : Calm w) (hcalm' : Calm w')
    (hwork : w.cfg.SameWork w'.cfg) {s₀ : Sys σ} {s₀' : Sys τ} (h : startRun w = .ok s₀)
    (h' : startRun w' = .ok s₀') {k k' : Nat} (hover : ∀ s, after w s₀ k ≠ .head s)
    (hover' : ∀ s, after w' s₀' k' ≠ .head s) (hev : evictions (after w s₀ k).sys.log = [])
    (hev' : evictions (after w' s₀' k').sys.log = []) :
    SameOutcomes w.cfg (after w s₀ k).sys (after w' s₀' k').sys ↔ w.cfg.Backable kind fails := by
  rcases ends_cases hplan hcalm h hover hev with
    ⟨hbackable, s, hs, hr, hidle⟩ | ⟨s, hs, p, j, n, hlate, t, ht, hnone⟩
  · rcases ends_cases hplan' hcalm' h' hover' hev' with
      ⟨-, s', hs', hr', hidle'⟩ | ⟨-, -, -, j, n, hlate, -⟩
    · rw [hs] at hev ⊢
      rw [hs'] at hev' ⊢
      exact iff_of_true (sameOutcomes_of_exited hplan hplan' hcalm hcalm' hwork
        (startRun_workers_pos h) (startRun_workers_pos h') hr hr' hev hev' hidle hidle') hbackable
    · exact absurd hlate (hwork.backable hbackable j n)
  · -- the first run has left a task without a record
    rw [hs]
    refine iff_of_false (fun hsame => ?_) (fun hbackable => hbackable j n hlate)
    rcases hsame.recorded t (Config.node_known hlate.node ht) with hin | hin
    · have hv : (.completed, t) ∈ (⟨s, p⟩ : Point σ).ledger.settled :=
        succeeded_iff_settled.1 hin
      exact hnone _ hv
    · obtain ⟨v, -, hv⟩ : ∃ v, v ≠ .completed ∧ (v, t) ∈ (⟨s, p⟩ : Point σ).ledger.settled :=
        failed_iff_settled.1 hin
      exact hnone v hv

end

/-- Injected faults do not depend on scheduling: two calm runs on the same work that are over give
    every task the same outcome after the same number of attempts, and split equally often, if and
    only if no batch goes back after its 1024th loss; and fair runs are over some day. -/
theorem outcomes_reproducible_iff {decision : Decision} {seed : Int} {failureRate : ℚ}
    {w : World (FaultState σ)} {w' : World (FaultState τ)}
    (hinject : Injecting decision seed failureRate w)
    (hinject' : Injecting decision seed failureRate w')
    (hdistinct : (w.cfg.tasks.map EvalTask.taskId).Nodup) (hwork : w.cfg.SameWork w'.cfg)
    (hcalm : Calm w) (hcalm' : Calm w') {s₀ : Sys (FaultState σ)} {s₀' : Sys (FaultState τ)}
    (h : startRun w = .ok s₀) (h' : startRun w' = .ok s₀') :
    (Fair w s₀ → ∃ k, ∀ s, after w s₀ k ≠ .head s) ∧
    (Fair w' s₀' → ∃ k, ∀ s, after w' s₀' k ≠ .head s) ∧
    ∀ k k', (∀ s, after w s₀ k ≠ .head s) → (∀ s, after w' s₀' k' ≠ .head s) →
      evictions (after w s₀ k).sys.log = [] → evictions (after w' s₀' k').sys.log = [] →
      (SameOutcomes w.cfg (after w s₀ k).sys (after w' s₀' k').sys ↔
        w.cfg.Backable .transient (w.cfg.injected decision seed failureRate)) := by
  refine ⟨fun hfair => hfair.ends h, fun hfair => hfair.ends h',
    fun k k' hover hover' hev hev' => ?_⟩
  obtain ⟨agrees, hplan⟩ := hinject.plan hdistinct
  obtain ⟨agrees', hplan'⟩ := hinject'.plan (by rwa [hwork.tasks])
  rw [hwork.injected] at hplan'
  exact sameOutcomes_iff hplan hplan' hcalm hcalm' hwork h h' hover hover' hev hev'

/-! ## One worker and two

Three tasks in two batches, on one worker and on two; the decider has two shards. -/

def chaosConfig (nWorkers : Nat) (maxRetries : Int) : Config where
  nWorkers := nWorkers
  batchSize := 2
  maxRetries := maxRetries
  tasks := [⟨"a", none⟩, ⟨"b", none⟩, ⟨"c", none⟩]

def chaosWorld (decision : Decision) (nWorkers : Nat) (maxRetries : Int) :
    World (FaultState Unit) where
  cfg := chaosConfig nWorkers maxRetries
  evaluateBatch := faultInjecting decision List.length (1 / 2) (chaosConfig nWorkers maxRetries)
    (failingOn (chaosConfig nWorkers maxRetries) (fun _ => false))
  backend := ⟨ShardedFailureDecider.fresh 7 2 (by decide), Dict.empty, ()⟩
  env := fun _ => instantReply nWorkers (chaosConfig nWorkers maxRetries).maxCalls

theorem chaosWorld_injecting (decision : Decision) (nWorkers : Nat) (maxRetries : Int) :
    Injecting decision 7 (1 / 2) (chaosWorld decision nWorkers maxRetries) :=
  ⟨⟨List.length, _, fun _ _ _ => rfl, rfl⟩, 2, rfl⟩

/-- The first attempt at every batch fails. -/
def firstFails : Decision := fun _ _ attempt _ => attempt = 0

theorem outcomes_reproducible_iff_small : ∃ s₀ s₀' k k',
    startRun (chaosWorld firstFails 1 2) = .ok s₀ ∧
    startRun (chaosWorld firstFails 2 2) = .ok s₀' ∧
    (∀ s, after (chaosWorld firstFails 1 2) s₀ k ≠ .head s) ∧
    (∀ s, after (chaosWorld firstFails 2 2) s₀' k' ≠ .head s) ∧
    (SameOutcomes (chaosConfig 1 2) (after (chaosWorld firstFails 1 2) s₀ k).sys
        (after (chaosWorld firstFails 2 2) s₀' k').sys ↔
      (chaosConfig 1 2).Backable .transient ((chaosConfig 1 2).injected firstFails 7 (1 / 2))) := by
  obtain ⟨s₀, h, -⟩ := exists_startRun (w := chaosWorld firstFails 1 2) (P := fun _ => true)
    (by decide +kernel)
  obtain ⟨s₀', h', -⟩ := exists_startRun (w := chaosWorld firstFails 2 2) (P := fun _ => true)
    (by decide +kernel)
  have hinstant : (chaosWorld firstFails 1 2).Instant := fun _ => rfl
  have hinstant' : (chaosWorld firstFails 2 2).Instant := fun _ => rfl
  obtain ⟨-, k, hover, hev⟩ := hinstant.ends h
  obtain ⟨-, k', hover', hev'⟩ := hinstant'.ends h'
  have hiff := (outcomes_reproducible_iff (chaosWorld_injecting firstFails 1 2)
    (chaosWorld_injecting firstFails 2 2) (by decide) ⟨rfl, rfl, rfl⟩ hinstant.calm hinstant'.calm
    h h').2.2 k k' hover hover' hev hev'
  exact ⟨s₀, s₀', k, k', h, h', hover, hover', hiff⟩

/-- Every batch with the task `a` fails. -/
def aFails : Decision := fun _ key _ _ => key.contains "a"

theorem chaosConfig_injected (nWorkers : Nat) (maxRetries : Int) :
    (chaosConfig nWorkers maxRetries).injected aFails 7 (1 / 2) = fun batch _ => 0 ∈ batch := by
  have hid : ∀ t, (chaosConfig nWorkers maxRetries).taskId t = "a" ↔ t = 0 := by
    intro t
    rcases t with - | - | - | t <;> simp [Config.taskId, chaosConfig]
  funext batch attempt
  simp [Config.injected, aFails, hid]

/-- With a budget of 1025 both runs end in an exception, and the task `a` has no outcome in either:
    `0.5 * 2 ** 1024`, the backoff before its 1025th retry, overflows before it is capped. -/
theorem outcomes_not_reproducible : ∃ s₀ s₀' k k' s s',
    startRun (chaosWorld aFails 1 1025) = .ok s₀ ∧ startRun (chaosWorld aFails 2 1025) = .ok s₀' ∧
    Injecting aFails 7 (1 / 2) (chaosWorld aFails 1 1025) ∧
    Injecting aFails 7 (1 / 2) (chaosWorld aFails 2 1025) ∧
    ((chaosConfig 1 1025).tasks.map EvalTask.taskId).Nodup ∧
    (chaosConfig 1 1025).SameWork (chaosConfig 2 1025) ∧
    Calm (chaosWorld aFails 1 1025) ∧ Calm (chaosWorld aFails 2 1025) ∧
    Fair (chaosWorld aFails 1 1025) s₀ ∧ Fair (chaosWorld aFails 2 1025) s₀' ∧
    after (chaosWorld aFails 1 1025) s₀ k = .raised overflowError s ∧
    after (chaosWorld aFails 2 1025) s₀' k' = .raised overflowError s' ∧
    evictions s.log = [] ∧ evictions s'.log = [] ∧
    ¬ SameOutcomes (chaosConfig 1 1025) s s' := by
  obtain ⟨s₀, h, -⟩ := exists_startRun (w := chaosWorld aFails 1 1025) (P := fun _ => true)
    (by decide +kernel)
  obtain ⟨s₀', h', -⟩ := exists_startRun (w := chaosWorld aFails 2 1025) (P := fun _ => true)
    (by decide +kernel)
  have hinject := chaosWorld_injecting aFails 1 1025
  have hinject' := chaosWorld_injecting aFails 2 1025
  have hdistinct : ((chaosConfig 1 1025).tasks.map EvalTask.taskId).Nodup := by decide
  have hwork : (chaosConfig 1 1025).SameWork (chaosConfig 2 1025) := ⟨rfl, rfl, rfl⟩
  have hinstant : (chaosWorld aFails 1 1025).Instant := fun _ => rfl
  have hinstant' : (chaosWorld aFails 2 1025).Instant := fun _ => rfl
  obtain ⟨hfair, k, hover, hev⟩ := hinstant.ends h
  obtain ⟨hfair', k', hover', hev'⟩ := hinstant'.ends h'
  obtain ⟨agrees, hplan⟩ := hinject.plan hdistinct
  obtain ⟨agrees', hplan'⟩ := hinject'.plan hdistinct
  have hinjected := chaosConfig_injected 1 1025
  rw [show (chaosWorld aFails 1 1025).cfg.injected aFails 7 (1 / 2) = _ from hinjected] at hplan
  rw [show (chaosWorld aFails 2 1025).cfg.injected aFails 7 (1 / 2) = _ from
    chaosConfig_injected 2 1025] at hplan'
  -- the first batch has the poisoned task, which one bisection isolates
  have hK : IsLeast {k | (bisected 0 [0, 1] k).length = 1} 1 := by
    refine ⟨by decide, fun k hk => ?_⟩
    by_contra hlt
    obtain rfl : k = 0 := by omega
    revert hk
    decide
  have hback : ¬ (chaosConfig 1 1025).Backable .transient (fun batch _ => 0 ∈ batch) := by
    rw [poisoned_backable_iff _ (B := [0, 1]) (m := 1025) (by decide +kernel) (by decide)
      (by decide +kernel) hK]
    decide
  obtain ⟨s, hs, hnone⟩ := overflows hplan hinstant.calm h hover hev hback
  obtain ⟨s', hs', hnone'⟩ := overflows hplan' hinstant'.calm h' hover' hev'
    (fun hbackable => hback (hwork.symm.backable hbackable))
  have hnot := (sameOutcomes_iff hplan hplan' hinstant.calm hinstant'.calm hwork h h' hover hover'
    hev hev').not.2 hback
  rw [hs, hs'] at hnot
  exact ⟨s₀, s₀', k, k', s, s', h, h', hinject, hinject', hdistinct, hwork, hinstant.calm,
    hinstant'.calm, hfair, hfair', hs, hs', hnone, hnone', hnot⟩

end EvalHarness
