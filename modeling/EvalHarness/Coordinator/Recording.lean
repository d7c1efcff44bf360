import EvalHarness.Coordinator.Forest
import EvalHarness.Coordinator.WorkerIds

set_option autoImplicit false

/-! # A failure while recording

`run` harvests a batch and records its results in one `try` block, so an exception of `record_batch`
takes the way of a failed attempt: the results are at hand, some of their shard groups may have been
submitted, and still the batch is lost, goes back in halves or is given up, and is handed over again
by whichever way it ends. -/

namespace EvalHarness

open Ledger

variable {σ : Type} {w : World σ}

/-! ## Where it happens -/

/-- The `record_batch` calls on results that raised: the batch, its results and the exception, with
    the log before. -/
def raisedRecords (log : List Event) : List ((Batch × List EvalResult × Exc) × List Event) :=
  pastOf (fun
    | .recordRaised .completed batch rows _ exc => some (batch, rows, exc)
    | _ => none) log

theorem mem_raisedRecords {log before : List Event} {batch : Batch} {rows : List EvalResult}
    {exc : Exc} : ((batch, rows, exc), before) ∈ raisedRecords log ↔
      ∃ submitted, (Event.recordRaised .completed batch rows submitted exc :: before) <:+ log := by
  rw [raisedRecords, mem_pastOf]
  constructor
  · rintro ⟨later, e, rfl, he⟩
    have heq : ∃ submitted, e = .recordRaised .completed batch rows submitted exc := by
      cases e with
      | recordRaised cause b rs submitted x => cases cause <;> simp_all
      | _ => cases he
    obtain ⟨submitted, rfl⟩ := heq
    exact ⟨submitted, List.suffix_append later _⟩
  · rintro ⟨submitted, later, rfl⟩
    exact ⟨later, _, rfl, rfl⟩

/-- The results of a fetched flight are those of the ref taken out of `active` last. -/
theorem Reach.fetched_last {pt : Point σ} (h : Reach w pt) :
    ∀ ref f out, pt.phase = .fetched ref f out →
      (removedRefs pt.sys.log).head? = some (ref, f) := by
  refine h.invariant (I := fun pt => ∀ ref f out, pt.phase = .fetched ref f out →
    (removedRefs pt.sys.log).head? = some (ref, f)) (fun s batches hs _ => ?_)
    (fun a b _ hm hI => ?_)
  · intro ref f out hp
    cases hp
  · cases hm with
    | harvest s ref f out hf ho =>
        intro ref' f' out' hp
        cases hp
        rfl
    | call s p d hd => exact hI
    | fallback s p => exact hI
    | abandon s p slot exc => exact hI
    | install s p slot healthy hslot hempty => exact hI
    | vacate s p slot hslot hwhy =>
        rw [removedRefs, filterMap_vacate (fun _ => rfl)]
        exact hI
    | promote s p slot h s' time hslot hempty hpool hs' => cases hs' <;> exact hI
    | _ =>
        intro ref f out hp
        cases hp

/-- What is known of a `record_batch` call on results that raised: `evaluate_batch` had returned the
    results, for the attempt taken out of `active` last, and at once the attempt counts as
    failed. -/
structure Charged (s : Sys σ) (batch : Batch) (exc : Exc) (before : List Event) (ref : ObjectRef)
    (f : Flight) (rows : List EvalResult) : Prop where
  same : f.batch = batch
  attempt : (removedRefs before).head? = some (ref, f)
  finished : (ref, batch, .ok rows) ∈ s.ray.executed
  failed : ∃ submitted,
    (.failed f exc :: .recordRaised .completed batch rows submitted exc :: before) <:+ s.log

theorem Charged.later {a b : Point σ} (hm : Move w a b) {batch : Batch} {exc : Exc}
    {before : List Event} {ref : ObjectRef} {f : Flight} {rows : List EvalResult}
    (h : Charged a.sys batch exc before ref f rows) : Charged b.sys batch exc before ref f rows :=
  ⟨h.same, h.attempt, hm.executed_subset _ h.finished,
    h.failed.imp (fun _ hlog => hlog.trans hm.log_suffix)⟩

theorem Reach.charged {pt : Point σ} (h : Reach w pt) :
    ∀ x ∈ raisedRecords pt.sys.log,
      ∃ ref f, Charged pt.sys x.1.1 x.1.2.2 x.2 ref f x.1.2.1 := by
  refine h.invariant (I := fun pt => ∀ x ∈ raisedRecords pt.sys.log,
    ∃ ref f, Charged pt.sys x.1.1 x.1.2.2 x.2 ref f x.1.2.1) (fun s batches hs _ => ?_)
    (fun a b hr hm hI => ?_)
  · show ∀ x ∈ raisedRecords s.log, _
    rw [raisedRecords, pastOf_start hs (fun _ => rfl) (fun _ _ => rfl)]
    simp
  · have hkept : ∀ x ∈ raisedRecords a.sys.log,
        ∃ ref f, Charged b.sys x.1.1 x.1.2.2 x.2 ref f x.1.2.1 := by
      intro x hx
      obtain ⟨ref, f, hcharged⟩ := hI x hx
      exact ⟨ref, f, hcharged.later hm⟩
    cases hm with
    | completeFailed s ref f rows i k exc hfault hk =>
        refine List.forall_mem_cons.2 ⟨⟨ref, f, rfl, ?_, ?_, ?_⟩, hkept⟩
        · exact hr.fetched_last ref f _ rfl
        · exact hr.linked.fetched ref f _ rfl
        · exact ⟨_, List.suffix_rfl⟩
    | condemnFailed s f reason b hb hgate i k exc hfault => cases reason <;> exact hkept
    | vacate s p slot hslot hwhy =>
        show ∀ x ∈ raisedRecords (s.vacate slot).log, _
        rw [raisedRecords, pastOf_vacate (fun _ => rfl)]
        exact hkept
    | promote s p slot h s' time hslot hempty hpool hs' => cases hs' <;> exact hkept
    | failRefill s rf rest s' hagain hs' => cases hs' <;> exact hkept
    | _ => exact hkept

/-! ## What becomes of the batch -/

theorem Reach.resolved {pt : Point σ} (h : Reach w pt) : ∀ l ∈ pt.ledger.losses,
    l ∈ pt.ledger.lost ∨ pt.ledger.Resolved halves w.cfg.gate l := by
  obtain ⟨batches, -, hsteps⟩ := h.steps
  exact hsteps.resolved (fun l hl => absurd hl (Multiset.notMem_zero l))

/-- The batch of an attempt that counts as failed is retried in parts, each of which is queued or
    executed once more unless the abort comes first, or its tasks are recorded as failed. -/
structure Repeated (w : World σ) (s : Sys σ) (f : Flight) (exc : Exc) : Prop where
  retried : w.cfg.gate f.job (some exc) → ∀ e ∈ retryEntries f.batch f.retryCount,
    e ∈ s.undispatched ∨ (∃ f' ∈ dispatches s.log, f'.entry = e) ∨
      ∀ t ∈ e.batch, ∃ batch, (.workersDead, batch) ∈ recordings s.log ∧ t ∈ batch
  condemned : ¬ w.cfg.gate f.job (some exc) → ∀ t ∈ f.batch, ∃ cause batch,
    (cause, batch) ∈ recordings s.log ∧ t ∈ batch ∧ cause.verdict = .condemned

theorem Cause.verdict_eq_aborted {cause : Cause} : cause.verdict = .aborted ↔
    cause = .workersDead := by
  cases cause <;> simp [Cause.verdict]

/-- With nothing lost and unsettled, every attempt that counts as failed is repeated. -/
theorem Reach.repeated {s : Sys σ} {p : Phase} (h : Reach w ⟨s, p⟩) (hp : p = .idle ∨ p = .over)
    {f : Flight} {exc : Exc} (hf : (f, some exc) ∈ losses s.log) : Repeated w s f exc := by
  have hlost : (⟨s, p⟩ : Point σ).ledger.lost = 0 := by
    rcases hp with rfl | rfl <;> rfl
  have hloss : (f.job, some exc) ∈ (⟨s, p⟩ : Point σ).ledger.losses :=
    Multiset.mem_coe.2 (List.mem_map.2 ⟨_, hf, rfl⟩)
  have hresolved := (h.resolved _ hloss).resolve_left (by rw [hlost]; exact Multiset.notMem_zero _)
  rcases hresolved with ⟨hgate, hparts⟩ | ⟨hgate, hsettled⟩
  · refine ⟨fun _ e he => ?_, fun hnot => absurd hgate hnot⟩
    have hpart : e.job ∈ f.job.parts halves := by
      rw [parts_coe]
      exact Multiset.mem_coe.2 (List.mem_map.2 ⟨e, he, rfl⟩)
    rcases hparts _ hpart with hin | hin | hin
    · have hqueued : e ∈ queued s.toTables p := by
        obtain ⟨e', he', heq⟩ := List.mem_map.1 (Multiset.mem_coe.1 hin)
        cases e
        cases e'
        cases heq
        exact he'
      rcases hp with rfl | rfl
      · left
        simpa [queued, Phase.heldEntries, Tables.undispatched] using hqueued
      · cases hqueued
    · obtain ⟨f', hf', heq⟩ := List.mem_map.1 (Multiset.mem_coe.1 hin)
      refine Or.inr (Or.inl ⟨f', hf', ?_⟩)
      cases e
      cases heq
      rfl
    · refine Or.inr (Or.inr (fun t ht => ?_))
      obtain ⟨cause, batch, hrec, htb, hverdict⟩ := mem_settled.1 (hin t ht)
      exact ⟨batch, Cause.verdict_eq_aborted.1 hverdict ▸ hrec, htb⟩
  · exact ⟨fun hyes => absurd hyes hgate, fun _ t ht => mem_settled.1 (hsettled t ht)⟩

/-- Once nothing waits, runs or is lost, every task has been recorded. -/
theorem Reach.recorded_of_empty {pt : Point σ} (h : Reach w pt) (hw : pt.ledger.waiting = 0)
    (hr : pt.ledger.running = 0) (hl : pt.ledger.lost = 0) :
    ∀ t < w.cfg.tasks.length, ∃ cause batch, (cause, batch) ∈ recordings pt.sys.log ∧
      t ∈ batch := by
  intro t ht
  obtain ⟨v, hv⟩ := h.settled_of_empty hw hr hl t ht
  obtain ⟨cause, batch, hrec, htb, -⟩ := mem_settled.1 hv
  exact ⟨cause, batch, hrec, htb⟩

/-- When the loop has ended, every task has been handed over in a call that went through. -/
theorem recorded_at_end {s₀ s : Sys σ} (h : startRun w = .ok s₀) {k : Nat}
    (hs : after w s₀ k = .exited s ∨ after w s₀ k = .aborted s) :
    ∀ t < w.cfg.tasks.length, ∃ cause batch, (cause, batch) ∈ recordings s.log ∧ t ∈ batch := by
  have hreached := reach_after h k
  rcases hs with hs | hs <;> rw [hs] at hreached
  · obtain ⟨hr, hidle⟩ := hreached
    intro t ht
    obtain ⟨v, hv⟩ := hr.settled_of_idle hidle t ht
    obtain ⟨cause, batch, hrec, htb, -⟩ := mem_settled.1 hv
    exact ⟨cause, batch, hrec, htb⟩
  · have hr : Reach w ⟨s, .over⟩ := hreached
    have hactive : s.active.entries = [] := List.map_eq_nil_iff.1
      (hr.disciplined.active_empty (hr.allDead rfl).1)
    refine hr.recorded_of_empty rfl ?_ rfl
    simp [Point.ledger, Dict.values, hactive, Phase.heldFlights, flightJobs]

/-! ## No such failure is harmless -/

/-- What a failure while recording the results of `f` must leave alone: it does not count as a
    failure of the attempt, no task of the batch is executed once more, and none is handed to a
    shard more often than it occurs in the input. -/
structure Harmless (w : World σ) (s : Sys σ) (f : Flight) (exc : Exc) : Prop where
  notCharged : (f, some exc) ∉ losses s.log
  notExecuted : ∀ f' ∈ dispatches s.log, f.retryCount < f'.retryCount → f'.batch.Disjoint f.batch
  notRepeated : ∀ t ∈ f.batch, (s.shardCalls.flatMap Prod.snd).countP
      (fun row => row.taskId = w.cfg.taskId t)
    ≤ w.cfg.tasks.countP (fun task => task.taskId = w.cfg.taskId t)

/-- Whenever recording the results of a finished batch raises, the attempt counts as failed at once;
    then the batch goes back in parts or is given up, and when the run has ended each of its tasks
    has been handed over in another call. -/
theorem recording_failure_charged {s₀ : Sys σ} (h : startRun w = .ok s₀) (k : Nat) {batch : Batch}
    {rows : List EvalResult} {submitted : Nat} {exc : Exc} {before : List Event}
    (hraised : (Event.recordRaised .completed batch rows submitted exc :: before)
      <:+ (after w s₀ k).sys.log) :
    ∃ ref f, Charged (after w s₀ k).sys batch exc before ref f rows ∧
      ¬ Harmless w (after w s₀ k).sys f exc ∧
      ((∀ exc' s, after w s₀ k ≠ .raised exc' s) → Repeated w (after w s₀ k).sys f exc) ∧
      ∀ s, after w s₀ k = .exited s ∨ after w s₀ k = .aborted s → ∀ t ∈ batch,
        ∃ cause b, (cause, b) ∈ recordings s.log ∧ t ∈ b := by
  have hreached := reach_after h k
  obtain ⟨p, hr⟩ := hreached.exists_phase
  obtain ⟨ref, f, hcharged⟩ := hr.charged _ (mem_raisedRecords.2 ⟨submitted, hraised⟩)
  obtain ⟨_, hfailed⟩ := hcharged.failed
  have hloss : (f, some exc) ∈ losses (after w s₀ k).sys.log :=
    failed_mem_losses (hfailed.subset List.mem_cons_self)
  refine ⟨ref, f, hcharged, fun hharmless => hharmless.notCharged hloss, fun hnot => ?_,
    fun s hs t ht => recorded_at_end h hs t ?_⟩
  · cases hst : after w s₀ k with
    | head s => rw [hst] at hreached hloss; exact Reach.repeated hreached (Or.inl rfl) hloss
    | exited s => rw [hst] at hreached hloss; exact hreached.1.repeated (Or.inl rfl) hloss
    | aborted s => rw [hst] at hreached hloss; exact Reach.repeated hreached (Or.inr rfl) hloss
    | raised exc' s => exact absurd hst (hnot exc' s)
  · have hknown := hr.losses_known (f.job, some exc)
      (Multiset.mem_coe.2 (List.mem_map.2 ⟨_, hloss, rfl⟩))
    have hsame : f.batch = batch := hcharged.same
    exact hknown t (show t ∈ f.batch from hsame ▸ ht)

/-! ## A shard that is gone

One batch of two tasks on one worker, two shards. The call to the second shard raises the first time
results are recorded. -/

def shardedConfig : Config where
  nWorkers := 1
  batchSize := 2
  aggregatorShards := 2
  shards_pos := Nat.two_pos
  shardFor := fun id => if id = "a" then 0 else 1
  tasks := [⟨"a", none⟩, ⟨"b", none⟩]

def shardGone : Exc := ⟨"RuntimeError", "shard 1 is gone"⟩

/-- Call 8 is the `record_batch` call on the results of the batch. -/
def interruptedReply (step : Nat) : Reply :=
  { promptReply 1 step with recordFault := if step = 8 then some (1, shardGone) else none }

def interruptedWorld : World Unit where
  cfg := shardedConfig
  evaluateBatch := failingOn shardedConfig (fun _ => false)
  backend := ()
  env := interruptedReply

theorem recording_failure_charged_interrupted : ∃ s₀ before rows,
    startRun interruptedWorld = .ok s₀ ∧ ∃ ref f,
      Charged (after interruptedWorld s₀ 6).sys [0, 1] shardGone before ref f rows ∧
      ¬ Harmless interruptedWorld (after interruptedWorld s₀ 6).sys f shardGone ∧
      ((∀ exc' s, after interruptedWorld s₀ 6 ≠ .raised exc' s) →
        Repeated interruptedWorld (after interruptedWorld s₀ 6).sys f shardGone) ∧
      ∀ s, after interruptedWorld s₀ 6 = .exited s ∨ after interruptedWorld s₀ 6 = .aborted s →
        ∀ t ∈ ([0, 1] : Batch), ∃ cause b, (cause, b) ∈ recordings s.log ∧ t ∈ b := by
  obtain ⟨s₀, h, heval⟩ := exists_startRun (w := interruptedWorld)
    (P := fun s => decide (([0, 1], shardGone) ∈
      ((raisedRecords (after interruptedWorld s 6).sys.log).map Prod.fst).map
        (fun x : Batch × List EvalResult × Exc => (x.1, x.2.2)))) (by decide +kernel)
  obtain ⟨⟨batch, rows, exc⟩, hrecord, heq⟩ := List.mem_map.1 (of_decide_eq_true heval)
  cases heq
  obtain ⟨⟨x, before⟩, hraised, hfst⟩ := List.mem_map.1 hrecord
  cases hfst
  obtain ⟨submitted, hsuffix⟩ := mem_raisedRecords.1 hraised
  exact ⟨s₀, before, rows, h, recording_failure_charged h 6 hsuffix⟩

/-- `evaluate_batch` returns the results of both tasks and the row of the first one reaches its
    shard; then the batch counts as failed, both tasks are executed again, and the first shard gets
    the row of the first task twice. -/
theorem recording_failure_repeats : ∃ s₀ s, startRun interruptedWorld = .ok s₀ ∧
    after interruptedWorld s₀ 6 = .exited s ∧
    (raisedRecords s.log).map (fun x => (x.1.1, x.1.2.2)) = [([0, 1], shardGone)] ∧
    losses s.log = [(⟨0, [0, 1], 0⟩, some shardGone)] ∧
    s.ray.executed.map (fun x => (x.2.1, Outcome.failed x.2.2))
      = [([1], false), ([0], false), ([0, 1], false)] ∧
    s.shardCalls.map (fun call => (call.1, call.2.map EvalResult.taskId))
      = [(0, ["a"]), (0, ["a"]), (1, ["b"])] := by
  exact exists_exited (by decide +kernel)

end EvalHarness
