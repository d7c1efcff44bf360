import EvalHarness.Coordinator.Attempts
import EvalHarness.Lib.RetryForest

set_option autoImplicit false

/-! # The fate of the tasks of a calm run

In a calm run whose faults are planned the ledger obeys the rules of a retry forest: the chunks of
the task list are its roots, and a batch the plan lets fail goes back in halves while the budget of
its first task lasts. So where a task ends is fixed before the run begins, unless the run is cut
short by a backoff that overflows, which happens exactly when the forest retries a batch that has
been lost 1024 times. -/

namespace EvalHarness

open Ledger

variable {σ : Type} {w : World σ}

/-! ## The rules of a run -/

/-- The batches of the task list. -/
def Config.batches (cfg : Config) : List Batch :=
  match makeBatches (List.range cfg.tasks.length) cfg.batchSize with
  | .ok batches => batches
  | .error _ => []

/-- Does a lost batch go back, all exceptions being of one kind? -/
def Config.again (cfg : Config) (kind : FailureKind) (j : Job TaskRef) : Prop :=
  ∃ b, cfg.taskMaxRetries j.tasks = .ok b ∧ j.losses < b ∧
    (kind = .transient ∨ 1 < j.tasks.length)

def Config.rules (cfg : Config) (kind : FailureKind) (fails : Batch → Nat → Prop) :
    Rules TaskRef where
  roots := cfg.batches
  split := halves
  fails := fails
  again := cfg.again kind

theorem Config.batches_eq {cfg : Config} {batches : List Batch}
    (h : makeBatches (List.range cfg.tasks.length) cfg.batchSize = .ok batches) :
    cfg.batches = batches := by
  simp only [Config.batches, h]

theorem Config.rules_proper (cfg : Config) (kind : FailureKind) (fails : Batch → Nat → Prop) :
    (cfg.rules kind fails).Proper := by
  refine ⟨halves_splitting, ?_, ?_⟩
  · show cfg.batches.flatten.Nodup
    unfold Config.batches
    split
    · next batches h =>
        rw [makeBatches_flatten h]
        exact List.nodup_range
    · exact List.nodup_nil
  · show ∀ tasks ∈ cfg.batches, tasks ≠ []
    unfold Config.batches
    split
    · next batches h => exact makeBatches_ne_nil h
    · exact fun tasks h => absurd h List.not_mem_nil

theorem Config.gate_iff_again (cfg : Config) {kind : FailureKind} {exc : Exc}
    (hkind : classifyFailure exc = kind) (j : Job TaskRef) :
    cfg.gate j (some exc) ↔ cfg.again kind j := by
  subst hkind
  rfl

theorem ledger_attempts (pt : Point σ) (batch : Batch) :
    pt.ledger.attempts batch = attempts pt.sys.log batch := by
  simp only [Book.attempts, Point.ledger, Multiset.coe_countP, List.countP_map]
  rfl

/-! ## Calm runs obey the rules -/

section

variable {kind : FailureKind} {fails : Batch → Nat → Prop} {agrees : σ → (Batch → Nat) → Prop}

/-- The exceptions of the workers are of the planned kind. -/
theorem Reach.fetched_kind (hplan : FaultPlan w kind fails agrees) {pt : Point σ}
    (h : Reach w pt) {ref : ObjectRef} {f : Flight} {exc : Exc}
    (hp : pt.phase = .fetched ref f (.error exc)) : classifyFailure exc = kind := by
  have hin := h.linked.fetched ref f _ hp
  obtain ⟨st, hst⟩ := h.linked.legal _ hin
  exact hplan.kind st ref.worker f.batch exc hst.symm

theorem Reach.grown (hplan : FaultPlan w kind fails agrees) (hcalm : Calm w)
    (hn : 0 < w.cfg.nWorkers) {pt : Point σ} (h : Reach w pt) (hev : evictions pt.sys.log = []) :
    Grown (w.cfg.rules kind fails) w.cfg.gate pt.ledger := by
  refine h.invariant_of_no_evictions
    (I := fun pt => Grown (w.cfg.rules kind fails) w.cfg.gate pt.ledger)
    (fun s batches hs hbatches => ?_) (fun a b hr hm heva hevb hI => ?_) hev
  · rw [start_ledger hs, ← Config.batches_eq hbatches]
    exact Book.start_grown (R := w.cfg.rules kind fails)
  · rcases hm.accounted hr with heq | ⟨ℓ, hstep, hpermits⟩
    · rwa [heq]
    · have htried := hr.tried hplan hcalm heva
      refine hstep.grown (w.cfg.rules_proper kind fails) ?_ hr.consistent hI
      cases ℓ with
      | complete j =>
          obtain ⟨ref, f, rows, hp, rfl⟩ := hpermits
          have hiff := htried.fetched ref f _ hp
          show ¬ fails f.batch (a.ledger.attempts f.batch)
          rw [ledger_attempts, ← hiff]
          simp [Outcome.failed]
      | lose j reason =>
          cases reason with
          | none =>
              obtain ⟨ref, f, r, hin⟩ := hpermits
              exact absurd hin (evictions_eq_nil.1 hevb ref f r)
          | some exc =>
              rcases hpermits with ⟨ref, f, hp, rfl⟩ | ⟨i, k, hfault⟩
              · have hiff := htried.fetched ref f _ hp
                refine ⟨?_, w.cfg.gate_iff_again (hr.fetched_kind hplan hp) _⟩
                show fails f.batch (a.ledger.attempts f.batch)
                rw [ledger_attempts, ← hiff]
                rfl
              · simp [hcalm.recording i] at hfault
      | abort => exact absurd hpermits ((hr.step hm).not_over hcalm hevb hn)
      | dispatch j => trivial
      | retry j r => trivial
      | condemn j r => trivial

/-! ## The end of a calm run -/

/-- Every task is settled once nothing is left. -/
theorem Reach.settled_of_empty {pt : Point σ} (h : Reach w pt) (hwaiting : pt.ledger.waiting = 0)
    (hrunning : pt.ledger.running = 0) (hlost : pt.ledger.lost = 0) :
    ∀ t < w.cfg.tasks.length, ∃ v, (v, t) ∈ pt.ledger.settled := by
  intro t ht
  have htotal := h.total
  simp only [Book.total, hwaiting, hrunning, hlost, tasksOf_zero, Multiset.map_zero, zero_add]
    at htotal
  have hin : t ∈ pt.ledger.settled.map Prod.snd := by
    rw [htotal]
    exact Multiset.mem_coe.2 (List.mem_range.2 ht)
  obtain ⟨⟨v, t'⟩, hv, rfl⟩ := Multiset.mem_map.1 hin
  exact ⟨v, hv⟩

theorem Reach.settled_of_idle {s : Sys σ} (h : Reach w ⟨s, .idle⟩) (hidle : s.idle) :
    ∀ t < w.cfg.tasks.length, ∃ v, (v, t) ∈ (⟨s, .idle⟩ : Point σ).ledger.settled := by
  have hload := (Tables.idle_iff_load s.toTables).1 hidle
  simp only [Tables.load, Nat.add_eq_zero_iff, List.length_eq_zero_iff] at hload
  obtain ⟨⟨hpending, hdeferred⟩, hactive⟩ := hload
  refine h.settled_of_empty ?_ ?_ rfl
  · simp [Point.ledger, queued, Phase.heldEntries, hpending, hdeferred, entryJobs]
  · simp [Point.ledger, Phase.heldFlights, Dict.values, hactive, flightJobs]

/-- A batch the plan retries although it has been lost 1024 times: its backoff overflows. -/
structure Config.Late (cfg : Config) (kind : FailureKind) (fails : Batch → Nat → Prop)
    (j : Job TaskRef) (n : Nat) : Prop where
  node : (cfg.rules kind fails).Node j n
  fails : fails j.tasks n
  again : cfg.again kind j
  late : 1024 ≤ j.losses

def Config.Backable (cfg : Config) (kind : FailureKind) (fails : Batch → Nat → Prop) : Prop :=
  ∀ j n, ¬ cfg.Late kind fails j n

theorem Config.node_known {cfg : Config} {j : Job TaskRef} {n : Nat}
    (h : (cfg.rules kind fails).Node j n) {t : TaskRef} (ht : t ∈ j.tasks) :
    t < cfg.tasks.length := by
  have hin : t ∈ cfg.batches.flatten := h.mem_roots (cfg.rules_proper kind fails) ht
  unfold Config.batches at hin
  split at hin
  · next batches hbatches =>
      rw [makeBatches_flatten hbatches] at hin
      exact List.mem_range.1 hin
  · exact absurd hin List.not_mem_nil

/-- Where a calm run has exited, no backoff has overflowed. -/
theorem Reach.backable (hplan : FaultPlan w kind fails agrees) (hcalm : Calm w)
    (hn : 0 < w.cfg.nWorkers) {s : Sys σ} (h : Reach w ⟨s, .idle⟩) (hev : evictions s.log = [])
    (hidle : s.idle) : w.cfg.Backable kind fails := by
  have hproper := w.cfg.rules_proper kind fails
  have hgrown := h.grown hplan hcalm hn hev
  rintro j n ⟨hnode, hfails, hagain, hlate⟩
  obtain ⟨t, ht⟩ := List.exists_mem_of_ne_nil _ (hnode.proper hproper).1
  obtain ⟨v, hv⟩ := h.settled_of_idle hidle t (Config.node_known hnode ht)
  -- the task was dispatched once at every depth down to its leaf
  obtain ⟨j', n', hleaf, ht', hcount, -⟩ := hgrown.settled v t hv
  have hbelow := hleaf.below hnode hproper hfails hagain ht' ht
  have hle := h.dispatchCount_le hev t
  rw [ledger_dispatchCount] at hcount
  replace hcount : dispatchCount s.log t = j'.losses + 1 := hcount
  omega

/-- Where a backoff overflows, a batch of the forest is going back too late, and one of its tasks is
    not settled. -/
theorem Reach.late (hplan : FaultPlan w kind fails agrees) (hcalm : Calm w)
    (hn : 0 < w.cfg.nWorkers) {s : Sys σ} {f : Flight} {e : Entry} {rest : List Entry}
    (h : Reach w ⟨s, .spread f false (e :: rest)⟩) (hev : evictions s.log = [])
    (hover : 1024 ≤ f.retryCount) : ∃ j n, w.cfg.Late kind fails j n ∧
      ∃ t ∈ j.tasks, ∀ v, (v, t) ∉ (⟨s, .spread f false (e :: rest)⟩ : Point σ).ledger.settled := by
  have hproper := w.cfg.rules_proper kind fails
  have hcount := h.spread_counts f false (e :: rest) rfl e List.mem_cons_self
  have hin : e.job ∈ (⟨s, .spread f false (e :: rest)⟩ : Point σ).ledger.waiting :=
    List.mem_map_of_mem (List.mem_append_right _ List.mem_cons_self)
  obtain ⟨W, hW⟩ := Multiset.exists_cons_of_mem hin
  have hold := Book.placed_of_waiting hW
  have hplaced := hold ▸ Multiset.mem_cons_self _ _
  obtain ⟨n, hnode, -⟩ := (h.grown hplan hcalm hn hev).placed _ hplaced
  obtain ⟨t, ht⟩ := List.exists_mem_of_ne_nil _ (hnode.proper hproper).1
  -- the entry being put back lies just below the batch that was lost
  obtain ⟨j, m, hj, hdepth, htj, hfails, hagain⟩ := hnode.above hproper ht
    (d := f.retryCount) (by show _ < e.retryCount; omega)
  exact ⟨j, m, ⟨hj, hfails, hagain, hdepth ▸ hover⟩, t, htj,
    fun v hv => (h.consistent.apart hold).2 v t hv ht⟩

/-! ## How a calm run ends -/

/-- A calm run that is over has either dealt with everything, or a backoff overflowed; the second
    leaves a task without a record. -/
theorem ends_cases (hplan : FaultPlan w kind fails agrees) (hcalm : Calm w) {s₀ : Sys σ}
    (h : startRun w = .ok s₀) {k : Nat} (hover : ∀ s, after w s₀ k ≠ .head s)
    (hev : evictions (after w s₀ k).sys.log = []) :
    (w.cfg.Backable kind fails ∧ ∃ s, after w s₀ k = .exited s ∧ Reach w ⟨s, .idle⟩ ∧ s.idle) ∨
    ∃ s, after w s₀ k = .raised overflowError s ∧ ∃ p j n, w.cfg.Late kind fails j n ∧
      ∃ t ∈ j.tasks, ∀ v, (v, t) ∉ (⟨s, p⟩ : Point σ).ledger.settled := by
  have hn := startRun_workers_pos h
  have hreached := reach_after h k
  cases hs : after w s₀ k with
  | head s => exact absurd hs (hover s)
  | exited s =>
      rw [hs] at hreached hev
      obtain ⟨hr, hidle⟩ := hreached
      exact Or.inl ⟨hr.backable hplan hcalm hn hev hidle, s, rfl, hr, hidle⟩
  | aborted s =>
      rw [hs] at hreached hev
      exact absurd rfl (Reach.not_over hcalm hreached hev hn)
  | raised exc s =>
      rw [hs] at hreached hev
      obtain ⟨p, hr, hculprit⟩ := hreached
      rcases hculprit with ⟨i, k, hfault⟩ | ⟨f, e, rest, jitter, rfl, hback⟩ | ⟨f, reason, rfl, hb⟩
      · simp [hcalm.recording i] at hfault
      · obtain ⟨rfl, hlate⟩ := backoffSeconds_error hback
        exact Or.inr ⟨s, rfl, _, hr.late hplan hcalm hn hev hlate⟩
      · -- a lost batch has a first task
        have hlost : (⟨s, .lost f reason⟩ : Point σ).ledger.lost = (f.job, reason) ::ₘ 0 := rfl
        have hplaced := hr.consistent.placed _
          (Book.placed_of_lost hlost ▸ Multiset.mem_cons_self _ _)
        obtain ⟨t, rest, hcons⟩ := List.exists_cons_of_ne_nil hplaced.1
        replace hcons : f.batch = t :: rest := hcons
        simp [hcons, Config.taskMaxRetries] at hb

/-- A calm run in which some batch goes back too late ends in an exception. -/
theorem overflows (hplan : FaultPlan w kind fails agrees) (hcalm : Calm w) {s₀ : Sys σ}
    (h : startRun w = .ok s₀) {k : Nat} (hover : ∀ s, after w s₀ k ≠ .head s)
    (hev : evictions (after w s₀ k).sys.log = []) (hlate : ¬ w.cfg.Backable kind fails) :
    ∃ s, after w s₀ k = .raised overflowError s ∧ evictions s.log = [] := by
  rcases ends_cases hplan hcalm h hover hev with ⟨hbackable, -⟩ | ⟨s, hs, -⟩
  · exact absurd hbackable hlate
  · rw [hs] at hev
    exact ⟨s, hs, hev⟩

end

/-! ## Outcomes -/

/-- The aggregator has the rows a worker returned for the task. -/
def Succeeded (log : List Event) (t : TaskRef) : Prop :=
  ∃ batch, (.completed, batch) ∈ recordings log ∧ t ∈ batch

/-- The aggregator has a row by which the driver gave the task up. -/
def Failed (log : List Event) (t : TaskRef) : Prop :=
  ∃ cause batch, (cause, batch) ∈ recordings log ∧ t ∈ batch ∧ cause ≠ .completed

theorem mem_settled {pt : Point σ} {v : Verdict} {t : TaskRef} :
    (v, t) ∈ pt.ledger.settled ↔
      ∃ cause batch, (cause, batch) ∈ recordings pt.sys.log ∧ t ∈ batch ∧ cause.verdict = v := by
  show (v, t) ∈ (↑((recordings pt.sys.log).flatMap settleRecords) : Multiset _) ↔ _
  simp only [Multiset.mem_coe, List.mem_flatMap, Prod.exists, settleRecords, List.mem_map,
    Prod.mk.injEq]
  constructor
  · rintro ⟨cause, batch, hin, t', ht', rfl, rfl⟩
    exact ⟨cause, batch, hin, ht', rfl⟩
  · rintro ⟨cause, batch, hin, ht, rfl⟩
    exact ⟨cause, batch, hin, t, ht, rfl, rfl⟩

theorem Cause.verdict_eq_completed {cause : Cause} : cause.verdict = .completed ↔
    cause = .completed := by
  cases cause <;> simp [Cause.verdict]

theorem succeeded_iff_settled {pt : Point σ} {t : TaskRef} :
    Succeeded pt.sys.log t ↔ (.completed, t) ∈ pt.ledger.settled := by
  rw [mem_settled]
  constructor
  · rintro ⟨batch, hin, ht⟩
    exact ⟨_, batch, hin, ht, rfl⟩
  · rintro ⟨cause, batch, hin, ht, hv⟩
    rw [Cause.verdict_eq_completed.1 hv] at hin
    exact ⟨batch, hin, ht⟩

theorem failed_iff_settled {pt : Point σ} {t : TaskRef} :
    Failed pt.sys.log t ↔ ∃ v, v ≠ .completed ∧ (v, t) ∈ pt.ledger.settled := by
  simp only [mem_settled]
  constructor
  · rintro ⟨cause, batch, hin, ht, hne⟩
    exact ⟨_, fun hv => hne (Cause.verdict_eq_completed.1 hv), cause, batch, hin, ht, rfl⟩
  · rintro ⟨v, hne, cause, batch, hin, ht, rfl⟩
    exact ⟨cause, batch, hin, ht, fun heq => hne (Cause.verdict_eq_completed.2 heq)⟩

/-- A task in a leaf succeeds or fails as the plan has it. -/
theorem outcome_of_leaf {cfg : Config} {kind : FailureKind} {fails : Batch → Nat → Prop}
    {pt : Point σ} (h : Grown (cfg.rules kind fails) cfg.gate pt.ledger) {j : Job TaskRef} {n : Nat}
    (hleaf : (cfg.rules kind fails).Leaf j n) {t : TaskRef} (ht : t ∈ j.tasks)
    (hsettled : ∃ v, (v, t) ∈ pt.ledger.settled) :
    (Succeeded pt.sys.log t ↔ ¬ fails j.tasks n) ∧ (Failed pt.sys.log t ↔ fails j.tasks n) ∧
      dispatchCount pt.sys.log t = j.losses + 1 := by
  have hproper := cfg.rules_proper kind fails
  have hverdict : ∀ v, (v, t) ∈ pt.ledger.settled → (v = .completed ∧ ¬ fails j.tasks n ∨
      v = .condemned ∧ fails j.tasks n) ∧ dispatchCount pt.sys.log t = j.losses + 1 := by
    intro v hv
    obtain ⟨j', n', hleaf', ht', hcount, hor⟩ := h.settled v t hv
    obtain ⟨rfl, rfl⟩ := hleaf'.unique hleaf hproper ht' ht
    rw [ledger_dispatchCount] at hcount
    exact ⟨hor, hcount⟩
  obtain ⟨v, hv⟩ := hsettled
  rw [succeeded_iff_settled, failed_iff_settled]
  refine ⟨⟨fun hin => ?_, fun hok => ?_⟩, ⟨?_, fun hfails => ?_⟩, (hverdict v hv).2⟩
  · exact ((hverdict _ hin).1.resolve_right (by simp)).2
  · rcases (hverdict v hv).1 with ⟨rfl, -⟩ | ⟨-, hfails⟩
    · exact hv
    · exact absurd hfails hok
  · rintro ⟨v', hne, hin⟩
    exact ((hverdict v' hin).1.resolve_left (fun hc => hne hc.1)).2
  · rcases (hverdict v hv).1 with ⟨-, hok⟩ | ⟨rfl, -⟩
    · exact absurd hfails hok
    · exact ⟨_, by simp, hv⟩

end EvalHarness
