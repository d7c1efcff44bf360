import EvalHarness.Coordinator.Accounting

set_option autoImplicit false

/-! # Retry counts and retry budgets

What the ledger says about budgets. The gate of both failure paths compares the retry count of a
batch with the budget of its first task, so the largest budget bounds every retry count and the
whole run; the budget of a task that is not first in its batch is respected only where the gate
decides for it as it decides for the first. -/

namespace EvalHarness

open Ledger

variable {σ : Type} {w : World σ}

/-! ## Counting -/

/-- How many lost flights a task was part of. -/
def lossCount (log : List Event) (t : TaskRef) : Nat := (losses log).countP (fun l => t ∈ l.1.batch)

/-- How many dispatched batches a task was part of. -/
def dispatchCount (log : List Event) (t : TaskRef) : Nat :=
  (dispatches log).countP (fun f => t ∈ f.batch)

theorem ledger_lossCount (pt : Point σ) (t : TaskRef) :
    pt.ledger.lossCount t = lossCount pt.sys.log t := by
  simp only [Book.lossCount, Point.ledger, Multiset.coe_countP, List.countP_map]
  rfl

theorem ledger_dispatchCount (pt : Point σ) (t : TaskRef) :
    pt.ledger.dispatchCount t = dispatchCount pt.sys.log t := by
  simp only [Book.dispatchCount, Point.ledger, flightJobs, Multiset.coe_countP, List.countP_map]
  rfl

/-- The entries in the tables: queued, deferred and in flight. -/
def Tables.entries (t : Tables) : List Entry :=
  t.pending ++ t.deferred.map Prod.snd ++ t.active.values.map Flight.entry

theorem Config.budget_le_maxBudget {cfg : Config} {t : TaskRef} (h : t < cfg.tasks.length) :
    cfg.budget t ≤ cfg.maxBudget := by
  have hmax : ∀ (l : List Nat) (x : Nat), x ∈ l → x ≤ l.foldr max 0 := by
    intro l
    induction l with
    | nil => intro x hx; cases hx
    | cons y rest ih =>
        intro x hx
        rcases List.mem_cons.1 hx with rfl | hx
        · exact le_max_left _ _
        · exact (ih x hx).trans (le_max_right _ _)
  have hle := hmax _ _ (List.mem_map.2 ⟨t, List.mem_range.2 h, rfl⟩ :
    (cfg.budget t).toNat ∈ (List.range cfg.tasks.length).map (fun t => (cfg.budget t).toNat))
  exact (Int.self_le_toNat _).trans (Int.ofNat_le.2 hle)

/-- A batch that goes back has been lost less often than the budget of its first task. -/
theorem RetryGate.lt {b : Int} {batch : Batch} {rc : Nat} {reason : Option Exc}
    (h : RetryGate b batch rc reason) : rc < b := by
  cases reason with
  | none => exact h
  | some exc => exact h.1

theorem Config.gate.lt_maxBudget {cfg : Config} {j : Job TaskRef} {reason : Option Exc}
    (h : cfg.gate j reason) (hin : ∀ t ∈ j.tasks, t < cfg.tasks.length) :
    j.losses < cfg.maxBudget := by
  obtain ⟨b, hb, hgate⟩ := h
  obtain ⟨tasks, losses⟩ := j
  cases tasks with
  | nil => cases hb
  | cons t rest =>
      cases hb
      have hlt := hgate.lt
      have hle := Config.budget_le_maxBudget (hin t List.mem_cons_self)
      omega

/-! ## Bounded work -/

theorem Reach.bounded_maxBudget {pt : Point σ} (h : Reach w pt) :
    Bounded (fun _ => w.cfg.maxBudget) pt.ledger :=
  h.bounded (fun l hl hgate _ _ => hgate.lt_maxBudget (h.losses_known l hl))

/-- At most one dispatch per task and unit of the largest budget, and one more. -/
theorem Reach.dispatches_le {pt : Point σ} (h : Reach w pt) :
    (dispatches pt.sys.log).length ≤ (w.cfg.maxBudget + 1) * w.cfg.tasks.length := by
  have hle := h.bounded_maxBudget.dispatched_card_le
  rw [h.total, Finset.sum_const, smul_eq_mul] at hle
  have hcard : (Multiset.toFinset (↑(List.range w.cfg.tasks.length) : Multiset TaskRef)).card
      = w.cfg.tasks.length := by
    rw [Multiset.toFinset_card_of_nodup (Multiset.coe_nodup.2 List.nodup_range)]
    simp
  rw [hcard, Nat.mul_comm] at hle
  simpa [Point.ledger, flightJobs] using hle

/-- The entries in the tables are among the jobs that wait or run; after the abort only the ones in
    flight are left. -/
theorem Point.entries_placed {s : Sys σ} {p : Phase} (hp : p ≠ .over) :
    ∀ e ∈ s.entries, e.job ∈ (⟨s, p⟩ : Point σ).ledger.waiting ∨
      e.job ∈ (⟨s, p⟩ : Point σ).ledger.running := by
  intro e he
  have hwaiting : (⟨s, p⟩ : Point σ).ledger.waiting
      = entryJobs (s.pending ++ s.deferred.map Prod.snd ++ p.heldEntries) := by
    cases p <;> first | rfl | exact absurd rfl hp
  rcases List.mem_append.1 he with he | he
  · refine Or.inl ?_
    rw [hwaiting]
    exact List.mem_map_of_mem (List.mem_append_left _ he)
  · obtain ⟨f, hf, rfl⟩ := List.mem_map.1 he
    exact Or.inr (List.mem_map_of_mem (f := Flight.job) (List.mem_append_left _ hf))

/-- Retry counts of the entries in the tables. -/
theorem Reach.entries_counted {s : Sys σ} {p : Phase} (h : Reach w ⟨s, p⟩) (hp : p ≠ .over) :
    ∀ e ∈ s.entries, e.batch ≠ [] ∧ e.retryCount ≤ w.cfg.maxBudget ∧
      ∀ t ∈ e.batch, e.retryCount = lossCount s.log t := by
  intro e he
  have hC := h.consistent
  have hB := h.bounded_maxBudget
  -- the job of the entry in its place, and the bound of that place
  have hjob : (∃ y ∈ (⟨s, p⟩ : Point σ).ledger.placed, y.job = e.job ∧
      y.losses = e.retryCount) ∧ ∀ t ∈ e.batch, e.retryCount ≤ w.cfg.maxBudget := by
    rcases Point.entries_placed hp e he with hin | hin
    · exact ⟨⟨⟨e.job, e.retryCount, e.retryCount⟩, Multiset.mem_add.2 (Or.inl (Multiset.mem_add.2
        (Or.inl (Multiset.mem_map.2 ⟨e.job, hin, rfl⟩)))), rfl, rfl⟩, hB.waiting _ hin⟩
    · exact ⟨⟨⟨e.job, e.retryCount, e.retryCount + 1⟩, Multiset.mem_add.2 (Or.inl
        (Multiset.mem_add.2 (Or.inr (Multiset.mem_map.2 ⟨e.job, hin, rfl⟩)))), rfl, rfl⟩,
        hB.running _ hin⟩
  obtain ⟨⟨y, hy, hyjob, hylosses⟩, hle⟩ := hjob
  obtain ⟨hne, hseen⟩ := hC.placed y hy
  rw [hyjob] at hne hseen
  obtain ⟨t₀, ht₀⟩ := List.exists_mem_of_ne_nil _ hne
  refine ⟨hne, hle t₀ ht₀, fun t ht => ?_⟩
  rw [← hylosses, ← (hseen t ht).1, ledger_lossCount]

/-! ## Exceptions that leave the loop -/

/-- The entries a lost flight goes back as count one loss more than the flight. -/
theorem Reach.spread_counts {pt : Point σ} (h : Reach w pt) : ∀ f hung entries,
    pt.phase = .spread f hung entries → ∀ e ∈ entries, e.retryCount = f.retryCount + 1 := by
  refine h.invariant (I := fun pt => ∀ f hung entries, pt.phase = .spread f hung entries →
    ∀ e ∈ entries, e.retryCount = f.retryCount + 1) (fun s batches _ _ f hung entries hp => ?_)
    (fun a b _ hm hI => ?_)
  · simp at hp
  · cases hm with
    | retry s f reason b hb hgate =>
        intro f' hung entries hp
        simp only [Phase.spread.injEq] at hp
        obtain ⟨rfl, -, rfl⟩ := hp
        exact retryEntries_retryCount
    | defer s f e rest delay jitter hdelay =>
        intro f' hung entries hp
        simp only [Phase.spread.injEq] at hp
        obtain ⟨rfl, -, rfl⟩ := hp
        exact fun e' he' => hI f false (e :: rest) rfl e' (List.mem_cons_of_mem e he')
    | call s p d hd => exact hI
    | vacate s p slot hslot hwhy => exact hI
    | promote s p slot h s' time hslot hempty hpool hs' => exact hI
    | fallback s p => exact hI
    | install s p slot healthy hslot hempty => exact hI
    | abandon s p slot exc => exact hI
    | _ => simp

/-- The batch of a lost flight is not empty. -/
theorem Reach.lost_ne_nil {s : Sys σ} {f : Flight} {reason : Option Exc}
    (h : Reach w ⟨s, .lost f reason⟩) : f.batch ≠ [] := by
  have hin : (⟨f.job, f.retryCount + 1, f.retryCount + 1⟩ : Placed TaskRef)
      ∈ (⟨s, .lost f reason⟩ : Point σ).ledger.placed :=
    Multiset.mem_add.2 (Or.inr (Multiset.mem_map.2
      ⟨lossJob (f, reason), Multiset.mem_coe.2 List.mem_cons_self, rfl⟩))
  exact (h.consistent.placed _ hin).1

/-- Only two exceptions leave the loop: one that `record_batch` raised, and the overflow of a
    backoff at a retry count no budget below 1025 reaches. -/
theorem Reach.culprit {s : Sys σ} {p : Phase} {exc : Exc} (h : Reach w ⟨s, p⟩)
    (hc : Culprit w p exc) : (∃ i k, (w.env i).recordFault = some (k, exc)) ∨
      (exc = overflowError ∧ 1024 < w.cfg.maxBudget ∧
        ∃ f e rest, p = .spread f false (e :: rest)) := by
  rcases hc with hfault | ⟨f, e, rest, jitter, rfl, hover⟩ | ⟨f, reason, rfl, hindex⟩
  · exact Or.inl hfault
  · obtain ⟨hexc, hle⟩ := backoffSeconds_error hover
    have hcount := h.spread_counts f false (e :: rest) rfl e List.mem_cons_self
    have hin : e.job ∈ (⟨s, .spread f false (e :: rest)⟩ : Point σ).ledger.waiting :=
      List.mem_map_of_mem (List.mem_append_right _ List.mem_cons_self)
    have hplaced : (⟨e.job, e.retryCount, e.retryCount⟩ : Placed TaskRef)
        ∈ (⟨s, .spread f false (e :: rest)⟩ : Point σ).ledger.placed :=
      Multiset.mem_add.2 (Or.inl (Multiset.mem_add.2 (Or.inl (Multiset.mem_map.2
        ⟨e.job, hin, rfl⟩))))
    obtain ⟨t, ht⟩ := List.exists_mem_of_ne_nil _ (h.consistent.placed _ hplaced).1
    have hmax : e.retryCount ≤ w.cfg.maxBudget := h.bounded_maxBudget.waiting _ hin t ht
    exact Or.inr ⟨hexc, by omega, f, e, rest, rfl⟩
  · have hne := h.lost_ne_nil
    cases hbatch : f.batch with
    | nil => exact absurd hbatch hne
    | cons t rest => simp [hbatch, Config.taskMaxRetries] at hindex

/-! ## Each task's own budget -/

/-- A failure record of a task is justified: its budget is used up, or it failed alone and
    deterministically, or all workers were dead. -/
def Justified (cfg : Config) (log : List Event) (cause : Cause) (t : TaskRef) : Prop :=
  cfg.budget t + 1 ≤ lossCount log t ∨
    (∃ f exc, Event.failed f exc ∈ log ∧ f.batch = [t] ∧ classifyFailure exc = .deterministic) ∨
    cause = .workersDead

/-- The budget of a task is honoured: it is dispatched at most once more than its budget says, and
    the coordinator records it as failed only with a justification. -/
structure BudgetHonoured (cfg : Config) (log : List Event) (t : TaskRef) : Prop where
  dispatches : dispatchCount log t ≤ cfg.budget t + 1
  failures : ∀ cause batch rows, Event.recorded cause batch rows ∈ log → t ∈ batch →
    cause ≠ .completed → Justified cfg log cause t

/-- The gate decides for every task of a lost batch as it decides for the first one. -/
def Config.Uniform (cfg : Config) (f : Flight) : Prop :=
  ∀ t₀ ∈ f.batch.head?, ∀ t ∈ f.batch, f.retryCount < cfg.budget t ↔ f.retryCount < cfg.budget t₀

instance (cfg : Config) (f : Flight) : Decidable (cfg.Uniform f) :=
  inferInstanceAs (Decidable (∀ t₀ ∈ f.batch.head?, ∀ t ∈ f.batch, _ ↔ _))

theorem mem_losses {log : List Event} {f : Flight} {reason : Option Exc}
    (h : (f, reason) ∈ losses log) (exc : Exc) (hreason : reason = some exc) :
    Event.failed f exc ∈ log := by
  rw [losses, List.mem_filterMap] at h
  obtain ⟨e, he, heq⟩ := h
  cases e <;> simp only [Option.some.injEq, Prod.mk.injEq, reduceCtorEq] at heq
  · obtain ⟨rfl, rfl⟩ := heq
    cases hreason
    exact he
  · obtain ⟨-, rfl⟩ := heq
    cases hreason

theorem failed_mem_losses {log : List Event} {f : Flight} {exc : Exc}
    (h : Event.failed f exc ∈ log) : (f, some exc) ∈ losses log :=
  List.mem_filterMap.2 ⟨_, h, rfl⟩

theorem mem_recordings {log : List Event} {cause : Cause} {batch : Batch} :
    (cause, batch) ∈ recordings log ↔ ∃ rows, Event.recorded cause batch rows ∈ log :=
  mem_filterMap_events (fun e => by cases e <;> simp)

theorem recorded_settled {log : List Event} {cause : Cause} {batch : Batch}
    {rows : List EvalResult} {t : TaskRef} (h : Event.recorded cause batch rows ∈ log)
    (ht : t ∈ batch) : (cause.verdict, t) ∈ (recordings log).flatMap settleRecords :=
  List.mem_flatMap.2 ⟨(cause, batch), mem_recordings.2 ⟨rows, h⟩, List.mem_map.2 ⟨t, ht, rfl⟩⟩

/-- What the gate kept out although it was lost is justified, task by task. -/
theorem justified_of_not_gate {cfg : Config} {log : List Event} {l : Flight × Option Exc}
    {cause : Cause} {t : TaskRef} (hl : l ∈ losses log) (ht : t ∈ l.1.batch)
    (hgate : ¬ cfg.gate l.1.job l.2) (hcount : lossCount log t = l.1.retryCount + 1)
    (huniform : cfg.Uniform l.1) : Justified cfg log cause t := by
  obtain ⟨f, reason⟩ := l
  obtain ⟨slot, batch, rc⟩ := f
  cases batch with
  | nil => cases ht
  | cons t₀ rest =>
      by_cases hlt : (rc : Int) < cfg.budget t₀
      · cases reason with
        | none => exact absurd ⟨_, rfl, hlt⟩ hgate
        | some exc =>
            have hkind : ¬ (classifyFailure exc = .transient ∨ 1 < (t₀ :: rest).length) :=
              fun hor => hgate ⟨_, rfl, hlt, hor⟩
            rw [not_or] at hkind
            have hrest : rest = [] := by
              have := hkind.2
              simp only [List.length_cons] at this
              exact List.length_eq_zero_iff.1 (by omega)
            subst hrest
            rw [List.mem_singleton.1 ht]
            refine Or.inr (Or.inl ⟨_, exc, mem_losses hl exc rfl, rfl, ?_⟩)
            cases hc : classifyFailure exc with
            | transient => exact absurd hc hkind.1
            | deterministic => rfl
      · have hout : ¬ (rc : Int) < cfg.budget t := fun h => hlt ((huniform t₀ rfl t ht).1 h)
        refine Or.inl ?_
        rw [hcount]
        push_cast
        omega

/-- Each task's own retry budget is honoured, in every run whose budgets are not negative and whose
    lost batches are uniform. -/
theorem budget_honoured {s₀ : Sys σ} (h : startRun w = .ok s₀) (k : Nat)
    (hbudget : ∀ t < w.cfg.tasks.length, 0 ≤ w.cfg.budget t)
    (huniform : ∀ l ∈ losses (after w s₀ k).sys.log, w.cfg.Uniform l.1) :
    ∀ t < w.cfg.tasks.length, BudgetHonoured w.cfg (after w s₀ k).sys.log t := by
  obtain ⟨p, hr⟩ := (reach_after h k).exists_phase
  generalize (after w s₀ k).sys = s at huniform hr
  have hgate : ∀ l ∈ (⟨s, p⟩ : Point σ).ledger.losses, w.cfg.gate l.1 l.2 →
      ∀ t ∈ l.1.tasks, l.1.losses < (w.cfg.budget t).toNat := by
    rintro _ hl ⟨b, hb, hgate⟩ t ht
    obtain ⟨l, hin, rfl⟩ := List.mem_map.1 (Multiset.mem_coe.1 hl)
    obtain ⟨⟨slot, batch, rc⟩, reason⟩ := l
    cases batch with
    | nil => cases hb
    | cons t₀ rest =>
        cases hb
        have hlt : (rc : Int) < w.cfg.budget t := (huniform _ hin t₀ rfl t ht).2 hgate.lt
        show rc < _
        omega
  intro t ht
  refine ⟨?_, fun cause batch rows hin htask hcause => ?_⟩
  · have hle := (hr.bounded hgate).dispatches t
    rw [ledger_dispatchCount] at hle
    have := hbudget t ht
    show (dispatchCount s.log t : Int) ≤ _
    have hle' : dispatchCount s.log t ≤ (w.cfg.budget t).toNat + 1 := hle
    omega
  · have hcondemned : (.condemned, t) ∈ (⟨s, p⟩ : Point σ).ledger.settled →
        Justified w.cfg s.log cause t := by
      intro hsettled
      obtain ⟨_, hl, hin', hng, hcount, -⟩ := hr.consistent.condemned t hsettled
      obtain ⟨l, hl', rfl⟩ := List.mem_map.1 (Multiset.mem_coe.1 hl)
      rw [ledger_lossCount] at hcount
      exact justified_of_not_gate hl' hin' hng hcount (huniform l hl')
    have hsettled := recorded_settled hin htask
    cases cause with
    | completed => exact absurd rfl hcause
    | exception kind => exact hcondemned hsettled
    | hung => exact hcondemned hsettled
    | workersDead => exact Or.inr (Or.inr rfl)

/-- Two tasks in one batch, the first without retries, the second with `budget` of them. -/
def pairConfig (budget : Int) : Config where
  nWorkers := 1
  batchSize := 2
  tasks := [⟨"a", some 0⟩, ⟨"b", some budget⟩]

/-- Every batch fails. -/
def pairWorld (budget : Int) : World Unit where
  cfg := pairConfig budget
  evaluateBatch := failingOn (pairConfig budget) (fun _ => true)
  backend := ()
  env := promptReply 1

theorem budget_honoured_pair : ∃ s₀, startRun (pairWorld 0) = .ok s₀ ∧
    ∀ t < 2, BudgetHonoured (pairConfig 0) (after (pairWorld 0) s₀ 2).sys.log t := by
  obtain ⟨s₀, h, heval⟩ := exists_startRun (w := pairWorld 0)
    (P := fun s => decide (∀ l ∈ losses (after (pairWorld 0) s 2).sys.log,
      (pairConfig 0).Uniform l.1)) (by decide +kernel)
  exact ⟨s₀, h, budget_honoured h 2 (by decide) (of_decide_eq_true heval)⟩

/-- Next to a task without retries, a task with three is given up after its first failure. -/
theorem budget_not_honoured : ∃ s₀, startRun (pairWorld 3) = .ok s₀ ∧
    ¬ BudgetHonoured (pairConfig 3) (after (pairWorld 3) s₀ 1).sys.log 1 := by
  obtain ⟨s₀, h, heval⟩ := exists_startRun (w := pairWorld 3)
    (P := fun s => decide (lossCount (after (pairWorld 3) s 1).sys.log 1 = 1) &&
      decide ((.exception .transient, [0, 1]) ∈ recordings (after (pairWorld 3) s 1).sys.log) &&
      decide ((losses (after (pairWorld 3) s 1).sys.log).map (fun l => l.1.batch) = [[0, 1]]))
    (by decide +kernel)
  simp only [Bool.and_eq_true, decide_eq_true_eq] at heval
  obtain ⟨⟨hloss, hrec⟩, hbatches⟩ := heval
  refine ⟨s₀, h, fun hhonoured => ?_⟩
  obtain ⟨rows, hin⟩ := mem_recordings.1 hrec
  rcases hhonoured.failures _ _ rows hin (by decide) (by decide) with
    hspent | ⟨f, exc, hfailed, halone, -⟩ | habort
  · rw [hloss] at hspent
    exact absurd hspent (by decide)
  · have hmem := List.mem_map_of_mem (f := fun l => l.1.batch) (failed_mem_losses hfailed)
    rw [hbatches, halone] at hmem
    exact absurd hmem (by decide)
  · cases habort

end EvalHarness
