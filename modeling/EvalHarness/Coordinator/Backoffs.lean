import EvalHarness.Coordinator.Bisection

set_option autoImplicit false

/-! # The delays of retries

`backoff_seconds` forms `0.5 * 2 ** retry_count` before it caps it at 8 seconds, and from the 1024th
retry on there is no float for the power: the exception leaves the loop that schedules the retry.
Below that every retry of the exception path has its delay. -/

namespace EvalHarness

open Ledger

variable {σ : Type} {w : World σ}

/-! ## One delay -/

/-- The base of a backoff, `min(8.0, 0.5 * 2 ** retry_count)`. -/
def backoffBase (retryCount : Nat) : Except Exc ℚ :=
  (floatMulInt (1 / 2) (2 ^ retryCount)).map (fun x => min 8 x)

theorem backoffSeconds_eq_map (retryCount : Nat) (u : ℚ) :
    backoffSeconds retryCount u = (backoffBase retryCount).map (fun base => u * base) := by
  unfold backoffSeconds backoffBase
  rcases floatMulInt (1 / 2) (2 ^ retryCount) with exc | x
  · rfl
  · rfl

theorem backoffBase_eq {retryCount : Nat} (h : retryCount < 1024) :
    backoffBase retryCount = .ok (min 8 (1 / 2 * 2 ^ retryCount)) := by
  have hpow : ∀ m : Nat, 2 ^ retryCount < 2 ^ m ↔ retryCount < m :=
    fun m => Nat.pow_lt_pow_iff_right Nat.one_lt_two
  unfold backoffBase floatMulInt
  rw [if_pos ((hpow 1024).2 h)]
  simp [Except.map]

theorem base_mono {a b : Nat} (h : a ≤ b) :
    min (8 : ℚ) (1 / 2 * 2 ^ a) ≤ min 8 (1 / 2 * 2 ^ b) := by
  have hpow : (2 : ℚ) ^ a ≤ 2 ^ b := pow_le_pow_right₀ one_le_two h
  exact min_le_min_left 8 (mul_le_mul_of_nonneg_left hpow (by norm_num))

/-- A delay that is there is between 0 and 8 seconds, whatever is drawn. -/
theorem backoffSeconds_bounds {retryCount : Nat} (h : retryCount < 1024) {u : ℚ} (hu : 0 ≤ u)
    (hu' : u ≤ 1) :
    ∃ delay, backoffSeconds retryCount u = .ok delay ∧ 0 ≤ delay ∧ delay ≤ 8 := by
  have hbase : (0 : ℚ) ≤ min 8 (1 / 2 * 2 ^ retryCount) := by positivity
  have hcap : min (8 : ℚ) (1 / 2 * 2 ^ retryCount) ≤ 8 := min_le_left _ _
  refine ⟨u * min 8 (1 / 2 * 2 ^ retryCount), ?_, mul_nonneg hu hbase, ?_⟩
  · rw [backoffSeconds_eq_map, backoffBase_eq h]
    rfl
  · calc u * min 8 (1 / 2 * 2 ^ retryCount) ≤ 1 * min 8 (1 / 2 * 2 ^ retryCount) :=
          mul_le_mul_of_nonneg_right hu' hbase
      _ ≤ 8 := by rw [one_mul]; exact hcap

/-! ## The retries of a run -/

/-- A flight whose attempt failed by an exception, and which the budget gate lets go back. -/
def GoesBack (w : World σ) (log : List Event) (f : Flight) : Prop :=
  ∃ exc, (f, some exc) ∈ losses log ∧ w.cfg.gate f.job (some exc)

/-- The retries that a run has scheduled by an exception path: each has a delay, of at most 8
    seconds; the base does not decrease; and scheduling has not ended the run. -/
structure RetriesScheduled (w : World σ) (st : Status σ) : Prop where
  delays : ∀ f, GoesBack w st.sys.log f → ∀ u, 0 ≤ u → u ≤ 1 →
    ∃ delay, backoffSeconds f.retryCount u = .ok delay ∧ 0 ≤ delay ∧ delay ≤ 8
  grows : ∀ f f', GoesBack w st.sys.log f → GoesBack w st.sys.log f' →
    f.retryCount ≤ f'.retryCount → ∃ base base', backoffBase f.retryCount = .ok base ∧
      backoffBase f'.retryCount = .ok base' ∧ base ≤ base'
  continues : ∀ exc s, st = .raised exc s → ∃ i n, (w.env i).recordFault = some (n, exc)

/-- A flight that is lost has its loss in the log, and one that is put back by the exception path
    goes back. -/
def Point.Noted (w : World σ) (pt : Point σ) : Prop :=
  (∀ f reason, pt.phase = .lost f reason → (f, reason) ∈ losses pt.sys.log) ∧
    ∀ f entries, pt.phase = .spread f false entries → GoesBack w pt.sys.log f

theorem GoesBack.mono {log log' : List Event} {f : Flight} (h : GoesBack w log f)
    (hlog : log <:+ log') : GoesBack w log' f := by
  obtain ⟨exc, hin, hgate⟩ := h
  exact ⟨exc, (hlog.filterMap _).subset hin, hgate⟩

/-- What has been noted stays so while the driver holds the same. -/
theorem Point.Noted.mono {s s' : Sys σ} {p : Phase} (h : Point.Noted w ⟨s, p⟩)
    (hlog : s.log <:+ s'.log) : Point.Noted w ⟨s', p⟩ :=
  ⟨fun f reason hp => (hlog.filterMap _).subset (h.1 f reason hp),
    fun f entries hp => (h.2 f entries hp).mono hlog⟩

/-- A flight is lost, and its loss is in the log. -/
theorem noted_lost {s : Sys σ} {f : Flight} {reason : Option Exc}
    (h : (f, reason) ∈ losses s.log) : Point.Noted w ⟨s, .lost f reason⟩ := by
  refine ⟨?_, by simp⟩
  intro f' reason' hp
  simp only [Phase.lost.injEq] at hp
  obtain ⟨rfl, rfl⟩ := hp
  exact h

/-- A flight is put back, and it goes back unless it hung. -/
theorem noted_spread {s : Sys σ} {f : Flight} {hung : Bool} {entries : List Entry}
    (h : hung = false → GoesBack w s.log f) : Point.Noted w ⟨s, .spread f hung entries⟩ := by
  refine ⟨by simp, ?_⟩
  intro f' entries' hp
  simp only [Phase.spread.injEq] at hp
  obtain ⟨rfl, hhung, -⟩ := hp
  exact h hhung

theorem Reach.noted {pt : Point σ} (h : Reach w pt) : pt.Noted w := by
  refine h.invariant (I := Point.Noted w) (fun s batches _ _ => ⟨by simp, by simp⟩)
    (fun a b _ hm hI => ?_)
  have hlog := hm.log_suffix
  cases hm with
  | fail s ref f exc => exact noted_lost List.mem_cons_self
  | completeFailed s ref f rows i k exc hr hk => exact noted_lost List.mem_cons_self
  | evict s ref f now submittedAt hf hage => exact noted_lost List.mem_cons_self
  | retry s f reason b hb hgate =>
      refine noted_spread ?_
      intro hhung
      obtain ⟨exc, rfl⟩ := Option.isSome_iff_exists.1 (Option.isNone_eq_false_iff.1 hhung)
      exact ⟨exc, hI.1 f (some exc) rfl, (Config.gate_iff hb).2 hgate⟩
  | defer s f e rest delay jitter hdelay => exact noted_spread (fun _ => hI.2 f (e :: rest) rfl)
  | condemnFailed s f reason b hb hgate i k exc hr => exact hI.mono hlog
  | call s p d hd => exact hI.mono hlog
  | vacate s p slot hslot hwhy => exact hI.mono hlog
  | promote s p slot h s' time hslot hempty hpool hs' => exact hI.mono hlog
  | fallback s p => exact hI.mono hlog
  | install s p slot healthy hslot hempty => exact hI.mono hlog
  | abandon s p slot exc => exact hI.mono hlog
  | _ => exact ⟨by simp, by simp⟩

/-- What ends a run whose retries come before the 1024th is the aggregator. -/
theorem continues_of_early {s₀ : Sys σ} (h : startRun w = .ok s₀) (k : Nat)
    (hearly : ∀ f, GoesBack w (after w s₀ k).sys.log f → f.retryCount < 1024) (exc : Exc)
    (s : Sys σ) (hs : after w s₀ k = .raised exc s) :
    ∃ i n, (w.env i).recordFault = some (n, exc) := by
  have hreached := reach_after h k
  rw [hs] at hreached hearly
  obtain ⟨p, hr, hculprit⟩ := hreached
  rcases hculprit with hfault | ⟨f, e, rest, jitter, rfl, hover⟩ | ⟨f, reason, rfl, hindex⟩
  · exact hfault
  · have hlate := (backoffSeconds_error hover).2
    have hlt := hearly f (hr.noted.2 f (e :: rest) rfl)
    omega
  · -- a lost batch has a first task
    obtain ⟨t, rest, hbatch⟩ := List.exists_cons_of_ne_nil hr.lost_ne_nil
    simp [hbatch, Config.taskMaxRetries] at hindex

/-- Every retry that a run schedules by an exception path has a delay, and none ends the run, if and
    only if each such retry comes before the 1024th of its batch. -/
theorem retries_scheduled_iff {s₀ : Sys σ} (h : startRun w = .ok s₀) (k : Nat) :
    RetriesScheduled w (after w s₀ k)
      ↔ ∀ f, GoesBack w (after w s₀ k).sys.log f → f.retryCount < 1024 := by
  constructor
  · intro hscheduled f hback
    obtain ⟨delay, hdelay, -⟩ := hscheduled.delays f hback 0 le_rfl zero_le_one
    by_contra hlate
    obtain ⟨exc, hexc⟩ := (backoffSeconds_error_iff f.retryCount 0).2 (not_lt.1 hlate)
    rw [hdelay] at hexc
    cases hexc
  · intro hearly
    refine ⟨?_, ?_, continues_of_early h k hearly⟩
    · intro f hback u hu hu'
      exact backoffSeconds_bounds (hearly f hback) hu hu'
    · intro f f' hback hback' hle
      exact ⟨_, _, backoffBase_eq (hearly f hback), backoffBase_eq (hearly f' hback'),
        base_mono hle⟩

/-- With no budget above 1024 every retry comes early enough. -/
theorem GoesBack.early {pt : Point σ} (h : Reach w pt) (hmax : w.cfg.maxBudget ≤ 1024) {f : Flight}
    (hback : GoesBack w pt.sys.log f) : f.retryCount < 1024 := by
  obtain ⟨exc, hin, hgate⟩ := hback
  have hknown := h.losses_known (f.job, some exc)
    (Multiset.mem_coe.2 (List.mem_map.2 ⟨_, hin, rfl⟩))
  have hlt : f.retryCount < w.cfg.maxBudget := hgate.lt_maxBudget hknown
  omega

theorem retries_scheduled_small : ∃ s₀, startRun (poisonWorld 2) = .ok s₀ ∧
    ∀ k, RetriesScheduled (poisonWorld 2) (after (poisonWorld 2) s₀ k) := by
  obtain ⟨s₀, h, -⟩ := exists_startRun (w := poisonWorld 2) (P := fun _ => true) (by decide +kernel)
  refine ⟨s₀, h, ?_⟩
  intro k
  refine (retries_scheduled_iff h k).2 ?_
  intro f hback
  obtain ⟨p, hr⟩ := (reach_after h k).exists_phase
  exact GoesBack.early hr (by decide +kernel) hback

/-- With a budget of 1025 the run of an obliging cluster ends in an exception while it schedules the
    1025th retry of a task, and no call of `record_batch` raises. -/
theorem late_retry_raises : ∃ s₀ k s, startRun (poisonWorld 1025) = .ok s₀ ∧
    after (poisonWorld 1025) s₀ k = .raised overflowError s ∧
    (∀ i, ((poisonWorld 1025).env i).recordFault = none) ∧
    ¬ RetriesScheduled (poisonWorld 1025) (after (poisonWorld 1025) s₀ k) := by
  obtain ⟨s₀, h, -⟩ := exists_startRun (w := poisonWorld 1025) (P := fun _ => true)
    (by decide +kernel)
  have hinstant : (poisonWorld 1025).Instant := fun _ => rfl
  obtain ⟨-, k, hover, hev⟩ := hinstant.ends h
  obtain ⟨s, hs, -⟩ := overflows (poisonWorld_poisoned 1025).plan hinstant.calm h hover hev
    poisonWorld_not_backable
  have hrecording : ∀ i, ((poisonWorld 1025).env i).recordFault = none := hinstant.calm.recording
  refine ⟨s₀, k, s, h, hs, hrecording, ?_⟩
  intro hscheduled
  obtain ⟨i, n, hfault⟩ := hscheduled.continues _ s hs
  rw [hrecording i] at hfault
  cases hfault

end EvalHarness
