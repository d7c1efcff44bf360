import EvalHarness.Coordinator.Backoffs

set_option autoImplicit false

/-! # Bounded work and termination

The retry count of a batch counts the losses of its tasks, so the budgets bound how many batches a
run dispatches and takes out of `active`. A fair run therefore leaves its loop; it leaves it with
nothing left to do, or by the abort, unless `record_batch` raises or a backoff overflows. -/

namespace EvalHarness

variable {σ : Type} {w : World σ}

/-- The loop is over: there is nothing left to do, or all workers are dead, or an exception left it,
    one that `record_batch` raised or the overflow of a backoff. -/
def Status.Over (w : World σ) : Status σ → Prop
  | .head _ => False
  | .exited s => s.idle
  | .aborted _ => True
  | .raised exc _ => (∃ i k, (w.env i).recordFault = some (k, exc)) ∨
      (exc = overflowError ∧ 1024 < w.cfg.maxBudget)

theorem Status.Reached.over {st : Status σ} (h : st.Reached w) (hne : ∀ s, st ≠ .head s) :
    st.Over w := by
  cases st with
  | head s => exact absurd rfl (hne s)
  | exited s => exact h.2
  | aborted s => trivial
  | raised exc s =>
      obtain ⟨p, hr, hc⟩ := h
      exact (hr.culprit hc).imp_right (fun hover => ⟨hover.1, hover.2.1⟩)

/-- Nothing is left to do, or the abort has fired with all workers dead. -/
def Status.Drained (w : World σ) : Status σ → Prop
  | .exited s => s.idle
  | .aborted s => AllDead w s
  | .head _ | .raised _ _ => False

/-- What the batches in the tables are like: none is empty, and the retry count of each is the
    number of losses its tasks have seen, at most the largest budget. -/
def Sys.Counted (w : World σ) (s : Sys σ) : Prop :=
  ∀ e ∈ s.entries, e.batch ≠ [] ∧ e.retryCount ≤ w.cfg.maxBudget ∧
    ∀ t ∈ e.batch, e.retryCount = lossCount s.log t

/-- Where a run is drained, every batch that went back had a backoff. -/
theorem Status.Reached.early {st : Status σ} (h : st.Reached w) (hdrained : st.Drained w)
    {f : Flight} (hback : GoesBack w st.sys.log f) : f.retryCount < 1024 := by
  obtain ⟨exc, hin, hgate⟩ := hback
  cases st with
  | head s => cases hdrained
  | exited s => exact (Reach.backed h.1 f exc hin hgate).resolve_right (by simp)
  | aborted s => exact (Reach.backed h f exc hin hgate).resolve_right (by simp)
  | raised exc' s => cases hdrained

/-- Where `record_batch` does not raise, a run that leaves its loop is drained exactly if every
    batch that goes back has a backoff. -/
theorem drained_iff {s₀ : Sys σ} (h : startRun w = .ok s₀)
    (hrecord : ∀ i, (w.env i).recordFault = none) (hleft : ∃ k, ∀ s, after w s₀ k ≠ .head s) :
    (∃ k, (after w s₀ k).Drained w)
      ↔ ∀ k f, GoesBack w (after w s₀ k).sys.log f → f.retryCount < 1024 := by
  constructor
  · rintro ⟨k, hdrained⟩ j f hback
    have hne : ∀ s, after w s₀ k ≠ .head s := by
      intro s hs
      rw [hs] at hdrained
      exact hdrained
    have hlast := hback.mono (after_log_suffix h (le_max_left j k))
    rw [after_stays (le_max_right j k) hne] at hlast
    exact (reach_after h k).early hdrained hlast
  · intro hearly
    obtain ⟨k, hne⟩ := hleft
    have hreached := reach_after h k
    refine ⟨k, ?_⟩
    cases hst : after w s₀ k with
    | head s => exact absurd hst (hne s)
    | exited s =>
        rw [hst] at hreached
        exact hreached.2
    | aborted s =>
        rw [hst] at hreached
        exact Reach.allDead hreached rfl
    | raised exc s =>
        obtain ⟨i, n, hfault⟩ := continues_of_early h k (hearly k) exc s hst
        rw [hrecord i] at hfault
        cases hfault

/-- What bounds the work of a run.
    * `entries`, `moments`: retry counts at the loop heads, and between them until the abort;
    * `dispatches`, `removals`: how many batches are dispatched, harvested and evicted;
    * `terminates`: a fair run leaves the loop;
    * `drains`: when it does so with empty tables or by the abort. -/
structure BoundedWork (w : World σ) (s₀ : Sys σ) : Prop where
  entries : ∀ k s, after w s₀ k = .head s → s.Counted w
  moments : ∀ s p, Reach w ⟨s, p⟩ → p ≠ .over → s.Counted w
  dispatches : ∀ k, (dispatches (after w s₀ k).sys.log).length
    ≤ (w.cfg.maxBudget + 1) * w.cfg.tasks.length
  removals : ∀ k, (removals (after w s₀ k).sys.log).length
    ≤ (w.cfg.maxBudget + 1) * w.cfg.tasks.length
  terminates : Fair w s₀ → ∃ k, (after w s₀ k).Over w
  drains : Fair w s₀ → (∀ i, (w.env i).recordFault = none) →
    ((∃ k, (after w s₀ k).Drained w)
      ↔ ∀ k f, GoesBack w (after w s₀ k).sys.log f → f.retryCount < 1024)

/-- Every run does a bounded amount of work, and a fair one whose `record_batch` does not raise ends
    with empty tables or by the abort if and only if no batch with budget left fails by an exception
    when it has been retried 1024 times or more. -/
theorem bounded_work {s₀ : Sys σ} (h : startRun w = .ok s₀) : BoundedWork w s₀ := by
  refine ⟨fun k s hs => ?_, fun s p hr hp => Reach.entries_counted hr hp, fun k => ?_,
    removals_bounded h, fun hfair => ?_, fun hfair hrecord => drained_iff h hrecord (hfair.ends h)⟩
  · have hr := reach_after h k
    rw [hs] at hr
    exact Reach.entries_counted hr (fun hover => by cases hover)
  · obtain ⟨p, hr⟩ := (reach_after h k).exists_phase
    exact hr.dispatches_le
  · obtain ⟨k, hk⟩ := hfair.ends h
    exact ⟨k, (reach_after h k).over hk⟩

theorem bounded_work_small : ∃ s₀, startRun smallWorld = .ok s₀ ∧ BoundedWork smallWorld s₀ ∧
    Fair smallWorld s₀ := by
  obtain ⟨s₀, s, h, hs, -⟩ := exists_exited (w := smallWorld) (k := 5) (P := fun _ => True)
    (by decide +kernel)
  refine ⟨s₀, h, bounded_work h, Fair.of_not_head (n := 5) (fun s' hs' => ?_)⟩
  rw [hs] at hs'
  cases hs'

/-- With a budget of 1025 a fair run whose `record_batch` never raises comes neither to empty tables
    nor to the abort: the backoff of the 1025th retry overflows. -/
theorem late_retry_not_drained : ∃ s₀, startRun (poisonWorld 1025) = .ok s₀ ∧
    Fair (poisonWorld 1025) s₀ ∧ (∀ i, ((poisonWorld 1025).env i).recordFault = none) ∧
    (∃ k s, after (poisonWorld 1025) s₀ k = .raised overflowError s) ∧
    ∀ k, ¬ (after (poisonWorld 1025) s₀ k).Drained (poisonWorld 1025) := by
  obtain ⟨s₀, h, -⟩ := exists_startRun (w := poisonWorld 1025) (P := fun _ => true)
    (by decide +kernel)
  have hinstant : (poisonWorld 1025).Instant := fun _ => rfl
  obtain ⟨hfair, k, hover, hev⟩ := hinstant.ends h
  obtain ⟨s, hs, -⟩ := overflows (poisonWorld_poisoned 1025).plan hinstant.calm h hover hev
    poisonWorld_not_backable
  refine ⟨s₀, h, hfair, hinstant.calm.recording, ⟨k, s, hs⟩, fun j hdrained => ?_⟩
  have hne : ∀ s', after (poisonWorld 1025) s₀ j ≠ .head s' := by
    intro s' hs'
    rw [hs'] at hdrained
    exact hdrained
  -- the status in which the run has left its loop is the same at `j` and at `k`
  have hsame : after (poisonWorld 1025) s₀ j = after (poisonWorld 1025) s₀ k :=
    (after_stays (le_max_left j k) hne).symm.trans (after_stays (le_max_right j k) hover)
  rw [hsame, hs] at hdrained
  exact hdrained

end EvalHarness
