import EvalHarness.Coordinator.Conservation
import EvalHarness.Coordinator.Budget

set_option autoImplicit false

/-! # When the scheduler waits

The loop blocks in two places, `ray.wait` and the poll sleep. `Loop.lean` has shown that it gets
there only with saturated and with dormant tables; here this is read off the log of a whole run,
together with the ways the loop ends. -/

namespace EvalHarness

variable {σ : Type} {w : World σ}

theorem Reach.waits_saturated {pt : Point σ} (h : Reach w pt) :
    ∀ t ∈ waits pt.sys.log, t.Saturated := by
  refine h.invariant (I := fun pt => ∀ t ∈ waits pt.sys.log, t.Saturated) (fun s batches hs _ => ?_)
    (fun a b _ hm hI => ?_)
  · show ∀ t ∈ waits s.log, t.Saturated
    rw [waits, filterMap_start hs (fun _ => rfl) (fun _ _ => rfl)]
    simp
  · cases hm with
    | wait s hsat hne => exact List.forall_mem_cons.2 ⟨hsat, hI⟩
    | vacate s p slot hslot hwhy =>
        show ∀ t ∈ waits (s.vacate slot).log, t.Saturated
        rw [waits, filterMap_vacate (fun _ => rfl)]
        exact hI
    | promote s p slot h s' time hslot hempty hpool hs' => cases hs' <;> exact hI
    | failRefill s rf rest s' hagain hs' => cases hs' <;> exact hI
    | _ => exact hI

theorem Reach.sleeps_dormant {pt : Point σ} (h : Reach w pt) :
    ∀ x ∈ sleeps pt.sys.log, x.1.Dormant x.2 := by
  refine h.invariant (I := fun pt => ∀ x ∈ sleeps pt.sys.log, x.1.Dormant x.2)
    (fun s batches hs _ => ?_) (fun a b _ hm hI => ?_)
  · show ∀ x ∈ sleeps s.log, x.1.Dormant x.2
    rw [sleeps, filterMap_start hs (fun _ => rfl) (fun _ _ => rfl)]
    simp
  · cases hm with
    | sleep s now hdormant => exact List.forall_mem_cons.2 ⟨hdormant, hI⟩
    | vacate s p slot hslot hwhy =>
        show ∀ x ∈ sleeps (s.vacate slot).log, x.1.Dormant x.2
        rw [sleeps, filterMap_vacate (fun _ => rfl)]
        exact hI
    | promote s p slot h s' time hslot hempty hpool hs' => cases hs' <;> exact hI
    | failRefill s rf rest s' hagain hs' => cases hs' <;> exact hI
    | _ => exact hI

/-- The scheduler never waits while dispatchable work and a free live worker coexist: at every
    `ray.wait` and at every sleep `pending` is empty or every live slot has a ref in flight; it
    sleeps only with nothing pending or in flight and everything left deferred beyond the clock
    reading of the promotion scan; and it leaves the loop only with empty tables, or with all slots
    dead and the whole queue recorded (or by an exception of `record_batch` or of a backoff). -/
theorem never_waits_on_dispatchable {s₀ : Sys σ} (h : startRun w = .ok s₀) (k : Nat) :
    (∀ t, Event.waiting t ∈ (after w s₀ k).sys.log → t.Saturated) ∧
    (∀ t now, Event.sleeping t now ∈ (after w s₀ k).sys.log →
      t.pending = [] ∧ t.active.keys = [] ∧ t.deferred ≠ [] ∧ ∀ d ∈ t.deferred, now < d.1) ∧
    (∀ s, after w s₀ k = .exited s → s.pending = [] ∧ s.deferred = [] ∧ s.active.keys = []) ∧
    (∀ s, after w s₀ k = .aborted s → s.active.keys = [] ∧ AllDead w s) ∧
    (∀ exc s, after w s₀ k = .raised exc s → (∃ i n, (w.env i).recordFault = some (n, exc)) ∨
      (exc = overflowError ∧ 1024 < w.cfg.maxBudget)) := by
  have hreached := reach_after h k
  obtain ⟨p, hr⟩ := hreached.exists_phase
  refine ⟨fun t ht => hr.waits_saturated t (mem_waits.2 ht),
    fun t now ht => hr.sleeps_dormant (t, now) (mem_sleeps.2 ht), fun s hs => ?_, fun s hs => ?_,
    fun exc s hs => ?_⟩
  · rw [hs] at hreached
    have hidle := hreached.2
    simp only [Tables.idle, Bool.and_eq_true, List.isEmpty_iff] at hidle
    exact ⟨hidle.2, hidle.1.2, hidle.1.1⟩
  · rw [hs] at hreached
    have hdead := Reach.allDead hreached rfl
    exact ⟨(Reach.disciplined hreached).active_empty hdead.1, hdead⟩
  · rw [hs] at hreached
    obtain ⟨p', hr', hculprit⟩ := hreached
    exact (hr'.culprit hculprit).imp_right (fun hover => ⟨hover.1, hover.2.1⟩)

theorem never_waits_on_dispatchable_small : ∃ s₀, startRun smallWorld = .ok s₀ ∧
    (∀ t, Event.waiting t ∈ (after smallWorld s₀ 3).sys.log → t.Saturated) ∧
    (∀ t now, Event.sleeping t now ∈ (after smallWorld s₀ 3).sys.log →
      t.pending = [] ∧ t.active.keys = [] ∧ t.deferred ≠ [] ∧ ∀ d ∈ t.deferred, now < d.1) ∧
    (∀ s, after smallWorld s₀ 3 = .exited s →
      s.pending = [] ∧ s.deferred = [] ∧ s.active.keys = []) ∧
    (∀ s, after smallWorld s₀ 3 = .aborted s → s.active.keys = [] ∧ AllDead smallWorld s) ∧
    (∀ exc s, after smallWorld s₀ 3 = .raised exc s →
      (∃ i n, (smallWorld.env i).recordFault = some (n, exc)) ∨
      (exc = overflowError ∧ 1024 < smallWorld.cfg.maxBudget)) := by
  obtain ⟨s₀, h⟩ := startRun_small
  exact ⟨s₀, h, never_waits_on_dispatchable h 3⟩

end EvalHarness
