import Mathlib

set_option autoImplicit false

/-! # Invariants and bounded runs of transition systems

Two rules the runs of a state machine are reasoned with: what every step keeps holds along every
path, and a quantity that only grows but stays bounded settles down. -/

namespace Transition

/-- What every step keeps, every path keeps. -/
theorem invariant_of_step {α : Type} {r : α → α → Prop} {I : α → Prop}
    (hstep : ∀ a b, r a b → I a → I b) {a b : α} (h : Relation.ReflTransGen r a b) (ha : I a) :
    I b := by
  induction h with
  | refl => exact ha
  | tail _ hlast ih => exact hstep _ _ hlast ih

/-- What every step keeps, every iterate of a step function keeps. -/
theorem invariant_of_iterate {α : Type} {f : α → α} {I : α → Prop} (hstep : ∀ a, I a → I (f a))
    {a : α} (ha : I a) : ∀ n, I (f^[n] a) := by
  intro n
  induction n with
  | zero => exact ha
  | succ n ih =>
      rw [Function.iterate_succ_apply']
      exact hstep _ ih

/-- A bounded sequence of numbers that never decreases is constant from some point on. -/
theorem eventually_const_of_bounded {f : ℕ → ℕ} (hmono : ∀ n, f n ≤ f (n + 1)) {bound : ℕ}
    (hbound : ∀ n, f n ≤ bound) : ∃ n, ∀ m, n ≤ m → f m = f n := by
  have hmono' : Monotone f := monotone_nat_of_le_succ hmono
  induction bound with
  | zero => exact ⟨0, fun m _ => by rw [Nat.le_zero.1 (hbound m), Nat.le_zero.1 (hbound 0)]⟩
  | succ bound ih =>
      by_cases h : ∀ n, f n ≤ bound
      · exact ih h
      · obtain ⟨n, hn⟩ := not_forall.1 h
        refine ⟨n, fun m hm => ?_⟩
        have hle := hmono' hm
        have htop := hbound m
        omega

/-- A run whose progress is bounded, and which from every point on makes progress again unless it
    ends, ends. -/
theorem ends_of_progress {f : ℕ → ℕ} {ended : ℕ → Prop} (hmono : ∀ n, f n ≤ f (n + 1)) {bound : ℕ}
    (hbound : ∀ n, f n ≤ bound) (hprogress : ∀ n, ∃ m, n ≤ m ∧ (f n < f m ∨ ended m)) :
    ∃ n, ended n := by
  obtain ⟨n, hconst⟩ := eventually_const_of_bounded hmono hbound
  obtain ⟨m, hm, hlt | hend⟩ := hprogress n
  · rw [hconst m hm] at hlt
    exact absurd hlt (lt_irrefl _)
  · exact ⟨m, hend⟩

end Transition
