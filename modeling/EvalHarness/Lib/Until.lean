import Mathlib

set_option autoImplicit false

/-! # Loops that may stop early

A loop takes its inputs one by one, and its body says after each whether to stop. Two loops that
stay related stop at the same input. -/

namespace Until

variable {σ τ α : Type}

/-- A loop over some inputs: whether it was stopped, and its state then. -/
def loop (f : σ → α → Bool × σ) : σ → List α → Bool × σ
  | s, [] => (false, s)
  | s, a :: as => if (f s a).1 then (true, (f s a).2) else loop f (f s a).2 as

/-- Simulation: if one turn of two related loops gives the same answer and related states, so do the
    loops. The relation may depend on the inputs that are still to come, and `D` on whether the
    loops were stopped. -/
theorem loop_related {f : σ → α → Bool × σ} {g : τ → α → Bool × τ} {R : σ → τ → List α → Prop}
    {D : Bool → σ → τ → Prop}
    (hturn : ∀ s t a as, R s t (a :: as) → (f s a).1 = (g t a).1 ∧
      ((g t a).1 = true → D true (f s a).2 (g t a).2) ∧
      ((g t a).1 = false → R (f s a).2 (g t a).2 as))
    (hend : ∀ s t, R s t [] → D false s t) {s : σ} {t : τ} {as : List α} (h : R s t as) :
    (loop f s as).1 = (loop g t as).1 ∧ D (loop g t as).1 (loop f s as).2 (loop g t as).2 := by
  induction as generalizing s t with
  | nil => exact ⟨rfl, hend s t h⟩
  | cons a as ih =>
      obtain ⟨hsame, hstop, hgo⟩ := hturn s t a as h
      unfold loop
      rw [hsame]
      by_cases hg : (g t a).1 = true
      · rw [if_pos hg, if_pos hg]
        exact ⟨rfl, hstop hg⟩
      · rw [if_neg hg, if_neg hg]
        exact ih (hgo (by simpa using hg))

theorem loop_map {β : Type} (f : σ → β → Bool × σ) (h : α → β) (s : σ) (as : List α) :
    loop f s (as.map h) = loop (fun s a => f s (h a)) s as := by
  induction as generalizing s with
  | nil => rfl
  | cons a as ih =>
      rw [List.map_cons, loop, loop, ih]

/-- A loop that looks for an input with a property stops if there is one, at the first. -/
theorem loop_find (p : α → Bool) (s : α) (as : List α) :
    loop (fun _ a => (p a, a)) s as = (as.any p, ((as.find? p).or as.getLast?).getD s) := by
  induction as generalizing s with
  | nil => rfl
  | cons a as ih =>
      unfold loop
      by_cases ha : p a = true
      · simp [ha]
      · simp only [ha, Bool.false_eq_true, if_false, ih, List.any_cons, Bool.false_or,
          List.find?_cons_of_neg ha]
        cases as with
        | nil => rfl
        | cons b as =>
            rw [List.getLast?_cons_cons]
            cases hfind : (b :: as).find? p with
            | some found => rfl
            | none =>
                rw [Option.none_or, List.getLast?_eq_some_getLast (List.cons_ne_nil b as)]
                rfl

end Until
