import Mathlib

set_option autoImplicit false

/-! # Nearest ranks

A value of a list has a rank if at least so many values are at most it and fewer are below it. That
says nothing of the order the values stand in; once they are sorted, the value of a rank is at the
index below it. -/

namespace Ranks

variable {α : Type} [LinearOrder α]

/-- How many values are at most `v`. -/
def countLe (l : List α) (v : α) : ℕ := l.countP (fun x => x ≤ v)

/-- How many values are below `v`. -/
def countLt (l : List α) (v : α) : ℕ := l.countP (fun x => x < v)

theorem countLe_le_countLt (l : List α) {v w : α} (h : v < w) : countLe l v ≤ countLt l w := by
  refine List.countP_mono_left (fun x _ hx => ?_)
  exact decide_eq_true ((of_decide_eq_true hx).trans_lt h)

/-! ## The value at an index of a sorted list -/

theorem countLt_getElem_le {l : List α} (h : l.Pairwise (fun x y => x ≤ y)) {i : ℕ}
    (hi : i < l.length) : countLt l l[i] ≤ i := by
  have hdrop : (l.drop i).countP (fun x => x < l[i]) = 0 := by
    rw [List.countP_eq_zero]
    intro x hx
    rw [List.drop_eq_getElem_cons hi] at hx
    have hfrom : (l[i] :: l.drop (i + 1)).Pairwise (fun x y => x ≤ y) := by
      rw [← List.drop_eq_getElem_cons hi]
      exact h.drop
    rcases List.mem_cons.1 hx with rfl | hbehind
    · simp
    · simpa using (List.pairwise_cons.1 hfrom).1 x hbehind
  calc countLt l l[i]
      = (l.take i).countP (fun x => x < l[i]) + (l.drop i).countP (fun x => x < l[i]) := by
        rw [countLt, ← List.countP_append, List.take_append_drop]
    _ ≤ i := by
        rw [hdrop, Nat.add_zero]
        exact List.countP_le_length.trans (List.length_take_le i l)

theorem lt_countLe_getElem {l : List α} (h : l.Pairwise (fun x y => x ≤ y)) {i : ℕ}
    (hi : i < l.length) : i < countLe l l[i] := by
  have hall : ∀ x ∈ l.take (i + 1), decide (x ≤ l[i]) = true := by
    intro x hx
    obtain ⟨j, hj, rfl⟩ := List.mem_take_iff_getElem.1 hx
    rcases Nat.lt_or_ge j i with hlt | hge
    · exact decide_eq_true (List.pairwise_iff_getElem.1 h j i _ hi hlt)
    · have heq : j = i := by omega
      simp [heq]
  have hlen : (l.take (i + 1)).length = i + 1 := List.length_take_of_le hi
  calc i < (l.take (i + 1)).countP (fun x => x ≤ l[i]) := by
        rw [List.countP_eq_length.2 hall, hlen]
        exact Nat.lt_succ_self i
    _ ≤ countLe l l[i] := (List.take_sublist (i + 1) l).countP_le

/-! ## The value of a rank -/

variable {K : Type} [Semiring K] [LinearOrder K]

/-- At least `r` values are at most `v`, which is one of them, and fewer than `r` are below it. -/
structure IsNearestRank (l : List α) (r : K) (v : α) : Prop where
  mem : v ∈ l
  le_countLe : r ≤ countLe l v
  countLt_lt : countLt l v < r

namespace IsNearestRank

variable {l l' : List α} {r r' : K} {v w : α}

/-- The order of the values does not matter. -/
theorem perm (h : IsNearestRank l r v) (hperm : l.Perm l') : IsNearestRank l' r v where
  mem := hperm.mem_iff.1 h.mem
  le_countLe := by
    rw [countLe, ← hperm.countP_eq]
    exact h.le_countLe
  countLt_lt := by
    rw [countLt, ← hperm.countP_eq]
    exact h.countLt_lt

variable [IsStrictOrderedRing K]

/-- A larger rank has a larger value. -/
theorem le (h : IsNearestRank l r v) (h' : IsNearestRank l r' w) (hr : r ≤ r') : v ≤ w := by
  by_contra hlt
  have hcount : (countLe l w : K) ≤ countLt l v :=
    Nat.cast_le.2 (countLe_le_countLt l (lt_of_not_ge hlt))
  exact absurd (hr.trans (h'.le_countLe.trans hcount)) (not_le_of_gt h.countLt_lt)

/-- The value of a rank is at the index below it. -/
theorem getElem (hsorted : l.Pairwise (fun x y => x ≤ y)) {i : ℕ} (hi : i < l.length)
    (hbelow : (i : K) < r) (habove : r ≤ i + 1) : IsNearestRank l r l[i] where
  mem := List.getElem_mem hi
  le_countLe := by
    have hcount : ((i + 1 : ℕ) : K) ≤ countLe l l[i] :=
      Nat.cast_le.2 (lt_countLe_getElem hsorted hi)
    rw [Nat.cast_add, Nat.cast_one] at hcount
    exact habove.trans hcount
  countLt_lt := (Nat.cast_le.2 (countLt_getElem_le hsorted hi)).trans_lt hbelow

end IsNearestRank

end Ranks
