import Mathlib

set_option autoImplicit false

/-! # Spans of time, one after the other and nested

Spans that follow one another do not take longer than what they lie in. Of spans nested in others,
those that start in a window take no longer than the outer ones that start in it, except for what is
nested in an outer span that was in progress when the window began. -/

/-- A stretch of time between two readings of a clock. -/
structure Span (τ : Type) where
  start : τ
  stop : τ
deriving DecidableEq, Repr

namespace Span

variable {τ : Type}

/-! ## Order -/

section Order

variable [LinearOrder τ]

/-- The readings of the clock, in the order in which the spans are listed. -/
def readings (l : List (Span τ)) : List τ := l.flatMap (fun s => [s.start, s.stop])

/-- The spans lie between two times, one after the other. -/
def Within (a b : τ) (l : List (Span τ)) : Prop := (a :: (readings l ++ [b])).Pairwise (· ≤ ·)

/-- The spans that start in a window. -/
def started (lo hi : τ) (l : List (Span τ)) : List (Span τ) :=
  l.filter (fun s => lo ≤ s.start ∧ s.start ≤ hi)

/-- The spans that started before a time. -/
def before (t : τ) (l : List (Span τ)) : List (Span τ) := l.filter (fun s => s.start < t)

theorem within_cons {a b : τ} {s : Span τ} {l : List (Span τ)} :
    Within a b (s :: l) ↔ a ≤ s.start ∧ s.start ≤ s.stop ∧ Within s.stop b l := by
  have hchain (x : τ) (l : List (Span τ)) :
      Within x b l ↔ (x :: (readings l ++ [b])).IsChain (· ≤ ·) := by
    rw [Within, List.isChain_iff_pairwise]
  rw [hchain, hchain, readings, List.flatMap_cons, List.append_assoc]
  simp only [List.cons_append, List.nil_append, List.isChain_cons_cons]
  rfl

theorem within_nil {a b : τ} : Within a b [] ↔ a ≤ b := by
  simp [Within, readings]

theorem Within.le {a b : τ} {l : List (Span τ)} (h : Within a b l) : a ≤ b := by
  refine (List.pairwise_cons.1 h).1 b ?_
  exact List.mem_append_right _ (List.mem_singleton_self b)

theorem Within.mono {a a' b : τ} {l : List (Span τ)} (ha : a' ≤ a) (h : Within a b l) :
    Within a' b l := by
  obtain ⟨hfrom, hrest⟩ := List.pairwise_cons.1 h
  exact List.pairwise_cons.2 ⟨fun t ht => ha.trans (hfrom t ht), hrest⟩

theorem Within.mem {a b : τ} {l : List (Span τ)} (h : Within a b l) :
    ∀ s ∈ l, a ≤ s.start ∧ s.start ≤ s.stop ∧ s.stop ≤ b := by
  induction l generalizing a with
  | nil => exact fun s hs => absurd hs List.not_mem_nil
  | cons first l ih =>
      obtain ⟨hstart, hstop, hrest⟩ := within_cons.1 h
      intro s hs
      rcases List.mem_cons.1 hs with rfl | hin
      · exact ⟨hstart, hstop, hrest.le⟩
      · obtain ⟨hlow, hs⟩ := ih hrest s hin
        exact ⟨(hstart.trans hstop).trans hlow, hs⟩

theorem Within.up_to_last {a b : τ} {s : Span τ} {l : List (Span τ)} (h : Within a b (s :: l)) :
    Within a ((s :: l).getLast (List.cons_ne_nil _ _)).stop (s :: l) := by
  induction l generalizing a s with
  | nil =>
      obtain ⟨hstart, hstop, -⟩ := within_cons.1 h
      exact within_cons.2 ⟨hstart, hstop, within_nil.2 le_rfl⟩
  | cons s' l ih =>
      obtain ⟨hstart, hstop, hrest⟩ := within_cons.1 h
      rw [List.getLast_cons (List.cons_ne_nil _ _)]
      exact within_cons.2 ⟨hstart, hstop, ih hrest⟩

/-- The spans lie between the start of the first and the end of the last. -/
theorem Within.tight {a b : τ} {l : List (Span τ)} (h : Within a b l) (hne : l ≠ []) :
    Within (l.head hne).start (l.getLast hne).stop l := by
  rcases l with _ | ⟨s, l⟩
  · exact absurd rfl hne
  · obtain ⟨-, hrest⟩ := within_cons.1 h.up_to_last
    exact within_cons.2 ⟨le_rfl, hrest⟩

/-- Leaving spans out leaves the others in order. -/
theorem Within.filter {a b : τ} {l : List (Span τ)} (h : Within a b l) (p : Span τ → Bool) :
    Within a b (l.filter p) := by
  induction l generalizing a with
  | nil => exact h
  | cons s l ih =>
      obtain ⟨hstart, hstop, hrest⟩ := within_cons.1 h
      by_cases hp : p s = true
      · rw [List.filter_cons_of_pos hp]
        exact within_cons.2 ⟨hstart, hstop, ih hrest⟩
      · rw [List.filter_cons_of_neg hp]
        exact (ih hrest).mono (hstart.trans hstop)

theorem started_append (lo hi : τ) (l m : List (Span τ)) :
    started lo hi (l ++ m) = started lo hi l ++ started lo hi m := by
  rw [started, List.filter_append]
  rfl

theorem before_append (t : τ) (l m : List (Span τ)) :
    before t (l ++ m) = before t l ++ before t m := by
  rw [before, List.filter_append]
  rfl

/-- The spans that start in a window are in order from its beginning. -/
theorem Within.from_started {a b lo hi : τ} {l : List (Span τ)} (h : Within a b l)
    (hne : started lo hi l ≠ []) : Within lo b (started lo hi l) := by
  have hstarted : ∀ s ∈ started lo hi l, lo ≤ s.start := by
    intro s hs
    exact (of_decide_eq_true (List.mem_filter.1 hs).2).1
  have hordered : Within a b (started lo hi l) := h.filter _
  rcases hl : started lo hi l with _ | ⟨s, rest⟩
  · exact absurd hl hne
  · rw [hl] at hordered
    obtain ⟨-, hrest⟩ := within_cons.1 hordered
    exact within_cons.2 ⟨hstarted s (hl ▸ List.mem_cons_self), hrest⟩

/-- A span cut off at a time. -/
def clip (t : τ) (s : Span τ) : Span τ := ⟨s.start, min s.stop t⟩

theorem Within.clipped {a b t : τ} {l : List (Span τ)} (h : Within a b l) (hat : a ≤ t)
    (hl : ∀ s ∈ l, s.start ≤ t) : Within a t (l.map (clip t)) := by
  induction l generalizing a with
  | nil => exact within_nil.2 hat
  | cons s l ih =>
      obtain ⟨hstart, hstop, hrest⟩ := within_cons.1 h
      obtain ⟨hs, hl⟩ := List.forall_mem_cons.1 hl
      refine within_cons.2 ⟨hstart, le_min hstop hs, ?_⟩
      rcases le_total s.stop t with hle | hle
      · exact (ih hrest hle hl).mono (min_le_left _ _)
      · -- the spans behind start when the clock already shows `t`
        refine Within.mono (min_le_right s.stop t) ?_
        have hat : Within t b l := by
          refine List.pairwise_cons.2 ⟨?_, (List.pairwise_cons.1 hrest).2⟩
          intro x hx
          exact hle.trans ((List.pairwise_cons.1 hrest).1 x hx)
        exact ih hat le_rfl hl

end Order

/-! ## Length -/

section Length

variable [AddCommGroup τ]

def length (s : Span τ) : τ := s.stop - s.start

def total (l : List (Span τ)) : τ := (l.map length).sum

theorem total_cons (s : Span τ) (l : List (Span τ)) : total (s :: l) = s.length + total l :=
  List.sum_cons

theorem total_append (l m : List (Span τ)) : total (l ++ m) = total l + total m := by
  rw [total, List.map_append, List.sum_append]
  rfl

variable [LinearOrder τ]

/-- What the spans take beyond a time. -/
def beyond (t : τ) (l : List (Span τ)) : τ := (l.map (fun s => max 0 (s.stop - t))).sum

theorem beyond_cons (t : τ) (s : Span τ) (l : List (Span τ)) :
    beyond t (s :: l) = max 0 (s.stop - t) + beyond t l :=
  List.sum_cons

theorem beyond_append (t : τ) (l m : List (Span τ)) :
    beyond t (l ++ m) = beyond t l + beyond t m := by
  rw [beyond, List.map_append, List.sum_append]
  rfl

variable [IsOrderedAddMonoid τ]

/-- Spans one after the other do not take longer than what they lie in. -/
theorem Within.total_le {a b : τ} {l : List (Span τ)} (h : Within a b l) : total l ≤ b - a := by
  induction l generalizing a with
  | nil => exact sub_nonneg.2 h.le
  | cons s l ih =>
      obtain ⟨hstart, -, hrest⟩ := within_cons.1 h
      calc total (s :: l) = s.length + total l := total_cons s l
        _ ≤ (s.stop - a) + (b - s.stop) :=
          add_le_add (sub_le_sub_left hstart s.stop) (ih hrest)
        _ = b - a := by abel

theorem beyond_nonneg (t : τ) (l : List (Span τ)) : 0 ≤ beyond t l := by
  refine List.sum_nonneg (fun x hx => ?_)
  obtain ⟨s, -, rfl⟩ := List.mem_map.1 hx
  exact le_max_left _ _

/-- Of the spans that have started at a time, only one can be in progress. -/
theorem Within.beyond_filter_le {a b t x : τ} {l : List (Span τ)} (h : Within a b l) (hx : 0 ≤ x)
    {p : Span τ → Bool} (hp : ∀ s ∈ l, p s = true → s.start ≤ t)
    (hl : ∀ s ∈ l, p s = true → t < s.stop → s.stop - t ≤ x) : beyond t (l.filter p) ≤ x := by
  induction l generalizing a with
  | nil => exact hx
  | cons s l ih =>
      obtain ⟨-, -, hrest⟩ := within_cons.1 h
      obtain ⟨hps, hp⟩ := List.forall_mem_cons.1 hp
      obtain ⟨hs, hl⟩ := List.forall_mem_cons.1 hl
      by_cases hin : p s = true
      · rw [List.filter_cons_of_pos hin, beyond_cons]
        rcases le_or_gt s.stop t with hdone | hon
        · rw [max_eq_left (sub_nonpos.2 hdone), zero_add]
          exact ih hrest hp hl
        · -- the spans behind it start when it has ended
          have hnone : l.filter p = [] := by
            refine List.filter_eq_nil_iff.2 (fun s' hs' hps' => ?_)
            exact absurd (hon.trans_le (hrest.mem s' hs').1) (not_lt.2 (hp s' hs' hps'))
          have hnothing : beyond t (l.filter p) = 0 := by
            rw [hnone]
            rfl
          rw [hnothing, add_zero, max_eq_right (sub_nonneg.2 hon.le)]
          exact hs hin hon
      · rw [List.filter_cons_of_neg hin]
        exact ih hrest hp hl

/-! ## A window -/

theorem length_eq_clip (t : τ) (s : Span τ) :
    s.length = (s.clip t).length + max 0 (s.stop - t) := by
  simp only [length, clip]
  rcases le_total s.stop t with h | h
  · rw [min_eq_left h, max_eq_left (sub_nonpos.2 h), add_zero]
  · rw [min_eq_right h, max_eq_right (sub_nonneg.2 h)]
    abel

theorem total_eq_clip (t : τ) (l : List (Span τ)) :
    total l = total (l.map (clip t)) + beyond t l := by
  induction l with
  | nil => exact (add_zero _).symm
  | cons s l ih =>
      rw [List.map_cons, total_cons, total_cons, ih, length_eq_clip t s, beyond_cons]
      exact add_add_add_comm _ _ _ _

/-- The spans that start in a window fill at most the window and what they take beyond it. -/
theorem Within.total_started_le {a b lo hi : τ} {l : List (Span τ)} (h : Within a b l)
    (hwindow : lo ≤ hi) :
    total (started lo hi l) ≤ hi - lo + beyond hi (started lo hi l) := by
  have hstarted : ∀ s ∈ started lo hi l, s.start ≤ hi := by
    intro s hs
    exact (of_decide_eq_true (List.mem_filter.1 hs).2).2
  rw [total_eq_clip hi]
  refine add_le_add_left ?_ _
  by_cases hne : started lo hi l = []
  · rw [hne]
    exact sub_nonneg.2 hwindow
  · exact ((h.from_started hne).clipped hwindow hstarted).total_le

/-- Of spans that end by a time, those that start in a window fill at most the rest of it. -/
theorem Within.total_started_le_rest {a b lo hi : τ} {l : List (Span τ)} (h : Within a b l) :
    total (started lo hi l) ≤ max 0 (b - lo) := by
  by_cases hne : started lo hi l = []
  · rw [hne]
    exact le_max_left _ _
  · exact (h.from_started hne).total_le.trans (le_max_right _ _)

/-! ## Nested spans -/

/-- An outer span and the spans in it. -/
structure Nest (τ : Type) where
  outer : Span τ
  inner : List (Span τ)

/-- What is nested in one span. -/
theorem Nest.total_started_le {lo hi : τ} {n : Nest τ}
    (h : Within n.outer.start n.outer.stop n.inner) :
    total (started lo hi n.inner)
      ≤ total (started lo hi [n.outer]) + beyond lo (before lo [n.outer]) := by
  rcases lt_or_ge n.outer.start lo with hlt | hge
  · -- the outer span was in progress
    have hout : started lo hi [n.outer] = [] :=
      List.filter_eq_nil_iff.2 (fun s hs hin => absurd (of_decide_eq_true hin).1
        (by rw [List.mem_singleton.1 hs]; exact not_le.2 hlt))
    have hin : before lo [n.outer] = [n.outer] :=
      List.filter_eq_self.2 (fun s hs => decide_eq_true (List.mem_singleton.1 hs ▸ hlt))
    rw [hout, hin]
    have hrest : beyond lo [n.outer] = max 0 (n.outer.stop - lo) := List.sum_singleton
    rw [hrest]
    exact (h.total_started_le_rest).trans (le_add_of_nonneg_left le_rfl)
  · have hzero : 0 ≤ beyond lo (before lo [n.outer]) := beyond_nonneg _ _
    refine le_trans ?_ (le_add_of_nonneg_right hzero)
    rcases lt_or_ge hi n.outer.start with hlate | hin
    · have hnone : started lo hi n.inner = [] := by
        refine List.filter_eq_nil_iff.2 (fun s hs hin => ?_)
        exact absurd ((h.mem s hs).1.trans (of_decide_eq_true hin).2) (not_le.2 hlate)
      rw [hnone]
      refine List.sum_nonneg (fun x hx => ?_)
      obtain ⟨s, hs, rfl⟩ := List.mem_map.1 hx
      rw [List.mem_singleton.1 (List.mem_filter.1 hs).1]
      exact sub_nonneg.2 h.le
    · have hall : started lo hi [n.outer] = [n.outer] :=
        List.filter_eq_self.2 (fun s hs => decide_eq_true (List.mem_singleton.1 hs ▸ ⟨hge, hin⟩))
      rw [hall]
      have hlength : total [n.outer] = n.outer.stop - n.outer.start := List.sum_singleton
      rw [hlength]
      exact (h.filter _).total_le

/-- What is nested in spans that start in a window takes no longer than these, except for what is
    nested in a span in progress when the window begins. -/
theorem total_inner_started_le {lo hi : τ} {nests : List (Nest τ)}
    (h : ∀ n ∈ nests, Within n.outer.start n.outer.stop n.inner) :
    total (started lo hi (nests.flatMap Nest.inner))
      ≤ total (started lo hi (nests.map Nest.outer))
        + beyond lo (before lo (nests.map Nest.outer)) := by
  induction nests with
  | nil => exact (add_zero _).ge
  | cons n nests ih =>
      obtain ⟨hn, hrest⟩ := List.forall_mem_cons.1 h
      have hstarted : total (started lo hi ((n :: nests).map Nest.outer))
          = total (started lo hi [n.outer]) + total (started lo hi (nests.map Nest.outer)) := by
        rw [List.map_cons, ← List.singleton_append, started_append, total_append]
      have hbefore : beyond lo (before lo ((n :: nests).map Nest.outer))
          = beyond lo (before lo [n.outer]) + beyond lo (before lo (nests.map Nest.outer)) := by
        rw [List.map_cons, ← List.singleton_append, before_append, beyond_append]
      rw [List.flatMap_cons, started_append, total_append, hstarted, hbefore]
      exact (add_le_add (Nest.total_started_le hn) (ih hrest)).trans
        (add_add_add_comm _ _ _ _).le

end Length

end Span
