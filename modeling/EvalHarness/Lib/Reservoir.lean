import Mathlib

set_option autoImplicit false

/-! # Reservoir sampling (Algorithm R)

A reservoir of a fixed size is fed the values of a stream. It takes the first values as they come;
after that, the `k`-th value (counted from zero) replaces the one at a place drawn from `0..k`, if
the reservoir has this place. Whatever is drawn, the reservoir holds values from different positions
of the stream. Over all draws, each position is in the reservoir equally often. -/

namespace Reservoir

variable {α β : Type}

/-- One value, with the place drawn for it. -/
def step (cap : ℕ) (samples : List α) (place : ℕ) (value : α) : List α :=
  if samples.length < cap then samples ++ [value]
  else if place < cap then samples.set place value else samples

/-- The values of a stream, one after the other; `pick k` is the place drawn for the `k`-th. -/
def feed (cap : ℕ) (pick : ℕ → ℕ) (stream : List α) : List α :=
  stream.zipIdx.foldl (fun samples v => step cap samples (pick v.2) v.1) []

variable {cap : ℕ} {pick : ℕ → ℕ}

@[simp] theorem feed_nil : feed cap pick ([] : List α) = [] := rfl

@[simp] theorem feed_snoc (stream : List α) (value : α) :
    feed cap pick (stream ++ [value])
      = step cap (feed cap pick stream) (pick stream.length) value := by
  simp [feed, List.zipIdx_append]

theorem length_step (samples : List α) (place : ℕ) (value : α) :
    (step cap samples place value).length
      = if samples.length < cap then samples.length + 1 else samples.length := by
  unfold step
  split
  · simp
  · split
    · exact List.length_set
    · rfl

@[simp] theorem length_feed (stream : List α) :
    (feed cap pick stream).length = min stream.length cap := by
  induction stream using List.reverseRecOn with
  | nil => simp
  | append_singleton stream value ih =>
      rw [feed_snoc, length_step, ih, List.length_append, List.length_singleton]
      split <;> omega

/-- Only the draws count that are made once the reservoir is full. -/
theorem feed_congr {pick' : ℕ → ℕ} {stream : List α}
    (h : ∀ k < stream.length, cap ≤ k → pick k = pick' k) :
    feed cap pick stream = feed cap pick' stream := by
  induction stream using List.reverseRecOn with
  | nil => rfl
  | append_singleton stream value ih =>
      rw [feed_snoc, feed_snoc, ← ih (fun k hk => h k (by simp; omega))]
      by_cases hfull : cap ≤ stream.length
      · rw [h stream.length (by simp) hfull]
      · have hfree : (feed cap pick stream).length < cap := by rw [length_feed]; omega
        rw [step, if_pos hfree, step, if_pos hfree]

/-- What becomes of a value does not depend on what it is. -/
theorem feed_map (f : α → β) (stream : List α) :
    feed cap pick (stream.map f) = (feed cap pick stream).map f := by
  induction stream using List.reverseRecOn with
  | nil => rfl
  | append_singleton stream value ih =>
      rw [List.map_append, List.map_singleton, feed_snoc, feed_snoc, ih, List.length_map]
      unfold step
      rw [List.length_map]
      split
      · simp
      · split
        · rw [List.map_set]
        · rfl

theorem mem_of_mem_step {samples : List α} {place : ℕ} {value x : α}
    (h : x ∈ step cap samples place value) : x ∈ samples ∨ x = value := by
  unfold step at h
  split at h
  · simpa using h
  · split at h
    · exact List.mem_or_eq_of_mem_set h
    · exact Or.inl h

/-- The reservoir has nothing but values of the stream. -/
theorem mem_of_mem_feed {stream : List α} {x : α} (h : x ∈ feed cap pick stream) : x ∈ stream := by
  induction stream using List.reverseRecOn with
  | nil => exact h
  | append_singleton stream value ih =>
      rw [feed_snoc] at h
      rcases mem_of_mem_step h with hold | rfl
      · exact List.mem_append_left _ (ih hold)
      · exact List.mem_append_right _ List.mem_cons_self

/-- As long as the stream fits in, the reservoir is the stream. -/
theorem feed_of_le {stream : List α} (h : stream.length ≤ cap) : feed cap pick stream = stream := by
  induction stream using List.reverseRecOn with
  | nil => rfl
  | append_singleton stream value ih =>
      rw [List.length_append, List.length_singleton] at h
      rw [feed_snoc, ih (by omega), step, if_pos (by omega)]

/-- If no place that the reservoir has is ever drawn, it keeps the first values. -/
theorem feed_of_never {stream : List α} (h : ∀ k < stream.length, cap ≤ k → cap ≤ pick k) :
    feed cap pick stream = stream.take cap := by
  induction stream using List.reverseRecOn with
  | nil => simp
  | append_singleton stream value ih =>
      rw [feed_snoc, ih (fun k hk => h k (by simp; omega)), step, List.length_take]
      split
      · rw [List.take_of_length_le (by omega), List.take_of_length_le (by simp; omega)]
      · have hfull : cap ≤ stream.length := by omega
        have hplace := h stream.length (by simp) hfull
        rw [if_neg (by omega), List.take_append_of_le_length hfull]

/-- If a place that the reservoir has is drawn only once, a single value is replaced. -/
theorem feed_of_once {stream : List α} {k place : ℕ} (hk : cap ≤ k) (hplace : place < cap)
    (hone : pick k = place) (hnever : ∀ n, cap ≤ n → n ≠ k → cap ≤ pick n) {value : α}
    (hvalue : stream[k]? = some value) :
    feed cap pick stream = (stream.take cap).set place value := by
  induction stream using List.reverseRecOn with
  | nil => simp at hvalue
  | append_singleton stream last ih =>
      have hlt : k < (stream ++ [last]).length := (List.getElem?_eq_some_iff.1 hvalue).1
      rw [List.length_append, List.length_singleton] at hlt
      rw [feed_snoc, List.take_append_of_le_length (by omega)]
      by_cases hlast : k = stream.length
      · have hbefore : feed cap pick stream = stream.take cap :=
          feed_of_never (fun n hn hcap => hnever n hcap (by omega))
        subst hlast
        obtain rfl : last = value := by simpa using hvalue
        have hfull : ¬ (stream.take cap).length < cap := by rw [List.length_take]; omega
        rw [hbefore, hone, step, if_neg hfull, if_pos hplace]
      · have hstream : stream[k]? = some value := by
          rwa [List.getElem?_append_left (by omega)] at hvalue
        have hmiss := hnever stream.length (by omega) (fun heq => hlast heq.symm)
        rw [ih hstream, step, if_neg (by rw [List.length_set, List.length_take]; omega),
          if_neg (by omega)]

/-! ## Positions -/

/-- The positions of the stream that the values in the reservoir come from. -/
abbrev positions (cap : ℕ) (pick : ℕ → ℕ) (n : ℕ) : List ℕ := feed cap pick (List.range n)

theorem positions_succ (n : ℕ) :
    positions cap pick (n + 1) = step cap (positions cap pick n) (pick n) n := by
  rw [positions, List.range_succ, feed_snoc, List.length_range]

theorem lt_of_mem_positions {n p : ℕ} (h : p ∈ positions cap pick n) : p < n := by
  induction n with
  | zero => exact absurd h List.not_mem_nil
  | succ n ih =>
      rw [positions_succ] at h
      rcases mem_of_mem_step h with hold | rfl
      · exact (ih hold).trans n.lt_succ_self
      · exact p.lt_succ_self

theorem nodup_step {samples : List α} (h : samples.Nodup) {value : α} (hnew : value ∉ samples)
    (place : ℕ) : (step cap samples place value).Nodup := by
  unfold step
  split
  · exact List.nodup_append.2 ⟨h, List.nodup_singleton _, by
      intro a ha b hb heq
      rw [List.mem_singleton.1 hb] at heq
      exact hnew (heq ▸ ha)⟩
  · split
    · exact h.set hnew
    · exact h

/-- No position is in the reservoir twice. -/
theorem nodup_positions (n : ℕ) : (positions cap pick n).Nodup := by
  induction n with
  | zero => exact List.nodup_nil
  | succ n ih =>
      rw [positions_succ]
      exact nodup_step ih (fun hmem => absurd (lt_of_mem_positions hmem) (lt_irrefl n)) _

/-- The reservoir has the values at its positions. -/
theorem feed_eq_positions (stream : List α) :
    (feed cap pick stream).map some
      = (positions cap pick stream.length).map (fun k => stream[k]?) := by
  have hstream : stream.map some = (List.range stream.length).map (fun k => stream[k]?) := by
    refine List.ext_getElem? (fun k => ?_)
    by_cases hk : k < stream.length
    · simp [hk]
    · simp [hk]
  rw [← feed_map, hstream, feed_map]

/-! ## Uniformity -/

/-- What is drawn for the values behind the first `cap`: a place from `0..k` for the `k`-th. -/
abbrev Draws (cap m : ℕ) : Type := (i : Fin m) → Fin (cap + i + 1)

/-- The place drawn for the `k`-th value. -/
def placeOf {m : ℕ} (t : Draws cap m) (k : ℕ) : ℕ :=
  if h : k - cap < m then t ⟨k - cap, h⟩ else 0

/-- The draws that leave a position of the stream in the reservoir. -/
def keeping (cap m p : ℕ) : Finset (Draws cap m) :=
  Finset.univ.filter (fun t => p ∈ positions cap (placeOf t) (cap + m))

section Step

variable {samples : List ℕ} {m p : ℕ} (hfull : samples.length = cap)

include hfull

theorem mem_step_of_mem (hnd : samples.Nodup) {new : ℕ} (hnew : new ∉ samples) {i : ℕ}
    (hi : samples[i]? = some p) (place : ℕ) : p ∈ step cap samples place new ↔ place ≠ i := by
  obtain ⟨hlt, hget⟩ := List.getElem?_eq_some_iff.1 hi
  rw [step, if_neg (by omega)]
  split
  · next hplace =>
      constructor
      · rintro hmem rfl
        obtain ⟨j, hj, hjp⟩ := List.getElem_of_mem hmem
        rw [List.getElem_set] at hjp
        split at hjp
        · exact hnew (hjp ▸ hget ▸ List.getElem_mem hlt)
        · next hne => exact hne ((hnd.getElem_inj_iff).1 (hget.trans hjp.symm))
      · intro hne
        refine List.mem_of_getElem? (i := i) ?_
        rw [List.getElem?_set_ne hne, hi]
  · have hmem : p ∈ samples := hget ▸ List.getElem_mem hlt
    exact iff_of_true hmem (by omega)

/-- A value in the reservoir is replaced by one of the draws. -/
theorem card_keeping_old (hnd : samples.Nodup) {new : ℕ} (hnew : new ∉ samples) (hp : p ∈ samples) :
    (Finset.univ.filter (fun place : Fin (cap + m + 1) =>
      p ∈ step cap samples place new)).card = cap + m := by
  obtain ⟨i, hi⟩ := List.getElem?_of_mem hp
  have hlt : i < cap := hfull ▸ (List.getElem?_eq_some_iff.1 hi).1
  have hothers : Finset.univ.filter (fun place : Fin (cap + m + 1) =>
      p ∈ step cap samples place new) = Finset.univ.erase ⟨i, by omega⟩ := by
    ext place
    simp [mem_step_of_mem hfull hnd hnew hi, Fin.ext_iff]
  rw [hothers, Finset.card_erase_of_mem (Finset.mem_univ _), Finset.card_univ, Fintype.card_fin,
    Nat.add_sub_cancel]

/-- The new value gets in with as many draws as there are places. -/
theorem card_keeping_new {new : ℕ} (hnew : new ∉ samples) :
    (Finset.univ.filter (fun place : Fin (cap + m + 1) =>
      new ∈ step cap samples place new)).card = cap := by
  have hplaces : ∀ place : Fin (cap + m + 1), new ∈ step cap samples place new ↔ place < cap := by
    intro place
    rw [step, if_neg (by omega)]
    split
    · next hplace => exact iff_of_true (List.mem_set (by omega) new) hplace
    · next hplace => exact iff_of_false hnew hplace
  simp only [hplaces]
  rw [Fin.card_filter_val_lt]
  omega

end Step

theorem placeOf_add {m : ℕ} (t : Draws cap m) (i : Fin m) : placeOf t (cap + i) = t i := by
  have hlt : cap + i - cap < m := by omega
  have hi : (⟨cap + i - cap, hlt⟩ : Fin m) = i := Fin.ext (Nat.add_sub_cancel_left cap i)
  rw [placeOf, dif_pos hlt]
  exact congrArg (fun i : Fin m => (t i : ℕ)) hi

/-- One draw more. -/
abbrev extend {m : ℕ} (t : Draws cap m) (place : Fin (cap + m + 1)) : Draws cap (m + 1) :=
  Fin.snocEquiv (fun i : Fin (m + 1) => Fin (cap + i + 1)) (place, t)

theorem positions_extend {m : ℕ} (t : Draws cap m) (place : Fin (cap + m + 1)) :
    positions cap (placeOf (extend t place)) (cap + (m + 1))
      = step cap (positions cap (placeOf t) (cap + m)) place (cap + m) := by
  have hlast : placeOf (extend t place) (cap + m) = place := by
    simpa using placeOf_add (extend t place) (Fin.last m)
  have hbefore : ∀ k < (List.range (cap + m)).length, cap ≤ k →
      placeOf (extend t place) k = placeOf t k := by
    intro k hk hcap
    rw [List.length_range] at hk
    obtain ⟨i, rfl⟩ : ∃ i : Fin m, k = cap + i := ⟨⟨k - cap, by omega⟩, by simp; omega⟩
    have hsnoc : extend t place i.castSucc = t i := by simp
    rw [placeOf_add t i, ← hsnoc]
    exact placeOf_add (extend t place) i.castSucc
  rw [← Nat.add_assoc, positions_succ, hlast, positions, feed_congr hbefore]

/-- The draws for one value more, by those for the others. -/
theorem card_keeping_succ (cap m p : ℕ) :
    (keeping cap (m + 1) p).card = ∑ t : Draws cap m,
      (Finset.univ.filter (fun place : Fin (cap + m + 1) =>
        p ∈ step cap (positions cap (placeOf t) (cap + m)) place (cap + m))).card := by
  simp only [keeping, Finset.card_filter]
  rw [← (Fin.snocEquiv (fun i : Fin (m + 1) => Fin (cap + i + 1))).sum_comp,
    Fintype.sum_prod_type_right]
  refine Finset.sum_congr rfl (fun t _ => Finset.sum_congr rfl (fun place _ => ?_))
  rw [positions_extend t place]

/-- There are as many draws for one value more as choices of a place for it. -/
theorem card_draws_succ (cap m : ℕ) :
    Fintype.card (Draws cap (m + 1)) = (cap + m + 1) * Fintype.card (Draws cap m) := by
  rw [← Fintype.card_congr (Fin.snocEquiv (fun i : Fin (m + 1) => Fin (cap + i + 1))),
    Fintype.card_prod, Fintype.card_fin]
  rfl

/-- Every position of the stream is in the reservoir after the same share of the draws. -/
theorem card_keeping (cap m : ℕ) {p : ℕ} (hp : p < cap + m) :
    (cap + m) * (keeping cap m p).card = cap * Fintype.card (Draws cap m) := by
  induction m generalizing p with
  | zero =>
      have hall : keeping cap 0 p = Finset.univ := by
        refine Finset.filter_true_of_mem (fun t _ => ?_)
        rw [positions, feed_of_le (by simp)]
        exact List.mem_range.2 hp
      rw [hall, Finset.card_univ, Nat.add_zero]
  | succ m ih =>
      have hfull : ∀ t : Draws cap m, (positions cap (placeOf t) (cap + m)).length = cap := by
        intro t
        rw [length_feed, List.length_range, Nat.min_eq_right (Nat.le_add_right cap m)]
      have hnew : ∀ t : Draws cap m, cap + m ∉ positions cap (placeOf t) (cap + m) :=
        fun t hmem => absurd (lt_of_mem_positions hmem) (lt_irrefl _)
      rw [card_keeping_succ, card_draws_succ]
      rcases (show p < cap + m ∨ p = cap + m by omega) with hold | rfl
      · have hcount : ∀ t : Draws cap m, (Finset.univ.filter (fun place : Fin (cap + m + 1) =>
            p ∈ step cap (positions cap (placeOf t) (cap + m)) place (cap + m))).card
              = if p ∈ positions cap (placeOf t) (cap + m) then cap + m else 0 := by
          intro t
          split
          · next hin => exact card_keeping_old (hfull t) (nodup_positions _) (hnew t) hin
          · next hout =>
              refine Finset.card_eq_zero.2 (Finset.filter_eq_empty_iff.2 (fun place _ hin => ?_))
              exact (mem_of_mem_step hin).elim hout (fun heq => absurd heq hold.ne)
        rw [Finset.sum_congr rfl (fun t _ => hcount t), ← Finset.sum_filter, Finset.sum_const,
          smul_eq_mul]
        calc (cap + (m + 1)) * ((keeping cap m p).card * (cap + m))
            = (cap + m + 1) * ((cap + m) * (keeping cap m p).card) := by ring
          _ = (cap + m + 1) * (cap * Fintype.card (Draws cap m)) := by rw [ih hold]
          _ = cap * ((cap + m + 1) * Fintype.card (Draws cap m)) := by ring
      · rw [Finset.sum_congr rfl (fun t _ => card_keeping_new (hfull t) (hnew t)), Finset.sum_const,
          Finset.card_univ, smul_eq_mul]
        ring

end Reservoir
