import Mathlib

set_option autoImplicit false

/-! # The largest few of some values

Values are sorted by a key, the largest first, and the first few are taken. The sort is stable, so
that of values with the same key those are taken that stood first. Whether one of the values taken
has some property may thus depend on the order in which the values stood: when it does not is told
from the values alone. -/

namespace Largest

variable {α : Type} (key : α → ℕ)

/-- `sorted(values, key=key, reverse=True)[:count]`. -/
def top (count : ℕ) (l : List α) : List α :=
  (l.insertionSort (fun a b => key b ≤ key a)).take count

/-! ## Sorting -/

/-- Values with the same key keep their order. -/
theorem filter_insertionSort (l : List α) (n : ℕ) :
    (l.insertionSort (fun a b => key b ≤ key a)).filter (fun a => key a = n)
      = l.filter (fun a => key a = n) := by
  have hinsert : ∀ (a : α) (s : List α),
      (s.orderedInsert (fun a b => key b ≤ key a) a).filter (fun a => key a = n)
        = (a :: s).filter (fun a => key a = n) := by
    intro a s
    induction s with
    | nil => rfl
    | cons b s ih =>
        rw [List.orderedInsert]
        split
        · rfl
        · next hlt =>
            -- what the value is put behind has a larger key
            rw [List.filter_cons, ih]
            by_cases ha : key a = n
            · have hb : key b ≠ n := by omega
              simp [ha, hb]
            · simp [List.filter_cons, ha]
  induction l with
  | nil => rfl
  | cons a l ih =>
      rw [List.insertionSort_cons, hinsert, List.filter_cons, List.filter_cons, ih]

theorem pairwise_insertionSort (l : List α) :
    (l.insertionSort (fun a b => key b ≤ key a)).Pairwise (fun a b => key b ≤ key a) := by
  have : Std.Total (fun a b => key b ≤ key a) := ⟨fun a b => le_total (key b) (key a)⟩
  have : IsTrans α (fun a b => key b ≤ key a) := ⟨fun a b c hab hbc => le_trans hbc hab⟩
  exact List.pairwise_insertionSort _ _

/-- A sorted list is made of the values with larger keys than a given one, those with that key, and
    the others. -/
theorem eq_filter_append {s : List α} (h : s.Pairwise (fun a b => key b ≤ key a)) (n : ℕ) :
    s = s.filter (fun a => n < key a) ++ (s.filter (fun a => key a = n)
      ++ s.filter (fun a => key a < n)) := by
  induction s with
  | nil => rfl
  | cons a s ih =>
      rw [List.pairwise_cons] at h
      have hrest := ih h.2
      rcases lt_trichotomy n (key a) with hlt | heq | hgt
      · have hne : key a ≠ n := by omega
        have hnot : ¬ key a < n := by omega
        simp only [List.filter_cons, hlt, hne, hnot, decide_true, decide_false, if_true,
          Bool.false_eq_true, if_false, List.cons_append]
        rw [← hrest]
      · have hnone : s.filter (fun b => n < key b) = [] := by
          refine List.filter_eq_nil_iff.2 (fun b hb => ?_)
          have hle := h.1 b hb
          simp
          omega
        rw [hnone, List.nil_append] at hrest
        simp [← heq, hnone, ← hrest]
      · have hnone : s.filter (fun b => n < key b) = [] := by
          refine List.filter_eq_nil_iff.2 (fun b hb => ?_)
          have hle := h.1 b hb
          simp
          omega
        have hnone' : s.filter (fun b => key b = n) = [] := by
          refine List.filter_eq_nil_iff.2 (fun b hb => ?_)
          have hle := h.1 b hb
          simp
          omega
        rw [hnone, hnone', List.nil_append, List.nil_append] at hrest
        have hne : key a ≠ n := by omega
        have hnot : ¬ n < key a := by omega
        simp [hne, hnot, hgt, hnone, hnone', ← hrest]

/-! ## The values taken -/

/-- How many values have a larger key. -/
def above (l : List α) (n : ℕ) : ℕ := l.countP (fun a => n < key a)

/-- How many values have the key. -/
def level (l : List α) (n : ℕ) : ℕ := l.countP (fun a => key a = n)

theorem above_perm {l₁ l₂ : List α} (h : l₁.Perm l₂) (n : ℕ) : above key l₁ n = above key l₂ n :=
  h.countP_eq _

theorem level_perm {l₁ l₂ : List α} (h : l₁.Perm l₂) (n : ℕ) : level key l₁ n = level key l₂ n :=
  h.countP_eq _

/-- All are taken where there are not more. -/
theorem top_perm {count : ℕ} {l : List α} (h : l.length ≤ count) : (top key count l).Perm l := by
  have hlen : (l.insertionSort (fun a b => key b ≤ key a)).length ≤ count := by
    rw [List.length_insertionSort]
    exact h
  rw [top, List.take_of_length_le hlen]
  exact List.perm_insertionSort _ _

/-- Where the last value taken has a given key, the values taken are those with larger keys, and
    of those with that key the ones that stood first. -/
theorem top_eq {count n : ℕ} {l : List α} (habove : above key l n ≤ count)
    (hlevel : count ≤ above key l n + level key l n) :
    top key count l
      = (l.insertionSort (fun a b => key b ≤ key a)).filter (fun a => n < key a)
        ++ (l.filter (fun a => key a = n)).take (count - above key l n) := by
  have hsorted := eq_filter_append key (pairwise_insertionSort key l) n
  have hlarger : ((l.insertionSort (fun a b => key b ≤ key a)).filter
      (fun a => n < key a)).length = above key l n := by
    rw [← List.countP_eq_length_filter]
    exact (List.perm_insertionSort _ l).countP_eq _
  have hsame : (l.filter (fun a => key a = n)).length = level key l n :=
    List.countP_eq_length_filter.symm
  rw [filter_insertionSort] at hsorted
  unfold top
  generalize l.insertionSort (fun a b => key b ≤ key a) = s at hsorted hlarger ⊢
  conv_lhs => rw [hsorted]
  rw [List.take_append, List.take_append, hlarger, hsame,
    List.take_of_length_le (by rw [hlarger]; exact habove)]
  have hnone : count - above key l n - level key l n = 0 := by omega
  rw [hnone, List.take_zero, List.append_nil]

/-- The last value taken has some key. -/
theorem exists_level {count : ℕ} {l : List α} (hpos : 0 < count) (hlen : count ≤ l.length) :
    ∃ n, above key l n < count ∧ count ≤ above key l n + level key l n := by
  have hcount : (l.insertionSort (fun a b => key b ≤ key a)).length = l.length :=
    List.length_insertionSort _ _
  generalize hs : l.insertionSort (fun a b => key b ≤ key a) = s at hcount
  have hlt : count - 1 < s.length := by omega
  have hperm : s.Perm l := by
    rw [← hs]
    exact List.perm_insertionSort _ l
  have hsorted : s.Pairwise (fun a b => key b ≤ key a) := by
    rw [← hs]
    exact pairwise_insertionSort key l
  obtain ⟨a, hget⟩ : ∃ a, s[count - 1]? = some a := ⟨_, List.getElem?_eq_getElem hlt⟩
  have hsplit := eq_filter_append key hsorted (key a)
  refine ⟨key a, ?_, ?_⟩
  · rw [← above_perm key hperm, above, List.countP_eq_length_filter]
    by_contra hle
    -- the value would be one of those with larger keys
    rw [hsplit, List.getElem?_append_left (by omega)] at hget
    have hlarger := List.of_mem_filter (List.mem_of_getElem? hget)
    simp at hlarger
  · rw [← above_perm key hperm, ← level_perm key hperm, above, level,
      List.countP_eq_length_filter, List.countP_eq_length_filter]
    by_contra hle
    -- the value would be one of those with smaller keys
    rw [hsplit, List.getElem?_append_right (by omega), List.getElem?_append_right (by omega)]
      at hget
    have hsmaller := List.of_mem_filter (List.mem_of_getElem? hget)
    simp at hsmaller

/-! ## When the order does not matter -/

/-- At a key that only some of the values with it are taken, whether a value taken has a property
    is decided by the values alone: one with a larger key has it, none with that key has it, or so
    few lack it that one that has it is taken. -/
def Settled (p : α → Bool) (count : ℕ) (l : List α) : Prop :=
  ∀ n, above key l n < count → count < above key l n + level key l n →
    (∃ a ∈ l, n < key a ∧ p a = true) ∨ (∀ a ∈ l, key a = n → p a = false)
      ∨ l.countP (fun a => key a = n ∧ p a = false) < count - above key l n

/-- Whether a value taken has a property, in some order of the values, where the last value taken
    has a given key. -/
theorem any_top {p : α → Bool} {count n : ℕ} {l order : List α} (h : order.Perm l)
    (habove : above key l n ≤ count) (hlevel : count ≤ above key l n + level key l n) :
    (top key count order).any p = true ↔ (∃ a ∈ l, n < key a ∧ p a = true)
      ∨ ((order.filter (fun a => key a = n)).take (count - above key l n)).any p = true := by
  rw [← above_perm key h] at habove hlevel ⊢
  rw [← level_perm key h] at hlevel
  rw [top_eq key habove hlevel, List.any_append, Bool.or_eq_true, List.any_eq_true]
  refine or_congr ⟨?_, ?_⟩ Iff.rfl
  · rintro ⟨a, ha, hp⟩
    rw [List.mem_filter, ((List.perm_insertionSort _ order).trans h).mem_iff,
      decide_eq_true_eq] at ha
    exact ⟨a, ha.1, ha.2, hp⟩
  · rintro ⟨a, ha, hlt, hp⟩
    refine ⟨a, ?_, hp⟩
    rw [List.mem_filter, ((List.perm_insertionSort _ order).trans h).mem_iff, decide_eq_true_eq]
    exact ⟨ha, hlt⟩

/-- If fewer lack the property than are taken, one that has it is taken. -/
theorem any_take_of_few {p : α → Bool} {l : List α} {m : ℕ} (hlength : m ≤ l.length)
    (hfew : l.countP (fun a => p a = false) < m) : (l.take m).any p = true := by
  by_contra hno
  simp only [List.any_eq_true, not_exists, not_and, Bool.not_eq_true] at hno
  have hlack : (l.take m).countP (fun a => p a = false) = m := by
    rw [List.countP_eq_length.2 (fun a ha => by simpa using hno a ha), List.length_take]
    omega
  have hle := (List.take_sublist m l).countP_le (p := fun a => decide (p a = false))
  omega

/-- A settled list is told from its values: two orders of them agree. -/
theorem any_top_of_settled {p : α → Bool} {count : ℕ} {l l₁ l₂ : List α} (hpos : 0 < count)
    (h : Settled key p count l) (h₁ : l₁.Perm l) (h₂ : l₂.Perm l)
    (hany : (top key count l₁).any p = true) : (top key count l₂).any p = true := by
  rcases Nat.lt_or_ge l.length count with hshort | hlong
  · -- everything is taken
    have hperm₁ : (top key count l₁).Perm l₁ := top_perm key (by rw [h₁.length_eq]; omega)
    have hperm₂ : (top key count l₂).Perm l₂ := top_perm key (by rw [h₂.length_eq]; omega)
    rw [((hperm₂.trans h₂).trans (hperm₁.trans h₁).symm).any_eq]
    exact hany
  · obtain ⟨n, habove, hlevel⟩ := exists_level key hpos hlong
    rw [any_top key h₁ habove.le hlevel] at hany
    rw [any_top key h₂ habove.le hlevel]
    rcases hany with ⟨a, ha, hlt, hp⟩ | hany
    · exact .inl ⟨a, ha, hlt, hp⟩
    · have hfilter : ∀ {l' : List α}, l'.Perm l →
          (l'.filter (fun a => key a = n)).length = level key l n := by
        intro l' hl'
        rw [← List.countP_eq_length_filter]
        exact hl'.countP_eq _
      obtain ⟨a, ha, hp⟩ := List.any_eq_true.1 hany
      have hmem := List.mem_filter.1 (List.mem_of_mem_take ha)
      have hmeml := h₁.mem_iff.1 hmem.1
      have hkey : key a = n := by simpa using hmem.2
      rcases Nat.lt_or_ge count (above key l n + level key l n) with hcut | hall
      · rcases h n habove hcut with ⟨b, hb, hlt, hpb⟩ | hnone | hfew
        · exact .inl ⟨b, hb, hlt, hpb⟩
        · rw [hnone a hmeml hkey] at hp
          cases hp
        · refine .inr (any_take_of_few (by rw [hfilter h₂]; omega) ?_)
          rw [List.countP_filter]
          have hcount := h₂.countP_eq (fun a => decide (key a = n ∧ p a = false))
          have hsame : l₂.countP (fun a => decide (p a = false) && decide (key a = n))
              = l₂.countP (fun a => decide (key a = n ∧ p a = false)) := by
            refine List.countP_congr (fun b _ => ?_)
            simp [and_comm]
          omega
      · -- all with that key are taken
        rw [List.take_of_length_le (by rw [hfilter h₂]; omega)]
        exact .inr (List.any_eq_true.2 ⟨a, List.mem_filter.2 ⟨h₂.mem_iff.2 hmeml, hmem.2⟩, hp⟩)

/-- Where the order of the values may be any, the values taken have a value with the property in
    all orders or in none exactly if they are settled. -/
theorem any_top_iff {p : α → Bool} {count : ℕ} {l : List α} (hpos : 0 < count) :
    (∀ l₁ l₂ : List α, l₁.Perm l → l₂.Perm l →
      (top key count l₁).any p = (top key count l₂).any p) ↔ Settled key p count l := by
  refine ⟨fun h n habove hcut => ?_, fun h l₁ l₂ h₁ h₂ => ?_⟩
  · by_contra hnot
    rw [not_or, not_or] at hnot
    obtain ⟨hlarger, hsome, hmany⟩ := hnot
    simp only [not_exists, not_and, Bool.not_eq_true] at hlarger
    simp only [not_forall, Bool.not_eq_false] at hsome
    obtain ⟨a, ha, hkey, hp⟩ := hsome
    -- those that have the property may come first, and may come last
    have hfirst : (l.filter p ++ l.filter (fun a => !p a)).Perm l := List.filter_append_perm p l
    have hlast : (l.filter (fun a => !p a) ++ l.filter p).Perm l :=
      List.perm_append_comm.trans hfirst
    have hsame := h _ _ hfirst hlast
    have hyes : (top key count (l.filter p ++ l.filter (fun a => !p a))).any p = true := by
      rw [any_top key hfirst habove.le hcut.le, List.filter_append]
      refine .inr ?_
      have hin : a ∈ (l.filter p).filter (fun a => key a = n) :=
        List.mem_filter.2 ⟨List.mem_filter.2 ⟨ha, hp⟩, by simpa using hkey⟩
      cases hfront : (l.filter p).filter (fun a => key a = n) with
      | nil =>
          rw [hfront] at hin
          cases hin
      | cons b rest =>
          have hb : b ∈ (l.filter p).filter (fun a => key a = n) := by
            rw [hfront]
            exact List.mem_cons_self
          have hpb := List.of_mem_filter (List.mem_of_mem_filter hb)
          obtain ⟨m, hm⟩ : ∃ m, count - above key l n = m + 1 :=
            ⟨count - above key l n - 1, by omega⟩
          rw [hm, List.cons_append, List.take_succ_cons, List.any_cons, hpb, Bool.true_or]
    have hno : ¬ (top key count (l.filter (fun a => !p a) ++ l.filter p)).any p = true := by
      rw [any_top key hlast habove.le hcut.le, List.filter_append, not_or]
      refine ⟨?_, ?_⟩
      · rintro ⟨b, hb, hlt, hpb⟩
        rw [hlarger b hb hlt] at hpb
        cases hpb
      · have hlack : ((l.filter (fun a => !p a)).filter (fun a => key a = n)).length
            = l.countP (fun a => key a = n ∧ p a = false) := by
          rw [← List.countP_eq_length_filter, List.countP_filter]
          exact List.countP_congr (fun b _ => by simp)
        rw [List.take_append_of_le_length (by rw [hlack]; omega), List.any_eq_true]
        rintro ⟨b, hb, hpb⟩
        have hlacks := List.of_mem_filter (List.mem_of_mem_filter (List.mem_of_mem_take hb))
        rw [hpb] at hlacks
        cases hlacks
    exact hno (hsame ▸ hyes)
  · rw [Bool.eq_iff_iff]
    exact ⟨any_top_of_settled key hpos h h₁ h₂, any_top_of_settled key hpos h h₂ h₁⟩

end Largest
