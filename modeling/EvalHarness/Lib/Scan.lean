import Mathlib

set_option autoImplicit false

/-! # Searching a growing text

A text grows, and each time it is searched for some needles again. The needles not being in the part
that was searched before, it is enough to search the rest of the text and an overlap that is shorter
than the longest needle by one. The text may be translated before it is searched, into one that is
not shorter. -/

namespace Scan

variable {α β : Type}

/-- A translation of texts, piece by piece and into nothing shorter. Of what a piece becomes only
    the length is known to be independent of what is around it. -/
structure Measured (norm : List α → List β) : Prop where
  length_append : ∀ xs ys, (norm (xs ++ ys)).length = (norm xs).length + (norm ys).length
  le_length : ∀ xs, xs.length ≤ (norm xs).length

theorem measured_id : Measured (id : List α → List α) where
  length_append := fun _ _ => List.length_append
  le_length := fun _ => le_rfl

/-- A needle in a text is behind a cut, or at most its length away from it. -/
theorem infix_drop_or_take {needle text : List β} {a n : ℕ} (h : needle <:+: text)
    (hn : needle.length ≤ n) : needle <:+: text.drop a ∨ needle <:+: text.take (a + n - 1) := by
  obtain ⟨before, after, rfl⟩ := h
  rcases Nat.lt_or_ge before.length a with hlt | hge
  · right
    have hwhole : (before ++ needle).length ≤ a + n - 1 := by
      rw [List.length_append]
      omega
    rw [List.take_append, List.take_of_length_le hwhole]
    exact ⟨before, _, rfl⟩
  · left
    rw [List.append_assoc, List.drop_append_of_le_length hge]
    exact ⟨before.drop a, after, List.append_assoc _ _ _⟩

section Window

variable {norm : List α → List β} (hnorm : Measured norm) {prev text : List α} {needle : List β}
  {n : ℕ}

/-- Where the search starts, the longest needle having the given length. -/
abbrev start (searched n : ℕ) : ℕ := searched + 1 - n

include hnorm

/-- The translation of what is behind a cut, if it is the same on its own. -/
theorem norm_drop {a : ℕ} (h : norm (text.drop a) <:+ norm text) :
    norm (text.drop a) = (norm text).drop (norm (text.take a)).length := by
  have hlength := hnorm.length_append (text.take a) (text.drop a)
  rw [List.take_append_drop] at hlength
  rw [List.suffix_iff_eq_drop.1 h, hlength, Nat.add_sub_cancel]

/-- A needle that is in the text, but was not before, is found behind the start. -/
theorem infix_window (hgrow : prev <+: text) (hbefore : norm prev <+: norm text)
    (hbehind : 0 < n → norm (text.drop (start prev.length n)) <:+ norm text)
    (hn : needle.length ≤ n) (hnew : needle <:+: norm prev → needle = [])
    (h : needle <:+: norm text) : needle <:+: norm (text.drop (start prev.length n)) := by
  by_cases hnil : needle = []
  · exact hnil ▸ List.nil_infix
  have hpos : 0 < needle.length := List.length_pos_iff.2 hnil
  by_cases hstart : start prev.length n = 0
  · rwa [hstart, List.drop_zero]
  rw [norm_drop hnorm (hbehind (by omega))]
  refine (infix_drop_or_take h hn).resolve_right (fun hold => ?_)
  -- what is not behind the start ends in the part that was searched before
  have hle : start prev.length n ≤ prev.length := by unfold start; omega
  have hprev : text.take (start prev.length n) = prev.take (start prev.length n) := by
    obtain ⟨more, rfl⟩ := hgrow
    rw [List.take_append_of_le_length hle]
  have hlength := hnorm.length_append (prev.take (start prev.length n))
    (prev.drop (start prev.length n))
  rw [List.take_append_drop] at hlength
  have hrest := hnorm.le_length (prev.drop (start prev.length n))
  rw [List.length_drop] at hrest
  have hshort : (norm (text.take (start prev.length n))).length + n - 1 ≤ (norm prev).length := by
    rw [hprev]
    unfold start at *
    omega
  have hpart : (norm text).take ((norm (text.take (start prev.length n))).length + n - 1)
      <:+: norm prev := by
    rw [List.prefix_iff_eq_take.1 hbefore]
    exact (List.take_prefix_take_left hshort).isInfix
  exact hnil (hnew (hold.trans hpart))

end Window

end Scan
