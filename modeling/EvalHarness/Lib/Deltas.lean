import Mathlib

set_option autoImplicit false

/-! # Texts delivered piece by piece

A text is seen again and again, each time as a whole, and what is behind the length of the text
delivered last is delivered. A receiver that puts the pieces together has the text only if each text
delivered extends the one before. -/

namespace Deltas

variable {α : Type}

/-- The longest of some texts, the first one if there are several. -/
def longest (texts : List (List α)) : List α :=
  texts.foldl (fun best text => if best.length < text.length then text else best) []

/-- What a text adds to the text delivered last, if it is longer, and the pieces so far. -/
def deliver (s : List α × List (List α × List α)) (text : List α) :
    List α × List (List α × List α) :=
  if s.1.length < text.length then (text, s.2 ++ [(text.drop s.1.length, text)]) else s

/-- The pieces of a sequence of texts, each with the text that it was cut from. -/
def pieces (texts : List (List α)) : List (List α × List α) := (texts.foldl deliver ([], [])).2

theorem longest_snoc (texts : List (List α)) (text : List α) :
    longest (texts ++ [text])
      = if (longest texts).length < text.length then text else longest texts := by
  rw [longest, List.foldl_append]
  rfl

/-- The text delivered last is the longest. -/
theorem foldl_deliver (texts : List (List α)) :
    texts.foldl deliver ([], []) = (longest texts, pieces texts) := by
  induction texts using List.reverseRecOn with
  | nil => rfl
  | append_singleton texts text ih =>
      have hpieces :
          pieces (texts ++ [text]) = (deliver (texts.foldl deliver ([], [])) text).2 := by
        rw [pieces, List.foldl_append]
        rfl
      rw [hpieces, List.foldl_append, List.foldl_cons, List.foldl_nil, ih, longest_snoc, deliver]
      split <;> rfl

theorem pieces_snoc (texts : List (List α)) (text : List α) :
    pieces (texts ++ [text]) = if (longest texts).length < text.length
      then pieces texts ++ [(text.drop (longest texts).length, text)] else pieces texts := by
  rw [pieces, List.foldl_append, List.foldl_cons, List.foldl_nil, foldl_deliver, deliver]
  split <;> rfl

/-! ## Putting the pieces together -/

/-- The pieces put together are, at any time, the text that the last one was cut from. -/
def Whole (delivered : List (List α × List α)) : Prop :=
  ∀ before piece after, delivered = before ++ piece :: after →
    ((before ++ [piece]).map Prod.fst).flatten = piece.2

/-- A text that is longer than all before it extends the longest of them. -/
def Unrevised (texts : List (List α)) : Prop :=
  ∀ before text after, texts = before ++ text :: after →
    (longest before).length < text.length → longest before <+: text

/-- Something is the case at every place of a list with one more entry. -/
theorem forall_split_snoc {β : Type} {P : List β → β → Prop} {l : List β} {x : β} :
    (∀ before y after, l ++ [x] = before ++ y :: after → P before y) ↔
      (∀ before y after, l = before ++ y :: after → P before y) ∧ P l x := by
  constructor
  · intro h
    exact ⟨fun before y after hl => h before y (after ++ [x]) (by simp [hl]), h l x [] rfl⟩
  · rintro ⟨hl, hx⟩ before y after heq
    rcases List.eq_nil_or_concat after with rfl | ⟨front, last, rfl⟩
    · obtain ⟨rfl, hlast⟩ := List.append_inj' heq rfl
      obtain rfl := List.singleton_inj.1 hlast
      exact hx
    · rw [List.concat_eq_append, ← List.cons_append, ← List.append_assoc] at heq
      exact hl before y front (List.append_inj' heq rfl).1

theorem Whole.flatten {texts : List (List α)} (h : Whole (pieces texts)) :
    ((pieces texts).map Prod.fst).flatten = longest texts := by
  induction texts using List.reverseRecOn with
  | nil => rfl
  | append_singleton texts text ih =>
      rw [pieces_snoc] at h ⊢
      rw [longest_snoc]
      split
      · next hlt =>
          rw [if_pos hlt] at h
          exact (forall_split_snoc.1 h).2
      · next hle =>
          rw [if_neg hle] at h
          exact ih h

/-- The pieces can be put together if and only if nothing delivered is revised. -/
theorem whole_pieces_iff (texts : List (List α)) : Whole (pieces texts) ↔ Unrevised texts := by
  induction texts using List.reverseRecOn with
  | nil =>
      constructor
      · intro _ before text after h
        simp at h
      · intro _ before piece after h
        simp [pieces] at h
  | append_singleton texts text ih =>
      rw [Unrevised, forall_split_snoc, ← Unrevised, ← ih, pieces_snoc]
      split
      · next hlt =>
          rw [Whole, forall_split_snoc, ← Whole]
          refine and_congr_right (fun hwhole => ?_)
          rw [List.map_append, List.flatten_append, hwhole.flatten]
          simp [hlt, List.prefix_iff_eq_append]
      · next hle => exact (and_iff_left (fun hlt => absurd hlt hle)).symm

/-- The text delivered last. -/
theorem getLast?_pieces (texts : List (List α)) :
    ((pieces texts).getLast?.map Prod.snd).getD [] = longest texts := by
  induction texts using List.reverseRecOn with
  | nil => rfl
  | append_singleton texts text ih =>
      rw [pieces_snoc, longest_snoc]
      split
      · simp
      · exact ih

end Deltas
