import EvalHarness.Scoring

set_option autoImplicit false

/-! # Negations before an answer

`contains_answer` looks for a negation in the words before the answer. `answer_at_end` does so in
the tail of the response only: a negation is not seen if its word starts in front of the cutoff. -/

namespace EvalHarness

open Text Scoring

namespace Scoring

variable (u : UnicodeTables)

/-! ## Lowercase words -/

theorem sigma_not_mem_of_isNegation {word : Str} (h : isNegation u word = true) :
    'σ' ∉ u.lower word ∧ 'ς' ∉ u.lower word := by
  have hwords : ∀ w ∈ negationWords, 'σ' ∉ w ∧ 'ς' ∉ w := by decide
  have hmem : stripIf isPunct (u.lower word) ∈ negationWords := by simpa [isNegation] using h
  obtain ⟨hsmall, hfinal⟩ := hwords _ hmem
  exact ⟨fun hin => hsmall (mem_stripIf hin (by decide)),
    fun hin => hfinal (mem_stripIf hin (by decide))⟩

/-- A word is a negation whether it is lowercased on its own or was lowercased with the text it
    stands in. -/
theorem isNegation_of_forall₂ {word word' : Str}
    (h : List.Forall₂ u.BecomesOne word word') : isNegation u word' = isNegation u word := by
  have hlowered : u.lower word' = word' := (CaseTable.lowered_of_forall₂ h).lower_eq
  by_cases hsigma : 'Σ' ∈ word
  · -- no negation has a sigma
    have hown := CaseTable.sigma_mem_of_forall₂
      (CaseTable.forall₂_lower (CaseTable.length_of_forall₂ h)) hsigma
    have htext := CaseTable.sigma_mem_of_forall₂ h hsigma
    rw [← hlowered] at htext
    have hword : ¬ isNegation u word = true := fun hneg =>
      hown.elim (sigma_not_mem_of_isNegation u hneg).1 (sigma_not_mem_of_isNegation u hneg).2
    have hword' : ¬ isNegation u word' = true := fun hneg =>
      htext.elim (sigma_not_mem_of_isNegation u hneg).1 (sigma_not_mem_of_isNegation u hneg).2
    rw [Bool.eq_false_iff.2 hword, Bool.eq_false_iff.2 hword']
  · rw [isNegation, isNegation, hlowered, CaseTable.lower_eq_of_forall₂ h hsigma]

theorem any_isNegation_of_forall₂ {words words' : List Str}
    (h : List.Forall₂ (List.Forall₂ u.BecomesOne) words words') :
    words'.any (isNegation u) = words.any (isNegation u) := by
  induction h with
  | nil => rfl
  | cons hword _ ih => rw [List.any_cons, List.any_cons, isNegation_of_forall₂ u hword, ih]

theorem isSpace_of_becomesOne {c d : Char} (h : u.BecomesOne c d) : isSpace d = isSpace c := by
  unfold CaseTable.BecomesOne at h
  split at h
  · next hc =>
      rw [hc]
      rcases h with rfl | rfl <;> rfl
  · exact u.isSpace_lowerChar c d (by rw [h]; exact List.mem_singleton_self _)

/-- The words before a place are searched for a negation with the same result in a text and in what
    `lower` makes of it. -/
theorem isNegated_lower {s : Str} (hsingle : ∀ c ∈ s, (u.lowerChar c).length = 1) (idx : Nat) :
    isNegated u (u.lower s) idx = isNegated u s idx := by
  have htexts := List.forall₂_take idx (CaseTable.forall₂_lower hsingle)
  have hwords := forall₂_split (fun c d => isSpace_of_becomesOne u) htexts
  have hlast := List.forall₂_drop ((split (s.take idx)).length - negationWindow) hwords
  unfold isNegated lastFew
  simp only [split_strip]
  rw [← hwords.length_eq]
  exact any_isNegation_of_forall₂ u hlast

/-! ## The tail -/

theorem suffix_lastFew {α : Type} {n : Nat} {last items : List α} (h : last <:+ items)
    (hlength : last.length ≤ n) : last <:+ lastFew n items := by
  refine List.suffix_of_suffix_length_le h (List.drop_suffix _ _) ?_
  have hle := h.length_le
  rw [lastFew, List.length_drop]
  omega

/-- Of the words that are examined before a place, those that start in front of a cutoff. -/
def wordsBeforeCutoff (response : Str) (cutoff matchStart : Nat) : List Str :=
  let words := split (response.take matchStart)
  (words.take (split (response.take cutoff)).length).drop (words.length - negationWindow)

/-- A negation before a place behind the cutoff starts in front of the cutoff, or is one of the
    words before that place in the tail. -/
theorem isNegated_of_tail {response : Str} {cutoff idx : Nat}
    (h : isNegated u (response.drop cutoff) idx = false) :
    isNegated u response (cutoff + idx)
      = (wordsBeforeCutoff response cutoff (cutoff + idx)).any (isNegation u) := by
  have hsuffix := drop_split_append (response.take cutoff) ((response.drop cutoff).take idx)
  rw [← List.take_add] at hsuffix
  unfold isNegated lastFew at *
  unfold wordsBeforeCutoff
  simp only [split_strip] at *
  generalize split (response.take (cutoff + idx)) = words at *
  generalize (split (response.take cutoff)).length = before at *
  -- those examined that start behind the cutoff are among those examined in the tail
  have hbehind : (words.drop before).drop
      (words.length - negationWindow - (words.take before).length)
      <:+ lastFew negationWindow (split ((response.drop cutoff).take idx)) := by
    refine suffix_lastFew ((List.drop_suffix _ _).trans hsuffix) ?_
    rw [List.length_drop, List.length_drop, List.length_take]
    omega
  have hnone : ((words.drop before).drop
      (words.length - negationWindow - (words.take before).length)).any (isNegation u) = false := by
    rw [List.any_eq_false] at h ⊢
    exact fun word hword => h word (hbehind.subset hword)
  have hsplit : words.drop (words.length - negationWindow)
      = (words.take before).drop (words.length - negationWindow)
        ++ (words.drop before).drop
            (words.length - negationWindow - (words.take before).length) := by
    rw [← List.drop_append, List.take_append_drop]
  rw [hsplit, List.any_append, hnone, Bool.or_false]

/-! ## What `answer_at_end` credits -/

theorem answerAtEnd_of_find {response expected : Str} {task : ScoredTask} {cutoff idx : Nat}
    (hcutoff : cutoffOf response.length = cutoff)
    (hexpected : task.expectedAnswer = some expected)
    (hfind : find (u.lower (response.drop cutoff)) (u.lower (strip expected)) = some idx) :
    answerAtEnd u response task = !isNegated u (u.lower (response.drop cutoff)) idx := by
  unfold answerAtEnd
  rw [hexpected, hcutoff]
  dsimp only
  rw [hfind]

/-- Of an answer that `answer_at_end` credits, over characters that have a lowercase form of one
    character, no negation is before it in the response if and only if none is among the words that
    start in front of the cutoff. -/
theorem credited_not_negated_iff {response expected : Str} {task : ScoredTask} {idx : Nat}
    (hsingle : ∀ c ∈ response, (u.lowerChar c).length = 1)
    (hexpected : task.expectedAnswer = some expected)
    (hfind : find (u.lower (response.drop (cutoffOf response.length))) (u.lower (strip expected))
      = some idx)
    (hcredited : answerAtEnd u response task = true) :
    isNegated u response (cutoffOf response.length + idx) = false
      ↔ ∀ word ∈ wordsBeforeCutoff response (cutoffOf response.length)
          (cutoffOf response.length + idx), isNegation u word = false := by
  rw [answerAtEnd_of_find u rfl hexpected hfind, Bool.not_eq_true',
    isNegated_lower u (fun c hc => hsingle c (List.mem_of_mem_drop hc))] at hcredited
  rw [isNegated_of_tail u hcredited, List.any_eq_false]
  simp only [Bool.not_eq_true]

def capitalTask : ScoredTask where
  taskId := "t_txt"
  prompt := "The capital of France is".toList
  expectedAnswer := some "Paris".toList

def carefulResponse : Str := "Let me think about this carefully. Paris".toList

theorem credited_not_negated_iff_careful :
    isNegated basicUnicode carefulResponse (cutoffOf carefulResponse.length + 7) = false
      ↔ ∀ word ∈ wordsBeforeCutoff carefulResponse (cutoffOf carefulResponse.length)
          (cutoffOf carefulResponse.length + 7), isNegation basicUnicode word = false := by
  have hsingle : ∀ c ∈ carefulResponse, (basicUnicode.lowerChar c).length = 1 :=
    fun c hc => length_basicLower (ne_of_mem_of_not_mem hc (by decide))
  have hfind : find (basicUnicode.lower (carefulResponse.drop (cutoffOf carefulResponse.length)))
      (basicUnicode.lower (strip "Paris".toList)) = some 7 := by decide +kernel
  have hcredited : answerAtEnd basicUnicode carefulResponse capitalTask = true := by decide +kernel
  have hexpected : capitalTask.expectedAnswer = some "Paris".toList := rfl
  exact @credited_not_negated_iff basicUnicode carefulResponse "Paris".toList capitalTask 7
    hsingle hexpected hfind hcredited

/-- The cutoff is inside the negation. -/
theorem negated_answer_credited :
    answerAtEnd basicUnicode "The capital is not Paris".toList capitalTask = true
      ∧ cutoffOf "The capital is not Paris".toList.length = 16
      ∧ find (basicUnicode.lower ("The capital is not Paris".toList.drop 16))
          (basicUnicode.lower (strip "Paris".toList)) = some 3
      ∧ isNegated basicUnicode "The capital is not Paris".toList (16 + 3) = true := by
  decide +kernel

end Scoring

end EvalHarness
