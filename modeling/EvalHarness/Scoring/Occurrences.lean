import EvalHarness.Scoring.Negation

set_option autoImplicit false

/-! # Where an answer stands

`contains_answer` looks for an answer in the lowercase response, and uses the place it finds there
for the response as it was. The two differ by what lowercasing has added before the answer: the
words that are examined are those before a place further on. -/

namespace EvalHarness

open Text Scoring

namespace Scoring

variable (u : UnicodeTables)

/-- An answer stands at a place of a response if it is found in lowercase where that starts what the
    character at the place becomes, or at an offset in that. -/
def StandsAt (response needle : Str) (place offset : Nat) : Prop :=
  (∃ c, response[place]? = some c ∧ offset < (u.lowerChar c).length)
    ∧ needle <+: (u.lower response).drop (u.loweredPlace response place + offset)

/-- An answer stands at a place, and at none before. -/
def FirstStandsAt (response needle : Str) (place offset : Nat) : Prop :=
  StandsAt u response needle place offset
    ∧ ∀ place' offset', StandsAt u response needle place' offset' →
        place < place' ∨ (place = place' ∧ offset ≤ offset')

/-! ## Places of the lowercase response -/

theorem StandsAt.loweredPlace_lt {response needle : Str} {place offset place' : Nat}
    (h : StandsAt u response needle place offset) (hlt : place < place') :
    u.loweredPlace response place + offset < u.loweredPlace response place' := by
  obtain ⟨⟨c, hc, hoffset⟩, -⟩ := h
  have hle := u.loweredPlace_le (s := response) (show place + 1 ≤ place' from hlt)
  rw [u.loweredPlace_succ hc] at hle
  omega

/-- The first place in the response is the first one in the lowercase response. -/
theorem FirstStandsAt.find_eq {response needle : Str} {place offset : Nat}
    (hneedle : needle ≠ []) (h : FirstStandsAt u response needle place offset) :
    find (u.lower response) needle = some (u.loweredPlace response place + offset) := by
  obtain ⟨hstands, hfirst⟩ := h
  have hpos := List.length_pos_iff.2 hneedle
  have hle := hstands.2.length_le
  rw [List.length_drop] at hle
  refine find_eq_some_iff.2 ⟨by omega, hstands.2, ?_⟩
  intro idx hlt hoccurs
  have hinside : idx < (u.lower response).length := by omega
  obtain ⟨place', offset', c, hc, hoffset, rfl⟩ := u.exists_place hinside
  rcases hfirst place' offset' ⟨⟨c, hc, hoffset⟩, hoccurs⟩ with hbefore | ⟨rfl, hoffsets⟩
  · have hplaces := hstands.loweredPlace_lt u hbefore
    omega
  · omega

theorem FirstStandsAt.unique {response needle : Str} {place offset place' offset' : Nat}
    (h : FirstStandsAt u response needle place offset)
    (h' : FirstStandsAt u response needle place' offset') : place' = place ∧ offset' = offset := by
  have hforward := h.2 _ _ h'.1
  have hbackward := h'.2 _ _ h.1
  omega

theorem firstStandsAt_of_find {response needle : Str} {place offset : Nat}
    (hstands : StandsAt u response needle place offset)
    (h : find (u.lower response) needle = some (u.loweredPlace response place + offset)) :
    FirstStandsAt u response needle place offset := by
  obtain ⟨-, -, hfirst⟩ := find_eq_some_iff.1 h
  refine ⟨hstands, ?_⟩
  intro place' offset' hstands'
  have hle : u.loweredPlace response place + offset
      ≤ u.loweredPlace response place' + offset' := by
    by_contra hlt
    exact hfirst _ (by omega) hstands'.2
  rcases Nat.lt_trichotomy place place' with hlt | rfl | hgt
  · exact Or.inl hlt
  · exact Or.inr ⟨rfl, by omega⟩
  · have hplaces := hstands'.loweredPlace_lt u hgt
    omega

theorem exists_firstStandsAt {response needle : Str} {idx : Nat} (hneedle : needle ≠ [])
    (h : find (u.lower response) needle = some idx) :
    ∃ place offset, FirstStandsAt u response needle place offset
      ∧ u.loweredPlace response place + offset = idx := by
  obtain ⟨place, offset, c, hc, hoffset, rfl⟩ := u.exists_place (lt_of_find h hneedle)
  have hstands : StandsAt u response needle place offset :=
    ⟨⟨c, hc, hoffset⟩, (find_eq_some_iff.1 h).2.1⟩
  exact ⟨place, offset, firstStandsAt_of_find u hstands h, rfl⟩

/-! ## What lowercasing adds -/

/-- How many characters lowercasing adds up to a place, and to an offset in what the character there
    becomes. -/
def added (response : Str) (place offset : Nat) : Nat :=
  ((response.take place).map (fun c => (u.lowerChar c).length - 1)).sum + offset

/-- As many characters of the response, from the place on. -/
def passed (response : Str) (place offset : Nat) : Str :=
  (response.drop place).take (added u response place offset)

theorem loweredPlace_eq_add_sum {response : Str} {place : Nat} (h : place ≤ response.length) :
    u.loweredPlace response place
      = place + ((response.take place).map (fun c => (u.lowerChar c).length - 1)).sum := by
  have hsum : ∀ s : Str, (s.map (fun c => (u.lowerChar c).length)).sum
      = s.length + (s.map (fun c => (u.lowerChar c).length - 1)).sum := by
    intro s
    induction s with
    | nil => rfl
    | cons c s ih =>
        have hpos : 0 < (u.lowerChar c).length := List.length_pos_iff.2 (u.lowerChar_ne_nil c)
        rw [List.map_cons, List.sum_cons, List.map_cons, List.sum_cons, ih, List.length_cons]
        omega
  rw [CaseTable.loweredPlace, CaseTable.lower, CaseTable.length_lowerFrom, hsum, List.length_take,
    Nat.min_eq_left h]

/-- The code examines what is in front of the place, and what it passes there. -/
theorem take_lowered_place {response needle : Str} {place offset : Nat}
    (h : StandsAt u response needle place offset) :
    response.take (u.loweredPlace response place + offset)
      = response.take place ++ passed u response place offset := by
  obtain ⟨⟨c, hc, -⟩, -⟩ := h
  have hplace : place < response.length := (List.getElem?_eq_some_iff.1 hc).1
  rw [loweredPlace_eq_add_sum u hplace.le, Nat.add_assoc, List.take_add]
  rfl

theorem passed_eq_nil {response needle : Str} {place offset : Nat}
    (h : StandsAt u response needle place offset)
    (hsingle : ∀ c ∈ response.take (place + 1), (u.lowerChar c).length = 1) :
    passed u response place offset = [] := by
  obtain ⟨⟨c, hc, hoffset⟩, -⟩ := h
  rw [hsingle c (List.mem_of_getElem? (by rwa [List.getElem?_take_of_lt (Nat.lt_succ_self _)]))]
    at hoffset
  have hnone : ((response.take place).map (fun c => (u.lowerChar c).length - 1)).sum = 0 := by
    rw [List.sum_eq_zero_iff]
    intro n hn
    obtain ⟨d, hd, rfl⟩ := List.mem_map.1 hn
    rw [hsingle d ((List.take_subset_take_left _ (Nat.le_succ place)) hd), Nat.sub_self]
  rw [passed, added, hnone, Nat.lt_one_iff.1 hoffset]
  exact List.take_zero

/-! ## The words before two places -/

theorem lastFew_append {α : Type} (n : Nat) (items more : List α) :
    lastFew n (items ++ more) = lastFew (n - more.length) items ++ lastFew n more := by
  unfold lastFew
  rw [List.length_append, List.drop_append]
  rcases Nat.le_total more.length n with hle | hle
  · congr 2 <;> omega
  · rw [List.drop_of_length_le (show items.length ≤ items.length + more.length - n by omega),
      List.drop_of_length_le (show items.length ≤ items.length - (n - more.length) by omega)]
    congr 2
    omega

/-- Of the last items, those that are no longer among them when there are fewer. -/
theorem lastFew_eq_append {α : Type} {n m : Nat} (items : List α) (h : n ≤ m) :
    lastFew m items
      = (items.take (items.length - n)).drop (items.length - m) ++ lastFew n items := by
  unfold lastFew
  rw [← List.drop_append_of_le_length, List.take_append_drop]
  rw [List.length_take]
  omega

/-- The words in front of a place, without one that goes on there. -/
def wholeWords (response : Str) (place : Nat) : List Str :=
  split ((response.take place).rdropWhile notSpace)

/-- The beginning of a word that goes on at a place, if there is one. -/
def wordBefore (response : Str) (place : Nat) : Str := (response.take place).rtakeWhile notSpace

/-- That word and those after it, as far as lowercasing makes the code go on. -/
def lateWords (response : Str) (place offset : Nat) : List Str :=
  split (wordBefore response place ++ passed u response place offset)

/-- Going on makes no difference to there being a negation among the last six words: there is one
    among those that remain, or there is one among those that are dropped, the word cut off at the
    place being one of these, exactly if there is one among those that are added. -/
def Balanced (response : Str) (place offset : Nat) : Prop :=
  let earlier := wholeWords response place
  let cutOff := split (wordBefore response place)
  let late := lateWords u response place offset
  (∃ word ∈ lastFew (6 - late.length) earlier, isNegation u word = true)
    ∨ ((∃ word ∈ (earlier.take (earlier.length - (6 - late.length))).drop
          (earlier.length - (6 - cutOff.length)) ++ cutOff, isNegation u word = true)
      ↔ ∃ word ∈ lastFew 6 late, isNegation u word = true)

theorem lastFew_split_append (response : Str) (place : Nat) (more : Str) :
    lastFew 6 (split (response.take place ++ more))
      = lastFew (6 - (split (wordBefore response place ++ more)).length) (wholeWords response place)
        ++ lastFew 6 (split (wordBefore response place ++ more)) := by
  rw [split_append, lastFew_append]
  rfl

/-- There is a negation among the six words before the one place exactly if there is one before the
    other. -/
theorem balanced_iff (response : Str) (place offset : Nat) :
    Balanced u response place offset
      ↔ ((∃ word ∈ lastFew 6 (split (response.take place ++ passed u response place offset)),
            isNegation u word = true)
          ↔ ∃ word ∈ lastFew 6 (split (response.take place)), isNegation u word = true) := by
  have hplace := lastFew_split_append response place []
  rw [List.append_nil, List.append_nil] at hplace
  have hshort : (split (wordBefore response place)).length ≤ 1 :=
    length_split_le_one (fun c hc => List.mem_rtakeWhile_imp hc)
  have hall :
      lastFew 6 (split (wordBefore response place)) = split (wordBefore response place) := by
    unfold lastFew
    rw [show (split (wordBefore response place)).length - 6 = 0 by omega]
    rfl
  have hmore := length_split_le (wordBefore response place) (passed u response place offset)
  rw [lastFew_split_append, hplace, hall,
    lastFew_eq_append (wholeWords response place) (Nat.sub_le_sub_left hmore 6)]
  have hparts : ∀ remain dropped cutOff new : Prop,
      (remain ∨ ((dropped ∨ cutOff) ↔ new)) ↔ ((remain ∨ new) ↔ ((dropped ∨ remain) ∨ cutOff)) := by
    tauto
  unfold Balanced lateWords
  dsimp only
  simp only [List.mem_append, or_and_right, exists_or]
  exact hparts _ _ _ _

theorem balanced_of_passed_nil {response : Str} {place offset : Nat}
    (h : passed u response place offset = []) : Balanced u response place offset := by
  rw [balanced_iff, h, List.append_nil]

/-! ## What `contains_answer` credits -/

/-- An answer occurs, and none of the six words of the response before its first place is a
    negation. -/
def Unnegated (response needle : Str) : Prop :=
  ∃ place offset, FirstStandsAt u response needle place offset
    ∧ ∀ word ∈ lastFew 6 (split (response.take place)), isNegation u word = false

theorem isNegated_iff (response : Str) (idx : Nat) : isNegated u response idx = true
    ↔ ∃ word ∈ lastFew 6 (split (response.take idx)), isNegation u word = true := by
  rw [isNegated, split_strip, List.any_eq_true]
  rfl

theorem FirstStandsAt.unnegated_iff {response needle : Str} {place offset : Nat}
    (h : FirstStandsAt u response needle place offset) : Unnegated u response needle
      ↔ ¬ ∃ word ∈ lastFew 6 (split (response.take place)), isNegation u word = true := by
  simp only [not_exists, not_and, Bool.not_eq_true]
  constructor
  · rintro ⟨place', offset', hfirst', hwords⟩
    rwa [(h.unique u hfirst').1] at hwords
  · exact fun hwords => ⟨place, offset, h, hwords⟩

theorem containsAnswer_of_none {response expected : Str} {task : ScoredTask}
    (hexpected : task.expectedAnswer = some expected)
    (hnowhere : ∀ place offset, ¬ FirstStandsAt u response (u.lower (strip expected)) place offset)
    (hneedle : u.lower (strip expected) ≠ []) : containsAnswer u response task = false := by
  have hfind : find (u.lower response) (u.lower (strip expected)) = none := by
    by_contra hsome
    obtain ⟨idx, hfind⟩ := Option.ne_none_iff_exists'.1 hsome
    obtain ⟨place, offset, hfirst, -⟩ := exists_firstStandsAt u hneedle hfind
    exact hnowhere place offset hfirst
  simp [containsAnswer, hexpected, hfind]

theorem FirstStandsAt.containsAnswer_iff {response expected : Str} {task : ScoredTask}
    {place offset : Nat} (hexpected : task.expectedAnswer = some expected)
    (hneedle : u.lower (strip expected) ≠ [])
    (h : FirstStandsAt u response (u.lower (strip expected)) place offset) :
    containsAnswer u response task = true
      ↔ ¬ ∃ word ∈ lastFew 6 (split (response.take place ++ passed u response place offset)),
          isNegation u word = true := by
  rw [← take_lowered_place u h.1, ← isNegated_iff]
  simp [containsAnswer, hexpected, h.find_eq u hneedle]

/-- `contains_answer` returns whether an answer occurs without a negation among the six words of the
    response before its first place, if and only if the words that end where lowercasing makes the
    code go on make no difference there. They do not if no character up to that place becomes
    several. -/
theorem containsAnswer_iff_unnegated_iff {response expected : Str} {task : ScoredTask}
    (hexpected : task.expectedAnswer = some expected) (hnonblank : strip expected ≠ []) :
    ((containsAnswer u response task = true ↔ Unnegated u response (u.lower (strip expected)))
        ↔ ∀ place offset, FirstStandsAt u response (u.lower (strip expected)) place offset →
          Balanced u response place offset)
      ∧ ((∀ place offset, FirstStandsAt u response (u.lower (strip expected)) place offset →
            ∀ c ∈ response.take (place + 1), (u.lowerChar c).length = 1) →
          (containsAnswer u response task = true
            ↔ Unnegated u response (u.lower (strip expected)))) := by
  have hneedle : u.lower (strip expected) ≠ [] := by
    have hle := u.length_le_lower (strip expected)
    have hpos := List.length_pos_iff.2 hnonblank
    exact List.length_pos_iff.1 (by omega)
  have hiff : (containsAnswer u response task = true
        ↔ Unnegated u response (u.lower (strip expected)))
      ↔ ∀ place offset, FirstStandsAt u response (u.lower (strip expected)) place offset →
        Balanced u response place offset := by
    by_cases hsome : ∃ place offset,
        FirstStandsAt u response (u.lower (strip expected)) place offset
    · -- there is one first place
      obtain ⟨place, offset, hfirst⟩ := hsome
      have honly : (∀ place offset,
          FirstStandsAt u response (u.lower (strip expected)) place offset →
            Balanced u response place offset) ↔ Balanced u response place offset := by
        refine ⟨fun h => h place offset hfirst, fun h place' offset' hfirst' => ?_⟩
        obtain ⟨rfl, rfl⟩ := hfirst.unique u hfirst'
        exact h
      rw [honly, balanced_iff, hfirst.containsAnswer_iff u hexpected hneedle,
        hfirst.unnegated_iff u, not_iff_not]
    · have hnowhere : ∀ place offset,
          ¬ FirstStandsAt u response (u.lower (strip expected)) place offset :=
        fun place offset h => hsome ⟨place, offset, h⟩
      refine iff_of_true (iff_of_false ?_ ?_) (fun place offset h => absurd h (hnowhere _ _))
      · rw [containsAnswer_of_none u hexpected hnowhere hneedle]
        exact Bool.false_ne_true
      · exact fun ⟨place, offset, h, _⟩ => hnowhere place offset h
  refine ⟨hiff, fun hsingle => hiff.2 (fun place offset hfirst => ?_)⟩
  exact balanced_of_passed_nil u (passed_eq_nil u hfirst.1 (hsingle place offset hfirst))

def answerTask : ScoredTask where
  taskId := "t_num"
  prompt := "What is 6 times 7?".toList
  expectedAnswer := some "42".toList

theorem containsAnswer_iff_plain :
    containsAnswer basicUnicode "The answer is 42.".toList answerTask = true
      ↔ Unnegated basicUnicode "The answer is 42.".toList
          (basicUnicode.lower (strip "42".toList)) := by
  have hexpected : answerTask.expectedAnswer = some "42".toList := rfl
  exact (containsAnswer_iff_unnegated_iff basicUnicode hexpected (by decide)).2
    (fun place offset _ c hc => length_basicLower
      (ne_of_mem_of_not_mem (List.mem_of_mem_take hc) (by decide)))

/-- The dotted capital becomes two characters, so that the words before the answer end one character
    late: the last one is `not-4`. -/
theorem negated_behind_dotted_credited :
    ¬ (containsAnswer basicUnicode "İ not-42".toList answerTask = true
        ↔ Unnegated basicUnicode "İ not-42".toList
            (basicUnicode.lower (strip "42".toList))) := by
  have hfirst : FirstStandsAt basicUnicode "İ not-42".toList
      (basicUnicode.lower (strip "42".toList)) 6 0 :=
    firstStandsAt_of_find basicUnicode ⟨⟨'4', rfl, by decide⟩, by decide +kernel⟩
      (by decide +kernel)
  have hcredited : containsAnswer basicUnicode "İ not-42".toList answerTask = true := by
    decide +kernel
  intro h
  obtain ⟨place, offset, hplace, hwords⟩ := h.1 hcredited
  obtain ⟨rfl, rfl⟩ := hfirst.unique basicUnicode hplace
  exact absurd (hwords "not-".toList (by decide +kernel)) (by decide +kernel)

end Scoring

end EvalHarness
