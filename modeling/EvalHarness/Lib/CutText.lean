import EvalHarness.Lib.Casing

set_option autoImplicit false

/-! # A lowercase text and a cut

What is behind a cut is lowercased, on its own, to what stands there in the lowercase text: only a
capital sigma may read differently, one that is final because of what is in front of the cut. -/

namespace Text

namespace CaseTable

variable (t : CaseTable)

/-- A capital sigma that is final in a text, without a cased character between a cut and it. -/
structure CutOff (s : Str) (cut place : Nat) : Prop where
  behind : cut ≤ place
  capital : s[place]? = some 'Σ'
  final : (t.lower s)[t.loweredPlace s place]? = some 'ς'
  ignorable : ∀ c ∈ (s.take place).drop cut, t.caseIgnorable c = true

/-- The character at an index of the lowercase text, final sigmas that are cut off not being
    final. -/
def Reads (s : Str) (cut idx : Nat) (d : Char) : Prop :=
  (∃ place, t.CutOff s cut place ∧ t.loweredPlace s place = idx ∧ d = 'σ')
    ∨ ((∀ place, t.CutOff s cut place → t.loweredPlace s place ≠ idx) ∧ (t.lower s)[idx]? = some d)

/-- A needle stands in the lowercase text behind a cut, read like that. -/
def OccursBehind (s : Str) (cut : Nat) (needle : Str) : Prop :=
  ∃ start, t.loweredPlace s cut ≤ start ∧ start + needle.length ≤ (t.lower s).length
    ∧ ∀ i d, needle[i]? = some d → t.Reads s cut (start + i) d

/-! ## What is in front of a text -/

variable {t}

theorem exists_lowerFrom_append (before : Bool) (s more : Str) : ∃ front between,
    t.lowerFrom before (s ++ more) = front ++ t.lowerFrom between more
      ∧ front.length = (t.lower s).length := by
  induction s generalizing before with
  | nil => exact ⟨[], before, rfl, rfl⟩
  | cons c s ih =>
      obtain ⟨front, between, hsplit, hlength⟩ :=
        ih (if t.caseIgnorable c then before else t.cased c)
      refine ⟨t.lowerAt before c (s ++ more) ++ front, between, ?_, ?_⟩
      · rw [List.cons_append, lowerFrom, hsplit, List.append_assoc]
      · simp only [lower, length_lowerFrom, List.length_append, length_lowerAt, List.map_cons,
          List.sum_cons] at hlength ⊢
        rw [hlength]

theorem loweredPlace_add (s : Str) (cut place : Nat) :
    t.loweredPlace s (cut + place) = t.loweredPlace s cut + t.loweredPlace (s.drop cut) place := by
  rw [loweredPlace, List.take_add, length_lower_append]
  rfl

section Cons

variable {before : Bool} {c : Char} {s : Str}

theorem getElem?_lowerFrom_head {i : Nat} (h : i < (t.lowerChar c).length) :
    (t.lowerFrom before (c :: s))[i]? = (t.lowerAt before c s)[i]? := by
  rw [lowerFrom, List.getElem?_append_left (by rwa [length_lowerAt])]

theorem getElem?_lowerFrom_tail (i : Nat) :
    (t.lowerFrom before (c :: s))[(t.lowerChar c).length + i]?
      = (t.lowerFrom (if t.caseIgnorable c then before else t.cased c) s)[i]? := by
  rw [lowerFrom, ← t.length_lowerAt before c s, List.getElem?_append_right (Nat.le_add_right _ _),
    Nat.add_sub_cancel_left]

/-- A capital sigma that is final because of what is in front of the text. -/
structure FinalBefore (t : CaseTable) (before : Bool) (s : Str) (place : Nat) : Prop where
  capital : s[place]? = some 'Σ'
  final : (t.lowerFrom before s)[t.loweredPlace s place]? = some 'ς'
  ignorable : ∀ c ∈ s.take place, t.caseIgnorable c = true

theorem not_finalBefore_nil {place : Nat} : ¬ FinalBefore t before [] place :=
  fun h => by simpa using h.capital

theorem finalBefore_zero :
    FinalBefore t before (c :: s) 0 ↔ c = 'Σ' ∧ (before && !t.casedAhead s) = true := by
  have hplace : t.loweredPlace (c :: s) 0 = 0 := rfl
  constructor
  · rintro ⟨hcapital, hfinal, -⟩
    obtain rfl : c = 'Σ' := by simpa using hcapital
    refine ⟨rfl, ?_⟩
    by_contra hnot
    rw [hplace, lowerFrom, lowerAt, if_pos rfl, if_neg hnot] at hfinal
    simp at hfinal
  · rintro ⟨rfl, hend⟩
    refine ⟨rfl, ?_, fun d hd => absurd hd List.not_mem_nil⟩
    rw [hplace, lowerFrom, lowerAt, if_pos rfl, if_pos hend]
    rfl

theorem finalBefore_succ {place : Nat} : FinalBefore t before (c :: s) (place + 1)
    ↔ t.caseIgnorable c = true ∧ FinalBefore t before s place := by
  constructor
  · rintro ⟨hcapital, hfinal, hignorable⟩
    have hc : t.caseIgnorable c = true := hignorable c (by simp)
    rw [loweredPlace_cons, getElem?_lowerFrom_tail, if_pos hc] at hfinal
    exact ⟨hc, by simpa using hcapital, hfinal,
      fun d hd => hignorable d (by simpa using Or.inr hd)⟩
  · rintro ⟨hc, hcapital, hfinal, hignorable⟩
    refine ⟨by simpa using hcapital, ?_, ?_⟩
    · rwa [loweredPlace_cons, getElem?_lowerFrom_tail, if_pos hc]
    · intro d hd
      rcases List.mem_cons.1 (by simpa using hd : d ∈ c :: s.take place) with rfl | hrest
      · exact hc
      · exact hignorable d hrest

end Cons

/-- Which places are marked matters only as far as an index is that of one of them. -/
theorem marked_congr {P Q : Nat → Prop} {f g : Nat → Nat} {i j : Nat} {p q : Prop}
    (h : (∃ place, P place ∧ f place = i) ↔ ∃ place, Q place ∧ g place = j) :
    ((∃ place, P place ∧ f place = i ∧ p) ∨ ((∀ place, P place → f place ≠ i) ∧ q))
      ↔ (∃ place, Q place ∧ g place = j ∧ p) ∨ ((∀ place, Q place → g place ≠ j) ∧ q) := by
  have hnone : (∀ place, P place → f place ≠ i) ↔ ∀ place, Q place → g place ≠ j := by
    simpa only [not_exists, not_and] using not_congr h
  simp only [← and_assoc, exists_and_right, h, hnone]

/-- The character at an index, if the sigmas that are final because of what is in front of the text
    were not. -/
def ReadsAlone (t : CaseTable) (before : Bool) (s : Str) (i : Nat) (d : Char) : Prop :=
  (∃ place, FinalBefore t before s place ∧ t.loweredPlace s place = i ∧ d = 'σ')
    ∨ ((∀ place, FinalBefore t before s place → t.loweredPlace s place ≠ i)
      ∧ (t.lowerFrom before s)[i]? = some d)

theorem readsAlone_head {before : Bool} {c : Char} {s : Str} {i : Nat} {d : Char}
    (h : i < (t.lowerChar c).length) :
    ReadsAlone t before (c :: s) i d ↔ (t.lowerAt false c s)[i]? = some d := by
  -- no place but the first is in what the first character becomes
  have hfirst : ∀ place, t.loweredPlace (c :: s) place = i → place = 0 := by
    rintro (_ | place) hplace
    · rfl
    · rw [loweredPlace_cons] at hplace
      omega
  rw [ReadsAlone, getElem?_lowerFrom_head h]
  by_cases hend : c = 'Σ' ∧ (before && !t.casedAhead s) = true
  · have hfinal : FinalBefore t before (c :: s) 0 := finalBefore_zero.2 hend
    obtain ⟨rfl, -⟩ := hend
    rw [lowerChar_capitalSigma, List.length_singleton, Nat.lt_one_iff] at h
    subst h
    have halone : t.lowerAt false 'Σ' s = ['σ'] := by simp [lowerAt]
    rw [or_iff_left (fun h => h.1 0 hfinal rfl), halone, List.getElem?_cons_zero,
      Option.some_inj]
    constructor
    · rintro ⟨-, -, -, hd⟩
      exact hd.symm
    · intro hd
      exact ⟨0, hfinal, rfl, hd.symm⟩
  · have hnone : ∀ place, FinalBefore t before (c :: s) place →
        t.loweredPlace (c :: s) place ≠ i := by
      intro place hfinal hplace
      rw [hfirst place hplace] at hfinal
      exact hend (finalBefore_zero.1 hfinal)
    have hsame : t.lowerAt before c s = t.lowerAt false c s := by
      unfold lowerAt
      split
      · next hc => rw [if_neg (fun hb => hend ⟨hc, hb⟩), if_neg (by simp)]
      · rfl
    rw [and_iff_right hnone, or_iff_right, hsame]
    rintro ⟨place, hfinal, hplace, -⟩
    exact hnone place hfinal hplace

theorem readsAlone_tail {before : Bool} {c : Char} {s : Str} (i : Nat) (d : Char) :
    ReadsAlone t before (c :: s) ((t.lowerChar c).length + i) d
      ↔ if t.caseIgnorable c then ReadsAlone t before s i d
        else (t.lowerFrom (t.cased c) s)[i]? = some d := by
  have hsome : 0 < (t.lowerChar c).length := List.length_pos_iff.2 (t.lowerChar_ne_nil c)
  -- the places are those of the rest, one further on
  have hplaces : ∀ place, FinalBefore t before (c :: s) place →
      t.loweredPlace (c :: s) place = (t.lowerChar c).length + i →
        t.caseIgnorable c = true ∧ ∃ later, FinalBefore t before s later
          ∧ t.loweredPlace s later = i := by
    rintro (_ | later) hfinal hplace
    · have hzero : t.loweredPlace (c :: s) 0 = 0 := rfl
      omega
    · rw [loweredPlace_cons, Nat.add_left_cancel_iff] at hplace
      obtain ⟨hc, hlater⟩ := finalBefore_succ.1 hfinal
      exact ⟨hc, later, hlater, hplace⟩
  rw [ReadsAlone, getElem?_lowerFrom_tail]
  split
  · next hc =>
      refine marked_congr ⟨?_, ?_⟩
      · rintro ⟨place, hfinal, hplace⟩
        exact (hplaces place hfinal hplace).2
      · rintro ⟨later, hlater, hat⟩
        exact ⟨later + 1, finalBefore_succ.2 ⟨hc, hlater⟩, by rw [loweredPlace_cons, hat]⟩
  · next hc =>
      have hnone : ∀ place, FinalBefore t before (c :: s) place →
          t.loweredPlace (c :: s) place ≠ (t.lowerChar c).length + i :=
        fun place hfinal hplace => hc (hplaces place hfinal hplace).1
      rw [and_iff_right hnone, or_iff_right]
      rintro ⟨place, hfinal, hplace, -⟩
      exact hnone place hfinal hplace

/-- On its own, a text has no sigma that is final because of what is in front of it. -/
theorem getElem?_lower_iff (before : Bool) (s : Str) (i : Nat) (d : Char) :
    (t.lower s)[i]? = some d ↔ ReadsAlone t before s i d := by
  unfold lower
  induction s generalizing i with
  | nil =>
      constructor
      · intro hread
        exact .inr ⟨fun place hfinal => (not_finalBefore_nil hfinal).elim, hread⟩
      · rintro (⟨place, hfinal, -⟩ | ⟨-, hread⟩)
        · exact (not_finalBefore_nil hfinal).elim
        · exact hread
  | cons c s ih =>
      rcases Nat.lt_or_ge i (t.lowerChar c).length with hlt | hge
      · rw [getElem?_lowerFrom_head hlt, readsAlone_head hlt]
      · obtain ⟨j, rfl⟩ := Nat.exists_eq_add_of_le hge
        rw [getElem?_lowerFrom_tail, readsAlone_tail]
        split
        · exact ih j
        · rfl

/-! ## A text and a cut -/

variable {s : Str} {cut : Nat}

theorem loweredPlace_add_length (s : Str) (cut : Nat) :
    t.loweredPlace s cut + (t.lower (s.drop cut)).length = (t.lower s).length := by
  rw [loweredPlace, ← length_lower_append, List.take_append_drop]

/-- The sigmas that are cut off are those that are final because of what is in front of the cut. -/
theorem exists_cutOff_iff (s : Str) (cut : Nat) : ∃ before,
    (∀ i, (t.lower s)[t.loweredPlace s cut + i]? = (t.lowerFrom before (s.drop cut))[i]?)
      ∧ ∀ place, t.CutOff s cut (cut + place) ↔ FinalBefore t before (s.drop cut) place := by
  obtain ⟨front, before, hsplit, hlength⟩ :=
    exists_lowerFrom_append (t := t) false (s.take cut) (s.drop cut)
  have hfront : front.length = t.loweredPlace s cut := hlength
  rw [List.take_append_drop] at hsplit
  have hread : ∀ i, (t.lower s)[t.loweredPlace s cut + i]?
      = (t.lowerFrom before (s.drop cut))[i]? := by
    intro i
    rw [lower, hsplit, ← hfront, List.getElem?_append_right (Nat.le_add_right _ _),
      Nat.add_sub_cancel_left]
  refine ⟨before, hread, fun place => ⟨fun h => ?_, fun h => ?_⟩⟩
  · obtain ⟨-, hcapital, hfinal, hignorable⟩ := h
    rw [loweredPlace_add, hread] at hfinal
    rw [List.drop_take, Nat.add_sub_cancel_left] at hignorable
    exact ⟨by rwa [List.getElem?_drop], hfinal, hignorable⟩
  · obtain ⟨hcapital, hfinal, hignorable⟩ := h
    refine ⟨Nat.le_add_right _ _, by rwa [List.getElem?_drop] at hcapital, ?_, ?_⟩
    · rwa [loweredPlace_add, hread]
    · rwa [List.drop_take, Nat.add_sub_cancel_left]

theorem reads_iff (s : Str) (cut i : Nat) (d : Char) :
    t.Reads s cut (t.loweredPlace s cut + i) d ↔ (t.lower (s.drop cut))[i]? = some d := by
  obtain ⟨before, hread, hcut⟩ := exists_cutOff_iff (t := t) s cut
  rw [getElem?_lower_iff before, Reads, ReadsAlone, hread]
  refine marked_congr ⟨?_, ?_⟩
  · rintro ⟨place, hoff, hplace⟩
    obtain ⟨later, rfl⟩ := Nat.exists_eq_add_of_le hoff.behind
    rw [loweredPlace_add, Nat.add_left_cancel_iff] at hplace
    exact ⟨later, (hcut later).1 hoff, hplace⟩
  · rintro ⟨later, hlater, hat⟩
    exact ⟨cut + later, (hcut later).2 hlater, by rw [loweredPlace_add, hat]⟩

/-- Behind a cut, a text reads the same on its own, but for the sigmas that are cut off. -/
theorem infix_lower_drop_iff (needle : Str) :
    needle <:+: t.lower (s.drop cut) ↔ t.OccursBehind s cut needle := by
  rw [List.infix_iff_getElem?]
  constructor
  · rintro ⟨start, hlength, hchars⟩
    refine ⟨t.loweredPlace s cut + start, Nat.le_add_right _ _, ?_, fun i d hd => ?_⟩
    · rw [← loweredPlace_add_length s cut]
      omega
    · obtain ⟨hi, rfl⟩ := List.getElem?_eq_some_iff.1 hd
      rw [Nat.add_assoc, reads_iff, Nat.add_comm start]
      exact hchars i hi
  · rintro ⟨start, hstart, hlength, hchars⟩
    obtain ⟨start, rfl⟩ := Nat.exists_eq_add_of_le hstart
    refine ⟨start, ?_, fun i hi => ?_⟩
    · rw [← loweredPlace_add_length s cut] at hlength
      omega
    · rw [Nat.add_comm i, ← reads_iff, ← Nat.add_assoc]
      exact hchars i _ (List.getElem?_eq_getElem hi)

end CaseTable
end Text
