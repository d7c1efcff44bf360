import EvalHarness.Lib.Text

set_option autoImplicit false

/-! # `str.lower`

Lowercasing works character by character, with tables of Unicode that are parameters here. One
character depends on what is around it: a capital sigma at the end of a word becomes a final one. -/

namespace Text

/-- The tables, with what is known of them: every character has a lowercase form, of one character
    or several, and nothing becomes of it when it is lowercased again. -/
structure CaseTable where
  lowerChar : Char → Str
  cased : Char → Bool
  caseIgnorable : Char → Bool
  lowerChar_ne_nil : ∀ c, lowerChar c ≠ []
  lowered : ∀ c, ∀ d ∈ lowerChar c, lowerChar d = [d] ∧ d ≠ 'Σ'
  lowerChar_capitalSigma : lowerChar 'Σ' = ['σ']
  lowerChar_finalSigma : lowerChar 'ς' = ['ς']

namespace CaseTable

variable (t : CaseTable)

/-- Whether a cased character follows, behind case-ignorable ones. -/
def casedAhead (rest : Str) : Bool := (rest.dropWhile t.caseIgnorable).head?.any t.cased

/-- A character becomes its lowercase form. `before` says whether a cased character precedes it, in
    front of case-ignorable ones: with one there and none behind it, a capital sigma is final. -/
def lowerAt (before : Bool) (c : Char) (rest : Str) : Str :=
  if c = 'Σ' then (if before && !t.casedAhead rest then ['ς'] else ['σ']) else t.lowerChar c

def lowerFrom : Bool → Str → Str
  | _, [] => []
  | before, c :: rest =>
      t.lowerAt before c rest ++ lowerFrom (if t.caseIgnorable c then before else t.cased c) rest

/-- `str.lower()`. -/
def lower (s : Str) : Str := t.lowerFrom false s

@[simp] theorem lower_nil : t.lower [] = [] := rfl

/-! ## Lengths -/

theorem length_lowerAt (before : Bool) (c : Char) (rest : Str) :
    (t.lowerAt before c rest).length = (t.lowerChar c).length := by
  unfold lowerAt
  split
  · next hc =>
      rw [hc, lowerChar_capitalSigma]
      split <;> rfl
  · rfl

theorem length_lowerFrom (before : Bool) (s : Str) :
    (t.lowerFrom before s).length = (s.map (fun c => (t.lowerChar c).length)).sum := by
  induction s generalizing before with
  | nil => rfl
  | cons c s ih =>
      rw [lowerFrom, List.length_append, length_lowerAt, ih, List.map_cons, List.sum_cons]

theorem length_lower_append (s more : Str) :
    (t.lower (s ++ more)).length = (t.lower s).length + (t.lower more).length := by
  simp only [lower, length_lowerFrom, List.map_append, List.sum_append]

/-- Lowercasing does not shorten a text. -/
theorem length_le_lower (s : Str) : s.length ≤ (t.lower s).length := by
  rw [lower, length_lowerFrom]
  induction s with
  | nil => exact le_rfl
  | cons c s ih =>
      have hpos : 0 < (t.lowerChar c).length := List.length_pos_iff.2 (t.lowerChar_ne_nil c)
      rw [List.map_cons, List.sum_cons, List.length_cons]
      omega

/-! ## Places -/

/-- Where that starts, in the lowercase text, what the character at a place becomes. -/
def loweredPlace (s : Str) (place : Nat) : Nat := (t.lower (s.take place)).length

theorem loweredPlace_cons (c : Char) (s : Str) (place : Nat) :
    t.loweredPlace (c :: s) (place + 1) = (t.lowerChar c).length + t.loweredPlace s place := by
  simp only [loweredPlace, List.take_succ_cons, lower, length_lowerFrom, List.map_cons,
    List.sum_cons]

theorem loweredPlace_succ {s : Str} {place : Nat} {c : Char} (h : s[place]? = some c) :
    t.loweredPlace s (place + 1) = t.loweredPlace s place + (t.lowerChar c).length := by
  have htake : s.take (place + 1) = s.take place ++ [c] := by
    rw [List.take_add_one, h]
    rfl
  rw [loweredPlace, htake, length_lower_append, ← loweredPlace]
  simp [lower, length_lowerFrom]

theorem loweredPlace_le {s : Str} {place place' : Nat} (h : place ≤ place') :
    t.loweredPlace s place ≤ t.loweredPlace s place' := by
  have hsplit : s.take place' = s.take place ++ (s.drop place).take (place' - place) := by
    rw [← List.take_add, Nat.add_sub_cancel' h]
  rw [loweredPlace, loweredPlace, hsplit, length_lower_append]
  exact Nat.le_add_right _ _

/-- Every place of the lowercase text is in what some character has become. -/
theorem exists_place {s : Str} {idx : Nat} (h : idx < (t.lower s).length) :
    ∃ place offset c, s[place]? = some c ∧ offset < (t.lowerChar c).length
      ∧ t.loweredPlace s place + offset = idx := by
  rw [lower, length_lowerFrom] at h
  induction s generalizing idx with
  | nil => exact absurd h (Nat.not_lt_zero idx)
  | cons c s ih =>
      rw [List.map_cons, List.sum_cons] at h
      by_cases hfirst : idx < (t.lowerChar c).length
      · exact ⟨0, idx, c, rfl, hfirst, Nat.zero_add idx⟩
      · have hrest : idx - (t.lowerChar c).length
            < (s.map (fun d => (t.lowerChar d).length)).sum := by
          omega
        obtain ⟨place, offset, d, hd, hoffset, hidx⟩ := ih hrest
        refine ⟨place + 1, offset, d, hd, hoffset, ?_⟩
        rw [loweredPlace_cons]
        omega

/-! ## Lowercase text -/

/-- Text that lowercasing leaves alone, character by character. -/
def Lowered (s : Str) : Prop := ∀ c ∈ s, t.lowerChar c = [c] ∧ c ≠ 'Σ'

variable {t}

theorem Lowered.lowerFrom_eq {s : Str} (h : t.Lowered s) (before : Bool) :
    t.lowerFrom before s = s := by
  induction s generalizing before with
  | nil => rfl
  | cons c s ih =>
      obtain ⟨hc, hsigma⟩ := h c List.mem_cons_self
      rw [lowerFrom, lowerAt, if_neg hsigma, hc, ih (fun d hd => h d (List.mem_cons_of_mem _ hd))]
      rfl

theorem Lowered.lower_eq {s : Str} (h : t.Lowered s) : t.lower s = s := h.lowerFrom_eq false

theorem Lowered.part {s part : Str} (h : t.Lowered s) (hpart : part <:+: s) : t.Lowered part :=
  fun c hc => h c (hpart.subset hc)

theorem lowered_lowerAt (before : Bool) (c : Char) (rest : Str) :
    t.Lowered (t.lowerAt before c rest) := by
  unfold lowerAt
  split
  · split
    · intro d hd
      rw [List.mem_singleton.1 hd]
      exact ⟨t.lowerChar_finalSigma, by decide⟩
    · intro d hd
      refine t.lowered 'Σ' d ?_
      rwa [t.lowerChar_capitalSigma]
  · exact t.lowered c

/-- What has been lowercased is lowercase. -/
theorem lowered_lower (s : Str) : t.Lowered (t.lower s) := by
  have hfrom : ∀ before, t.Lowered (t.lowerFrom before s) := by
    induction s with
    | nil => exact fun _ _ hc => absurd hc List.not_mem_nil
    | cons c s ih =>
        intro before d hd
        rcases List.mem_append.1 hd with hd | hd
        · exact lowered_lowerAt before c s d hd
        · exact ih _ d hd
  exact hfrom false

/-! ## Text without a capital sigma -/

theorem lowerFrom_eq_flatMap {s : Str} (h : 'Σ' ∉ s) (before : Bool) :
    t.lowerFrom before s = s.flatMap t.lowerChar := by
  induction s generalizing before with
  | nil => rfl
  | cons c s ih =>
      rw [List.mem_cons, not_or] at h
      have hc : c ≠ 'Σ' := fun heq => h.1 heq.symm
      rw [lowerFrom, lowerAt, if_neg hc, ih h.2, List.flatMap_cons]

/-- Without a capital sigma, parts of a text are lowercased on their own. -/
theorem lower_append {s more : Str} (h : 'Σ' ∉ s ++ more) :
    t.lower (s ++ more) = t.lower s ++ t.lower more := by
  have hparts : 'Σ' ∉ s ∧ 'Σ' ∉ more := by simpa using h
  rw [lower, lowerFrom_eq_flatMap h, lower, lowerFrom_eq_flatMap hparts.1, lower,
    lowerFrom_eq_flatMap hparts.2, List.flatMap_append]

/-! ## Text of characters that become one character each -/

/-- What a character may become. -/
def BecomesOne (t : CaseTable) (c d : Char) : Prop :=
  if c = 'Σ' then d = 'σ' ∨ d = 'ς' else t.lowerChar c = [d]

theorem forall₂_lower {s : Str} (h : ∀ c ∈ s, (t.lowerChar c).length = 1) :
    List.Forall₂ t.BecomesOne s (t.lower s) := by
  have hfrom : ∀ before, List.Forall₂ t.BecomesOne s (t.lowerFrom before s) := by
    induction s with
    | nil => exact fun _ => .nil
    | cons c s ih =>
        intro before
        obtain ⟨d, hd⟩ := List.length_eq_one_iff.1 (h c List.mem_cons_self)
        have hrest := ih (fun e he => h e (List.mem_cons_of_mem _ he))
        rw [lowerFrom, lowerAt]
        split
        · next hc =>
            split
            · exact .cons (by simp [BecomesOne, hc]) (hrest _)
            · exact .cons (by simp [BecomesOne, hc]) (hrest _)
        · next hc =>
            rw [hd]
            exact .cons (by simp [BecomesOne, hc, hd]) (hrest _)
  exact hfrom false

theorem BecomesOne.lowered {c d : Char} (h : t.BecomesOne c d) :
    t.lowerChar d = [d] ∧ d ≠ 'Σ' := by
  unfold BecomesOne at h
  split at h
  · rcases h with rfl | rfl
    · exact t.lowered 'Σ' 'σ' (by rw [t.lowerChar_capitalSigma]; exact List.mem_singleton_self _)
    · exact ⟨t.lowerChar_finalSigma, by decide⟩
  · exact t.lowered c d (by rw [h]; exact List.mem_singleton_self _)

theorem length_of_forall₂ {s s' : Str} (h : List.Forall₂ t.BecomesOne s s') :
    ∀ c ∈ s, (t.lowerChar c).length = 1 := by
  induction h with
  | nil => exact fun c hc => absurd hc List.not_mem_nil
  | cons hc _ ih =>
      rename_i c d _ _
      intro e he
      rcases List.mem_cons.1 he with rfl | hrest
      · unfold BecomesOne at hc
        split at hc
        · next heq =>
            rw [heq, t.lowerChar_capitalSigma]
            rfl
        · rw [hc]
          rfl
      · exact ih e hrest

/-- What a text becomes, in whatever surroundings, is lowercase. -/
theorem lowered_of_forall₂ {s s' : Str} (h : List.Forall₂ t.BecomesOne s s') : t.Lowered s' := by
  induction h with
  | nil => exact fun d hd => absurd hd List.not_mem_nil
  | cons hc _ ih =>
      intro d hd
      rcases List.mem_cons.1 hd with rfl | hrest
      · exact hc.lowered
      · exact ih d hrest

/-- Surroundings do not matter to a text without a capital sigma. -/
theorem lower_eq_of_forall₂ {s s' : Str} (h : List.Forall₂ t.BecomesOne s s') (hs : 'Σ' ∉ s) :
    t.lower s = s' := by
  rw [lower, lowerFrom_eq_flatMap hs]
  induction h with
  | nil => rfl
  | cons hc _ ih =>
      rw [List.mem_cons, not_or] at hs
      rw [BecomesOne, if_neg (fun heq => hs.1 heq.symm)] at hc
      rw [List.flatMap_cons, hc, ih hs.2]
      rfl

/-- A capital sigma becomes one of the small ones. -/
theorem sigma_mem_of_forall₂ {s s' : Str} (h : List.Forall₂ t.BecomesOne s s') (hs : 'Σ' ∈ s) :
    'σ' ∈ s' ∨ 'ς' ∈ s' := by
  induction h with
  | nil => cases hs
  | cons hc _ ih =>
      rcases List.mem_cons.1 hs with heq | hrest
      · rw [BecomesOne, if_pos heq.symm] at hc
        rcases hc with rfl | rfl
        · exact .inl List.mem_cons_self
        · exact .inr List.mem_cons_self
      · exact (ih hrest).imp (List.mem_cons_of_mem _) (List.mem_cons_of_mem _)

end CaseTable

/-- The tables for the characters of ASCII, a capital sigma and the dotted capital i, which is the
    one character with a lowercase form of several. -/
def basicLower (c : Char) : Str :=
  if c = 'İ' then ['i', '\u0307'] else if c = 'Σ' then ['σ'] else [c.toLower]

theorem length_basicLower {c : Char} (h : c ≠ 'İ') : (basicLower c).length = 1 := by
  rw [basicLower, if_neg h]
  split <;> rfl

theorem basicLower_toLower (c : Char) (hdotted : c ≠ 'İ') (hsigma : c ≠ 'Σ') :
    basicLower c.toLower = [c.toLower] ∧ c.toLower ≠ 'Σ' := by
  have hother : c.toLower ≠ 'İ' ∧ c.toLower ≠ 'Σ' := by
    by_cases hupper : c.isUpper
    · -- a capital letter has a letter for its lowercase form
      have hlower : c.toLower.isLower = true := by
        rw [Char.isLower_toLower_eq_isAlpha, Char.isAlpha, hupper, Bool.true_or]
      constructor
      · intro heq
        rw [heq] at hlower
        exact absurd hlower (by decide)
      · intro heq
        rw [heq] at hlower
        exact absurd hlower (by decide)
    · rw [Char.toLower_eq_of_not_isUpper hupper]
      exact ⟨hdotted, hsigma⟩
  rw [basicLower, if_neg hother.1, if_neg hother.2, Char.toLower_toLower_eq_toLower]
  exact ⟨rfl, hother.2⟩

def basicTable : CaseTable where
  lowerChar := basicLower
  cased := Char.isAlpha
  caseIgnorable := fun c => [0x27, 0x2E, 0x3A, 0x5E, 0x60, 0xAD, 0x0307].contains c.toNat
  lowerChar_ne_nil := by
    intro c
    unfold basicLower
    split
    · exact List.cons_ne_nil _ _
    · split <;> exact List.cons_ne_nil _ _
  lowered := by
    intro c d hd
    unfold basicLower at hd
    split at hd
    · rcases List.mem_pair.1 hd with rfl | rfl
      · exact ⟨rfl, by decide⟩
      · exact ⟨rfl, by decide⟩
    · next hdotted =>
        split at hd
        · rw [List.mem_singleton.1 hd]
          exact ⟨rfl, by decide⟩
        · next hsigma =>
            rw [List.mem_singleton.1 hd]
            exact basicLower_toLower c hdotted hsigma
  lowerChar_capitalSigma := rfl
  lowerChar_finalSigma := rfl

end Text
