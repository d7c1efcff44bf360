import Mathlib

set_option autoImplicit false

/-! # Python text

Strings as lists of characters, with the methods of `str` that do not depend on the tables of
Unicode: what counts as white space, `strip`, `split`, `find` and the lines of a file read in text
mode. -/

namespace Text

/-- A `str`. -/
abbrev Str := List Char

/-- `str.isspace` of one character. -/
def isSpace (c : Char) : Bool :=
  (9 ≤ c.toNat && c.toNat ≤ 13) || (28 ≤ c.toNat && c.toNat ≤ 32) || c.toNat = 0x85 ||
    c.toNat = 0xA0 || c.toNat = 0x1680 || (0x2000 ≤ c.toNat && c.toNat ≤ 0x200A) ||
    c.toNat = 0x2028 || c.toNat = 0x2029 || c.toNat = 0x202F || c.toNat = 0x205F ||
    c.toNat = 0x3000

/-! ## `strip` -/

/-- `strip`, of the characters that satisfy a predicate. -/
def stripIf (p : Char → Bool) (s : Str) : Str := (s.dropWhile p).rdropWhile p

/-- `str.strip()`. -/
def strip (s : Str) : Str := stripIf isSpace s

/-- Text that neither starts nor ends with one of the characters is left alone. -/
theorem stripIf_eq_self {p : Char → Bool} {s : Str} (hhead : ∀ c ∈ s.head?, p c = false)
    (hlast : ∀ c ∈ s.getLast?, p c = false) : stripIf p s = s := by
  have hleft : s.dropWhile p = s := by
    cases s with
    | nil => rfl
    | cons c s => exact List.dropWhile_cons_of_neg (by simp [hhead c rfl])
  have hright : s.rdropWhile p = s := by
    rw [List.rdropWhile_eq_self_iff]
    intro hne
    have hc := hlast (s.getLast hne) (List.getLast?_eq_some_getLast hne)
    simp [hc]
  rw [stripIf, hleft, hright]

/-- Only the given characters are stripped. -/
theorem mem_stripIf {p : Char → Bool} {s : Str} {c : Char} (hc : c ∈ s) (hp : p c = false) :
    c ∈ stripIf p s := by
  have hleft : ∀ l : Str, c ∈ l → c ∈ l.dropWhile p := by
    intro l hl
    rw [← List.takeWhile_append_dropWhile (p := p) (l := l)] at hl
    rcases List.mem_append.1 hl with htaken | hrest
    · rw [List.mem_takeWhile_imp htaken] at hp
      cases hp
    · exact hrest
  have hright := hleft (s.dropWhile p).reverse (List.mem_reverse.2 (hleft s hc))
  exact List.mem_reverse.2 hright

/-! ## `split` -/

/-- A word, if there is one. -/
def flush (word : Str) : List Str := if word = [] then [] else [word]

/-- The words of a text behind the given part of a word. -/
def splitFrom : Str → Str → List Str
  | word, [] => flush word
  | word, c :: rest =>
      if isSpace c then flush word ++ splitFrom [] rest else splitFrom (word ++ [c]) rest

/-- `str.split()`. -/
def split (s : Str) : List Str := splitFrom [] s

@[simp] theorem flush_nil : flush [] = [] := rfl

theorem flush_of_ne {word : Str} (h : word ≠ []) : flush word = [word] := if_neg h

theorem splitFrom_spaces {spaces : Str} (h : ∀ c ∈ spaces, isSpace c) (word s : Str) :
    splitFrom word (s ++ spaces) = splitFrom word s := by
  induction s generalizing word with
  | nil =>
      induction spaces generalizing word with
      | nil => rfl
      | cons c spaces ih =>
          have hrest : splitFrom [] spaces = [] :=
            ih (fun d hd => h d (List.mem_cons_of_mem _ hd)) []
          have hcons : splitFrom word (c :: spaces) = flush word ++ splitFrom [] spaces :=
            if_pos (h c List.mem_cons_self)
          rw [List.nil_append, hcons, hrest, List.append_nil, splitFrom]
  | cons c s ih =>
      rw [List.cons_append, splitFrom, splitFrom, ih, ih]

/-- White space around a text is no part of its words. -/
theorem split_strip (s : Str) : split (strip s) = split s := by
  have hleft : split (s.dropWhile isSpace) = split s := by
    induction s with
    | nil => rfl
    | cons c s ih =>
        by_cases hc : isSpace c
        · rw [List.dropWhile_cons_of_pos hc, ih, split, split, splitFrom, if_pos hc, flush_nil,
            List.nil_append]
        · rw [List.dropWhile_cons_of_neg hc]
  have hspaces : ∀ c ∈ (s.dropWhile isSpace).rtakeWhile isSpace, isSpace c :=
    fun c hc => List.mem_rtakeWhile_imp hc
  have hright := splitFrom_spaces hspaces [] ((s.dropWhile isSpace).rdropWhile isSpace)
  rw [List.rdropWhile_append_rtakeWhile] at hright
  exact hright.symm.trans hleft

/-- Of a word that has begun, only its own end depends on how it began. -/
theorem drop_splitFrom {word word' : Str} (h : word ≠ []) (h' : word' ≠ []) (s : Str) :
    (splitFrom word s).drop 1 = (splitFrom word' s).drop 1 := by
  induction s generalizing word word' with
  | nil => rw [splitFrom, splitFrom, flush_of_ne h, flush_of_ne h']; rfl
  | cons c s ih =>
      rw [splitFrom, splitFrom]
      split
      · rw [flush_of_ne h, flush_of_ne h']
        rfl
      · exact ih (by simp) (by simp)

theorem drop_splitFrom_suffix {word : Str} (h : word ≠ []) (s : Str) :
    (splitFrom word s).drop 1 <:+ splitFrom [] s := by
  cases s with
  | nil => rw [splitFrom, flush_of_ne h]; exact List.nil_suffix
  | cons c s =>
      rw [splitFrom, splitFrom]
      split
      · rw [flush_of_ne h]
        exact List.suffix_refl _
      · rw [drop_splitFrom (List.append_ne_nil_of_right_ne_nil word (List.cons_ne_nil c []))
          (List.append_ne_nil_of_right_ne_nil [] (List.cons_ne_nil c []))]
        exact List.drop_suffix 1 _

/-- The words behind those of a first part are words of the second part, the last ones of them. -/
theorem drop_split_append (s more : Str) :
    (split (s ++ more)).drop (split s).length <:+ split more := by
  have hfrom : ∀ word, (splitFrom word (s ++ more)).drop (splitFrom word s).length
      <:+ splitFrom [] more := by
    induction s with
    | nil =>
        intro word
        rw [List.nil_append, splitFrom]
        by_cases hword : word = []
        · rw [hword, flush_nil, List.length_nil, List.drop_zero]
        · rw [flush_of_ne hword, List.length_singleton]
          exact drop_splitFrom_suffix hword more
    | cons c s ih =>
        intro word
        rw [List.cons_append, splitFrom, splitFrom]
        split
        · rw [List.length_append, List.drop_length_add_append]
          exact ih []
        · exact ih _
  exact hfrom []

/-- A white space ends a word. -/
theorem split_append_space (s : Str) {c : Char} (hc : isSpace c = true) (more : Str) :
    split (s ++ c :: more) = split s ++ split more := by
  have hfrom : ∀ word, splitFrom word (s ++ c :: more) = splitFrom word s ++ splitFrom [] more := by
    induction s with
    | nil => exact fun word => if_pos hc
    | cons d s ih =>
        intro word
        rw [List.cons_append, splitFrom, splitFrom, ih, ih]
        split
        · rw [List.append_assoc]
        · rfl
  exact hfrom []

/-- What is not white space, as a predicate. -/
abbrev notSpace (c : Char) : Bool := !isSpace c

/-- Only the part of a word at the end of a text goes on in the text behind it. -/
theorem split_append (s more : Str) :
    split (s ++ more) = split (s.rdropWhile notSpace) ++ split (s.rtakeWhile notSpace ++ more) := by
  conv_lhs => rw [← List.rdropWhile_append_rtakeWhile (p := notSpace) (l := s), List.append_assoc]
  rcases List.eq_nil_or_concat (s.rdropWhile notSpace) with hnil | ⟨front, c, hconcat⟩
  · rw [hnil]
    rfl
  · have hne : s.rdropWhile notSpace ≠ [] := by simp [hconcat]
    have hlast := List.rdropWhile_last_not notSpace s hne
    have hc : isSpace c = true := by simpa [hconcat] using hlast
    have hnone : split (front ++ [c]) = split front := by
      rw [split_append_space front hc]
      exact List.append_nil _
    rw [hconcat, List.concat_eq_append, List.append_assoc, List.singleton_append,
      split_append_space front hc, hnone]

theorem splitFrom_of_notSpace {s : Str} (h : ∀ c ∈ s, notSpace c = true) (word : Str) :
    splitFrom word s = flush (word ++ s) := by
  induction s generalizing word with
  | nil => rw [splitFrom, List.append_nil]
  | cons c s ih =>
      have hc : ¬ isSpace c = true := by simpa using h c List.mem_cons_self
      rw [splitFrom, if_neg hc, ih (fun d hd => h d (List.mem_cons_of_mem _ hd)), List.append_assoc]
      rfl

/-- Text without white space is one word at most. -/
theorem length_split_le_one {s : Str} (h : ∀ c ∈ s, notSpace c = true) : (split s).length ≤ 1 := by
  rw [split, splitFrom_of_notSpace h, flush]
  split
  · exact Nat.zero_le _
  · exact le_rfl

theorem splitFrom_ne_nil {word : Str} (h : word ≠ []) (s : Str) : splitFrom word s ≠ [] := by
  induction s generalizing word with
  | nil =>
      rw [splitFrom, flush_of_ne h]
      exact List.cons_ne_nil _ _
  | cons c s ih =>
      rw [splitFrom]
      split
      · rw [flush_of_ne h]
        exact List.cons_ne_nil _ _
      · exact ih (List.append_ne_nil_of_left_ne_nil h _)

/-- A text has no more words than one that goes on behind it. -/
theorem length_split_le (s more : Str) : (split s).length ≤ (split (s ++ more)).length := by
  have hfrom : ∀ word, (splitFrom word s).length ≤ (splitFrom word (s ++ more)).length := by
    induction s with
    | nil =>
        intro word
        rw [List.nil_append, splitFrom, flush]
        split
        · exact Nat.zero_le _
        · next h => exact List.length_pos_iff.2 (splitFrom_ne_nil h more)
    | cons c s ih =>
        intro word
        rw [List.cons_append, splitFrom, splitFrom]
        split
        · rw [List.length_append, List.length_append]
          exact Nat.add_le_add_left (ih []) _
        · exact ih _
  exact hfrom []

/-- Texts that correspond character by character, white space to white space, have words that
    correspond. -/
theorem forall₂_split {r : Char → Char → Prop} (hr : ∀ c d, r c d → isSpace d = isSpace c)
    {s s' : Str} (h : List.Forall₂ r s s') :
    List.Forall₂ (List.Forall₂ r) (split s) (split s') := by
  have hflush : ∀ {word word' : Str}, List.Forall₂ r word word' →
      List.Forall₂ (List.Forall₂ r) (flush word) (flush word') := by
    intro word word' hword
    cases hword with
    | nil => exact .nil
    | cons hc hrest => exact .cons (.cons hc hrest) .nil
  have hfrom : ∀ word word', List.Forall₂ r word word' →
      List.Forall₂ (List.Forall₂ r) (splitFrom word s) (splitFrom word' s') := by
    induction h with
    | nil => exact fun _ _ hword => hflush hword
    | cons hc _ ih =>
        intro word word' hword
        rw [splitFrom, splitFrom, hr _ _ hc]
        split
        · exact List.rel_append (hflush hword) (ih [] [] .nil)
        · exact ih _ _ (List.rel_append hword (.cons hc .nil))
  exact hfrom [] [] .nil

/-! ## `find` -/

/-- `str.find`: the first place where a text is found, or nothing for `-1`. -/
def find (s needle : Str) : Option Nat :=
  (List.range (s.length + 1)).find? (fun i => needle <+: s.drop i)

theorem find_eq_some_iff {s needle : Str} {i : Nat} :
    find s needle = some i
      ↔ i ≤ s.length ∧ needle <+: s.drop i ∧ ∀ j < i, ¬ needle <+: s.drop j := by
  rw [find, List.find?_range_eq_some]
  simp only [decide_eq_true_eq, List.mem_range, Nat.lt_succ_iff, Bool.not_eq_true',
    decide_eq_false_iff_not]
  exact and_left_comm

/-- What is found is inside the text. -/
theorem lt_of_find {s needle : Str} {i : Nat} (h : find s needle = some i) (hneedle : needle ≠ []) :
    i < s.length := by
  have hle := (find_eq_some_iff.1 h).2.1.length_le
  have hpos := List.length_pos_iff.2 hneedle
  rw [List.length_drop] at hle
  omega

/-! ## Lines -/

/-- What text mode makes of the line ends: each is a line feed. -/
def universalNewlines : Str → Str
  | [] => []
  | '\r' :: '\n' :: rest => '\n' :: universalNewlines rest
  | '\r' :: rest => '\n' :: universalNewlines rest
  | c :: rest => c :: universalNewlines rest

/-- The lines of a text, without their line feeds. -/
def splitLines : Str → List Str
  | [] => []
  | c :: rest =>
      if c = '\n' then [] :: splitLines rest
      else
        match splitLines rest with
        | [] => [[c]]
        | line :: lines => (c :: line) :: lines

/-- The lines a text file is iterated over, without their line ends. -/
def fileLines (s : Str) : List Str := splitLines (universalNewlines s)

theorem universalNewlines_eq_self {s : Str} (h : '\r' ∉ s) : universalNewlines s = s := by
  induction s with
  | nil => rfl
  | cons c s ih =>
      rw [List.mem_cons, not_or] at h
      have hc : c ≠ '\r' := fun heq => h.1 heq.symm
      rw [universalNewlines.eq_4 _ _ (fun _ hr => absurd hr hc) (fun hr => absurd hr hc), ih h.2]

theorem splitLines_append {line : Str} (h : '\n' ∉ line) (rest : Str) :
    splitLines (line ++ '\n' :: rest) = line :: splitLines rest := by
  induction line with
  | nil => rfl
  | cons c line ih =>
      rw [List.mem_cons, not_or] at h
      have hc : c ≠ '\n' := fun heq => h.1 heq.symm
      rw [List.cons_append, splitLines, if_neg hc, ih h.2]

/-- A file that is written line by line is read line by line. -/
theorem fileLines_flatMap {lines : List Str} (h : ∀ line ∈ lines, '\n' ∉ line ∧ '\r' ∉ line) :
    fileLines (lines.flatMap (fun line => line ++ ['\n'])) = lines := by
  have hreturn : '\r' ∉ lines.flatMap (fun line => line ++ ['\n']) := by
    intro hmem
    obtain ⟨line, hline, hin⟩ := List.mem_flatMap.1 hmem
    rcases List.mem_append.1 hin with hin | hin
    · exact (h line hline).2 hin
    · exact absurd (List.mem_singleton.1 hin) (by decide)
  rw [fileLines, universalNewlines_eq_self hreturn]
  clear hreturn
  induction lines with
  | nil => rfl
  | cons line lines ih =>
      have hrest := ih (fun other hother => h other (List.mem_cons_of_mem _ hother))
      rw [List.flatMap_cons, List.append_assoc]
      exact (splitLines_append (h line List.mem_cons_self).1 _).trans (congrArg _ hrest)

end Text
