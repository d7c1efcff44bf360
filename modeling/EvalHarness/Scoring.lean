import EvalHarness.Lib.Casing
import EvalHarness.Lib.Dict
import EvalHarness.Lib.Largest
import EvalHarness.Types

set_option autoImplicit false

/-! # Scoring a response (`scoring.py`)

The checkers of the rubric and the scorer. Weights and scores are exact; only the place where the
last part of a response starts is computed as the source does, in double precision. -/

namespace EvalHarness

open Text

structure ScoringCondition where
  name : String
  weight : ℚ

/-- A task with what the scorer reads of it. -/
structure ScoredTask extends EvalTask where
  prompt : Str
  expectedAnswer : Option Str := none
  conditions : List ScoringCondition := []

/-- The tables of Unicode that the checkers depend on. Lowercasing makes no white space, and leaves
    none out. -/
structure UnicodeTables extends CaseTable where
  isWord : Char → Bool
  sameIgnoringCase : Char → Char → Bool
  isDigit : Char → Bool
  isDecimal : Char → Bool
  isSpace_lowerChar : ∀ c, ∀ d ∈ lowerChar c, isSpace d = isSpace c

theorem isSpace_of_isAlpha {c : Char} (h : c.isAlpha = true) : isSpace c = false := by
  have hletter : (65 ≤ c.toNat ∧ c.toNat ≤ 90) ∨ (97 ≤ c.toNat ∧ c.toNat ≤ 122) := by
    simp only [Char.isAlpha, Char.isUpper, Char.isLower, Bool.or_eq_true, Bool.and_eq_true,
      decide_eq_true_eq, UInt32.le_iff_toNat_le, ge_iff_le] at h
    exact h
  simp only [isSpace, Bool.or_eq_false_iff, Bool.and_eq_false_iff, decide_eq_false_iff_not]
  omega

theorem isSpace_basicLower (c : Char) : ∀ d ∈ basicLower c, isSpace d = isSpace c := by
  intro d hd
  unfold basicLower at hd
  split at hd
  · next hc =>
      rw [hc]
      rcases List.mem_pair.1 hd with rfl | rfl <;> rfl
  · split at hd
    · next hc =>
        rw [hc, List.mem_singleton.1 hd]
        rfl
    · rw [List.mem_singleton.1 hd]
      by_cases hupper : c.isUpper = true
      · have halpha : c.isAlpha = true := by rw [Char.isAlpha, hupper, Bool.true_or]
        have hlower : c.toLower.isAlpha = true := by
          rw [Char.isAlpha, Char.isLower_toLower_eq_isAlpha, halpha, Bool.or_true]
        rw [isSpace_of_isAlpha halpha, isSpace_of_isAlpha hlower]
      · rw [Char.toLower_eq_of_not_isUpper hupper]

/-- The tables for the characters of ASCII. -/
def basicUnicode : UnicodeTables where
  toCaseTable := basicTable
  isWord := fun c => c.isAlphanum || c = '_'
  sameIgnoringCase := fun c d => c.toLower = d.toLower
  isDigit := Char.isDigit
  isDecimal := Char.isDigit
  isSpace_lowerChar := isSpace_basicLower

/-- The order in which a process iterates over the set of some texts. It depends on the seed of
    its `hash`, which is another one in every process. -/
structure HashSeed where
  order : List Str → List Str
  perm : ∀ texts, (order texts).Perm texts.dedup

namespace Scoring

/-! ## Negation detection -/

def negationWords : List Str :=
  ["not".toList, "never".toList, "no".toList,
   "isn't".toList, "aren't".toList, "wasn't".toList, "weren't".toList,
   "cannot".toList, "can't".toList, "couldn't".toList, "won't".toList,
   "wouldn't".toList, "shouldn't".toList,
   "don't".toList, "doesn't".toList, "didn't".toList,
   "hasn't".toList, "haven't".toList, "hadn't".toList,
   "wrong".toList, "incorrect".toList, "false".toList]

def negationWindow : Nat := 6

/-- The characters of `string.punctuation`. -/
def isPunct (c : Char) : Bool :=
  (33 ≤ c.toNat && c.toNat ≤ 47) || (58 ≤ c.toNat && c.toNat ≤ 64) ||
    (91 ≤ c.toNat && c.toNat ≤ 96) || (123 ≤ c.toNat && c.toNat ≤ 126)

def stopwords : List Str :=
  ["the".toList, "a".toList, "an".toList, "of".toList, "is".toList, "are".toList, "was".toList,
   "were".toList, "in".toList, "on".toList, "at".toList,
   "to".toList, "and".toList, "or".toList, "it".toList, "its".toList, "as".toList, "by".toList,
   "for".toList, "with".toList, "has".toList,
   "have".toList, "had".toList, "be".toList, "been".toList, "this".toList, "that".toList]

/-- `items[-n:]`, for a positive `n`. -/
def lastFew {α : Type} (n : Nat) (items : List α) : List α := items.drop (items.length - n)

section Checkers

variable (u : UnicodeTables)

/-- Whether a word is a negation, without the punctuation around it. -/
def isNegation (word : Str) : Bool := negationWords.contains (stripIf isPunct (u.lower word))

/-- `_is_negated`. -/
def isNegated (response : Str) (matchStart : Nat) : Bool :=
  let before := response.take matchStart
  let precedingWords := lastFew negationWindow (split (strip before))
  precedingWords.any (isNegation u)

/-! ## Condition checkers -/

/-- `contains_answer`. -/
def containsAnswer (response : Str) (task : ScoredTask) : Bool :=
  match task.expectedAnswer with
  | none => false
  | some expected =>
      let needle := u.lower (strip expected)
      let haystack := u.lower response
      match find haystack needle with
      | none => false
      | some idx => !isNegated u response idx

/-- An integer as a double: rounded to 53 bits, ties to even. -/
def roundBits (n : Nat) : Nat :=
  let unit := 2 ^ (n.log2 + 1 - 53)
  let rest := n % unit
  if 2 * rest < unit ∨ (2 * rest = unit ∧ n / unit % 2 = 0) then n / unit * unit
  else (n / unit + 1) * unit

/-- `max(0, int(n * 0.7))`. The double `0.7` is `6305039478318694 / 2 ^ 53`. -/
def cutoffOf (n : Nat) : Nat := roundBits (roundBits n * 6305039478318694) / 2 ^ 53

/-- `answer_at_end`. -/
def answerAtEnd (response : Str) (task : ScoredTask) : Bool :=
  match task.expectedAnswer with
  | none => false
  | some expected =>
      let cutoff := cutoffOf response.length
      let tail := u.lower (response.drop cutoff)
      let needle := u.lower (strip expected)
      match find tail needle with
      | none => false
      | some idx => !isNegated u tail idx

/-- The match of `-?\d+` that has begun, if it is one. -/
def flushNumber (begun : Str) : List Str := if begun = [] ∨ begun = ['-'] then [] else [begun]

/-- The numbers of a text, behind a match that has begun. -/
def numbersFrom : Str → Str → List Str
  | begun, [] => flushNumber begun
  | begun, c :: rest =>
      if u.isDecimal c then numbersFrom (begun ++ [c]) rest
      else flushNumber begun ++ numbersFrom (if c = '-' then ['-'] else []) rest

/-- `str.isdigit`. -/
def allDigits (s : Str) : Bool := !s.isEmpty && s.all u.isDigit

/-- `no_hallucinated_numbers`. -/
def noHallucinatedNumbers (response : Str) (task : ScoredTask) : Bool :=
  match task.expectedAnswer with
  | none => true
  | some expected =>
      let expected := strip expected
      if !allDigits u (expected.dropWhile (fun c => c = '-')) then true
      else (numbersFrom u [] response).all (fun number => number = expected)

/-- `is_concise`. -/
def isConcise (response : Str) (_ : ScoredTask) : Bool := (split response).length < 150

/-- `\b` at a place of a text. -/
def isBoundary (s : Str) (i : Nat) : Bool :=
  (if i = 0 then false else (s[i - 1]?).any u.isWord) != (s[i]?).any u.isWord

/-- Whether a text starts with a word, letters of either case. -/
def startsWord : Str → Str → Bool
  | [], _ => true
  | _ :: _, [] => false
  | d :: word, c :: rest => u.sameIgnoringCase d c && startsWord word rest

/-- `re.search(rf"\b\x7bre.escape(w)\x7d\b", response, re.IGNORECASE)`. -/
def searchWord (response word : Str) : Bool :=
  (List.range (response.length + 1)).any (fun i => isBoundary u response i
    && startsWord u word (response.drop i) && isBoundary u response (i + word.length))

/-- The words of a prompt that are looked for. -/
def contentWords (prompt : Str) : List Str :=
  let words := (split prompt).map (fun w => u.lower (stripIf isPunct w))
  let content := words.filter (fun w => 3 ≤ w.length && !stopwords.contains w)
  -- a prompt of nothing but stopwords: its words as they are
  if content.isEmpty then words.filter (fun w => !w.isEmpty) else content

/-- How many of them. -/
def keywordCount : Nat := 5

/-- `mentions_topic`. -/
def mentionsTopic (seed : HashSeed) (response : Str) (task : ScoredTask) : Bool :=
  let keywords := Largest.top List.length keywordCount (seed.order (contentWords u task.prompt))
  keywords.any (searchWord u response)

/-- `_CONDITION_CHECKERS`. -/
def conditionCheckers (seed : HashSeed) : List (String × (Str → ScoredTask → Bool)) :=
  [("contains_answer", containsAnswer u),
   ("answer_at_end", answerAtEnd u),
   ("no_hallucinated_numbers", noHallucinatedNumbers u),
   ("is_concise", isConcise),
   ("mentions_topic", mentionsTopic u seed)]

end Checkers

/-! ## Scorer -/

/-- `DEFAULT_CONDITIONS`. -/
def defaultConditions : List ScoringCondition :=
  [{ name := "contains_answer", weight := 1 / 2 },
   { name := "answer_at_end", weight := 1 / 5 },
   { name := "is_concise", weight := 1 / 5 },
   { name := "mentions_topic", weight := 1 / 10 }]

end Scoring

/-- `RubricScorer`. -/
structure RubricScorer where
  defaults : List ScoringCondition

namespace RubricScorer

open Scoring

/-- `__init__`. -/
def init (defaults : Option (List ScoringCondition)) : RubricScorer where
  defaults := match defaults with
    | none | some [] => defaultConditions
    | some conditions => conditions

variable (u : UnicodeTables) (seed : HashSeed)

/-- What a condition adds to the total and to the breakdown. -/
def scoreCondition (response : Str) (task : ScoredTask) (acc : ℚ × Dict String ℚ)
    (condition : ScoringCondition) : ℚ × Dict String ℚ :=
  match (conditionCheckers u seed).lookup condition.name with
  | none => (acc.1, acc.2.set condition.name 0)
  | some checker =>
      let passed := checker response task
      let awarded := if passed then condition.weight else 0
      (acc.1 + awarded, acc.2.set condition.name awarded)

/-- `score`. -/
def score (scorer : RubricScorer) (response : Str) (task : ScoredTask) : ℚ × Dict String ℚ :=
  let conditions := if task.conditions.isEmpty then scorer.defaults else task.conditions
  let scored := conditions.foldl (scoreCondition u seed response task) (0, Dict.empty)
  (min 1 (max 0 scored.1), scored.2)

end RubricScorer

end EvalHarness
