import EvalHarness.Aggregator.State
import EvalHarness.Scoring.Breakdown

set_option autoImplicit false

/-! # Pass rates

The breakdown of a score says what a condition was awarded, and not whether it passed. What is
aggregated over breakdowns counts a positive award as a pass, so a condition that passes with a
weight of zero, or with a penalty for its weight, is counted as failed. -/

namespace EvalHarness

open Text Scoring

/-! ## Positive awards -/

/-- What is aggregated is the share of positive awards. -/
theorem passRate_aggregate (all : List (List (String × ℚ))) (name : String) :
    ((aggregateConditionScores all).get? name).map ConditionStats.passRate
      = if name ∈ all.flatten.map Prod.fst then
          some ((all.flatten.countP (fun e => e.1 = name && 0 < e.2) : ℚ)
            / all.flatten.countP (fun e => e.1 = name))
        else none := by
  have hpassed : Dict.sumAt name ((all.flatten.filter (fun e => 0 < e.2)).map (fun e => (e.1, 1)))
      = all.flatten.countP (fun e => e.1 = name && 0 < e.2) := by
    rw [Dict.sumAt_ones, List.countP_filter]
  rw [aggregateConditionScores, Dict.get?_mapValues, Option.map_map]
  simp only [Dict.getD_tally_empty, hpassed, Dict.sumAt_ones]
  rw [Dict.get?_tally]
  split
  · rfl
  · rfl

namespace RubricScorer

variable (u : UnicodeTables) (seed : HashSeed) (scorer : RubricScorer)

/-- Whether the rubric of a task has a condition. -/
def grades (name : String) (pair : Str × ScoredTask) : Bool :=
  ((scorer.rubric pair.2).map ScoringCondition.name).contains name

/-- The breakdowns of the responses to some tasks. -/
def breakdowns (pairs : List (Str × ScoredTask)) : List (List (String × ℚ)) :=
  pairs.map (fun pair => (scorer.score u seed pair.1 pair.2).2.entries)

/-- Of the pairs whose rubric has a condition, those whose response passes its checker. -/
def fractionPassed (checker : Str → ScoredTask → Bool) (name : String)
    (pairs : List (Str × ScoredTask)) : Option ℚ :=
  let graded := pairs.filter (grades scorer name)
  if graded.isEmpty then none
  else some ((graded.countP (fun pair => checker pair.1 pair.2) : ℚ) / graded.length)

/-- The pairs, once for each condition. -/
def conditionsOf (pairs : List (Str × ScoredTask)) :
    List ((Str × ScoredTask) × ScoringCondition) :=
  pairs.flatMap (fun pair => (scorer.rubric pair.2).map (fun c => (pair, c)))

theorem conditionsOf_cons (pair : Str × ScoredTask) (rest : List (Str × ScoredTask)) :
    conditionsOf scorer (pair :: rest)
      = (scorer.rubric pair.2).map (fun c => (pair, c)) ++ conditionsOf scorer rest :=
  List.flatMap_cons

/-- The names of a rubric are distinct. -/
def Distinct (pair : Str × ScoredTask) : Prop :=
  ((scorer.rubric pair.2).map ScoringCondition.name).Nodup

theorem entries_score {response : Str} {task : ScoredTask} (h : Distinct scorer (response, task)) :
    (scorer.score u seed response task).2.entries
      = (scorer.rubric task).map (fun c => (c.name, award u seed response task c)) := by
  rw [score_snd]
  have hkeys : (((scorer.rubric task).map
      (fun c => (c.name, award u seed response task c))).map Prod.fst).Nodup := by
    rwa [List.map_map, Function.comp_def]
  exact Dict.entries_update_of_nodup Dict.empty hkeys (fun _ _ => List.not_mem_nil)

/-- What is aggregated: the award of every condition. -/
theorem flatten_breakdowns {pairs : List (Str × ScoredTask)}
    (h : ∀ pair ∈ pairs, Distinct scorer pair) :
    (breakdowns u seed scorer pairs).flatten
      = (conditionsOf scorer pairs).map
          (fun graded => (graded.2.name, award u seed graded.1.1 graded.1.2 graded.2)) := by
  induction pairs with
  | nil => rfl
  | cons pair rest ih =>
      have hrest := ih (fun other hother => h other (List.mem_cons_of_mem _ hother))
      rw [breakdowns, List.map_cons, List.flatten_cons, ← breakdowns, hrest,
        entries_score u seed scorer (h pair List.mem_cons_self), conditionsOf_cons,
        List.map_append, List.map_map]
      rfl

/-- Pairs are counted by their conditions, of which at most one has a name. -/
theorem countP_conditionsOf {pairs : List (Str × ScoredTask)}
    (h : ∀ pair ∈ pairs, Distinct scorer pair) (name : String) (p : Str × ScoredTask → Bool) :
    (conditionsOf scorer pairs).countP (fun graded => graded.2.name = name && p graded.1)
      = (pairs.filter (grades scorer name)).countP p := by
  induction pairs with
  | nil => rfl
  | cons pair rest ih =>
      have hrest := ih (fun other hother => h other (List.mem_cons_of_mem _ hother))
      have hone : (scorer.rubric pair.2).countP (fun c => c.name = name)
          = if grades scorer name pair then 1 else 0 := by
        have hcount : ((scorer.rubric pair.2).map ScoringCondition.name).count name
            = if name ∈ (scorer.rubric pair.2).map ScoringCondition.name then 1 else 0 :=
          (h pair List.mem_cons_self).count
        rw [List.count, List.countP_map] at hcount
        simpa [grades, Function.comp_def, Bool.beq_eq_decide_eq] using hcount
      rw [conditionsOf_cons, List.countP_append, List.countP_map, hrest, List.filter_cons]
      by_cases hp : p pair = true
      · by_cases hgrades : grades scorer name pair = true
        · simp [Function.comp_def, hp, hone, hgrades, add_comm]
        · simp [Function.comp_def, hp, hone, hgrades]
      · by_cases hgrades : grades scorer name pair = true
        · simp [Function.comp_def, hp, hgrades]
        · simp [Function.comp_def, hp, hgrades]

/-! ## Passes -/

theorem countP_and_eq_iff {α : Type} (p q : α → Bool) (l : List α) :
    l.countP (fun a => p a && q a) = l.countP p ↔ ∀ a ∈ l, p a = true → q a = true := by
  have hfilter : l.countP (fun a => p a && q a) = (l.filter p).countP q := by
    rw [List.countP_filter]
    exact List.countP_congr (fun a _ => by rw [Bool.and_comm])
  rw [hfilter, List.countP_eq_length_filter (p := p), List.countP_eq_length]
  simp only [List.mem_filter, and_imp]

/-- A condition with a known checker has a positive award if it passes and its weight is
    positive. -/
theorem award_pos_iff {response : Str} {task : ScoredTask} {c : ScoringCondition}
    {checker : Str → ScoredTask → Bool}
    (hchecker : (conditionCheckers u seed).lookup c.name = some checker) :
    0 < award u seed response task c ↔ checker response task = true ∧ 0 < c.weight := by
  rw [award, passes, hchecker, Option.any_some]
  split
  · next hpassed => simp [hpassed]
  · next hfailed => simp [hfailed]

/-- The awards under a name are as many as the pairs whose rubric has it. -/
theorem countP_awards {pairs : List (Str × ScoredTask)}
    (hdistinct : ∀ pair ∈ pairs, Distinct scorer pair) (name : String) :
    (breakdowns u seed scorer pairs).flatten.countP (fun e => e.1 = name)
      = (pairs.filter (grades scorer name)).length := by
  rw [flatten_breakdowns u seed scorer hdistinct, List.countP_map, ← List.countP_true,
    ← countP_conditionsOf scorer hdistinct name (fun _ => true)]
  exact List.countP_congr (fun graded _ => by simp)

/-- The positive awards are as many as the passes if every condition that passes has a positive
    weight, and fewer otherwise. -/
theorem countP_positive_eq_iff {pairs : List (Str × ScoredTask)} {name : String}
    {checker : Str → ScoredTask → Bool}
    (hchecker : (conditionCheckers u seed).lookup name = some checker)
    (hdistinct : ∀ pair ∈ pairs, Distinct scorer pair) :
    (breakdowns u seed scorer pairs).flatten.countP (fun e => e.1 = name && 0 < e.2)
        = (pairs.filter (grades scorer name)).countP (fun pair => checker pair.1 pair.2)
      ↔ ∀ pair ∈ pairs, checker pair.1 pair.2 = true →
          ∀ c ∈ scorer.rubric pair.2, c.name = name → 0 < c.weight := by
  have hpositive : (breakdowns u seed scorer pairs).flatten.countP
        (fun e => e.1 = name && 0 < e.2)
      = (conditionsOf scorer pairs).countP (fun graded =>
          (graded.2.name = name && checker graded.1.1 graded.1.2) && 0 < graded.2.weight) := by
    rw [flatten_breakdowns u seed scorer hdistinct, List.countP_map]
    refine List.countP_congr (fun graded _ => ?_)
    by_cases hname : graded.2.name = name
    · have haward := @award_pos_iff u seed graded.1.1 graded.1.2 graded.2 checker
        (by rw [hname, hchecker])
      simp [hname, haward]
    · simp [hname]
  rw [hpositive,
    ← countP_conditionsOf scorer hdistinct name (fun pair => checker pair.1 pair.2),
    countP_and_eq_iff]
  simp only [conditionsOf, List.mem_flatMap, List.mem_map, Bool.and_eq_true, decide_eq_true_eq]
  constructor
  · intro h pair hpair hpass c hc hname
    exact h (pair, c) ⟨pair, hpair, c, hc, rfl⟩ ⟨hname, hpass⟩
  · rintro h _ ⟨pair, hpair, c, hc, rfl⟩ ⟨hname, hpass⟩
    exact h pair hpair hpass c hc hname

/-- The pass rate of a condition with a known checker is the fraction of the pairs that pass it, of
    those whose rubric has it, if and only if its weight is positive in each pair that passes. -/
theorem passRate_eq_fractionPassed_iff {pairs : List (Str × ScoredTask)} {name : String}
    {checker : Str → ScoredTask → Bool}
    (hchecker : (conditionCheckers u seed).lookup name = some checker)
    (hdistinct : ∀ pair ∈ pairs, Distinct scorer pair) :
    ((aggregateConditionScores (breakdowns u seed scorer pairs)).get? name).map
        ConditionStats.passRate = fractionPassed scorer checker name pairs
      ↔ ∀ pair ∈ pairs, checker pair.1 pair.2 = true →
          ∀ c ∈ scorer.rubric pair.2, c.name = name → 0 < c.weight := by
  have hgraded := countP_awards u seed scorer hdistinct name
  have hmem : name ∈ (breakdowns u seed scorer pairs).flatten.map Prod.fst
      ↔ 0 < (pairs.filter (grades scorer name)).length := by
    rw [← hgraded, List.countP_pos_iff, List.mem_map]
    simp only [decide_eq_true_eq]
  rw [passRate_aggregate, hgraded, fractionPassed,
    ← countP_positive_eq_iff u seed scorer hchecker hdistinct]
  by_cases hnone : pairs.filter (grades scorer name) = []
  · -- no rubric has the condition
    have hle : (breakdowns u seed scorer pairs).flatten.countP (fun e => e.1 = name && 0 < e.2)
        ≤ (breakdowns u seed scorer pairs).flatten.countP (fun e => e.1 = name) :=
      List.countP_mono_left (fun _ _ he => (Bool.and_eq_true_iff.1 he).1)
    have hnot : name ∉ (breakdowns u seed scorer pairs).flatten.map Prod.fst := by
      rw [hmem, hnone]
      exact Nat.lt_irrefl 0
    rw [hgraded, hnone] at hle
    rw [if_neg hnot, if_pos (by rw [hnone]; rfl), hnone, List.countP_nil]
    exact iff_of_true rfl (Nat.eq_zero_of_le_zero hle)
  · have hpos : 0 < (pairs.filter (grades scorer name)).length := List.length_pos_iff.2 hnone
    have hne : ((pairs.filter (grades scorer name)).length : ℚ) ≠ 0 :=
      Nat.cast_ne_zero.2 (Nat.pos_iff_ne_zero.1 hpos)
    rw [if_pos (hmem.2 hpos), if_neg (by simpa using hnone), Option.some_inj, div_left_inj' hne,
      Nat.cast_inj]

/-! ## A penalty -/

/-- A task that is scored by its numbers only, with a penalty for an answer of few words. -/
def penaltyTask : ScoredTask where
  taskId := "t_num"
  prompt := "What is 6 times 7?".toList
  expectedAnswer := some "42".toList
  conditions :=
    [{ name := "no_hallucinated_numbers", weight := 1 }, { name := "is_concise", weight := -1 / 4 }]

theorem passRate_of_numbers :
    ((aggregateConditionScores (breakdowns basicUnicode promptOrder (RubricScorer.init none)
        [("42".toList, penaltyTask)])).get? "no_hallucinated_numbers").map ConditionStats.passRate
      = fractionPassed (RubricScorer.init none) (noHallucinatedNumbers basicUnicode)
          "no_hallucinated_numbers" [("42".toList, penaltyTask)] := by
  refine (passRate_eq_fractionPassed_iff basicUnicode promptOrder (RubricScorer.init none) rfl ?_).2
    ?_
  · intro pair hpair
    rw [List.mem_singleton.1 hpair]
    change ["no_hallucinated_numbers", "is_concise"].Nodup
    decide
  · intro pair hpair _ c hc hname
    rw [List.mem_singleton.1 hpair] at hc
    rcases List.mem_pair.1 hc with rfl | rfl
    · exact one_pos
    · exact absurd hname (by decide)

/-- The response passes, and the pass rate of its penalty is zero. -/
theorem passed_penalty_counted_as_failed :
    isConcise "42".toList penaltyTask = true
      ∧ ((aggregateConditionScores (breakdowns basicUnicode promptOrder (RubricScorer.init none)
          [("42".toList, penaltyTask)])).get? "is_concise").map ConditionStats.passRate = some 0
      ∧ fractionPassed (RubricScorer.init none) isConcise "is_concise"
          [("42".toList, penaltyTask)] = some 1 := by
  decide +kernel

end RubricScorer

end EvalHarness
