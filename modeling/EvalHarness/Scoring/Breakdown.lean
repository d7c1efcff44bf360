import EvalHarness.Scoring.Topic

set_option autoImplicit false

/-! # The breakdown of a score

Every condition of a rubric adds its award to the score, and binds its award to its name in the
breakdown. Conditions of the same name have the last one's award there, so the breakdown leaves out
what the earlier ones added. -/

namespace EvalHarness

open Text Scoring

namespace RubricScorer

variable (u : UnicodeTables) (seed : HashSeed)

/-- The conditions a task is scored by. -/
def rubric (scorer : RubricScorer) (task : ScoredTask) : List ScoringCondition :=
  if task.conditions.isEmpty then scorer.defaults else task.conditions

/-- Whether a condition is known, and its checker returns `True`. -/
def passes (response : Str) (task : ScoredTask) (c : ScoringCondition) : Bool :=
  ((conditionCheckers u seed).lookup c.name).any (fun checker => checker response task)

/-- What a condition is awarded. -/
def award (response : Str) (task : ScoredTask) (c : ScoringCondition) : ℚ :=
  if passes u seed response task c then c.weight else 0

/-- The weight of the conditions that pass. -/
def passedWeight (response : Str) (task : ScoredTask) (conditions : List ScoringCondition) : ℚ :=
  ((conditions.filter (passes u seed response task)).map ScoringCondition.weight).sum

theorem scoreCondition_eq (response : Str) (task : ScoredTask) (acc : ℚ × Dict String ℚ)
    (c : ScoringCondition) :
    scoreCondition u seed response task acc c
      = (acc.1 + award u seed response task c,
          acc.2.set c.name (award u seed response task c)) := by
  unfold scoreCondition award passes
  split
  · next hnone => simp [hnone]
  · next checker hsome => simp [hsome]

theorem foldl_scoreCondition (response : Str) (task : ScoredTask)
    (conditions : List ScoringCondition) (acc : ℚ × Dict String ℚ) :
    conditions.foldl (scoreCondition u seed response task) acc
      = (acc.1 + (conditions.map (award u seed response task)).sum,
        acc.2.update (conditions.map (fun c => (c.name, award u seed response task c)))) := by
  induction conditions generalizing acc with
  | nil => simp [Dict.update]
  | cons c rest ih =>
      rw [List.foldl_cons, scoreCondition_eq u seed, ih, List.map_cons, List.sum_cons, add_assoc]
      rfl

theorem sum_award (response : Str) (task : ScoredTask) (conditions : List ScoringCondition) :
    (conditions.map (award u seed response task)).sum
      = passedWeight u seed response task conditions := by
  induction conditions with
  | nil => rfl
  | cons c rest ih =>
      rw [List.map_cons, List.sum_cons, ih]
      by_cases hc : passes u seed response task c = true
      · simp [award, passedWeight, hc]
      · simp [award, passedWeight, hc]

theorem passedWeight_append (response : Str) (task : ScoredTask)
    (conditions more : List ScoringCondition) :
    passedWeight u seed response task (conditions ++ more)
      = passedWeight u seed response task conditions
        + passedWeight u seed response task more := by
  simp only [passedWeight, List.filter_append, List.map_append, List.sum_append]

theorem passedWeight_perm (response : Str) (task : ScoredTask)
    {conditions conditions' : List ScoringCondition} (h : conditions.Perm conditions') :
    passedWeight u seed response task conditions
      = passedWeight u seed response task conditions' :=
  ((h.filter _).map _).sum_eq

/-! ## The two results of `score` -/

variable (scorer : RubricScorer) (response : Str) (task : ScoredTask)

theorem score_fst :
    (scorer.score u seed response task).1
      = min 1 (max 0 (passedWeight u seed response task (scorer.rubric task))) := by
  have hfold := foldl_scoreCondition u seed response task (scorer.rubric task) (0, Dict.empty)
  rw [sum_award u seed, zero_add] at hfold
  rw [score]
  dsimp only
  rw [← rubric, hfold]

theorem score_snd :
    (scorer.score u seed response task).2
      = Dict.empty.update
          ((scorer.rubric task).map (fun c => (c.name, award u seed response task c))) := by
  rw [score]
  dsimp only
  rw [← rubric, foldl_scoreCondition]

/-- The breakdown adds up to what the last condition of each name is awarded. -/
theorem sum_breakdown :
    (scorer.score u seed response task).2.values.sum
      = passedWeight u seed response task
          (Dict.lastOfKey ScoringCondition.name (scorer.rubric task)) := by
  let awards := (scorer.rubric task).map (fun c => (c.name, award u seed response task c))
  have hperm : (Dict.empty.update awards).entries.Perm (Dict.lastOfKey Prod.fst awards) :=
    Dict.perm_update Dict.empty awards
  rw [Dict.lastOfKey_map] at hperm
  rw [score_snd, Dict.values, (hperm.map Prod.snd).sum_eq, List.map_map, Function.comp_def,
    sum_award]

/-! ## The clamp -/

/-- Two numbers are clamped to the same one if they are equal, or on the same side outside. -/
theorem clamp_add_eq_iff (x y : ℚ) :
    min 1 (max 0 (x + y)) = min 1 (max 0 x)
      ↔ y = 0 ∨ (1 ≤ x ∧ 1 ≤ x + y) ∨ (x ≤ 0 ∧ x + y ≤ 0) := by
  simp only [min_def, max_def]
  grind

/-- The score is the clamped sum of the breakdown if and only if the conditions that a later one of
    the same name follows are awarded nothing on the whole, or the score is at the same end of its
    range with and without them. -/
theorem score_eq_clamp_breakdown_iff :
    (scorer.score u seed response task).1
        = min 1 (max 0 (scorer.score u seed response task).2.values.sum)
      ↔ let last := passedWeight u seed response task
            (Dict.lastOfKey ScoringCondition.name (scorer.rubric task))
        let earlier := passedWeight u seed response task
            (Dict.earlierOfKey ScoringCondition.name (scorer.rubric task))
        earlier = 0 ∨ (1 ≤ last ∧ 1 ≤ last + earlier) ∨ (last ≤ 0 ∧ last + earlier ≤ 0) := by
  have hall := passedWeight_perm u seed response task
    (Dict.perm_lastOfKey ScoringCondition.name (scorer.rubric task))
  rw [passedWeight_append] at hall
  rw [score_fst, sum_breakdown, ← hall]
  exact clamp_add_eq_iff _ _

def repeatedTask : ScoredTask where
  taskId := "t_txt"
  prompt := "The capital of France is".toList
  expectedAnswer := some "Paris".toList
  conditions :=
    [{ name := "contains_answer", weight := 1 / 2 }, { name := "contains_answer", weight := 1 / 4 }]

/-- Both conditions are awarded, and the breakdown has the second one only. -/
theorem repeated_name_unaccounted :
    ((RubricScorer.init none).score basicUnicode promptOrder "Paris".toList repeatedTask).1 = 3 / 4
      ∧ ((RubricScorer.init none).score basicUnicode promptOrder
          "Paris".toList repeatedTask).2.entries = [("contains_answer", 1 / 4)]
      ∧ ((RubricScorer.init none).score basicUnicode promptOrder "Paris".toList repeatedTask).1
        ≠ min 1 (max 0 ((RubricScorer.init none).score basicUnicode promptOrder
            "Paris".toList repeatedTask).2.values.sum) := by
  decide +kernel

end RubricScorer

end EvalHarness
