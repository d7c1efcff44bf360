import EvalHarness.Scoring

set_option autoImplicit false

/-! # The keywords of a prompt

The words of a prompt are put into a set, sorted by length and cut at five. Words of the same length
stay as the set is iterated over, which every process does in an order of its own: with a tie at the
cut, which words are looked for depends on the process. -/

namespace EvalHarness

open Text Scoring

variable (u : UnicodeTables)

/-- Two processes that agree on the topic agree on the score and on its breakdown. -/
theorem RubricScorer.score_congr {seed₁ seed₂ : HashSeed} {response : Str} {task : ScoredTask}
    (h : mentionsTopic u seed₁ response task = mentionsTopic u seed₂ response task)
    (scorer : RubricScorer) :
    scorer.score u seed₁ response task = scorer.score u seed₂ response task := by
  have hcondition : scoreCondition u seed₁ response task
      = scoreCondition u seed₂ response task := by
    funext acc condition
    -- no other checker iterates over a set
    by_cases hname : condition.name = "mentions_topic"
    · simp [scoreCondition, conditionCheckers, List.lookup, hname, h]
    · have hsame : (conditionCheckers u seed₁).lookup condition.name
          = (conditionCheckers u seed₂).lookup condition.name := by
        have hne : (condition.name == "mentions_topic") = false := by simpa using hname
        simp only [conditionCheckers, List.lookup, hne]
      rw [scoreCondition, scoreCondition, hsame]
  rw [score, score, hcondition]

/-- A process may iterate over the content words of a prompt in any order. -/
theorem HashSeed.exists_order {texts order : List Str} (h : order.Perm texts.dedup) :
    ∃ seed : HashSeed, seed.order texts = order := by
  refine ⟨⟨fun l => if l = texts then order else l.dedup, fun l => ?_⟩, if_pos rfl⟩
  split
  · next heq =>
      rw [heq]
      exact h
  · exact List.Perm.refl _

/-- All processes give a response the same score exactly if the content words of the prompt are
    settled: at a tie that is cut, a longer keyword is found, none of the tied words is found, or
    too few of them are missing for the search to be without one that is found. -/
theorem same_in_every_process_iff (scorer : RubricScorer) (response : Str) (task : ScoredTask) :
    (∀ seed₁ seed₂ : HashSeed,
        mentionsTopic u seed₁ response task = mentionsTopic u seed₂ response task
          ∧ scorer.score u seed₁ response task = scorer.score u seed₂ response task)
      ↔ Largest.Settled List.length (searchWord u response) keywordCount
          (contentWords u task.prompt).dedup := by
  rw [← Largest.any_top_iff List.length (show 0 < keywordCount by decide)]
  constructor
  · intro h order₁ order₂ h₁ h₂
    obtain ⟨seed₁, hseed₁⟩ := HashSeed.exists_order h₁
    obtain ⟨seed₂, hseed₂⟩ := HashSeed.exists_order h₂
    have hsame := (h seed₁ seed₂).1
    rwa [mentionsTopic, mentionsTopic, hseed₁, hseed₂] at hsame
  · intro h seed₁ seed₂
    have hsame : mentionsTopic u seed₁ response task = mentionsTopic u seed₂ response task :=
      h _ _ (seed₁.perm _) (seed₂.perm _)
    exact ⟨hsame, scorer.score_congr u hsame⟩

/-! ## Six words of three letters -/

/-- A process that iterates over words in the order of the prompt. -/
def promptOrder : HashSeed := ⟨List.dedup, fun _ => List.Perm.refl _⟩

/-- A process that iterates over them backwards. -/
def reversedOrder : HashSeed := ⟨fun texts => texts.dedup.reverse, fun _ => List.reverse_perm _⟩

def petsTask : ScoredTask where
  taskId := "pets"
  prompt := "cat dog fox hen owl pig".toList

/-- The first of the six words is looked for in one process, and not in another one. -/
theorem cat_mentioned_in_one_process :
    mentionsTopic basicUnicode promptOrder "cat".toList petsTask = true
      ∧ mentionsTopic basicUnicode reversedOrder "cat".toList petsTask = false
      ∧ ((RubricScorer.init none).score basicUnicode promptOrder "cat".toList petsTask).1 = 3 / 10
      ∧ ((RubricScorer.init none).score basicUnicode reversedOrder "cat".toList petsTask).1
        = 1 / 5 := by
  decide +kernel

end EvalHarness
