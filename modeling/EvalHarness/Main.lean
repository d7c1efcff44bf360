import EvalHarness.DocentAdapter
import EvalHarness.Lib.Digits
import EvalHarness.Scoring

set_option autoImplicit false

/-! # The tasks of a run (`main.py`)

`make_tasks` cycles through twenty prompts. The id of a task starts with its number, so that no two
tasks have the same one, and it does not depend on how many tasks there are. -/

namespace EvalHarness.Main

open Text

/-- `_COMPLETIONS`. -/
def completions : List (String × String) :=
  [("The capital of France is", "Paris"),
    ("The sky appears", "blue"),
    ("Water freezes at", "zero"),
    ("The sun rises in the", "east"),
    ("A triangle has", "three"),
    ("The opposite of hot is", "cold"),
    ("Humans breathe", "oxygen"),
    ("Ice is frozen", "water"),
    ("The color of grass is", "green"),
    ("Birds use wings to", "fly"),
    ("Fish live in", "water"),
    ("The Earth orbits the", "sun"),
    ("A week has", "seven"),
    ("Dogs are known as man's best", "friend"),
    ("The moon orbits the", "Earth"),
    ("Cats are known for their ability to", "purr"),
    ("Lightning is followed by", "thunder"),
    ("Bread is made from", "flour"),
    ("A compass points", "north"),
    ("The tallest mountain is", "Everest")]

/-- A task as `make_tasks` builds it. -/
structure CompletionTask extends ScoredTask where
  metadata : Record

/-- The id of the task with a number. -/
def completionId (i : Nat) : String :=
  let cycle := i / completions.length
  if cycle = 0 then "task_" ++ String.ofList (padded 5 i)
  else "task_" ++ String.ofList (padded 5 i) ++ "_c" ++ String.ofList (decimal cycle)

/-- The prompt and the answer of the task with a number. -/
def completion (i : Nat) : String × String :=
  completions.get ⟨i % completions.length, Nat.mod_lt _ (by decide)⟩

/-- The loop of `make_tasks`. -/
def completionTask (i : Nat) : CompletionTask where
  taskId := completionId i
  prompt := (completion i).1.toList
  expectedAnswer := some (completion i).2.toList
  conditions := Scoring.defaultConditions
  metadata :=
    { entries := [("prompt", .str (completion i).1), ("expected", .str (completion i).2),
        ("cycle", .num ((i / completions.length : Nat) : ℚ))]
      nodup := by simp }

/-- `make_tasks`. -/
def makeTasks (n : Nat) : List CompletionTask := (List.range n).map completionTask

/-! ## The ids -/

/-- What is behind the number in the id of a task: nothing in the first cycle. -/
def cycleMark (i : Nat) : Str :=
  if i / completions.length = 0 then [] else '_' :: 'c' :: decimal (i / completions.length)

theorem toList_completionId (i : Nat) :
    (completionId i).toList = "task_".toList ++ (padded 5 i ++ cycleMark i) := by
  simp only [completionId, cycleMark, apply_ite String.toList, String.toList_append,
    String.toList_ofList]
  split
  · rw [List.append_nil]
  · rw [List.append_assoc, List.append_assoc]
    rfl

theorem number_completionId (d : Digits) (i : Nat) :
    d.number ((completionId i).toList.drop "task_".toList.length) = some (i, cycleMark i) := by
  rw [toList_completionId, List.drop_left]
  refine number_padded d 5 i (fun c hc => ?_)
  unfold cycleMark at hc
  split at hc
  · cases hc
  · obtain rfl := Option.some.inj hc
    exact d.not_isDecimal (by decide) (by decide)

theorem completionId_injective : Function.Injective completionId := by
  intro i j h
  have hi := number_completionId asciiDigits i
  rw [h, number_completionId] at hi
  exact (congrArg Prod.fst (Option.some.inj hi)).symm

theorem map_taskId_makeTasks (n : Nat) :
    (makeTasks n).map (fun task => task.taskId) = (List.range n).map completionId := by
  rw [makeTasks, List.map_map]
  rfl

end EvalHarness.Main
