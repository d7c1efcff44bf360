import Mathlib

set_option autoImplicit false

/-! # The records the harness passes around (`types_.py`, `utils.py`)

Only what some modelled function reads or writes is kept: the coordinator reads a task's id and its
retry budget, so `EvalTask` has these two fields; `EvalResult` has all of its fields, because the
coordinator itself builds complete result rows for the tasks it gives up on.

A task is held by reference, as in the source: `TaskRef` is the position of the object in the input
list, and a batch is a list of such references. Two entries of the input are two tasks even when
their contents agree. -/

namespace EvalHarness

inductive FailureKind where
  | transient
  | deterministic
deriving DecidableEq, Repr

/-- One eval task. A budget that is not set falls back to the coordinator's. -/
structure EvalTask where
  taskId : String
  maxRetries : Option Int := none
deriving DecidableEq, Repr

/-- Result for one completed task: one row of the results file. -/
structure EvalResult where
  taskId : String
  score : ℚ
  response : String
  latencySeconds : ℚ
  workerId : Int
  batchLatencySeconds : Option ℚ := none
  failed : Bool := false
  hooked : Bool := false
  error : Option String := none
  failureKind : Option FailureKind := none
  conditionScores : List (String × ℚ) := []
  tokensGenerated : Nat := 0
  stoppedEarly : Bool := false
  hookState : List (String × String) := []
deriving DecidableEq

/-- A Python exception: its class name and `str(exc)`. -/
structure Exc where
  cls : String
  text : String
deriving DecidableEq, Repr

abbrev TaskRef := Nat

abbrev Batch := List TaskRef

/-- `make_batches`: chunk a task list, `tasks[i : i + batch_size]` for `i` in
    `range(0, len(tasks), batch_size)`. -/
def makeBatches {α : Type} (tasks : List α) (batchSize : Nat) : Except Exc (List (List α)) :=
  if batchSize < 1 then
    .error ⟨"ValueError", s!"batch_size must be >= 1, got {batchSize}"⟩
  else
    .ok ((List.range ((tasks.length + batchSize - 1) / batchSize)).map
      (fun k => (tasks.drop (k * batchSize)).take batchSize))

/-! ## Python's rounding -/

/-- Round to the nearest integer, ties to even: `round(q)` and the `.0f` format. -/
def roundHalfEven (q : ℚ) : Int :=
  let f := ⌊q⌋
  if q - f < 1 / 2 then f
  else if 1 / 2 < q - f then f + 1
  else if f % 2 = 0 then f else f + 1

/-- `round(q, 3)`. -/
def round3 (q : ℚ) : ℚ := roundHalfEven (q * 1000) / 1000

theorem roundHalfEven_bounds (q : ℚ) : ⌊q⌋ ≤ roundHalfEven q ∧ roundHalfEven q ≤ ⌊q⌋ + 1 := by
  unfold roundHalfEven
  dsimp only
  split_ifs <;> omega

/-! ## `make_batches` loses and repeats nothing -/

theorem flatten_map_take_drop {α : Type} (l : List α) (b : Nat) :
    ∀ n, ((List.range n).map (fun k => (l.drop (k * b)).take b)).flatten = l.take (n * b) := by
  intro n
  induction n with
  | zero => simp
  | succ n ih =>
      rw [List.range_succ, List.map_append, List.flatten_append, ih]
      simp only [List.map_cons, List.map_nil, List.flatten_cons, List.flatten_nil, List.append_nil]
      rw [← List.take_add, Nat.succ_mul]

theorem makeBatches_flatten {α : Type} {tasks : List α} {b : Nat} {bs : List (List α)}
    (h : makeBatches tasks b = .ok bs) : bs.flatten = tasks := by
  unfold makeBatches at h
  split at h
  · cases h
  · next hb =>
      simp only [Except.ok.injEq] at h
      subst h
      rw [flatten_map_take_drop]
      apply List.take_of_length_le
      have hdiv := Nat.div_add_mod (tasks.length + b - 1) b
      have hmod := Nat.mod_lt (tasks.length + b - 1) (show b > 0 by omega)
      rw [Nat.mul_comm]
      omega

theorem makeBatches_ne_nil {α : Type} {tasks : List α} {b : Nat} {bs : List (List α)}
    (h : makeBatches tasks b = .ok bs) : ∀ batch ∈ bs, batch ≠ [] := by
  unfold makeBatches at h
  split at h
  · cases h
  · next hb =>
      simp only [Except.ok.injEq] at h
      subst h
      intro batch hbatch
      obtain ⟨k, hk, rfl⟩ := List.mem_map.1 hbatch
      rw [List.mem_range, Nat.lt_div_iff_mul_lt (by omega)] at hk
      apply List.ne_nil_of_length_pos
      rw [List.length_take, List.length_drop]
      have hkb : b * k = k * b := Nat.mul_comm ..
      omega

end EvalHarness
