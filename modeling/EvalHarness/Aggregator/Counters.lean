import EvalHarness.Aggregator.State

set_option autoImplicit false

/-! # Counters and lines

A result is counted before its line is written, so that a line that cannot be had leaves a result
that is counted and not written. Every other result of a call is either both or neither. -/

namespace EvalHarness

namespace ResultsAggregatorImpl

/-- The number of complete lines in a file behind what it had. -/
def linesWritten (old new : String) : Nat := (new.toList.drop old.toList.length).count '\n'

/-- The counters of an aggregator, and the lines that it has written to its file, agree. -/
structure Agrees (old : String) (s : ResultsAggregatorImpl) : Prop where
  lines : s.count = linesWritten old s.file
  outcomes : s.succeeded + s.failed = s.count
  workers : s.perWorker.values.sum = s.count

/-- What is asked of a `record_batch` call: counters and lines agree after it, and what is behind
    the first result whose line cannot be had has neither been counted nor written. -/
structure CallAgrees (line : EvalResult → Except Exc String) (draws : Nat → Nat → Nat)
    (old : String) (s : ResultsAggregatorImpl) (batch : List EvalResult) : Prop where
  after : Agrees old (s.recordBatch line draws batch).2
  rest : ∀ before bad behind, batch = before ++ bad :: behind →
    (∀ row ∈ before, (line row).isOk) → ¬ (line bad).isOk →
      s.recordBatch line draws batch = s.recordBatch line draws (before ++ [bad])

variable {line : EvalResult → Except Exc String} {draws : Nat → Nat → Nat} {old : String}
  {s : ResultsAggregatorImpl} {n : Nat}

/-- Nothing behind a result that raises is looked at. -/
theorem recordBatch_raises (s : ResultsAggregatorImpl) (before : List EvalResult) {bad : EvalResult}
    (hbad : ¬ (line bad).isOk) (behind : List EvalResult) :
    s.recordBatch line draws (before ++ bad :: behind)
      = s.recordBatch line draws (before ++ [bad]) := by
  induction before generalizing s with
  | nil =>
      cases hline : line bad with
      | ok text => simp [hline, Except.isOk, Except.toBool] at hbad
      | error exc => simp [recordBatch, ingest, hline]
  | cons row before ih =>
      rw [List.cons_append, List.cons_append, recordBatch, recordBatch]
      split
      · rfl
      · exact ih _

/-! ## What a run keeps -/

theorem count_fileText {lines : List String} (h : ∀ text ∈ lines, '\n' ∉ text.toList) :
    (fileText lines).toList.count '\n' = lines.length := by
  rw [toList_fileText]
  induction lines with
  | nil => rfl
  | cons text lines ih =>
      have hrest := ih (fun other hother => h other (List.mem_cons_of_mem _ hother))
      have htext : text.toList.count '\n' = 0 := List.count_eq_zero.2 (h text List.mem_cons_self)
      rw [List.map_cons, List.flatMap_cons, List.count_append, List.count_append, htext, hrest,
        List.length_cons]
      simp [Nat.add_comm]

/-- The aggregator after some calls of which the given number have raised. -/
structure Kept (old : String) (raised : Nat) (s : ResultsAggregatorImpl) : Prop where
  still : s.closed = false
  written : ∃ lines : List String, (∀ text ∈ lines, '\n' ∉ text.toList)
    ∧ s.file = old ++ fileText lines ∧ s.count = lines.length + raised
  outcomes : s.succeeded + s.failed = s.count
  workers : s.perWorker.values.sum = s.count

variable (draws) in
theorem countResult_counts (s : ResultsAggregatorImpl) (row : EvalResult) :
    (s.countResult draws row).count = s.count + 1
      ∧ (s.countResult draws row).succeeded + (s.countResult draws row).failed
        = s.succeeded + s.failed + 1
      ∧ (s.countResult draws row).perWorker = s.perWorker.bump row.workerId 1 := by
  unfold countResult
  by_cases h : row.succeeded
  · cases hb : row.batchLatencySeconds <;>
      simp [h, sampleLatency, sampleBatchLatency, Nat.add_right_comm]
  · simp [h, Nat.add_assoc]

/-- Counting a result without writing its line. -/
theorem Kept.count (h : Kept old n s) (row : EvalResult) :
    Kept old (n + 1) (s.countResult draws row) := by
  obtain ⟨hcount, houtcomes, hworkers⟩ := countResult_counts draws s row
  obtain ⟨-, hfile, hclosed⟩ : _ ∧ (s.countResult draws row).file = s.file ∧ _ :=
    s.countResult_frame row
  obtain ⟨lines, hlines, hold, hnumber⟩ := h.written
  refine ⟨hclosed.trans h.still, ⟨lines, hlines, hfile.trans hold, by omega⟩, ?_, ?_⟩
  · rw [houtcomes, hcount, h.outcomes]
  · rw [hworkers, Dict.sum_values_bump, hcount, h.workers]

/-- Writing the line of a counted result. -/
theorem Kept.write (h : Kept old (n + 1) s) {text : String} (htext : '\n' ∉ text.toList) :
    Kept old n { s with file := s.file ++ (text ++ "\n") } := by
  obtain ⟨lines, hlines, hold, hnumber⟩ := h.written
  refine ⟨h.still, ⟨lines ++ [text], ?_, ?_, ?_⟩, h.outcomes, h.workers⟩
  · intro text' htext'
    rcases List.mem_append.1 htext' with hin | hin
    · exact hlines text' hin
    · rwa [List.mem_singleton.1 hin]
  · simp [hold, fileText, String.append_assoc]
  · rw [List.length_append, List.length_singleton, Nat.add_assoc, Nat.add_comm 1]
    exact hnumber

/-- A call raises if the line of one of its results cannot be had. -/
def raises (line : EvalResult → Except Exc String) (batch : List EvalResult) : Bool :=
  !batch.all (fun row => (line row).isOk)

section Raising

variable (hline : ∀ row text, line row = .ok text → '\n' ∉ text.toList)

include hline

theorem Kept.recordBatch (h : Kept old n s) (batch : List EvalResult) :
    Kept old (n + (raises line batch).toNat) (s.recordBatch line draws batch).2 := by
  induction batch generalizing s with
  | nil => exact h
  | cons row batch ih =>
      have hcounted : Kept old (n + 1) (s.countResult draws row) := h.count row
      rw [ResultsAggregatorImpl.recordBatch]
      cases hrow : line row with
      | error exc =>
          have hraises : raises line (row :: batch) = true := by
            simp [raises, hrow, Except.isOk, Except.toBool]
          simpa [ingest, hrow, hraises] using hcounted
      | ok text =>
          have hraises : raises line (row :: batch) = raises line batch := by
            simp [raises, hrow, Except.isOk, Except.toBool]
          have hwritten := hcounted.write (hline row text hrow)
          have hingest : s.ingest line draws row = (.ok (), { s.countResult draws row with
              file := (s.countResult draws row).file ++ (text ++ "\n") }) := by
            simp [ingest, hrow, hcounted.still]
          rw [hingest, hraises]
          exact ih hwritten

/-- After any calls: as many results are counted without a line as calls have raised. -/
theorem Kept.recordAll (h : Kept old n s) (batches : List (List EvalResult)) :
    Kept old (n + batches.countP (raises line)) (s.recordAll line draws batches) := by
  induction batches using List.reverseRecOn with
  | nil => exact h
  | append_singleton batches batch ih =>
      have hcall : Kept old _ ((s.recordAll line draws batches).recordBatch line draws batch).2 :=
        ih.recordBatch hline batch
      rw [ResultsAggregatorImpl.recordAll, List.foldl_append, List.foldl_cons, List.foldl_nil,
        ← ResultsAggregatorImpl.recordAll]
      have hcount : (batches ++ [batch]).countP (raises line)
          = batches.countP (raises line) + (raises line batch).toNat := by
        cases hb : raises line batch <;> simp [hb]
      rwa [hcount, ← Nat.add_assoc]

omit hline in
/-- Counters and lines agree as long as no call has raised. -/
theorem Kept.agrees_iff (h : Kept old n s) : Agrees old s ↔ n = 0 := by
  obtain ⟨lines, hlines, hfile, hnumber⟩ := h.written
  have hwritten : linesWritten old s.file = lines.length := by
    rw [linesWritten, hfile, String.toList_append, List.drop_left, count_fileText hlines]
  constructor
  · intro hagrees
    have hcount := hagrees.lines
    omega
  · rintro rfl
    exact ⟨by omega, h.outcomes, h.workers⟩

omit hline in
theorem kept_init (totalTasks : Nat) (path : PurePath) (files : Files) :
    Kept (init totalTasks path files).file 0 (init totalTasks path files) :=
  ⟨rfl, ⟨[], by simp, by simp, rfl⟩, rfl, rfl⟩

/-- Counters and lines agree after every call if and only if no call has a result whose line cannot
    be had. -/
theorem counters_agree_iff (draws : Nat → Nat → Nat) (totalTasks : Nat) (path : PurePath)
    (files : Files) (batches : List (List EvalResult)) :
    (∀ calls batch later, batches = calls ++ batch :: later →
        CallAgrees line draws (init totalTasks path files).file
          ((init totalTasks path files).recordAll line draws calls) batch)
      ↔ ∀ batch ∈ batches, ∀ row ∈ batch, (line row).isOk := by
  have hafter : ∀ calls batch, Agrees (init totalTasks path files).file
      (((init totalTasks path files).recordAll line draws calls).recordBatch line draws batch).2
        ↔ calls.countP (raises line) + (raises line batch).toNat = 0 := by
    intro calls batch
    have hcalls : Kept (init totalTasks path files).file _
        ((init totalTasks path files).recordAll line draws calls) :=
      (kept_init totalTasks path files).recordAll hline calls
    have hcall : Kept (init totalTasks path files).file _
        (((init totalTasks path files).recordAll line draws calls).recordBatch line draws
          batch).2 :=
      hcalls.recordBatch hline batch
    rw [hcall.agrees_iff, Nat.zero_add]
  constructor
  · intro h batch hbatch row hrow
    obtain ⟨calls, later, hsplit⟩ := List.append_of_mem hbatch
    have hnone := (hafter calls batch).1 (h calls batch later hsplit).after
    have hall : batch.all (fun row => (line row).isOk) = true := by
      simpa [raises] using Bool.toNat_eq_zero.1 (Nat.eq_zero_of_add_eq_zero hnone).2
    exact List.all_eq_true.1 hall row hrow
  · rintro h calls batch later rfl
    have hraises : ∀ other ∈ calls ++ batch :: later, raises line other = false := by
      intro other hother
      simpa [raises] using h other hother
    refine ⟨(hafter calls batch).2 ?_, fun before bad behind hbatch _ hbad => ?_⟩
    · have hcalls : calls.countP (raises line) = 0 := List.countP_eq_zero.2 (fun other hother => by
        simp [hraises other (List.mem_append_left _ hother)])
      rw [hcalls, hraises batch (by simp)]
      rfl
    · rw [hbatch, recordBatch_raises _ before hbad behind]

end Raising

/-! ## A response that cannot be encoded -/

/-- A row, and its line. -/
def writableRow : EvalResult :=
  { taskId := "a", score := 1, response := "x", latencySeconds := 2, workerId := 0 }

def writableText : String :=
  "\x7b\"task_id\": \"a\", \"score\": 1.0, \"response\": \"x\", \"latency_seconds\": 2.0, " ++
  "\"batch_latency_seconds\": null, \"failed\": false, \"hooked\": false, \"worker_id\": 0, " ++
  "\"error\": null, \"failure_kind\": null, \"condition_scores\": \x7b\x7d, " ++
  "\"tokens_generated\": 0, \"stopped_early\": false, \"hook_state\": \x7b\x7d\x7d"

/-- This row stands for one whose response is a lone surrogate, which no string has here. -/
def surrogateRow : EvalResult := { writableRow with taskId := "b", response := "\\ud800" }

def encodedLine (row : EvalResult) : Except Exc String :=
  if row.response = "\\ud800" then
    .error ⟨"UnicodeEncodeError",
      "'utf-8' codec can't encode character '\\ud800': surrogates not allowed"⟩
  else .ok writableText

def resultsFile : PurePath := ⟨"results", "results.jsonl"⟩

theorem newline_not_mem_encodedLine (row : EvalResult) (text : String)
    (h : encodedLine row = .ok text) : '\n' ∉ text.toList := by
  unfold encodedLine at h
  split at h
  · cases h
  · obtain rfl := Except.ok.inj h
    unfold writableText
    simp only [String.toList_append, List.mem_append, not_or]
    and_intros <;> decide +kernel

/-- Two calls whose lines can all be written. -/
theorem counters_agree_iff_written :
    CallAgrees encodedLine (fun _ _ => 0) ""
      ((init 3 resultsFile (fun _ => none)).recordAll encodedLine (fun _ _ => 0)
        [[writableRow, writableRow]]) [writableRow] :=
  (counters_agree_iff newline_not_mem_encodedLine (fun _ _ => 0) 3 resultsFile (fun _ => none)
    [[writableRow, writableRow], [writableRow]]).2 (by decide +kernel) _ _ [] rfl

/-- A row that cannot be encoded, between two that can: two are counted, one is written. -/
theorem surrogate_counted :
    ¬ ∀ calls batch later, [[writableRow, surrogateRow, writableRow]] = calls ++ batch :: later →
      CallAgrees encodedLine (fun _ _ => 0) ""
        ((init 3 resultsFile (fun _ => none)).recordAll encodedLine (fun _ _ => 0) calls)
          batch := by
  intro h
  have hagrees := (h [] [writableRow, surrogateRow, writableRow] [] rfl).after
  have hkept : Kept "" (0 + (raises encodedLine [writableRow, surrogateRow, writableRow]).toNat)
      ((init 3 resultsFile (fun _ => none)).recordBatch encodedLine (fun _ _ => 0)
        [writableRow, surrogateRow, writableRow]).2 :=
    (kept_init 3 resultsFile (fun _ => none)).recordBatch newline_not_mem_encodedLine _
  have hraised := hkept.agrees_iff.1 hagrees
  exact absurd hraised (by decide +kernel)

end ResultsAggregatorImpl

end EvalHarness
