import EvalHarness.Types
import EvalHarness.Lib.Dict
import EvalHarness.Aggregator.Paths

set_option autoImplicit false

/-! # One results aggregator (`ResultsAggregatorImpl`)

The counters and samples of an aggregator, the file it appends to, and the functions that merge and
summarise states. Numbers are exact: a float of the source is a rational here, and the infinities
that `score_min` and `score_max` start from are the top and the bottom of the rationals. -/

namespace EvalHarness

/-- `EvalResult.succeeded`. -/
def EvalResult.succeeded (result : EvalResult) : Bool := !result.failed

/-- `RESERVOIR_CAP`. -/
def reservoirCap : Nat := 100000

/-- `_percentile`: nearest rank, `ceil(q * n) - 1`. -/
def percentile (sortedValues : List ℚ) (q : ℚ) : ℚ :=
  if sortedValues.isEmpty then 0
  else
    let n := sortedValues.length
    let idx : Int := min (n - 1) (max 0 (⌈q * n⌉ - 1))
    sortedValues.getD idx.toNat 0

/-- `_reservoir_append` (Algorithm R), with what the generator gives: `draws k bound` is its `k`-th
    number, drawn from `0..bound`. Also how many numbers are drawn afterwards. -/
def reservoirAppend {α : Type} (draws : Nat → Nat → Nat) (cap : Nat) (samples : List α)
    (seenBefore : Nat) (value : α) (drawn : Nat) : List α × Nat :=
  if samples.length < cap then (samples ++ [value], drawn)
  else
    let j := draws drawn seenBefore
    (if j < cap then samples.set j value else samples, drawn + 1)

/-! ## The state of a shard -/

/-- The counters and samples of an aggregator: what `get_shard_state` returns. -/
structure ShardState where
  count : Nat := 0
  succeeded : Nat := 0
  failed : Nat := 0
  stoppedEarly : Nat := 0
  scoreSum : ℚ := 0
  scoreMin : WithTop ℚ := ⊤
  scoreMax : WithBot ℚ := ⊥
  latencySum : ℚ := 0
  latencySamples : List ℚ := []
  latencySeen : Nat := 0
  batchLatencySamples : List ℚ := []
  batchLatencySeen : Nat := 0
  tokensTotal : Nat := 0
  perWorker : Dict Int Nat := Dict.empty
  conditionScores : List (List (String × ℚ)) := []

/-- `_merge_states`, one state: counters summed, samples appended, minimum and maximum across. -/
def ShardState.merge (merged s : ShardState) : ShardState where
  count := merged.count + s.count
  succeeded := merged.succeeded + s.succeeded
  failed := merged.failed + s.failed
  stoppedEarly := merged.stoppedEarly + s.stoppedEarly
  scoreSum := merged.scoreSum + s.scoreSum
  scoreMin := min merged.scoreMin s.scoreMin
  scoreMax := max merged.scoreMax s.scoreMax
  latencySum := merged.latencySum + s.latencySum
  latencySamples := merged.latencySamples ++ s.latencySamples
  latencySeen := merged.latencySeen + s.latencySeen
  batchLatencySamples := merged.batchLatencySamples ++ s.batchLatencySamples
  batchLatencySeen := merged.batchLatencySeen + s.batchLatencySeen
  tokensTotal := merged.tokensTotal + s.tokensTotal
  perWorker := merged.perWorker.tally s.perWorker.entries
  conditionScores := merged.conditionScores ++ s.conditionScores

/-- `_merge_states`. -/
def mergeStates (states : List ShardState) : ShardState := states.foldl ShardState.merge {}

/-! ## Summaries -/

structure ConditionStats where
  meanAwarded : ℚ
  passRate : ℚ
deriving DecidableEq

/-- `RubricScorer.aggregate_condition_scores`. -/
def aggregateConditionScores (all : List (List (String × ℚ))) : Dict String ConditionStats :=
  let weightSums := (Dict.empty : Dict String ℚ).tally all.flatten
  let totals := (Dict.empty : Dict String Nat).tally (all.flatten.map (fun e => (e.1, 1)))
  let passCounts := (Dict.empty : Dict String Nat).tally
    ((all.flatten.filter (fun e => 0 < e.2)).map (fun e => (e.1, 1)))
  weightSums.mapValues (fun name sum =>
    { meanAwarded := sum / (totals.get? name).getD 0
      passRate := (passCounts.get? name).getD 0 / ((totals.get? name).getD 0 : Nat) })

/-- The summary of a run. The last two entries are there for several shards only. -/
structure Summary where
  total : Nat
  totalIntake : Nat
  succeeded : Nat
  failed : Nat
  stoppedEarly : Nat
  successRate : ℚ
  meanScore : ℚ
  minScore : ℚ
  maxScore : ℚ
  meanLatencyS : ℚ
  p99LatencyS : ℚ
  meanBatchLatencyS : ℚ
  p99BatchLatencyS : ℚ
  meanTokensGenerated : ℚ
  totalElapsedS : ℚ
  throughputPerS : ℚ
  resultsFile : String
  perWorkerCounts : Dict Int Nat
  conditionStats : Dict String ConditionStats
  resultsFiles : Option (List String) := none
  aggregatorShards : Option Nat := none

/-- `sorted` on numbers. -/
def sorted (values : List ℚ) : List ℚ := values.insertionSort (fun a b => a ≤ b)

/-- `_summarize_state`. -/
def summarizeState (state : ShardState) (totalTasks : Nat) (elapsed : ℚ) (resultsFile : String) :
    Summary :=
  let batchSorted := sorted state.batchLatencySamples
  { total := state.count
    totalIntake := totalTasks
    succeeded := state.succeeded
    failed := state.failed
    stoppedEarly := state.stoppedEarly
    successRate := if 0 < state.count then state.succeeded / state.count else 0
    meanScore := if 0 < state.succeeded then state.scoreSum / state.succeeded else 0
    minScore := state.scoreMin.untopD 0
    maxScore := state.scoreMax.unbotD 0
    meanLatencyS := if 0 < state.succeeded then state.latencySum / state.succeeded else 0
    p99LatencyS := percentile (sorted state.latencySamples) (99 / 100)
    meanBatchLatencyS :=
      if batchSorted.isEmpty then 0 else batchSorted.sum / batchSorted.length
    p99BatchLatencyS := percentile batchSorted (99 / 100)
    meanTokensGenerated :=
      if 0 < state.succeeded then state.tokensTotal / state.succeeded else 0
    totalElapsedS := elapsed
    throughputPerS := if 0 < elapsed then state.count / elapsed else 0
    resultsFile
    perWorkerCounts := state.perWorker
    conditionStats := aggregateConditionScores state.conditionScores }

/-! ## The aggregator -/

/-- An aggregator: its counters, how often it has drawn from its generator, and its file: the text
    in it once the buffer of the handle is written out, and whether the handle is closed. -/
structure ResultsAggregatorImpl extends ShardState where
  totalTasks : Nat
  outputPath : PurePath
  drawn : Nat := 0
  file : String
  closed : Bool := false

namespace ResultsAggregatorImpl

/-- `__init__`: nothing is counted, and the file is opened to append to it. -/
def init (totalTasks : Nat) (outputPath : PurePath) (files : Files) : ResultsAggregatorImpl where
  totalTasks
  outputPath
  file := files.openAppend outputPath

/-- `_ingest` for the latency of a succeeded result. -/
def sampleLatency (draws : Nat → Nat → Nat) (s : ResultsAggregatorImpl) (value : ℚ) :
    ResultsAggregatorImpl :=
  let (samples, drawn) :=
    reservoirAppend draws reservoirCap s.latencySamples s.latencySeen value s.drawn
  { s with latencySamples := samples, latencySeen := s.latencySeen + 1, drawn }

/-- `_ingest` for its batch latency, if it has one. -/
def sampleBatchLatency (draws : Nat → Nat → Nat) (s : ResultsAggregatorImpl) :
    Option ℚ → ResultsAggregatorImpl
  | none => s
  | some value =>
      let (samples, drawn) :=
        reservoirAppend draws reservoirCap s.batchLatencySamples s.batchLatencySeen value s.drawn
      { s with batchLatencySamples := samples, batchLatencySeen := s.batchLatencySeen + 1, drawn }

/-- `_ingest` up to the write: everything that is counted. -/
def countResult (draws : Nat → Nat → Nat) (s : ResultsAggregatorImpl) (result : EvalResult) :
    ResultsAggregatorImpl :=
  let s := { s with count := s.count + 1, perWorker := s.perWorker.bump result.workerId 1 }
  if result.succeeded then
    let s := { s with
      succeeded := s.succeeded + 1
      scoreSum := s.scoreSum + result.score
      scoreMin := min s.scoreMin result.score
      scoreMax := max s.scoreMax result.score
      latencySum := s.latencySum + result.latencySeconds }
    let s := s.sampleLatency draws result.latencySeconds
    let s := s.sampleBatchLatency draws result.batchLatencySeconds
    { s with
      tokensTotal := s.tokensTotal + result.tokensGenerated
      stoppedEarly := if result.stoppedEarly then s.stoppedEarly + 1 else s.stoppedEarly
      conditionScores :=
        if result.conditionScores.isEmpty then s.conditionScores
        else s.conditionScores ++ [result.conditionScores] }
  else
    { s with failed := s.failed + 1 }

/-- The handle of a closed file. -/
def closedError : Exc := ⟨"ValueError", "I/O operation on closed file."⟩

/-- `_ingest`. `line` is the JSON text of a result (`json.dumps(result.to_dict())`), or the
    exception there is instead of it; what has been counted by then stays counted. -/
def ingest (line : EvalResult → Except Exc String) (draws : Nat → Nat → Nat)
    (s : ResultsAggregatorImpl) (result : EvalResult) : Except Exc Unit × ResultsAggregatorImpl :=
  let s := s.countResult draws result
  match line result with
  | .error exc => (.error exc, s)
  | .ok text =>
      if s.closed then (.error closedError, s)
      else (.ok (), { s with file := s.file ++ (text ++ "\n") })

/-- `record_batch`: the results one after the other, up to the first that raises, then a flush. -/
def recordBatch (line : EvalResult → Except Exc String) (draws : Nat → Nat → Nat)
    (s : ResultsAggregatorImpl) : List EvalResult → Except Exc Unit × ResultsAggregatorImpl
  | [] => (if s.closed then .error closedError else .ok (), s)
  | result :: results =>
      match s.ingest line draws result with
      | (.error exc, s) => (.error exc, s)
      | (.ok (), s) => s.recordBatch line draws results

/-- `get_shard_state`. -/
def getShardState (s : ResultsAggregatorImpl) : ShardState := s.toShardState

/-- `get_summary`, with the time since the start. -/
def getSummary (s : ResultsAggregatorImpl) (elapsed : ℚ) : Summary :=
  summarizeState s.getShardState s.totalTasks elapsed s.outputPath.text

/-- `close` (idempotent). -/
def close (s : ResultsAggregatorImpl) : ResultsAggregatorImpl := { s with closed := true }

/-- Several `record_batch` calls, one after the other, each whether or not the ones before it have
    raised. -/
def recordAll (line : EvalResult → Except Exc String) (draws : Nat → Nat → Nat)
    (s : ResultsAggregatorImpl) (batches : List (List EvalResult)) : ResultsAggregatorImpl :=
  batches.foldl (fun s batch => (s.recordBatch line draws batch).2) s

/-! ## Recording results whose lines can be written -/

section Recorded

variable {draws : Nat → Nat → Nat} {jsonLine : EvalResult → String}

/-- Counting has nothing to do with the file. -/
theorem countResult_frame (s : ResultsAggregatorImpl) (result : EvalResult) :
    (s.countResult draws result).totalTasks = s.totalTasks
      ∧ (s.countResult draws result).file = s.file
      ∧ (s.countResult draws result).closed = s.closed := by
  unfold countResult
  by_cases h : result.succeeded
  · cases hb : result.batchLatencySeconds <;> simp [h, sampleLatency, sampleBatchLatency]
  · simp [h]

theorem countResult_outputPath (s : ResultsAggregatorImpl) (result : EvalResult) :
    (s.countResult draws result).outputPath = s.outputPath := by
  unfold countResult
  by_cases h : result.succeeded
  · cases hb : result.batchLatencySeconds <;> simp [h, sampleLatency, sampleBatchLatency]
  · simp [h]

/-- An aggregator keeps its file, whatever it is given. -/
theorem recordBatch_outputPath {line : EvalResult → Except Exc String} (s : ResultsAggregatorImpl)
    (batch : List EvalResult) : (s.recordBatch line draws batch).2.outputPath = s.outputPath := by
  induction batch generalizing s with
  | nil => rfl
  | cons row batch ih =>
      have hpath : (s.ingest line draws row).2.outputPath = s.outputPath := by
        have hcount : (s.countResult draws row).outputPath = s.outputPath :=
          s.countResult_outputPath row
        simp only [ingest]
        split
        · exact hcount
        · split
          · exact hcount
          · exact hcount
      rw [recordBatch]
      split
      · next hingest => rw [← hpath, hingest]
      · next hingest => rw [ih, ← hpath, hingest]

variable (draws jsonLine) in
/-- The aggregator after an `_ingest` that has returned. -/
def ingested (s : ResultsAggregatorImpl) (result : EvalResult) : ResultsAggregatorImpl :=
  { s.countResult draws result with file := s.file ++ (jsonLine result ++ "\n") }

@[simp] theorem ingested_totalTasks (s : ResultsAggregatorImpl) (result : EvalResult) :
    (s.ingested draws jsonLine result).totalTasks = s.totalTasks :=
  (s.countResult_frame result).1

@[simp] theorem ingested_closed (s : ResultsAggregatorImpl) (result : EvalResult) :
    (s.ingested draws jsonLine result).closed = s.closed :=
  (s.countResult_frame result).2.2

theorem ingest_eq {s : ResultsAggregatorImpl} (hopen : s.closed = false) (result : EvalResult) :
    s.ingest (fun row => .ok (jsonLine row)) draws result
      = (.ok (), s.ingested draws jsonLine result) := by
  obtain ⟨_, hfile, hclosed⟩ : _ ∧ (s.countResult draws result).file = s.file ∧ _ :=
    s.countResult_frame result
  simp [ingest, ingested, hfile, hclosed, hopen]

/-- A batch is recorded result by result. -/
theorem recordBatch_eq {s : ResultsAggregatorImpl} (hopen : s.closed = false)
    (batch : List EvalResult) :
    s.recordBatch (fun row => .ok (jsonLine row)) draws batch
      = (.ok (), batch.foldl (ingested draws jsonLine) s) := by
  induction batch generalizing s with
  | nil => simp [recordBatch, hopen]
  | cons row batch ih =>
      rw [recordBatch, ingest_eq hopen]
      exact ih (by simp [hopen])

theorem foldl_ingested_totalTasks (s : ResultsAggregatorImpl) (rows : List EvalResult) :
    (rows.foldl (ingested draws jsonLine) s).totalTasks = s.totalTasks := by
  induction rows generalizing s with
  | nil => rfl
  | cons row rows ih => simp [ih]

theorem foldl_ingested_closed (s : ResultsAggregatorImpl) (rows : List EvalResult) :
    (rows.foldl (ingested draws jsonLine) s).closed = s.closed := by
  induction rows generalizing s with
  | nil => rfl
  | cons row rows ih => simp [ih]

/-- The lines are written in the order of recording. -/
theorem foldl_ingested_file (s : ResultsAggregatorImpl) (rows : List EvalResult) :
    (rows.foldl (ingested draws jsonLine) s).file = s.file ++ fileText (rows.map jsonLine) := by
  induction rows generalizing s with
  | nil => simp
  | cons row rows ih => simp [ih, ingested, fileText, String.append_assoc]

/-- It makes no difference how the results are cut into batches. -/
theorem recordAll_eq {s : ResultsAggregatorImpl} (hopen : s.closed = false)
    (batches : List (List EvalResult)) :
    s.recordAll (fun row => .ok (jsonLine row)) draws batches
      = batches.flatten.foldl (ingested draws jsonLine) s := by
  induction batches generalizing s with
  | nil => rfl
  | cons batch batches ih =>
      have hstill : (batch.foldl (ingested draws jsonLine) s).closed = false :=
        (foldl_ingested_closed s batch).trans hopen
      rw [List.flatten_cons, List.foldl_append, ← ih hstill, recordAll, List.foldl_cons,
        recordBatch_eq hopen]
      rfl

end Recorded

end ResultsAggregatorImpl

end EvalHarness
