import EvalHarness.Bench.KillTest
import EvalHarness.Bench.SteadyState
import EvalHarness.Worker

set_option autoImplicit false

/-! # The report of a saturation run (`bench/saturation.py`)

What the coordinator counts while it runs, what the aggregator says in the end, and how long the
calls to it take, of which the probe samples some. -/

namespace EvalHarness.Saturation

/-! ## The latency of the aggregator's calls -/

/-- `AggregatorCallProbe`: how many calls it has seen, and those whose latency it measures. -/
structure AggregatorCallProbe (ρ : Type) where
  every : Nat
  n : Nat := 0
  queued : List ρ := []

namespace AggregatorCallProbe

variable {ρ : Type}

def init (every : Int) : AggregatorCallProbe ρ := { every := (max 1 every).toNat }

/-- `observe`. -/
def observe (probe : AggregatorCallProbe ρ) (ref : ρ) : AggregatorCallProbe ρ :=
  let n := probe.n + 1
  { probe with
    n := n
    queued := if n % probe.every = 0 then probe.queued ++ [ref] else probe.queued }

/-- `latency_report`, without its note. -/
structure LatencyReport where
  probeEveryNthCall : Nat
  samples : Nat
  p50S : ℚ
  p90S : ℚ
  p99S : ℚ
  maxS : ℚ

end AggregatorCallProbe

/-! ## The report as a whole -/

/-- The arguments of `build_arg_parser`. -/
structure Args where
  workers : Int := 8
  latencyS : ℚ := 1 / 50
  batchSize : Int := 8
  tasks : Int := 2000
  failRate : ℚ := 0
  jitter : ℚ := 1 / 10
  seed : Int := 0
  aggregatorShards : Int := 1
  deciderShards : Int := 1
  aggProbeEvery : Int := 4

structure Achieved where
  tasksRecorded : Nat
  succeeded : Nat
  failed : Nat
  wallTimeS : ℚ
  throughputTasksPerSWall : ℚ
  throughputTasksPerSAggregator : ℚ

structure Report where
  args : Args
  offeredLoadTasksPerS : ℚ
  achieved : Achieved
  saturated : Bool
  loop : Loop
  steadyState : SteadyState
  aggCallLatency : AggregatorCallProbe.LatencyReport
  gauges : List (String × Option (List (ℚ × ℚ)))
  counts : List (String × Int)

/-- What the coordinator has counted, after one more call of `count`. -/
def countsAfter (counts : Counts) (name : String) (n : Nat) : Counts where
  completed := counts.completed + if name = "completed" then n else 0
  failed := counts.failed + if name = "failed" then n else 0
  retried := counts.retried + if name = "retried" then n else 0
  replaced := counts.replaced + if name = "replaced" then n else 0

/-- The samples of a recorder total what the coordinator has counted. -/
structure Recorder.Counted (recording : Recorder) (counts : Counts) : Prop where
  completed : recording.countTotal "completed" = counts.completed
  failed : recording.countTotal "failed" = counts.failed
  retried : recording.countTotal "retried" = counts.retried
  replaced : recording.countTotal "replaced" = counts.replaced

/-- Each `count` of the coordinator adds to both. -/
theorem Recorder.Counted.count {recording : Recorder} {counts : Counts}
    (h : recording.Counted counts) (now : ℚ) (name : String) (n : Nat) :
    (recording.count now name n).Counted (countsAfter counts name n) := by
  constructor <;> simp only [countTotal_count, countsAfter, h.completed, h.failed, h.retried,
    h.replaced, eq_comm (a := name)] <;> push_cast <;> rfl

end EvalHarness.Saturation

namespace EvalHarness

variable {σ : Type} {w : World σ}

/-! ## The counts of the coordinator -/

/-- The metrics count the rows handed over: each as completed or as failed, as its row says. -/
def Sys.CountsRows (s : Sys σ) : Prop :=
  s.metrics.completed = (recordedRows s.log).flatten.countP (fun row => !row.failed) ∧
    s.metrics.failed = (recordedRows s.log).flatten.countP (fun row => row.failed)

theorem countP_recordedRows (p : EvalResult → Bool) (cause : Cause) (batch : Batch)
    (rows : List EvalResult) (log : List Event) :
    (recordedRows (.recorded cause batch rows :: log)).flatten.countP p
      = (recordedRows log).flatten.countP p + rows.countP p := by
  rw [recordedRows_cons, List.flatten_append, List.countP_append, List.flatten_singleton]

theorem Sys.CountsRows.failedRows {s : Sys σ} (h : s.CountsRows) {cause : Cause} {batch : Batch}
    {rows : List EvalResult} (hrows : ∀ row ∈ rows, row.failed = true) {n : Nat}
    (hn : n = rows.length) : ((s.countFailed n).handOver w cause batch rows).CountsRows := by
  have hnone : rows.countP (fun row => !row.failed) = 0 :=
    List.countP_eq_zero.2 (fun row hrow hok => by rw [hrows row hrow] at hok; cases hok)
  have hall : rows.countP (fun row => row.failed) = rows.length := List.countP_eq_length.2 hrows
  constructor
  · refine Eq.trans ?_ (countP_recordedRows _ cause batch rows s.log).symm
    rw [hnone]
    exact h.1
  · refine Eq.trans ?_ (countP_recordedRows _ cause batch rows s.log).symm
    rw [hall, ← hn]
    exact congrArg (· + n) h.2

namespace Saturation

open ShardedAggregator

variable {jsonLine : EvalResult → String} {generators : PurePath → Nat → Nat → Nat} {files : Files}

end Saturation

end EvalHarness
