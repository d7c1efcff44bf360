import EvalHarness.Coordinator.Slots
import EvalHarness.Lib.Ledger
import EvalHarness.Coordinator.Accounting
import EvalHarness.Coordinator.Conservation
import EvalHarness.Coordinator.Budget
import EvalHarness.Coordinator.Waiting
import EvalHarness.Coordinator.Timeouts
import EvalHarness.Coordinator.Actors
import EvalHarness.Coordinator.Shutdown
import EvalHarness.Coordinator.Progress
import EvalHarness.Lib.RetryForest
import EvalHarness.Coordinator.Attempts
import EvalHarness.Coordinator.Fate
import EvalHarness.Coordinator.Splits
import EvalHarness.Coordinator.Bisection
import EvalHarness.Coordinator.Instant
import EvalHarness.FaultInjection
import EvalHarness.Coordinator.Reproducible
import EvalHarness.FaultInjection.Simulation
import EvalHarness.Coordinator.Admissions
import EvalHarness.Coordinator.Pool
import EvalHarness.Coordinator.WorkerIds
import EvalHarness.Coordinator.Forest
import EvalHarness.Coordinator.Recording
import EvalHarness.Coordinator.Logged
import EvalHarness.Coordinator.Retired
import EvalHarness.Aggregator.Paths
import EvalHarness.Aggregator.State
import EvalHarness.Aggregator.Contents
import EvalHarness.Aggregator.Shards
import EvalHarness.Aggregator.Summaries
import EvalHarness.Aggregator.Merged
import EvalHarness.Lib.Text
import EvalHarness.DocentAdapter
import EvalHarness.Aggregator.Reservoirs
import EvalHarness.Aggregator.Means
import EvalHarness.Aggregator.Counters
import EvalHarness.Lib.CutText
import EvalHarness.Hooks
import EvalHarness.HookCriterion
import EvalHarness.Lib.Largest
import EvalHarness.Scoring
import EvalHarness.Scoring.Topic
import EvalHarness.Scoring.Negation
import EvalHarness.Scoring.PassRates
import EvalHarness.Scoring.Occurrences
import EvalHarness.Coordinator.Backoffs
import EvalHarness.Coordinator.Termination
import EvalHarness.Bench.SampleProgress
import EvalHarness.Coordinator.Chains
import EvalHarness.Bench.Measure
import EvalHarness.Lib.Grid
import EvalHarness.Lib.Ranks
import EvalHarness.Bench.Recording
import EvalHarness.Worker.Actor
import EvalHarness.Worker.Requests
import EvalHarness.Worker.Answers
import EvalHarness.Worker.Health
import EvalHarness.Worker.Hooked
import EvalHarness.Worker.Backends
import EvalHarness.Lib.Digits
import EvalHarness.Lib.Counts
import EvalHarness.Bench.RunLog
import EvalHarness.Bench.Report
import EvalHarness.Bench.Progress
import EvalHarness.Main
import EvalHarness.Aggregator.Tallies
import EvalHarness.Bench.KillTest
import EvalHarness.DocentAdapter.AgentRuns
import EvalHarness.Lib.Spans
import EvalHarness.Bench.SteadyState
import EvalHarness.Bench.Saturation
import EvalHarness.Lib.Resumable
import EvalHarness.Bench.Sweep
