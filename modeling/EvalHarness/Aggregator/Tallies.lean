import EvalHarness.Aggregator.Summaries

set_option autoImplicit false

/-! # The counters of a summary

The latencies of a summary are sampled, its counters are not: however many results there are and
however they are routed, they are counted exactly. -/

namespace EvalHarness

namespace ShardState

/-- The counters of a state are those of the given results. -/
structure Tallies (state : ShardState) (rows : Multiset EvalResult) : Prop where
  count : state.count = rows.card
  failed : state.failed = (rows.filter (fun row => row.failed)).card
  succeeded : state.succeeded = (rows.filter (fun row => ¬ row.failed)).card
  perWorker : ∀ workerId, state.perWorker.get? workerId
    = if (rows.map EvalResult.workerId).count workerId = 0 then none
      else some ((rows.map EvalResult.workerId).count workerId)

theorem Tallies.merge {state state' : ShardState} {rows rows' : Multiset EvalResult}
    (h : state.Tallies rows) (h' : state'.Tallies rows') :
    (state.merge state').Tallies (rows + rows') where
  count := by simp [ShardState.merge, h.count, h'.count]
  failed := by simp [ShardState.merge, h.failed, h'.failed]
  succeeded := by
    rw [ShardState.merge, h.succeeded, h'.succeeded, Multiset.filter_add, Multiset.card_add]
  perWorker := by
    intro workerId
    simp only [ShardState.merge, Dict.get?_tally_entries, h.perWorker, h'.perWorker,
      Multiset.map_add, Multiset.count_add]
    generalize (rows.map EvalResult.workerId).count workerId = n
    generalize (rows'.map EvalResult.workerId).count workerId = n'
    rcases n with _ | n <;> rcases n' with _ | n' <;> simp

end ShardState

namespace ResultsAggregatorImpl

variable (draws : Nat → Nat → Nat) {jsonLine : EvalResult → String}

end ResultsAggregatorImpl

namespace ShardedAggregator

variable {agg : ShardedAggregator} {jsonLine : EvalResult → String} {files : Files}
  {rows : List EvalResult}

end ShardedAggregator

end EvalHarness
