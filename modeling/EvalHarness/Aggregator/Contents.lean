import EvalHarness.Aggregator.State

set_option autoImplicit false

/-! # What a state says about the results behind it

A state is read as a report about a multiset of results: every field is a number, a multiset or a
dictionary that the results determine, whatever order they came in. Counting a result adds it to the
multiset, merging two states adds their multisets, and two states about the same results have the
same summary. Up to the cap of the reservoirs, that is: from there on the samples are a choice. -/

namespace EvalHarness

/-- The succeeded ones among some results. -/
def okRows (rows : Multiset EvalResult) : Multiset EvalResult :=
  rows.filter (fun row => row.succeeded)

@[simp] theorem okRows_zero : okRows 0 = 0 := rfl

@[simp] theorem okRows_add (rows more : Multiset EvalResult) :
    okRows (rows + more) = okRows rows + okRows more :=
  Multiset.filter_add _ _ _

theorem card_okRows_le (rows : Multiset EvalResult) : (okRows rows).card ≤ rows.card :=
  Multiset.card_le_card (Multiset.filter_le _ _)

theorem card_filterMap_le {α β : Type} (f : α → Option β) (rows : Multiset α) :
    (rows.filterMap f).card ≤ rows.card :=
  Quotient.inductionOn rows (fun l => List.length_filterMap_le f l)

namespace ShardState

/-- The state of a shard that has counted the given results, each of them sampled. -/
structure Describes (state : ShardState) (rows : Multiset EvalResult) : Prop where
  count : state.count = rows.card
  succeeded : state.succeeded = (okRows rows).card
  failed : state.failed = (rows.filter (fun row => row.failed)).card
  stoppedEarly : state.stoppedEarly = ((okRows rows).filter (fun row => row.stoppedEarly)).card
  scoreSum : state.scoreSum = ((okRows rows).map EvalResult.score).sum
  scoreMin : state.scoreMin = ((okRows rows).map (fun row => (row.score : WithTop ℚ))).inf
  scoreMax : state.scoreMax = ((okRows rows).map (fun row => (row.score : WithBot ℚ))).sup
  latencySum : state.latencySum = ((okRows rows).map EvalResult.latencySeconds).sum
  latencySamples : (state.latencySamples : Multiset ℚ)
    = (okRows rows).map EvalResult.latencySeconds
  batchLatencySamples : (state.batchLatencySamples : Multiset ℚ)
    = (okRows rows).filterMap EvalResult.batchLatencySeconds
  tokensTotal : state.tokensTotal = ((okRows rows).map EvalResult.tokensGenerated).sum
  perWorker : ∀ workerId, state.perWorker.get? workerId
    = if (rows.map EvalResult.workerId).count workerId = 0 then none
      else some ((rows.map EvalResult.workerId).count workerId)
  conditionScores : (state.conditionScores : Multiset (List (String × ℚ)))
    = ((okRows rows).map EvalResult.conditionScores).filter (fun scores => scores ≠ [])

theorem describes_empty : Describes {} 0 where
  count := rfl
  succeeded := rfl
  failed := rfl
  stoppedEarly := rfl
  scoreSum := rfl
  scoreMin := rfl
  scoreMax := rfl
  latencySum := rfl
  latencySamples := rfl
  batchLatencySamples := rfl
  tokensTotal := rfl
  perWorker := fun _ => rfl
  conditionScores := rfl

variable {state state' : ShardState} {rows rows' : Multiset EvalResult}

/-! ## Merging -/

/-- The state merged from two is about the results of both. -/
theorem Describes.merge (h : state.Describes rows) (h' : state'.Describes rows') :
    (state.merge state').Describes (rows + rows') where
  count := by simp [ShardState.merge, h.count, h'.count]
  succeeded := by simp [ShardState.merge, h.succeeded, h'.succeeded]
  failed := by simp [ShardState.merge, h.failed, h'.failed]
  stoppedEarly := by simp [ShardState.merge, h.stoppedEarly, h'.stoppedEarly]
  scoreSum := by simp [ShardState.merge, h.scoreSum, h'.scoreSum]
  scoreMin := by simp [ShardState.merge, h.scoreMin, h'.scoreMin]
  scoreMax := by simp [ShardState.merge, h.scoreMax, h'.scoreMax]
  latencySum := by simp [ShardState.merge, h.latencySum, h'.latencySum]
  latencySamples := by
    simp [ShardState.merge, ← Multiset.coe_add, h.latencySamples, h'.latencySamples]
  batchLatencySamples := by
    simp [ShardState.merge, ← Multiset.coe_add, h.batchLatencySamples, h'.batchLatencySamples,
      Multiset.filterMap_add]
  tokensTotal := by simp [ShardState.merge, h.tokensTotal, h'.tokensTotal]
  perWorker := by
    intro workerId
    simp only [ShardState.merge, Dict.get?_tally_entries, h.perWorker, h'.perWorker,
      Multiset.map_add, Multiset.count_add]
    generalize (rows.map EvalResult.workerId).count workerId = n
    generalize (rows'.map EvalResult.workerId).count workerId = n'
    rcases n with _ | n <;> rcases n' with _ | n' <;> simp
  conditionScores := by
    simp [ShardState.merge, ← Multiset.coe_add, h.conditionScores, h'.conditionScores]

/-- Something that holds of nothing and is kept by merging holds of the merged state. -/
theorem mergeStates_rule {About : ShardState → Multiset EvalResult → Prop} (hnone : About {} 0)
    (hmerge : ∀ {state state' rows rows'}, About state rows → About state' rows' →
      About (state.merge state') (rows + rows'))
    {ι : Type} {shards : List ι} {state : ι → ShardState} {rows : ι → Multiset EvalResult}
    (h : ∀ i ∈ shards, About (state i) (rows i)) :
    About (mergeStates (shards.map state)) (shards.map rows).sum := by
  have hfrom : ∀ {merged : ShardState} {counted : Multiset EvalResult}, About merged counted →
      About ((shards.map state).foldl ShardState.merge merged)
        (counted + (shards.map rows).sum) := by
    induction shards with
    | nil => intro merged counted hmerged; simpa using hmerged
    | cons i shards ih =>
        intro merged counted hmerged
        have hrest := ih (fun j hj => h j (List.mem_cons_of_mem _ hj))
          (hmerge hmerged (h i List.mem_cons_self))
        simpa [add_assoc] using hrest
  simpa [mergeStates] using hfrom hnone

/-- The state of a shard that has counted a single result. -/
def ofRow (row : EvalResult) : ShardState :=
  if row.succeeded then
    { count := 1
      succeeded := 1
      stoppedEarly := if row.stoppedEarly then 1 else 0
      scoreSum := row.score
      scoreMin := row.score
      scoreMax := row.score
      latencySum := row.latencySeconds
      latencySamples := [row.latencySeconds]
      latencySeen := 1
      batchLatencySamples := row.batchLatencySeconds.toList
      batchLatencySeen := row.batchLatencySeconds.toList.length
      tokensTotal := row.tokensGenerated
      perWorker := Dict.empty.bump row.workerId 1
      conditionScores := if row.conditionScores.isEmpty then [] else [row.conditionScores] }
  else
    { count := 1, failed := 1, perWorker := Dict.empty.bump row.workerId 1 }

theorem describes_ofRow (row : EvalResult) : (ofRow row).Describes {row} := by
  have hperWorker : ∀ workerId, ((Dict.empty : Dict Int Nat).bump row.workerId 1).get? workerId
      = if (Multiset.map EvalResult.workerId {row}).count workerId = 0 then none
        else some ((Multiset.map EvalResult.workerId {row}).count workerId) := by
    intro workerId
    by_cases hid : workerId = row.workerId
    · simp [Dict.get?_bump, hid]
    · simp [Dict.get?_bump, hid]
  by_cases hrow : row.succeeded
  · have hok : okRows {row} = {row} := by simp [okRows, hrow]
    have hnot : row.failed = false := by simpa [EvalResult.succeeded] using hrow
    have hbatch : Multiset.filterMap EvalResult.batchLatencySeconds {row}
        = row.batchLatencySeconds.toList := by
      cases hb : row.batchLatencySeconds with
      | none => exact Multiset.filterMap_cons_none row 0 hb
      | some value => exact Multiset.filterMap_cons_some _ row 0 hb
    exact
      { count := by simp [ofRow, hrow]
        succeeded := by simp [ofRow, hrow, hok]
        failed := by simp [ofRow, hrow, hnot, Multiset.filter_singleton]
        stoppedEarly := by
          by_cases hstopped : row.stoppedEarly <;>
            simp [ofRow, hrow, hok, hstopped, Multiset.filter_singleton]
        scoreSum := by simp [ofRow, hrow, hok]
        scoreMin := by simp [ofRow, hrow, hok]
        scoreMax := by simp [ofRow, hrow, hok]
        latencySum := by simp [ofRow, hrow, hok]
        latencySamples := by simp [ofRow, hrow, hok]
        batchLatencySamples := by simp [ofRow, hrow, hok, hbatch]
        tokensTotal := by simp [ofRow, hrow, hok]
        perWorker := by simpa only [ofRow, hrow, if_true] using hperWorker
        conditionScores := by
          by_cases hscores : row.conditionScores = [] <;>
            simp [ofRow, hrow, hok, hscores, Multiset.filter_singleton] }
  · have hok : okRows {row} = 0 := by simp [okRows, hrow]
    have hfailed : row.failed = true := by simpa [EvalResult.succeeded] using hrow
    exact
      { count := by simp [ofRow, hrow]
        succeeded := by simp [ofRow, hrow, hok]
        failed := by simp [ofRow, hrow, hfailed, Multiset.filter_singleton]
        stoppedEarly := by simp [ofRow, hrow, hok]
        scoreSum := by simp [ofRow, hrow, hok]
        scoreMin := by simp [ofRow, hrow, hok]
        scoreMax := by simp [ofRow, hrow, hok]
        latencySum := by simp [ofRow, hrow, hok]
        latencySamples := by simp [ofRow, hrow, hok]
        batchLatencySamples := by simp [ofRow, hrow, hok]
        tokensTotal := by simp [ofRow, hrow, hok]
        perWorker := by simpa only [ofRow, if_neg hrow] using hperWorker
        conditionScores := by simp [ofRow, hrow, hok] }

end ShardState

/-! ## Counting -/

theorem reservoirAppend_of_lt {α : Type} (draws : Nat → Nat → Nat) {cap : Nat} {samples : List α}
    (h : samples.length < cap) (seenBefore : Nat) (value : α) (drawn : Nat) :
    reservoirAppend draws cap samples seenBefore value drawn = (samples ++ [value], drawn) :=
  if_pos h

namespace ResultsAggregatorImpl

open ShardState

variable {draws : Nat → Nat → Nat} {s : ResultsAggregatorImpl} {rows : Multiset EvalResult}

/-- Below the cap, counting a result is merging the state of this one result. -/
theorem countResult_eq_merge (row : EvalResult) (hlatency : s.latencySamples.length < reservoirCap)
    (hbatch : s.batchLatencySamples.length < reservoirCap) :
    (s.countResult draws row).toShardState = s.toShardState.merge (ofRow row) := by
  have hone : s.perWorker.tally (Dict.empty.bump row.workerId 1).entries
      = s.perWorker.bump row.workerId 1 := rfl
  have hstopped : (if row.stoppedEarly = true then s.stoppedEarly + 1 else s.stoppedEarly)
      = s.stoppedEarly + if row.stoppedEarly = true then 1 else 0 := by
    split <;> rfl
  have hscores : (if row.conditionScores = [] then s.conditionScores
        else s.conditionScores ++ [row.conditionScores])
      = s.conditionScores ++ if row.conditionScores = [] then [] else [row.conditionScores] := by
    split
    · exact (List.append_nil _).symm
    · rfl
  unfold countResult ofRow
  by_cases hrow : row.succeeded
  · simp only [hrow, if_true, sampleLatency, reservoirAppend_of_lt draws hlatency,
      ShardState.merge, hone]
    cases hb : row.batchLatencySeconds with
    | none => simp [sampleBatchLatency, hstopped, hscores]
    | some value =>
        simp [sampleBatchLatency, reservoirAppend_of_lt draws hbatch, hstopped, hscores]
  · simp [hrow, ShardState.merge, hone]

/-- Below the cap, counting a result adds it to the ones described. -/
theorem describes_countResult (h : s.Describes rows) (hcap : rows.card < reservoirCap)
    (row : EvalResult) : (s.countResult draws row).Describes (rows + {row}) := by
  have hlatency : s.latencySamples.length ≤ rows.card := by
    have hcard := congrArg Multiset.card h.latencySamples
    rw [Multiset.coe_card, Multiset.card_map] at hcard
    exact hcard.trans_le (card_okRows_le rows)
  have hbatch : s.batchLatencySamples.length ≤ rows.card := by
    have hcard := congrArg Multiset.card h.batchLatencySamples
    rw [Multiset.coe_card] at hcard
    exact hcard.trans_le ((card_filterMap_le _ _).trans (card_okRows_le rows))
  rw [countResult_eq_merge row (hlatency.trans_lt hcap) (hbatch.trans_lt hcap)]
  exact h.merge (describes_ofRow row)

/-- Up to the cap, the state after recording is about the recorded results. -/
theorem describes_foldl_ingested {jsonLine : EvalResult → String} (h : s.Describes rows)
    {recorded : List EvalResult} (hcap : rows.card + recorded.length ≤ reservoirCap) :
    (recorded.foldl (ingested draws jsonLine) s).Describes (rows + recorded) := by
  induction recorded generalizing s rows with
  | nil => simpa using h
  | cons row recorded ih =>
      rw [List.length_cons] at hcap
      have hnext : (s.ingested draws jsonLine row).Describes (rows + {row}) :=
        describes_countResult h (by omega) row
      have hrest := ih hnext (by rw [Multiset.card_add, Multiset.card_singleton]; omega)
      rwa [add_assoc, Multiset.singleton_add, Multiset.cons_coe] at hrest

/-- Up to the cap, a new aggregator that records some batches is about their results. -/
theorem describes_recordAll {jsonLine : EvalResult → String} (totalTasks : Nat) (path : PurePath)
    (files : Files) {batches : List (List EvalResult)}
    (hcap : batches.flatten.length ≤ reservoirCap) :
    ((init totalTasks path files).recordAll (fun row => .ok (jsonLine row)) draws batches).Describes
      batches.flatten := by
  have hinit : (init totalTasks path files).Describes 0 := describes_empty
  have hlength : (0 : Multiset EvalResult).card + batches.flatten.length ≤ reservoirCap := by
    simpa using hcap
  rw [recordAll_eq rfl]
  simpa using describes_foldl_ingested hinit hlength

end ResultsAggregatorImpl

/-! ## Summaries -/

namespace Summary

/-- The same statistics: everything but the clock and the names and the number of the files.
    Dictionaries are compared as Python compares them, binding by binding. -/
structure Same (a b : Summary) : Prop where
  total : a.total = b.total
  totalIntake : a.totalIntake = b.totalIntake
  succeeded : a.succeeded = b.succeeded
  failed : a.failed = b.failed
  stoppedEarly : a.stoppedEarly = b.stoppedEarly
  successRate : a.successRate = b.successRate
  meanScore : a.meanScore = b.meanScore
  minScore : a.minScore = b.minScore
  maxScore : a.maxScore = b.maxScore
  meanLatencyS : a.meanLatencyS = b.meanLatencyS
  p99LatencyS : a.p99LatencyS = b.p99LatencyS
  meanBatchLatencyS : a.meanBatchLatencyS = b.meanBatchLatencyS
  p99BatchLatencyS : a.p99BatchLatencyS = b.p99BatchLatencyS
  meanTokensGenerated : a.meanTokensGenerated = b.meanTokensGenerated
  perWorkerCounts : ∀ workerId, a.perWorkerCounts.get? workerId = b.perWorkerCounts.get? workerId
  conditionStats : ∀ name, a.conditionStats.get? name = b.conditionStats.get? name

theorem Same.trans {a b c : Summary} (h : a.Same b) (h' : b.Same c) : a.Same c where
  total := h.total.trans h'.total
  totalIntake := h.totalIntake.trans h'.totalIntake
  succeeded := h.succeeded.trans h'.succeeded
  failed := h.failed.trans h'.failed
  stoppedEarly := h.stoppedEarly.trans h'.stoppedEarly
  successRate := h.successRate.trans h'.successRate
  meanScore := h.meanScore.trans h'.meanScore
  minScore := h.minScore.trans h'.minScore
  maxScore := h.maxScore.trans h'.maxScore
  meanLatencyS := h.meanLatencyS.trans h'.meanLatencyS
  p99LatencyS := h.p99LatencyS.trans h'.p99LatencyS
  meanBatchLatencyS := h.meanBatchLatencyS.trans h'.meanBatchLatencyS
  p99BatchLatencyS := h.p99BatchLatencyS.trans h'.p99BatchLatencyS
  meanTokensGenerated := h.meanTokensGenerated.trans h'.meanTokensGenerated
  perWorkerCounts := fun workerId =>
    (h.perWorkerCounts workerId).trans (h'.perWorkerCounts workerId)
  conditionStats := fun name => (h.conditionStats name).trans (h'.conditionStats name)

end Summary

theorem sorted_eq_of_perm {values values' : List ℚ} (h : values.Perm values') :
    sorted values = sorted values' := by
  have hperm : (sorted values).Perm (sorted values') :=
    (List.perm_insertionSort _ _).trans (h.trans (List.perm_insertionSort _ _).symm)
  exact List.Perm.eq_of_pairwise' (List.pairwise_insertionSort _ _)
    (List.pairwise_insertionSort _ _) hperm

theorem aggregateConditionScores_perm {all all' : List (List (String × ℚ))} (h : all.Perm all')
    (name : String) :
    (aggregateConditionScores all).get? name = (aggregateConditionScores all').get? name := by
  have hflat : all.flatten.Perm all'.flatten := h.flatten
  simp only [aggregateConditionScores, Dict.get?_mapValues]
  rw [Dict.get?_tally_perm _ hflat, Dict.get?_tally_perm _ (hflat.map _),
    Dict.get?_tally_perm _ ((hflat.filter _).map _)]

namespace ShardState

variable {state state' : ShardState} {rows : Multiset EvalResult}

/-- Two states about the same results have the same summary. -/
theorem Describes.same (h : state.Describes rows) (h' : state'.Describes rows) (totalTasks : Nat)
    (elapsed elapsed' : ℚ) (file file' : String) :
    (summarizeState state totalTasks elapsed file).Same
      (summarizeState state' totalTasks elapsed' file') := by
  have hlatency : sorted state.latencySamples = sorted state'.latencySamples :=
    sorted_eq_of_perm (Multiset.coe_eq_coe.1 (h.latencySamples.trans h'.latencySamples.symm))
  have hbatch : sorted state.batchLatencySamples = sorted state'.batchLatencySamples :=
    sorted_eq_of_perm
      (Multiset.coe_eq_coe.1 (h.batchLatencySamples.trans h'.batchLatencySamples.symm))
  have hcount := h.count.trans h'.count.symm
  have hsucceeded := h.succeeded.trans h'.succeeded.symm
  exact
    { total := hcount
      totalIntake := rfl
      succeeded := hsucceeded
      failed := h.failed.trans h'.failed.symm
      stoppedEarly := h.stoppedEarly.trans h'.stoppedEarly.symm
      successRate := by simp only [summarizeState, hcount, hsucceeded]
      meanScore := by simp only [summarizeState, hsucceeded, h.scoreSum, h'.scoreSum]
      minScore := by simp only [summarizeState, h.scoreMin, h'.scoreMin]
      maxScore := by simp only [summarizeState, h.scoreMax, h'.scoreMax]
      meanLatencyS := by simp only [summarizeState, hsucceeded, h.latencySum, h'.latencySum]
      p99LatencyS := by simp only [summarizeState, hlatency]
      meanBatchLatencyS := by simp only [summarizeState, hbatch]
      p99BatchLatencyS := by simp only [summarizeState, hbatch]
      meanTokensGenerated := by
        simp only [summarizeState, hsucceeded, h.tokensTotal, h'.tokensTotal]
      perWorkerCounts := fun workerId => (h.perWorker workerId).trans (h'.perWorker workerId).symm
      conditionStats := aggregateConditionScores_perm
        (Multiset.coe_eq_coe.1 (h.conditionScores.trans h'.conditionScores.symm)) }

end ShardState

end EvalHarness
