import EvalHarness.Aggregator.Merged
import EvalHarness.Aggregator.Reservoirs
import EvalHarness.Aggregator.Summaries

set_option autoImplicit false

/-! # The means of a summary

Scores, latencies and tokens are summed up, and their means are exact however long a run is. The
mean of the batch latencies is taken over the samples that the shards have kept. -/

namespace EvalHarness

/-- The mean of some values, 0 if there are none. -/
def mean (values : List ℚ) : ℚ := values.sum / values.length

theorem mean_perm {values values' : List ℚ} (h : values.Perm values') :
    mean values = mean values' := by
  rw [mean, mean, h.sum_eq, h.length_eq]

theorem length_mul_mean (values : List ℚ) : values.length * mean values = values.sum := by
  cases values with
  | nil => simp
  | cons value values =>
      refine mul_div_cancel₀ _ (Nat.cast_ne_zero.2 ?_)
      simp

/-- Equal values are all equal to their mean. -/
theorem eq_mean_of_level {values : List ℚ} (h : ∀ v ∈ values, ∀ w ∈ values, v = w) {v : ℚ}
    (hv : v ∈ values) : v = mean values := by
  have hpos : (values.length : ℚ) ≠ 0 := Nat.cast_ne_zero.2 (List.length_pos_of_mem hv).ne'
  have hsum : values.sum = values.length * v := by
    rw [List.sum_eq_card_nsmul values v (fun w hw => h w hw v hv), nsmul_eq_mul]
  rw [mean, hsum, mul_div_cancel_left₀ _ hpos]

/-- A mean that does not notice that a value is replaced: the value was the same. -/
theorem eq_of_mean_set {values others : List ℚ} {j : Nat} {w : ℚ} (hj : j < values.length)
    (h : mean (values ++ others) = mean (values.set j w ++ others)) : values[j] = w := by
  have hpos : ((values ++ others).length : ℚ) ≠ 0 := by
    rw [List.length_append]
    exact Nat.cast_ne_zero.2 (by omega)
  have hlength : (values.set j w ++ others).length = (values ++ others).length := by simp
  rw [mean, mean, hlength, div_left_inj' hpos, List.sum_append, List.sum_append, List.sum_set',
    dif_pos hj] at h
  linarith

namespace ShardState

/-! ## Sums -/

/-- The sums of a state are those of the given results, sampled or not. -/
structure Totals (state : ShardState) (rows : Multiset EvalResult) : Prop where
  succeeded : state.succeeded = (okRows rows).card
  scoreSum : state.scoreSum = ((okRows rows).map EvalResult.score).sum
  latencySum : state.latencySum = ((okRows rows).map EvalResult.latencySeconds).sum
  tokensTotal : state.tokensTotal = ((okRows rows).map EvalResult.tokensGenerated).sum

theorem totals_empty : Totals {} 0 := ⟨rfl, rfl, rfl, rfl⟩

theorem Totals.merge {state state' : ShardState} {rows rows' : Multiset EvalResult}
    (h : state.Totals rows) (h' : state'.Totals rows') :
    (state.merge state').Totals (rows + rows') where
  succeeded := by simp [ShardState.merge, h.succeeded, h'.succeeded]
  scoreSum := by simp [ShardState.merge, h.scoreSum, h'.scoreSum]
  latencySum := by simp [ShardState.merge, h.latencySum, h'.latencySum]
  tokensTotal := by simp [ShardState.merge, h.tokensTotal, h'.tokensTotal]

end ShardState

namespace ResultsAggregatorImpl

open ShardState

variable (draws : Nat → Nat → Nat) {jsonLine : EvalResult → String}

theorem countResult_of_succeeded (s : ResultsAggregatorImpl) {row : EvalResult}
    (hrow : row.succeeded = true) :
    (s.countResult draws row).succeeded = s.succeeded + 1
      ∧ (s.countResult draws row).scoreSum = s.scoreSum + row.score
      ∧ (s.countResult draws row).latencySum = s.latencySum + row.latencySeconds
      ∧ (s.countResult draws row).tokensTotal = s.tokensTotal + row.tokensGenerated := by
  unfold countResult
  cases hb : row.batchLatencySeconds <;> simp [hrow, sampleLatency, sampleBatchLatency]

theorem countResult_of_failed (s : ResultsAggregatorImpl) {row : EvalResult}
    (hrow : ¬ row.succeeded = true) :
    (s.countResult draws row).succeeded = s.succeeded
      ∧ (s.countResult draws row).scoreSum = s.scoreSum
      ∧ (s.countResult draws row).latencySum = s.latencySum
      ∧ (s.countResult draws row).tokensTotal = s.tokensTotal := by
  simp [countResult, hrow]

/-- Counting a result adds it to the sums, however many there are. -/
theorem totals_countResult {s : ResultsAggregatorImpl} {rows : Multiset EvalResult}
    (h : s.Totals rows) (row : EvalResult) : (s.countResult draws row).Totals (rows + {row}) := by
  by_cases hrow : row.succeeded
  · have hok : okRows {row} = {row} := by simp [okRows, hrow]
    obtain ⟨hsucceeded, hscore, hlatency, htokens⟩ := countResult_of_succeeded draws s hrow
    exact ⟨by simp [hsucceeded, h.succeeded, hok], by simp [hscore, h.scoreSum, hok],
      by simp [hlatency, h.latencySum, hok], by simp [htokens, h.tokensTotal, hok]⟩
  · have hok : okRows {row} = 0 := by simp [okRows, hrow]
    obtain ⟨hsucceeded, hscore, hlatency, htokens⟩ := countResult_of_failed draws s hrow
    exact ⟨by simp [hsucceeded, h.succeeded, hok], by simp [hscore, h.scoreSum, hok],
      by simp [hlatency, h.latencySum, hok], by simp [htokens, h.tokensTotal, hok]⟩

theorem totals_foldl_ingested (totalTasks : Nat) (path : PurePath) (files : Files)
    (rows : List EvalResult) :
    (rows.foldl (ingested draws jsonLine) (init totalTasks path files)).Totals rows := by
  induction rows using List.reverseRecOn with
  | nil => exact totals_empty
  | append_singleton rows row ih =>
      rw [List.foldl_append, List.foldl_cons, List.foldl_nil, ← Multiset.coe_add,
        Multiset.coe_singleton]
      exact totals_countResult draws ih row

end ResultsAggregatorImpl

theorem batchLatencySamples_mergeStates (states : List ShardState) :
    (mergeStates states).batchLatencySamples
      = states.flatMap ShardState.batchLatencySamples := by
  have hfrom : ∀ merged : ShardState, (states.foldl ShardState.merge merged).batchLatencySamples
      = merged.batchLatencySamples ++ states.flatMap ShardState.batchLatencySamples := by
    induction states with
    | nil => simp
    | cons state states ih =>
        intro merged
        rw [List.foldl_cons, ih, List.flatMap_cons, ← List.append_assoc]
        rfl
  exact hfrom {}

/-! ## Summaries -/

/-- The means of a summary are those over the succeeded results, the mean of the batch latencies
    over those that carry one. -/
structure Summary.MeansExact (summary : Summary) (rows : List EvalResult) : Prop where
  score : summary.meanScore = mean ((rows.filter EvalResult.succeeded).map EvalResult.score)
  latency : summary.meanLatencyS = mean (latencies rows)
  batchLatency : summary.meanBatchLatencyS = mean (batchLatencies rows)
  tokens : summary.meanTokensGenerated
    = mean ((rows.filter EvalResult.succeeded).map (fun row => (row.tokensGenerated : ℚ)))

theorem meanBatchLatencyS_eq (state : ShardState) (totalTasks : Nat) (elapsed : ℚ) (file : String) :
    (summarizeState state totalTasks elapsed file).meanBatchLatencyS
      = mean state.batchLatencySamples := by
  have hmean : mean (sorted state.batchLatencySamples) = mean state.batchLatencySamples :=
    mean_perm (List.perm_insertionSort _ _)
  rw [← hmean]
  unfold summarizeState mean
  dsimp only
  split
  · next hnil => simp [List.isEmpty_iff.1 hnil]
  · rfl

/-- Of the means of a state that has counted everything, only that over samples is in question. -/
theorem meansExact_iff {state : ShardState} {rows : List EvalResult} (h : state.Totals rows)
    (totalTasks : Nat) (elapsed : ℚ) (file : String) :
    (summarizeState state totalTasks elapsed file).MeansExact rows ↔
      mean state.batchLatencySamples = mean (batchLatencies rows) := by
  have hok : okRows rows = (rows.filter EvalResult.succeeded : List EvalResult) := by
    simp [okRows]
  have hmean : ∀ (f : EvalResult → ℚ) (sum : ℚ), sum = ((okRows rows).map f).sum →
      (if 0 < state.succeeded then sum / state.succeeded else 0)
        = mean ((rows.filter EvalResult.succeeded).map f) := by
    intro f sum hsum
    rw [hsum, h.succeeded, hok, Multiset.map_coe, Multiset.sum_coe, Multiset.coe_card, mean,
      List.length_map]
    split
    · rfl
    · next hzero =>
        simp [List.length_eq_zero_iff.1 (Nat.eq_zero_of_not_pos hzero)]
  rw [← meanBatchLatencyS_eq state totalTasks elapsed file]
  constructor
  · exact fun hexact => hexact.batchLatency
  · intro hbatch
    refine ⟨hmean _ _ h.scoreSum, hmean _ _ h.latencySum, hbatch, hmean _ _ ?_⟩
    rw [h.tokensTotal, Nat.cast_multiset_sum, Multiset.map_map]
    rfl

namespace ShardedAggregator

variable (agg : ShardedAggregator) (rows : List EvalResult)

/-- The batch latencies that a shard gets to see. -/
def shardLatencies (i : Nat) : List ℚ := batchLatencies (shardRows agg.cfg.shardFor i rows)

/-- What the shards keep of the batch latencies represents them: a shard that cannot keep all of
    its own sees only one value, and the mean over the shards, each weighted by what it keeps, is
    the mean over all. -/
structure Represented : Prop where
  level : ∀ i < agg.nShards, reservoirCap < (agg.shardLatencies rows i).length →
    ∀ v ∈ agg.shardLatencies rows i, ∀ w ∈ agg.shardLatencies rows i, v = w
  weighted : ((List.range agg.nShards).map (fun i =>
        (min (agg.shardLatencies rows i).length reservoirCap : ℕ)
          * mean (agg.shardLatencies rows i))).sum
      / ((List.range agg.nShards).map (fun i =>
          ((min (agg.shardLatencies rows i).length reservoirCap : ℕ) : ℚ))).sum
    = mean (batchLatencies rows)

/-- What the shards keep, with the places they draw. -/
def keptLatencies (pick : Nat → Nat → Nat) : List ℚ :=
  (List.range agg.nShards).flatMap
    (fun i => Reservoir.feed reservoirCap (pick i) (agg.shardLatencies rows i))

variable {agg rows} {jsonLine : EvalResult → String} {files : Files}

/-- Whether the means are exact hangs on what the shards have kept of the batch latencies. -/
theorem summaryOf_means {generators : Nat → Nat → Nat → Nat} {shards : Nat → ResultsAggregatorImpl}
    (hserved : ∀ i < agg.nShards, agg.Served (generators i) jsonLine files rows i (shards i))
    (elapsed : ℚ) :
    ∃ pick : Nat → Nat → Nat, (∀ i < agg.nShards, ∀ k, ∃ n, pick i k = generators i n k)
      ∧ ((agg.summaryOf shards elapsed).MeansExact rows ↔
        mean (agg.keptLatencies rows pick) = mean (batchLatencies rows)) := by
  have htotals : ∀ i < agg.nShards, (shards i).Totals (shardRows agg.cfg.shardFor i rows) := by
    intro i hi
    rw [(hserved i hi).state]
    exact ResultsAggregatorImpl.totals_foldl_ingested _ _ _ _ _
  have hsampled : ∀ i, ∃ pick : Nat → Nat, i < agg.nShards → (∀ k, ∃ n, pick k = generators i n k)
      ∧ (shards i).batchLatencySamples
        = Reservoir.feed reservoirCap pick (agg.shardLatencies rows i) := by
    intro i
    by_cases hi : i < agg.nShards
    · have hstate : Sampled (generators i) (shardRows agg.cfg.shardFor i rows)
          (shards i).toShardState := by
        rw [(hserved i hi).state]
        exact sampled_foldl_ingested _ _ _ _
      obtain ⟨pick, hpick, hkept⟩ := hstate.batchLatency.picked
      exact ⟨pick, fun _ => ⟨hpick, hkept⟩⟩
    · exact ⟨generators i 0, fun hlt => absurd hlt hi⟩
  obtain ⟨pick, hpick⟩ := Classical.axiomOfChoice hsampled
  refine ⟨pick, fun i hi => (hpick i hi).1, ?_⟩
  rw [summaryOf]
  split
  · next hone =>
      have hall : shardRows agg.cfg.shardFor 0 rows = rows := shardRows_single agg.routed rows hone
      have hkept : agg.keptLatencies rows pick = (shards 0).batchLatencySamples := by
        rw [(hpick 0 (by omega)).2, keptLatencies, hone]
        simp
      have htotal := htotals 0 (by omega)
      rw [hall] at htotal
      rw [hkept]
      exact meansExact_iff htotal _ _ _
  · have hmerged := ShardState.mergeStates_rule ShardState.totals_empty ShardState.Totals.merge
      (fun i hi => htotals i (List.mem_range.1 hi))
    rw [sum_shardRows] at hmerged
    have hkept : agg.keptLatencies rows pick = (mergeStates ((List.range agg.nShards).map
        (fun i => (shards i).toShardState))).batchLatencySamples := by
      rw [batchLatencySamples_mergeStates, List.flatMap_map]
      exact List.flatMap_congr (fun i hi => (hpick i (List.mem_range.1 hi)).2.symm)
    rw [hkept, ← meansExact_iff hmerged agg.totalTasks elapsed agg.outputPath.text]
    exact ⟨fun h => ⟨h.score, h.latency, h.batchLatency, h.tokens⟩,
      fun h => ⟨h.score, h.latency, h.batchLatency, h.tokens⟩⟩

/-! ## When the means are exact -/

/-- As many values as are kept of a shard's latencies. -/
theorem length_keptLatencies (pick : Nat → Nat → Nat) :
    ((agg.keptLatencies rows pick).length : ℚ) = ((List.range agg.nShards).map (fun i =>
      ((min (agg.shardLatencies rows i).length reservoirCap : ℕ) : ℚ))).sum := by
  rw [keptLatencies, List.length_flatMap, Nat.cast_list_sum, List.map_map]
  refine congrArg List.sum (List.map_congr_left (fun i _ => ?_))
  rw [Function.comp_apply, Reservoir.length_feed]

/-- If the shards that cannot keep everything see one value each, it does not matter what is
    kept. -/
theorem mean_keptLatencies
    (hlevel : ∀ i < agg.nShards, reservoirCap < (agg.shardLatencies rows i).length →
      ∀ v ∈ agg.shardLatencies rows i, ∀ w ∈ agg.shardLatencies rows i, v = w)
    (pick : Nat → Nat → Nat) :
    mean (agg.keptLatencies rows pick)
      = ((List.range agg.nShards).map (fun i =>
          (min (agg.shardLatencies rows i).length reservoirCap : ℕ)
            * mean (agg.shardLatencies rows i))).sum
        / ((List.range agg.nShards).map (fun i =>
            ((min (agg.shardLatencies rows i).length reservoirCap : ℕ) : ℚ))).sum := by
  rw [mean, length_keptLatencies, keptLatencies, List.flatMap, List.sum_flatten, List.map_map]
  refine congrArg (· / _) (congrArg List.sum (List.map_congr_left (fun i hi => ?_)))
  have hlength : (Reservoir.feed reservoirCap (pick i) (agg.shardLatencies rows i)).length
      = min (agg.shardLatencies rows i).length reservoirCap := Reservoir.length_feed _
  rw [Function.comp_apply]
  by_cases hcap : (agg.shardLatencies rows i).length ≤ reservoirCap
  · rw [Reservoir.feed_of_le hcap, min_eq_left hcap, length_mul_mean]
  · have hvalues := hlevel i (List.mem_range.1 hi) (not_le.1 hcap)
    rw [← hlength, ← nsmul_eq_mul]
    exact List.sum_eq_card_nsmul _ _
      (fun v hv => eq_mean_of_level hvalues (Reservoir.mem_of_mem_feed hv))

/-- If it does not matter what is drawn, a value that is kept at first is the same as one that
    could replace it. -/
theorem eq_of_exact {m : ℚ}
    (h : ∀ pick : Nat → Nat → Nat, (∀ i k, pick i k ≤ k) → mean (agg.keptLatencies rows pick) = m)
    {i : Nat} (hi : i < agg.nShards) {j k : Nat} {v w : ℚ} (hj : j < reservoirCap)
    (hk : reservoirCap ≤ k) (hv : (agg.shardLatencies rows i)[j]? = some v)
    (hw : (agg.shardLatencies rows i)[k]? = some w) : v = w := by
  -- two runs: one keeps the first values, one replaces a single one of them by a later one
  let never : Nat → Nat → Nat := fun _ b => b
  let once : Nat → Nat → Nat := fun i' b => if i' = i ∧ b = k then j else b
  have honce : ∀ i' b, once i' b ≤ b := by
    intro i' b
    simp only [once]
    split
    · next heq => omega
    · exact le_rfl
  have hlt : k < (agg.shardLatencies rows i).length := (List.getElem?_eq_some_iff.1 hw).1
  let others : List ℚ := ((List.range agg.nShards).erase i).flatMap
    (fun i' => (agg.shardLatencies rows i').take reservoirCap)
  have hkept : ∀ pick : Nat → Nat → Nat, (∀ i' ≠ i, ∀ b, pick i' b = b) →
      (agg.keptLatencies rows pick).Perm
        (Reservoir.feed reservoirCap (pick i) (agg.shardLatencies rows i) ++ others) := by
    intro pick hpick
    have hperm := (List.perm_cons_erase (List.mem_range.2 hi)).flatMap_right
      (fun i' => Reservoir.feed reservoirCap (pick i') (agg.shardLatencies rows i'))
    have hothers : ((List.range agg.nShards).erase i).flatMap
        (fun i' => Reservoir.feed reservoirCap (pick i') (agg.shardLatencies rows i'))
          = others := by
      refine List.flatMap_congr (fun i' hi' => ?_)
      have hne : i' ≠ i := fun heq => List.nodup_range.not_mem_erase (heq ▸ hi')
      exact Reservoir.feed_of_never (fun b _ hb => by rwa [hpick i' hne])
    rwa [List.flatMap_cons, hothers] at hperm
  have hfirst : Reservoir.feed reservoirCap (never i) (agg.shardLatencies rows i)
      = (agg.shardLatencies rows i).take reservoirCap := Reservoir.feed_of_never (fun b _ hb => hb)
  have hreplaced : Reservoir.feed reservoirCap (once i) (agg.shardLatencies rows i)
      = ((agg.shardLatencies rows i).take reservoirCap).set j w := by
    refine Reservoir.feed_of_once hk hj (by simp [once]) (fun b hb hne => ?_) hw
    simpa [once, hne] using hb
  have hmean := (h never (fun _ b => le_rfl)).trans (h once honce).symm
  rw [mean_perm (hkept never (fun _ _ _ => rfl)), hfirst,
    mean_perm (hkept once (fun i' hne b => if_neg (fun hb => hne hb.1))), hreplaced] at hmean
  have htake : j < ((agg.shardLatencies rows i).take reservoirCap).length := by
    rw [List.length_take]
    omega
  have hsame := eq_of_mean_set htake hmean
  rw [List.getElem_take] at hsame
  exact (Option.some.inj (hv.symm.trans (List.getElem?_eq_getElem _))).trans hsame

theorem level_of_exact {m : ℚ}
    (h : ∀ pick : Nat → Nat → Nat, (∀ i k, pick i k ≤ k) → mean (agg.keptLatencies rows pick) = m)
    {i : Nat} (hi : i < agg.nShards) (hcap : reservoirCap < (agg.shardLatencies rows i).length) :
    ∀ v ∈ agg.shardLatencies rows i, ∀ w ∈ agg.shardLatencies rows i, v = w := by
  have hzero : 0 < reservoirCap := by decide
  have hfirst : (agg.shardLatencies rows i)[0]? = some (agg.shardLatencies rows i)[0] :=
    List.getElem?_eq_getElem _
  have hlast : (agg.shardLatencies rows i)[reservoirCap]?
      = some (agg.shardLatencies rows i)[reservoirCap] := List.getElem?_eq_getElem _
  have hall : ∀ v ∈ agg.shardLatencies rows i,
      v = (agg.shardLatencies rows i)[reservoirCap] := by
    intro v hv
    obtain ⟨a, ha⟩ := List.getElem?_of_mem hv
    by_cases hlt : a < reservoirCap
    · exact eq_of_exact h hi hlt le_rfl ha hlast
    · exact (eq_of_exact h hi hzero (not_lt.1 hlt) hfirst ha).symm.trans
        (eq_of_exact h hi hzero le_rfl hfirst hlast)
  exact fun v hv w hw => (hall v hv).trans (hall w hw).symm

/-- The summary of a run, and the places that were drawn for what its shards have kept. -/
theorem DrawnRun.means {generators : PurePath → Nat → Nat → Nat} {batches : List (List EvalResult)}
    {elapsed : ℚ} {s : Actors}
    (h : agg.DrawnRun (fun row => .ok (jsonLine row)) generators files s)
    (hsent : s.sent = agg.recordCalls batches ++ agg.summaryCalls elapsed)
    (hanswered : ∀ reply ∈ repliesFrom s (agg.recordCalls batches).length
      (agg.summaryCalls elapsed).length, reply.isSome) :
    ∃ summary pick, agg.getSummary elapsed (repliesFrom s (agg.recordCalls batches).length
        (agg.summaryCalls elapsed).length) = some summary
      ∧ (∀ i < agg.nShards, ∀ k, ∃ n, pick i k = generators (agg.shardPath i) n k)
      ∧ (summary.MeansExact batches.flatten ↔ mean (agg.keptLatencies batches.flatten pick)
        = mean (batchLatencies batches.flatten)) := by
  have hnone : Silent [] := fun _ hc => absurd hc List.not_mem_nil
  have hserved := DrawnRun.served_summaryCalls h hsent hnone hanswered
  obtain ⟨shards, hshards, hsummary⟩ := getSummary_served (fun k i call hcall =>
    (hserved k i call hcall).imp (fun shard hshard => ⟨generators shard.outputPath, hshard⟩))
  obtain ⟨pick, hpick, hmeans⟩ := summaryOf_means hshards elapsed
  exact ⟨_, pick, hsummary, hpick, hmeans⟩

variable (agg) in
/-- Whatever the shards draw, there is a run in which every call is answered. -/
theorem exists_answered (line : EvalResult → Except Exc String)
    (generators : PurePath → Nat → Nat → Nat) (files : Files)
    (calls more : List (Nat × ShardCall)) :
    ∃ s, agg.DrawnRun line generators files s ∧ s.sent = calls ++ more
      ∧ ∀ reply ∈ repliesFrom s calls.length more.length, reply.isSome := by
  let exec := fun shard : ResultsAggregatorImpl =>
    ResultsAggregatorImpl.exec line (generators shard.outputPath) shard
  let s := ((Mailbox.Actors.start (agg.start files)).sendAll (calls ++ more)).executeAll exec
    ((calls ++ more).map Prod.fst)
  have hrun : agg.DrawnRun line generators files s :=
    (Mailbox.Run.sendAll Relation.ReflTransGen.refl (fun _ _ => trivial)).executeAll _
  have hsent : s.sent = calls ++ more := by
    rw [Mailbox.sent_executeAll, (Mailbox.sendAll_start _).1]
  refine ⟨s, hrun, hsent, fun reply hreply => ?_⟩
  obtain ⟨k, hk, rfl⟩ := List.mem_map.1 hreply
  have hlt : calls.length + k < s.sent.length := by
    rw [hsent, List.length_append]
    have hk := List.mem_range.1 hk
    omega
  have hquiet : s.Quiet := Mailbox.quiet_executeAll exec (calls ++ more)
  rw [hrun.answers_of_quiet hquiet, Mailbox.replyOf, List.getElem?_eq_getElem hlt]
  rfl

/-- However many results there are and wherever they go: the means are exact, for any run of the
    shards and any numbers they draw, if and only if what is kept of the batch latencies represents
    them. -/
theorem means_exact_iff (agg : ShardedAggregator) (jsonLine : EvalResult → String) (files : Files)
    (batches : List (List EvalResult)) (elapsed : ℚ) :
    (∀ generators : PurePath → Nat → Nat → Nat, (∀ p n bound, generators p n bound ≤ bound) →
        ∀ s, agg.DrawnRun (fun row => .ok (jsonLine row)) generators files s →
          s.sent = agg.recordCalls batches ++ agg.summaryCalls elapsed →
          (∀ reply ∈ repliesFrom s (agg.recordCalls batches).length
            (agg.summaryCalls elapsed).length, reply.isSome) →
          ∃ summary, agg.getSummary elapsed (repliesFrom s (agg.recordCalls batches).length
              (agg.summaryCalls elapsed).length) = some summary
            ∧ summary.MeansExact batches.flatten)
      ↔ agg.Represented batches.flatten := by
  constructor
  · intro h
    have hexact : ∀ pick : Nat → Nat → Nat, (∀ i k, pick i k ≤ k) →
        mean (agg.keptLatencies batches.flatten pick) = mean (batchLatencies batches.flatten) := by
      intro pick hpick
      -- each file's generator gives the places of its shard
      let generators : PurePath → Nat → Nat → Nat := fun p _ bound =>
        pick (((List.range agg.nShards).find? (fun i => agg.shardPath i = p)).getD 0) bound
      obtain ⟨s, hrun, hsent, hanswered⟩ := exists_answered agg (fun row => .ok (jsonLine row))
        generators files (agg.recordCalls batches) (agg.summaryCalls elapsed)
      obtain ⟨summary, hsummary, hmeans⟩ :=
        h generators (fun p _ bound => hpick _ bound) s hrun hsent hanswered
      obtain ⟨summary', pick', hsummary', hpick', hiff⟩ := DrawnRun.means hrun hsent hanswered
      obtain rfl : summary = summary' := Option.some.inj (hsummary.symm.trans hsummary')
      rw [← hiff.1 hmeans]
      refine congrArg mean (List.flatMap_congr (fun i hi => ?_))
      have hi := List.mem_range.1 hi
      have hplaces : pick' i = pick i := by
        funext k
        obtain ⟨n, hn⟩ := hpick' i hi k
        rw [hn]
        simp only [generators]
        rw [find?_shardPath hi, Option.getD_some]
      rw [hplaces]
    have hlevel := fun i (hi : i < agg.nShards) => level_of_exact hexact hi
    refine ⟨hlevel, ?_⟩
    rw [← mean_keptLatencies hlevel (fun _ _ => 0)]
    exact hexact _ (fun _ k => Nat.zero_le k)
  · intro h generators _ s hrun hsent hanswered
    obtain ⟨summary, pick, hsummary, -, hiff⟩ := DrawnRun.means hrun hsent hanswered
    refine ⟨summary, hsummary, hiff.2 ?_⟩
    rw [mean_keptLatencies h.level, h.weighted]

/-! ## One result too many -/

def alone : ShardedAggregator where
  cfg :=
    { nWorkers := 1, batchSize := 1, tasks := []
      aggregatorShards := 1, shards_pos := Nat.one_pos, shardFor := fun _ => 0 }
  totalTasks := 0
  outputPathStr := "results/results.jsonl"
  outputPath := ⟨"results", "results.jsonl"⟩
  routed := fun _ => Nat.one_pos

/-- A result whose batch has taken the given time. -/
def timedRow (batchLatency : ℚ) : EvalResult :=
  { taskId := "a", score := 1, response := "x", latencySeconds := 0, workerId := 0
    batchLatencySeconds := some batchLatency }

/-- As many results as a reservoir can hold, whose batches took no time, and one of a batch that
    took a second. -/
def longRun : List EvalResult := List.replicate reservoirCap (timedRow 0) ++ [timedRow 1]

theorem batchLatencies_longRun :
    batchLatencies longRun = List.replicate reservoirCap 0 ++ [1] := by
  have hok : ∀ row ∈ longRun, row.succeeded = true := by
    intro row hrow
    rcases List.mem_append.1 hrow with hrow | hrow
    · rw [List.eq_of_mem_replicate hrow]
      rfl
    · rw [List.mem_singleton.1 hrow]
      rfl
  have hnone : (timedRow 0).batchLatencySeconds = some 0 := rfl
  rw [batchLatencies, List.filter_eq_self.2 hok, longRun, List.filterMap_append,
    List.filterMap_replicate_of_some hnone]
  rfl

/-- Whether or not the last result is sampled, the mean of the samples is not the mean. -/
theorem mean_longRun_ne (pick : Nat → Nat → Nat) :
    mean (alone.keptLatencies longRun pick) ≠ mean (batchLatencies longRun) := by
  have hall : shardRows alone.cfg.shardFor 0 longRun = longRun :=
    shardRows_single alone.routed longRun rfl
  have hkept : alone.keptLatencies longRun pick
      = Reservoir.step reservoirCap (List.replicate reservoirCap 0) (pick 0 reservoirCap) 1 := by
    have hone : alone.keptLatencies longRun pick
        = Reservoir.feed reservoirCap (pick 0) (alone.shardLatencies longRun 0) := by
      rw [keptLatencies, show alone.nShards = 1 from rfl]
      simp
    rw [hone, shardLatencies, hall, batchLatencies_longRun, Reservoir.feed_snoc,
      Reservoir.feed_of_le (by simp), List.length_replicate]
  have hcap : (reservoirCap : ℚ) = 100000 := by norm_num [reservoirCap]
  rw [hkept, batchLatencies_longRun, Reservoir.step, List.length_replicate, if_neg (lt_irrefl _)]
  split
  · next hplace =>
      simp [mean, List.sum_set', hplace, hcap]
  · simp [mean, hcap]
    norm_num

/-- Nothing drawn gives the right mean. -/
theorem longRun_inexact (generators : PurePath → Nat → Nat → Nat) :
    ∃ s, alone.DrawnRun (fun row => .ok row.taskId) generators (fun _ => none) s
      ∧ s.sent = alone.recordCalls [longRun] ++ alone.summaryCalls 1
      ∧ ∃ summary, alone.getSummary 1 (repliesFrom s (alone.recordCalls [longRun]).length
          (alone.summaryCalls 1).length) = some summary ∧ ¬ summary.MeansExact longRun := by
  obtain ⟨s, hrun, hsent, hanswered⟩ := exists_answered alone (fun row => .ok row.taskId)
    generators (fun _ => none) (alone.recordCalls [longRun]) (alone.summaryCalls 1)
  obtain ⟨summary, pick, hsummary, -, hiff⟩ := DrawnRun.means hrun hsent hanswered
  have hrows : [longRun].flatten = longRun := by simp
  rw [hrows] at hiff
  exact ⟨s, hrun, hsent, summary, hsummary, fun hexact => mean_longRun_ne pick (hiff.1 hexact)⟩

/-- One result more than the reservoir holds, with the first place drawn for it. -/
theorem batch_mean_inexact :
    ∃ s, alone.DrawnRun (fun row => .ok row.taskId) (fun _ _ _ => 0) (fun _ => none) s
      ∧ s.sent = alone.recordCalls [longRun] ++ alone.summaryCalls 1
      ∧ ∃ summary, alone.getSummary 1 (repliesFrom s (alone.recordCalls [longRun]).length
          (alone.summaryCalls 1).length) = some summary ∧ ¬ summary.MeansExact longRun :=
  longRun_inexact (fun _ _ _ => 0)

end ShardedAggregator

end EvalHarness
