import EvalHarness.Aggregator.Shards

set_option autoImplicit false

/-! # One summary for any number of shards

However the results of a run are routed and however the shards take turns, the summary merged from
the shards is the one that a single aggregator gives, up to the order of its dictionaries. -/

namespace EvalHarness

open Mailbox

theorem sum_map_coe {ι α : Type} (shards : List ι) (rows : ι → List α) :
    (shards.map (fun i => (rows i : Multiset α))).sum = (shards.flatMap rows : Multiset α) := by
  induction shards with
  | nil => rfl
  | cons i shards ih => rw [List.map_cons, List.sum_cons, ih, List.flatMap_cons, Multiset.coe_add]

namespace ShardedAggregator

variable {agg : ShardedAggregator} {draws : Nat → Nat → Nat} {jsonLine : EvalResult → String}
  {files : Files} {rows : List EvalResult}

/-- A shard's counters are about its share of the rows. -/
theorem Served.describes {i : Nat} {shard : ResultsAggregatorImpl}
    (h : agg.Served draws jsonLine files rows i shard) (hcap : rows.length ≤ reservoirCap) :
    shard.Describes (shardRows agg.cfg.shardFor i rows) := by
  have hstart : (agg.start files i).Describes 0 := ShardState.describes_empty
  have hlength : (0 : Multiset EvalResult).card + (shardRows agg.cfg.shardFor i rows).length
      ≤ reservoirCap := by
    rw [Multiset.card_zero, Nat.zero_add]
    exact (List.length_filter_le _ rows).trans hcap
  rw [h.state]
  simpa using ResultsAggregatorImpl.describes_foldl_ingested hstart hlength

theorem sum_shardRows (agg : ShardedAggregator) (rows : List EvalResult) :
    ((List.range agg.nShards).map
      (fun i => (shardRows agg.cfg.shardFor i rows : Multiset EvalResult))).sum = rows := by
  rw [sum_map_coe]
  exact Multiset.coe_eq_coe.2 (flatMap_shardRows_perm agg.routed rows)

/-- Merging the states of all shards gives a state about all rows. -/
theorem describes_merged {states : Nat → ShardState}
    (h : ∀ i < agg.nShards, (states i).Describes (shardRows agg.cfg.shardFor i rows)) :
    (mergeStates ((List.range agg.nShards).map states)).Describes rows := by
  rw [← sum_shardRows agg rows]
  exact ShardState.mergeStates_rule ShardState.describes_empty ShardState.Describes.merge
    (fun i hi => h i (List.mem_range.1 hi))

theorem silent_summaryCalls (agg : ShardedAggregator) (elapsed : ℚ) :
    Silent (agg.summaryCalls elapsed) := by
  intro c hc rows heq
  unfold summaryCalls at hc
  split at hc
  · rw [List.mem_singleton.1 hc] at heq
    cases heq
  · obtain ⟨i, _, rfl⟩ := List.mem_map.1 hc
    cases heq

theorem mapM_map_some {α β γ : Type} (f : β → Option γ) (g : α → β) (value : α → γ) {l : List α}
    (h : ∀ a ∈ l, f (g a) = some (value a)) : (l.map g).mapM f = some (l.map value) := by
  induction l with
  | nil => rfl
  | cons a l ih =>
      have hrest := ih (fun b hb => h b (List.mem_cons_of_mem _ hb))
      simp [List.mapM_cons, h a List.mem_cons_self, hrest]

/-- The shards that answer the calls of `get_summary` know all of their rows. -/
theorem DrawnRun.served_summaryCalls {generators : PurePath → Nat → Nat → Nat}
    {batches : List (List EvalResult)} {others : List (Nat × ShardCall)} {s : Actors} {elapsed : ℚ}
    (h : agg.DrawnRun (fun row => .ok (jsonLine row)) generators files s)
    (hsent : s.sent = agg.recordCalls batches ++ (others ++ agg.summaryCalls elapsed))
    (hothers : Silent others)
    (hanswered : ∀ reply ∈ repliesFrom s ((agg.recordCalls batches).length + others.length)
      (agg.summaryCalls elapsed).length, reply.isSome)
    (k i : Nat) (call : ShardCall) (hcall : (agg.summaryCalls elapsed)[k]? = some (i, call)) :
    ∃ shard, agg.Served (generators (agg.shardPath i)) jsonLine files batches.flatten i shard
      ∧ s.answers ((agg.recordCalls batches).length + others.length + k)
        = some (shard.exec (fun row => .ok (jsonLine row)) (generators shard.outputPath)
            call).1 := by
  have hlt : k < (agg.summaryCalls elapsed).length := (List.getElem?_eq_some_iff.1 hcall).1
  rw [Nat.add_assoc]
  refine DrawnRun.answer_served h hsent (hothers.append (agg.silent_summaryCalls elapsed)) ?_ ?_
  · rw [List.getElem?_append_right (Nat.le_add_right _ _), Nat.add_sub_cancel_left, hcall]
  · rw [← Nat.add_assoc]
    exact hanswered _ (List.mem_map.2 ⟨k, List.mem_range.2 hlt, rfl⟩)

/-- What `get_summary` makes of shards in the given states. -/
def summaryOf (agg : ShardedAggregator) (shards : Nat → ResultsAggregatorImpl) (elapsed : ℚ) :
    Summary :=
  if agg.nShards = 1 then (shards 0).getSummary elapsed
  else
    { summarizeState (mergeStates ((List.range agg.nShards).map (fun i => (shards i).toShardState)))
        agg.totalTasks elapsed agg.outputPath.text with
      resultsFiles := some (agg.shardPaths.map PurePath.text)
      aggregatorShards := some agg.nShards }

/-- The summary is that of the shards, each with its share of the rows. -/
theorem getSummary_served {generators : Nat → Nat → Nat → Nat} {s : Actors} {before : Nat}
    {elapsed : ℚ} (hserved : ∀ k i call, (agg.summaryCalls elapsed)[k]? = some (i, call) →
      ∃ shard drawn, agg.Served (generators i) jsonLine files rows i shard
        ∧ s.answers (before + k)
          = some (shard.exec (fun row => .ok (jsonLine row)) drawn call).1) :
    ∃ shards : Nat → ResultsAggregatorImpl,
      (∀ i < agg.nShards, agg.Served (generators i) jsonLine files rows i (shards i))
        ∧ agg.getSummary elapsed (repliesFrom s before (agg.summaryCalls elapsed).length)
          = some (agg.summaryOf shards elapsed) := by
  by_cases hone : agg.nShards = 1
  · have hcalls : agg.summaryCalls elapsed = [(0, .getSummary elapsed)] := if_pos hone
    obtain ⟨shard, drawn, hknows, hanswer⟩ :=
      hserved 0 0 (.getSummary elapsed) (by rw [hcalls]; rfl)
    refine ⟨fun _ => shard, fun i hi => ?_, ?_⟩
    · obtain rfl : i = 0 := by omega
      exact hknows
    · have hreply : repliesFrom s before (agg.summaryCalls elapsed).length
          = [some (.summary (shard.getSummary elapsed))] := by
        rw [hcalls]
        exact congrArg (fun answer => [answer]) hanswer
      unfold getSummary
      rw [if_pos hone, hreply, summaryOf, if_pos hone]
  · have hcalls : agg.summaryCalls elapsed
        = (List.range agg.nShards).map (fun i => (i, .getShardState)) := if_neg hone
    have hshard : ∀ i : Nat, ∃ shard, i < agg.nShards →
        agg.Served (generators i) jsonLine files rows i shard
          ∧ s.answers (before + i) = some (.state shard.toShardState) := by
      intro i
      by_cases hi : i < agg.nShards
      · obtain ⟨shard, drawn, hknows, hanswer⟩ :=
          hserved i i .getShardState (by simp [hcalls, hi])
        exact ⟨shard, fun _ => ⟨hknows, hanswer⟩⟩
      · exact ⟨agg.start files i, fun hlt => absurd hlt hi⟩
    obtain ⟨shards, hshards⟩ := Classical.axiomOfChoice hshard
    refine ⟨shards, fun i hi => (hshards i hi).1, ?_⟩
    have hstates : (repliesFrom s before (agg.summaryCalls elapsed).length).mapM
        (fun reply : Option ShardReply => reply.bind ShardReply.state?)
          = some ((List.range agg.nShards).map (fun i => (shards i).toShardState)) := by
      rw [repliesFrom, hcalls, List.length_map, List.length_range]
      refine mapM_map_some _ _ _ (fun i hi => ?_)
      simp [(hshards i (List.mem_range.1 hi)).2, ShardReply.state?]
    unfold getSummary
    rw [if_neg hone, hstates, Option.map_some, summaryOf, if_neg hone]

/-- Below the cap, the summary is about the rows. -/
theorem summaryOf_describes {generators : Nat → Nat → Nat → Nat}
    {shards : Nat → ResultsAggregatorImpl}
    (hserved : ∀ i < agg.nShards, agg.Served (generators i) jsonLine files rows i (shards i))
    (hcap : rows.length ≤ reservoirCap) (elapsed : ℚ) :
    ∃ state file, state.Describes rows
      ∧ (agg.summaryOf shards elapsed).Same (summarizeState state agg.totalTasks elapsed file) := by
  by_cases hone : agg.nShards = 1
  · have hknows := hserved 0 (by omega)
    have hall : shardRows agg.cfg.shardFor 0 rows = rows := shardRows_single agg.routed rows hone
    have hstate : (shards 0).Describes rows := hall ▸ hknows.describes hcap
    refine ⟨(shards 0).toShardState, "", hstate, ?_⟩
    rw [summaryOf, if_pos hone, ResultsAggregatorImpl.getSummary, hknows.totalTasks]
    exact hstate.same hstate _ _ _ _ _
  · have hstate := describes_merged (fun i hi => (hserved i hi).describes hcap)
    refine ⟨_, "", hstate, ?_⟩
    rw [summaryOf, if_neg hone]
    exact { hstate.same hstate agg.totalTasks elapsed elapsed "" "" with }

/-- The summary of the shards is that of one aggregator that records the same batches. -/
theorem summary_same_as_single (agg : ShardedAggregator) (draws : Nat → Nat → Nat)
    (jsonLine : EvalResult → String) (files : Files) (batches : List (List EvalResult))
    (hcap : batches.flatten.length < reservoirCap) (elapsed : ℚ)
    {others : List (Nat × ShardCall)} (hothers : Silent others) {s : Actors}
    (h : agg.Run (fun row => .ok (jsonLine row)) draws files s)
    (hsent : s.sent = agg.recordCalls batches ++ (others ++ agg.summaryCalls elapsed))
    (hanswered : ∀ reply ∈ repliesFrom s ((agg.recordCalls batches).length + others.length)
      (agg.summaryCalls elapsed).length, reply.isSome)
    (path : PurePath) (elapsed' : ℚ) :
    ∃ summary, agg.getSummary elapsed (repliesFrom s
        ((agg.recordCalls batches).length + others.length) (agg.summaryCalls elapsed).length)
          = some summary
      ∧ summary.Same (((ResultsAggregatorImpl.init agg.totalTasks path files).recordAll
          (fun row => .ok (jsonLine row)) draws batches).getSummary elapsed') := by
  have hrun : agg.DrawnRun (fun row => .ok (jsonLine row)) (fun _ => draws) files s := h
  have hserved := hrun.served_summaryCalls hsent hothers hanswered
  have htotal : ((ResultsAggregatorImpl.init agg.totalTasks path files).recordAll
      (fun row => .ok (jsonLine row)) draws batches).totalTasks = agg.totalTasks := by
    rw [ResultsAggregatorImpl.recordAll_eq rfl]
    exact ResultsAggregatorImpl.foldl_ingested_totalTasks _ _
  have hsingle : ((ResultsAggregatorImpl.init agg.totalTasks path files).recordAll
      (fun row => .ok (jsonLine row)) draws batches).Describes batches.flatten :=
    ResultsAggregatorImpl.describes_recordAll agg.totalTasks path files hcap.le
  obtain ⟨shards, hshards, hsummary⟩ := getSummary_served (fun k i call hcall =>
    (hserved k i call hcall).imp (fun shard hshard => ⟨draws, hshard⟩))
  obtain ⟨state, file, hstate, hsame⟩ := summaryOf_describes hshards hcap.le elapsed
  refine ⟨_, hsummary, ?_⟩
  rw [ResultsAggregatorImpl.getSummary, htotal]
  exact hsame.trans (hstate.same hsingle _ _ _ _ _)

/-- Two shards, of which the second answers before the first has done anything. -/
theorem summary_same_as_single_two :
    ∃ summary, twoShards.getSummary 10
        (repliesFrom (servedTwice (fun _ => none) (twoShards.summaryCalls 10)) 3 2) = some summary
      ∧ summary.Same (((ResultsAggregatorImpl.init 3 ⟨"results", "single.jsonl"⟩
          (fun _ => none)).recordAll (fun row => .ok row.taskId) (fun _ _ => 0)
            twoBatches).getSummary 12) := by
  have hsilent : Silent [] := fun _ hc => absurd hc List.not_mem_nil
  exact summary_same_as_single twoShards (fun _ _ => 0) (fun row => row.taskId) (fun _ => none)
    twoBatches (by decide) 10 hsilent (servedTwice_run (fun _ => none) _) rfl
    (by decide +kernel) ⟨"results", "single.jsonl"⟩ 12

end ShardedAggregator

end EvalHarness
