import EvalHarness.Aggregator.Shards

set_option autoImplicit false

/-! # The merged results file

What `finalize` leaves in the results file: the files of the shards, one behind the other, each with
the lines of the shard's share behind whatever the file had when the shard opened it. -/

namespace EvalHarness

open Mailbox

namespace ShardedAggregator

variable {agg : ShardedAggregator} {draws : Nat → Nat → Nat} {jsonLine : EvalResult → String}
  {files : Files} {rows : List EvalResult}

/-! ## Copying the shards -/

section Files

/-- No two shards have the same file. -/
theorem eq_of_shardPath_eq {i j : Nat} (hi : i < agg.nShards) (hj : j < agg.nShards)
    (h : agg.shardPath i = agg.shardPath j) : i = j := by
  unfold shardPath at h
  split at h
  · omega
  · exact agg.outputPath.shardFile_injective h

theorem find?_shardPath {i : Nat} (hi : i < agg.nShards) :
    (List.range agg.nShards).find? (fun j => agg.shardPath j = agg.shardPath i) = some i := by
  refine List.find?_range_eq_some.2 ⟨by simp, List.mem_range.2 hi, fun j hj => ?_⟩
  have hne : agg.shardPath j ≠ agg.shardPath i := fun heq =>
    hj.ne (eq_of_shardPath_eq (hj.trans hi) hi heq)
  simp [hne]

theorem disk_shardPath {i : Nat} (hi : i < agg.nShards) (files : Files)
    (actors : Nat → ResultsAggregatorImpl) :
    agg.disk files actors (agg.shardPath i) = some (actors i).file := by
  unfold disk
  rw [find?_shardPath hi]

variable (hn : 2 ≤ agg.nShards)

include hn

theorem shardPath_eq (i : Nat) : agg.shardPath i = agg.outputPath.shardFile i :=
  if_neg (by omega)

/-- The results file has the files of all shards, and nothing of what it had before. -/
theorem finalize_output (files : Files) (actors : Nat → ResultsAggregatorImpl) :
    (agg.finalize (agg.disk files actors)).2 agg.outputPath
      = some (String.join ((List.range agg.nShards).map (fun i => (actors i).file))) := by
  have hpath : ∀ p ∈ agg.shardPaths, ∃ i < agg.nShards, agg.shardPath i = p := by
    intro p hp
    obtain ⟨i, hi, rfl⟩ := List.mem_map.1 hp
    exact ⟨i, List.mem_range.1 hi, rfl⟩
  have hexisting : agg.shardPaths.filter (fun p => (agg.disk files actors p).isSome)
      = agg.shardPaths := by
    refine List.filter_eq_self.2 (fun p hp => ?_)
    obtain ⟨i, hi, rfl⟩ := hpath p hp
    rw [disk_shardPath hi]
    rfl
  have hout : agg.outputPath ∉ agg.shardPaths := by
    intro hmem
    obtain ⟨i, _, heq⟩ := hpath _ hmem
    exact agg.outputPath.shardFile_ne i (shardPath_eq hn i ▸ heq)
  have hne : agg.shardPaths.isEmpty = false := by
    have hlen : agg.shardPaths.length = agg.nShards := by simp [shardPaths]
    refine List.isEmpty_eq_false_iff.2 (List.ne_nil_of_length_pos ?_)
    omega
  have hopen : (agg.disk files actors).openWrite agg.outputPath agg.outputPath = some "" := by
    simp [Files.openWrite]
  unfold finalize
  simp only [if_neg (show agg.nShards ≠ 1 by omega), hexisting, hne]
  refine (Files.foldl_copyInto hout hopen).trans ?_
  rw [String.empty_append, shardPaths, List.map_map]
  refine congrArg (fun texts => some (String.join texts)) (List.map_congr_left (fun i hi => ?_))
  have hother : agg.shardPath i ≠ agg.outputPath := fun heq =>
    hout (heq ▸ List.mem_map_of_mem hi)
  simp [Files.openWrite, hother, disk_shardPath (List.mem_range.1 hi)]

omit hn in
/-- The results file is made of the files of the shards, however many they are. -/
theorem output_eq (files : Files) (actors : Nat → ResultsAggregatorImpl) :
    (agg.finalize (agg.disk files actors)).2 agg.outputPath
      = some (String.join ((List.range agg.nShards).map (fun i => (actors i).file))) := by
  by_cases hone : agg.nShards = 1
  · have hpath : agg.shardPath 0 = agg.outputPath := if_pos hone
    have hfile : agg.disk files actors (agg.shardPath 0) = some (actors 0).file :=
      disk_shardPath (by omega) files actors
    rw [hpath] at hfile
    simp [finalize, hone, hfile]
  · have hpos : 1 ≤ agg.nShards := agg.cfg.shards_pos
    exact finalize_output (by omega) files actors

end Files

/-- Only the results file is written. -/
theorem finalize_of_ne (agg : ShardedAggregator) {p : PurePath} (hp : p ≠ agg.outputPath)
    (disk : Files) : (agg.finalize disk).2 p = disk p := by
  unfold finalize
  by_cases hone : agg.nShards = 1
  · simp [hone]
  · simp only [if_neg hone]
    split
    · rfl
    · rw [Files.foldl_copyInto_of_ne hp]
      exact Function.update_of_ne hp _ _

/-- The shards write their own files only. -/
theorem disk_of_not_mem {p : PurePath} (hp : p ∉ agg.shardPaths) (files : Files)
    (actors : Nat → ResultsAggregatorImpl) : agg.disk files actors p = files p := by
  have hnone : (List.range agg.nShards).find? (fun i => agg.shardPath i = p) = none := by
    refine List.find?_eq_none.2 (fun i hi heq => hp ?_)
    exact List.mem_map.2 ⟨i, hi, of_decide_eq_true heq⟩
  unfold disk
  rw [hnone]

theorem silent_closeCalls (agg : ShardedAggregator) : Silent agg.closeCalls := by
  intro c hc rows heq
  obtain ⟨i, _, rfl⟩ := List.mem_map.1 hc
  cases heq

theorem closeCalls_getElem? {i : Nat} (hi : i < agg.nShards) :
    agg.closeCalls[i]? = some (i, .close) := by
  simp [closeCalls, hi]

theorem eq_of_closeCalls_getElem? {m i : Nat} {call : ShardCall}
    (h : agg.closeCalls[m]? = some (i, call)) : m = i := by
  simp only [closeCalls, List.getElem?_map, Option.map_eq_some_iff] at h
  obtain ⟨j, hj, heq⟩ := h
  obtain ⟨_, rfl⟩ := List.getElem?_eq_some_iff.1 hj
  simpa using congrArg Prod.fst heq

section Runs

variable {batches : List (List EvalResult)} {others : List (Nat × ShardCall)} {s : Actors}
  (hothers : Silent others) (h : agg.Run (fun row => .ok (jsonLine row)) draws files s)
  (hsent : s.sent = agg.recordCalls batches ++ (others ++ agg.closeCalls))
  (hclosed : ∀ reply ∈ repliesFrom s ((agg.recordCalls batches).length + others.length)
    agg.nShards, reply.isSome)

include h hsent hclosed

/-- A shard that is closed has nothing left to do. -/
theorem Run.done_of_closed {i : Nat} (hi : i < agg.nShards) : s.mailbox i = [] := by
  have hcall : ∀ m, s.sent[(agg.recordCalls batches).length + others.length + m]?
      = agg.closeCalls[m]? := by
    intro m
    rw [hsent, Nat.add_assoc, List.getElem?_append_right (Nat.le_add_right _ _),
      Nat.add_sub_cancel_left, List.getElem?_append_right (Nat.le_add_right _ _),
      Nat.add_sub_cancel_left]
  refine h.done_of_answered ((hcall i).trans (closeCalls_getElem? hi)) (fun m call hm => ?_)
    (hclosed _ (List.mem_map.2 ⟨i, List.mem_range.2 hi, rfl⟩))
  by_contra hlt
  obtain ⟨k, rfl⟩ := Nat.exists_eq_add_of_lt (not_le.1 hlt)
  rw [Nat.add_assoc, Nat.add_assoc, hcall] at hm
  have hi' := eq_of_closeCalls_getElem? hm
  omega

include hothers

/-- What the results file holds after a run: for each shard what its file had before, and the lines
    of its share of the results. -/
theorem Run.output (hn : 2 ≤ agg.nShards) :
    (agg.finalize (agg.disk files s.state)).2 agg.outputPath
      = some (String.join ((List.range agg.nShards).map (fun i =>
          files.openAppend (agg.shardPath i)
            ++ fileText ((shardRows agg.cfg.shardFor i batches.flatten).map jsonLine)))) := by
  have hserved : ∀ i ∈ List.range agg.nShards, (s.state i).file
      = files.openAppend (agg.shardPath i)
        ++ fileText ((shardRows agg.cfg.shardFor i batches.flatten).map jsonLine) := by
    intro i hi
    have hdone : s.mailbox i = [] := Run.done_of_closed h hsent hclosed (List.mem_range.1 hi)
    exact (Run.served_of_done h hsent (hothers.append agg.silent_closeCalls) hdone).file
  rw [finalize_output hn, List.map_congr_left hserved]

end Runs

/-! ## A run that finds no shard files -/

/-- The results in the order of the results file: shard by shard. -/
def mergedRows (agg : ShardedAggregator) (rows : List EvalResult) : List EvalResult :=
  (List.range agg.nShards).flatMap (fun i => shardRows agg.cfg.shardFor i rows)

/-- The calls of a `record_batch` share out its batch: there is at most one for each shard, it has
    the rows that the batch has for this shard, and every row is in one of them. -/
structure SharesOut (agg : ShardedAggregator) (batch : List EvalResult) : Prop where
  once : ((agg.recordBatch batch).map Prod.fst).Nodup
  share : ∀ c ∈ agg.recordBatch batch,
    c.1 < agg.nShards ∧ c.2 = .recordBatch (shardRows agg.cfg.shardFor c.1 batch)
  all : ((agg.recordBatch batch).flatMap
    (fun c => shardRows agg.cfg.shardFor c.1 batch)).Perm batch

theorem recordBatch_sharesOut (agg : ShardedAggregator) (batch : List EvalResult) :
    agg.SharesOut batch where
  once := by simpa [recordBatch, Function.comp_def] using shardGroups_keys_nodup batch
  share := by
    intro c hc
    obtain ⟨group, hgroup, rfl⟩ := List.mem_map.1 hc
    obtain ⟨hrows, hne⟩ := (mem_shardGroups agg.routed batch).1 hgroup
    refine ⟨?_, congrArg ShardCall.recordBatch hrows⟩
    obtain ⟨row, hrow⟩ := List.exists_mem_of_ne_nil _ hne
    rw [hrows, shardRows, List.mem_filter] at hrow
    exact of_decide_eq_true hrow.2 ▸ agg.routed row.taskId
  all := by
    have hgroups : (agg.recordBatch batch).flatMap
        (fun c => shardRows agg.cfg.shardFor c.1 batch)
          = (agg.cfg.shardGroups batch).flatMap Prod.snd := by
      rw [recordBatch, List.flatMap_map]
      exact List.flatMap_congr
        (fun group hgroup => ((mem_shardGroups agg.routed batch).1 hgroup).1.symm)
    exact hgroups ▸ shardGroups_perm agg.routed batch

/-- The results file has the lines shard by shard, and within a shard in the order of recording: the
    lines that a single aggregator writes, in another order. -/
theorem merged_by_shard (agg : ShardedAggregator) (hn : 2 ≤ agg.nShards) (draws : Nat → Nat → Nat)
    (jsonLine : EvalResult → String) (files : Files)
    (hfresh : ∀ i < agg.nShards, files (agg.shardPath i) = none)
    (batches : List (List EvalResult)) {others : List (Nat × ShardCall)} (hothers : Silent others)
    {s : Actors} (h : agg.Run (fun row => .ok (jsonLine row)) draws files s)
    (hsent : s.sent = agg.recordCalls batches ++ (others ++ agg.closeCalls))
    (hclosed : ∀ reply ∈ repliesFrom s ((agg.recordCalls batches).length + others.length)
      agg.nShards, reply.isSome) (path : PurePath) :
    (∀ batch ∈ batches, agg.SharesOut batch)
      ∧ (agg.finalize (agg.disk files s.state)).2 agg.outputPath
        = some (fileText ((agg.mergedRows batches.flatten).map jsonLine))
      ∧ ((ResultsAggregatorImpl.init agg.totalTasks path (fun _ => none)).recordAll
          (fun row => .ok (jsonLine row)) draws batches).file
        = fileText (batches.flatten.map jsonLine)
      ∧ ((agg.mergedRows batches.flatten).map jsonLine).Perm (batches.flatten.map jsonLine) := by
  refine ⟨fun batch _ => agg.recordBatch_sharesOut batch, ?_, ?_, ?_⟩
  · have hempty : ∀ i ∈ List.range agg.nShards, files.openAppend (agg.shardPath i)
          ++ fileText ((shardRows agg.cfg.shardFor i batches.flatten).map jsonLine)
        = fileText ((shardRows agg.cfg.shardFor i batches.flatten).map jsonLine) := by
      intro i hi
      simp [Files.openAppend, hfresh i (List.mem_range.1 hi)]
    rw [Run.output hothers h hsent hclosed hn, List.map_congr_left hempty, mergedRows,
      List.map_flatMap, fileText_flatMap]
  · rw [ResultsAggregatorImpl.recordAll_eq rfl, ResultsAggregatorImpl.foldl_ingested_file]
    exact String.empty_append
  · exact (flatMap_shardRows_perm agg.routed batches.flatten).map jsonLine

/-- Three results for two shards, the second of which is done first. -/
theorem merged_by_shard_two :
    (twoShards.finalize (twoShards.disk (fun _ => none)
        (servedTwice (fun _ => none) twoShards.closeCalls).state)).2 twoShards.outputPath
      = some (fileText ["a", "b", "b"]) := by
  have hsilent : Silent [] := fun _ hc => absurd hc List.not_mem_nil
  exact (merged_by_shard twoShards (by decide) (fun _ _ => 0) (fun row => row.taskId)
    (fun _ => none) (fun _ _ => rfl) twoBatches hsilent (servedTwice_run (fun _ => none) _) rfl
    (by decide +kernel) ⟨"results", "single.jsonl"⟩).2.1

/-! ## A run that finds files of an earlier one -/

/-- The results file has the lines of the run, and no other, if and only if no shard has found
    anything in its file. -/
theorem merged_lines_iff (agg : ShardedAggregator) (hn : 2 ≤ agg.nShards)
    (draws : Nat → Nat → Nat) (jsonLine : EvalResult → String) (files : Files)
    (batches : List (List EvalResult)) {others : List (Nat × ShardCall)} (hothers : Silent others)
    {s : Actors} (h : agg.Run (fun row => .ok (jsonLine row)) draws files s)
    (hsent : s.sent = agg.recordCalls batches ++ (others ++ agg.closeCalls))
    (hclosed : ∀ reply ∈ repliesFrom s ((agg.recordCalls batches).length + others.length)
      agg.nShards, reply.isSome) :
    (∃ lines, lines.Perm (batches.flatten.map jsonLine)
      ∧ (agg.finalize (agg.disk files s.state)).2 agg.outputPath = some (fileText lines))
    ↔ ∀ i < agg.nShards, (files (agg.shardPath i)).getD "" = "" := by
  have hall : ((List.range agg.nShards).flatMap (fun i =>
      (shardRows agg.cfg.shardFor i batches.flatten).map jsonLine)).Perm
        (batches.flatten.map jsonLine) := by
    rw [← List.map_flatMap]
    exact (flatMap_shardRows_perm agg.routed batches.flatten).map jsonLine
  have hiff := join_lines_iff (List.range agg.nShards)
    (fun i => files.openAppend (agg.shardPath i))
    (fun i => (shardRows agg.cfg.shardFor i batches.flatten).map jsonLine)
  simp only [List.mem_range] at hiff
  rw [Run.output hothers h hsent hclosed hn]
  refine Iff.trans ?_ hiff
  constructor
  · rintro ⟨lines, hperm, heq⟩
    exact ⟨lines, hperm.trans hall.symm, Option.some.inj heq⟩
  · rintro ⟨lines, hperm, heq⟩
    exact ⟨lines, hperm.trans hall, congrArg some heq⟩

/-- The file of the first shard as a run with the same output path has left it. -/
def leftBehind : Files := fun p =>
  if p = ⟨"results", "results.shard0.jsonl"⟩ then some "a\n" else none

/-- The second run of two with the same output path: a result of the first one is in its file. -/
theorem merged_lines_left_behind :
    ∃ s, twoShards.Run (fun row => .ok row.taskId) (fun _ _ => 0) leftBehind s
      ∧ s.sent = twoShards.recordCalls twoBatches ++ twoShards.closeCalls
      ∧ (∀ reply ∈ repliesFrom s (twoShards.recordCalls twoBatches).length twoShards.nShards,
          reply.isSome)
      ∧ (twoShards.finalize (twoShards.disk leftBehind s.state)).2 twoShards.outputPath
        = some (fileText ["a", "a", "b", "b"])
      ∧ ¬ ∃ lines, lines.Perm (twoBatches.flatten.map (fun row => row.taskId))
          ∧ (twoShards.finalize (twoShards.disk leftBehind s.state)).2 twoShards.outputPath
            = some (fileText lines) := by
  have hfile : (twoShards.finalize (twoShards.disk leftBehind
      (servedTwice leftBehind twoShards.closeCalls).state)).2 twoShards.outputPath
        = some (fileText ["a", "a", "b", "b"]) := by decide +kernel
  refine ⟨servedTwice leftBehind twoShards.closeCalls, servedTwice_run leftBehind _, rfl,
    by decide +kernel, hfile, ?_⟩
  rintro ⟨lines, hperm, heq⟩
  rw [hfile, Option.some.injEq] at heq
  have hlen := congrArg String.length heq
  rw [length_fileText_perm hperm] at hlen
  exact absurd hlen (by decide +kernel)

/-- A new output path, and the same run. -/
theorem merged_lines_iff_two :
    ∃ lines, lines.Perm (twoBatches.flatten.map (fun row => row.taskId))
      ∧ (twoShards.finalize (twoShards.disk (fun _ => none)
          (servedTwice (fun _ => none) twoShards.closeCalls).state)).2 twoShards.outputPath
        = some (fileText lines) := by
  have hsilent : Silent [] := fun _ hc => absurd hc List.not_mem_nil
  exact (merged_lines_iff twoShards (by decide) (fun _ _ => 0) (fun row => row.taskId)
    (fun _ => none) twoBatches hsilent (servedTwice_run (fun _ => none) _) rfl
    (by decide +kernel)).2 (fun _ _ => rfl)

end ShardedAggregator

end EvalHarness
