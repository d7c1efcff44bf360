import EvalHarness.Aggregator.Routing
import EvalHarness.Aggregator.Contents
import EvalHarness.Lib.Mailbox

set_option autoImplicit false

/-! # The sharded aggregator (`ShardedAggregator`)

The driver's facade over several aggregator actors: the calls it submits, what it makes of the
replies, and the file it merges in the end. The actors execute their calls in the order of
submission, each on its own, so that nothing is said about the order of calls to different
shards. -/

namespace EvalHarness

open Mailbox

/-- `shard_index`. -/
def shardIndex (crc32 : String → Nat) (taskId : String) (nShards : Nat) : Nat :=
  crc32 taskId % nShards

/-! ## The actors -/

inductive ShardCall where
  | recordBatch (results : List EvalResult)
  | getShardState
  | getSummary (elapsed : ℚ)
  | close

inductive ShardReply where
  | recorded (outcome : Except Exc Unit)
  | state (shard : ShardState)
  | summary (summary : Summary)
  | closed

def ShardReply.state? : ShardReply → Option ShardState
  | .state shard => some shard
  | _ => none

/-- A call executed by an aggregator actor. -/
def ResultsAggregatorImpl.exec (line : EvalResult → Except Exc String) (draws : Nat → Nat → Nat)
    (s : ResultsAggregatorImpl) : ShardCall → ShardReply × ResultsAggregatorImpl
  | .recordBatch results =>
      let (outcome, s) := s.recordBatch line draws results
      (.recorded outcome, s)
  | .getShardState => (.state s.getShardState, s)
  | .getSummary elapsed => (.summary (s.getSummary elapsed), s)
  | .close => (.closed, s.close)

/-! ## The facade -/

/-- A `ShardedAggregator`. The number of shards, at least one, and the routing are the
    coordinator's; a routing gives every task id one of the shards. -/
structure ShardedAggregator where
  cfg : Config
  totalTasks : Nat
  outputPathStr : String
  outputPath : PurePath
  routed : ∀ taskId, cfg.shardFor taskId < cfg.aggregatorShards

namespace ShardedAggregator

/-- The facade that `run` constructs: its `shard_for` is `shard_index` for its number of shards,
    which has a result below that number. -/
def ofRun (cfg : Config) (crc32 : String → Nat) (outputPathStr : String) (outputPath : PurePath) :
    ShardedAggregator where
  cfg := { cfg with shardFor := fun taskId => shardIndex crc32 taskId cfg.aggregatorShards }
  totalTasks := cfg.tasks.length
  outputPathStr
  outputPath
  routed := fun taskId => Nat.mod_lt (crc32 taskId) cfg.shards_pos

def nShards (agg : ShardedAggregator) : Nat := agg.cfg.aggregatorShards

/-- The file of a shard: the requested one for a single shard. -/
def shardPath (agg : ShardedAggregator) (i : Nat) : PurePath :=
  if agg.nShards = 1 then agg.outputPath else agg.outputPath.shardFile i

def shardPaths (agg : ShardedAggregator) : List PurePath :=
  (List.range agg.nShards).map agg.shardPath

/-- `__init__`: the shard actors, each with its file. -/
def start (agg : ShardedAggregator) (files : Files) (i : Nat) : ResultsAggregatorImpl :=
  .init agg.totalTasks (agg.shardPath i) files

/-- `record_batch`: the calls it submits. -/
def recordBatch (agg : ShardedAggregator) (results : List EvalResult) : List (Nat × ShardCall) :=
  (agg.cfg.shardGroups results).map (fun group => (group.1, .recordBatch group.2))

/-- The calls of several `record_batch`es. -/
def recordCalls (agg : ShardedAggregator) (batches : List (List EvalResult)) :
    List (Nat × ShardCall) :=
  batches.flatMap agg.recordBatch

/-- The calls that `get_summary` waits for. -/
def summaryCalls (agg : ShardedAggregator) (elapsed : ℚ) : List (Nat × ShardCall) :=
  if agg.nShards = 1 then [(0, .getSummary elapsed)]
  else (List.range agg.nShards).map (fun i => (i, .getShardState))

/-- `get_summary`, from the replies to its calls: nothing until they are all there. -/
def getSummary (agg : ShardedAggregator) (elapsed : ℚ) (replies : List (Option ShardReply)) :
    Option Summary :=
  if agg.nShards = 1 then
    match replies with
    | [some (.summary summary)] => some summary
    | _ => none
  else
    (replies.mapM (fun reply : Option ShardReply =>
      reply.bind ShardReply.state?)).map (fun states =>
      { summarizeState (mergeStates states) agg.totalTasks elapsed agg.outputPath.text with
        resultsFiles := some (agg.shardPaths.map PurePath.text)
        aggregatorShards := some agg.nShards })

/-- The calls that `finalize` waits for when there is something to merge. -/
def closeCalls (agg : ShardedAggregator) : List (Nat × ShardCall) :=
  (List.range agg.nShards).map (fun i => (i, .close))

/-- The files while the actors are in the given states: each shard has its own, the others are as
    they were. -/
def disk (agg : ShardedAggregator) (files : Files) (actors : Nat → ResultsAggregatorImpl) : Files :=
  fun p =>
    match (List.range agg.nShards).find? (fun i => agg.shardPath i = p) with
    | some i => some (actors i).file
    | none => files p

/-- `finalize` once the shards are closed: the results file, and the files with it. -/
def finalize (agg : ShardedAggregator) (disk : Files) : String × Files :=
  if agg.nShards = 1 then (agg.outputPathStr, disk)
  else
    let existing := agg.shardPaths.filter (fun p => (disk p).isSome)
    (agg.outputPath.text,
      if existing.isEmpty then disk
      else existing.foldl (fun files p => files.copyInto agg.outputPath p)
        (disk.openWrite agg.outputPath))

/-- The actors of a facade, at some time. -/
abbrev Actors := Mailbox.Actors Nat ResultsAggregatorImpl ShardCall ShardReply

/-- The facade's calls executed in any order that keeps each shard's own. -/
abbrev Run (agg : ShardedAggregator) (line : EvalResult → Except Exc String)
    (draws : Nat → Nat → Nat) (files : Files) (s : Actors) : Prop :=
  Mailbox.Run (ResultsAggregatorImpl.exec line draws) (fun _ => True)
    (Mailbox.Actors.start (agg.start files)) s

/-- The same, with a generator for each shard, by the file that the shard writes. -/
abbrev DrawnRun (agg : ShardedAggregator) (line : EvalResult → Except Exc String)
    (draws : PurePath → Nat → Nat → Nat) (files : Files) (s : Actors) : Prop :=
  Mailbox.Run (fun shard => ResultsAggregatorImpl.exec line (draws shard.outputPath) shard)
    (fun _ => True) (Mailbox.Actors.start (agg.start files)) s

/-- The answers there are to the calls from a number on. -/
def repliesFrom (s : Actors) (before count : Nat) : List (Option ShardReply) :=
  (List.range count).map (fun k => s.answers (before + k))

/-! ## What a shard is told -/

variable (agg : ShardedAggregator)

theorem callsTo_recordBatch (i : Nat) (batch : List EvalResult) :
    callsTo i (agg.recordBatch batch)
      = if shardRows agg.cfg.shardFor i batch = [] then []
        else [.recordBatch (shardRows agg.cfg.shardFor i batch)] := by
  have hfilter := filter_shardGroups agg.routed batch i
  rw [callsTo, recordBatch, List.filter_map, List.map_map]
  simp only [Function.comp_def]
  rw [hfilter]
  split <;> rfl

variable {line : EvalResult → Except Exc String} {draws : Nat → Nat → Nat}
  {jsonLine : EvalResult → String}

/-- A shard ends up as if it had been given its rows one by one, without the others. -/
theorem runCalls_record {i : Nat} {s : ResultsAggregatorImpl} (hopen : s.closed = false)
    (batches : List (List EvalResult)) :
    runCalls (ResultsAggregatorImpl.exec (fun row => .ok (jsonLine row)) draws) s
        (callsTo i (agg.recordCalls batches))
      = (shardRows agg.cfg.shardFor i batches.flatten).foldl
          (ResultsAggregatorImpl.ingested draws jsonLine) s := by
  induction batches generalizing s with
  | nil => rfl
  | cons batch batches ih =>
      have hfirst : runCalls (ResultsAggregatorImpl.exec (fun row => .ok (jsonLine row)) draws) s
          (callsTo i (agg.recordBatch batch))
            = (shardRows agg.cfg.shardFor i batch).foldl
                (ResultsAggregatorImpl.ingested draws jsonLine) s := by
        rw [callsTo_recordBatch]
        split
        · next hnone => rw [hnone]; rfl
        · simp [runCalls, ResultsAggregatorImpl.exec, ResultsAggregatorImpl.recordBatch_eq hopen]
      rw [recordCalls, List.flatMap_cons, callsTo_append, runCalls_append, hfirst,
        List.flatten_cons, shardRows_append, List.foldl_append]
      exact ih ((ResultsAggregatorImpl.foldl_ingested_closed _ _).trans hopen)

/-- No call that records anything. -/
def Silent (calls : List (Nat × ShardCall)) : Prop := ∀ c ∈ calls, ∀ rows, c.2 ≠ .recordBatch rows

theorem Silent.append {calls more : List (Nat × ShardCall)} (h : Silent calls) (h' : Silent more) :
    Silent (calls ++ more) := by
  intro c hc
  rcases List.mem_append.1 hc with hc | hc
  · exact h c hc
  · exact h' c hc

/-- A shard that has been told of its share of the given rows: its counters are those after
    counting the share, and the lines of the share are behind what its file had. -/
structure Served (draws : Nat → Nat → Nat) (jsonLine : EvalResult → String) (files : Files)
    (rows : List EvalResult) (i : Nat) (s : ResultsAggregatorImpl) : Prop where
  state : s.toShardState = ((shardRows agg.cfg.shardFor i rows).foldl
    (ResultsAggregatorImpl.ingested draws jsonLine) (agg.start files i)).toShardState
  file : s.file = files.openAppend (agg.shardPath i)
    ++ fileText ((shardRows agg.cfg.shardFor i rows).map jsonLine)
  totalTasks : s.totalTasks = agg.totalTasks

variable (line draws) in
/-- Calls that record nothing change neither the counters nor the file. -/
theorem runCalls_silent {calls : List ShardCall} (hcalls : ∀ rows, .recordBatch rows ∉ calls)
    (s : ResultsAggregatorImpl) :
    (runCalls (ResultsAggregatorImpl.exec line draws) s calls).toShardState = s.toShardState
      ∧ (runCalls (ResultsAggregatorImpl.exec line draws) s calls).file = s.file
      ∧ (runCalls (ResultsAggregatorImpl.exec line draws) s calls).totalTasks = s.totalTasks := by
  induction calls generalizing s with
  | nil => exact ⟨rfl, rfl, rfl⟩
  | cons call calls ih =>
      have hrest := ih (fun rows hmem => hcalls rows (List.mem_cons_of_mem _ hmem))
      cases call with
      | recordBatch rows => exact absurd List.mem_cons_self (hcalls rows)
      | getShardState => exact hrest s
      | getSummary elapsed => exact hrest s
      | close => exact hrest s.close

theorem served_runCalls {files : Files} (i : Nat) (batches : List (List EvalResult))
    {others : List (Nat × ShardCall)} (hothers : Silent others) :
    agg.Served draws jsonLine files batches.flatten i
      (runCalls (ResultsAggregatorImpl.exec (fun row => .ok (jsonLine row)) draws)
        (agg.start files i) (callsTo i (agg.recordCalls batches ++ others))) := by
  have hsilent : ∀ rows, .recordBatch rows ∉ callsTo i others := by
    intro rows hmem
    obtain ⟨c, hc, heq⟩ := List.mem_map.1 hmem
    exact hothers c (List.mem_filter.1 hc).1 rows heq
  rw [callsTo_append, runCalls_append, runCalls_record agg rfl]
  obtain ⟨hstate, hfile, htotal⟩ := runCalls_silent (fun row => .ok (jsonLine row)) draws hsilent
    ((shardRows agg.cfg.shardFor i batches.flatten).foldl
      (ResultsAggregatorImpl.ingested draws jsonLine) (agg.start files i))
  exact ⟨hstate, hfile.trans (ResultsAggregatorImpl.foldl_ingested_file _ _),
    htotal.trans (ResultsAggregatorImpl.foldl_ingested_totalTasks _ _)⟩

/-- A shard draws from the generator of its file all the time. -/
theorem runCalls_drawn (generators : PurePath → Nat → Nat → Nat) (s : ResultsAggregatorImpl)
    (calls : List ShardCall) :
    runCalls (fun shard => ResultsAggregatorImpl.exec line (generators shard.outputPath) shard) s
        calls
      = runCalls (ResultsAggregatorImpl.exec line (generators s.outputPath)) s calls := by
  induction calls generalizing s with
  | nil => rfl
  | cons call calls ih =>
      have hpath : (s.exec line (generators s.outputPath) call).2.outputPath = s.outputPath := by
        cases call with
        | recordBatch rows => exact ResultsAggregatorImpl.recordBatch_outputPath s rows
        | getShardState => rfl
        | getSummary elapsed => rfl
        | close => rfl
      have hrest := ih (s.exec line (generators s.outputPath) call).2
      rw [hpath] at hrest
      exact hrest

/-! ## What comes of a run -/

/-- A call behind the recording ones is executed by a shard that knows all of its rows. -/
theorem DrawnRun.answer_served {agg : ShardedAggregator} {generators : PurePath → Nat → Nat → Nat}
    {files : Files} {batches : List (List EvalResult)} {others : List (Nat × ShardCall)}
    {s : Actors}
    (h : agg.DrawnRun (fun row => .ok (jsonLine row)) generators files s)
    (hsent : s.sent = agg.recordCalls batches ++ others) (hothers : Silent others)
    {k i : Nat} {call : ShardCall} (hcall : others[k]? = some (i, call))
    (ha : (s.answers ((agg.recordCalls batches).length + k)).isSome) :
    ∃ shard, agg.Served (generators (agg.shardPath i)) jsonLine files batches.flatten i shard
      ∧ s.answers ((agg.recordCalls batches).length + k)
        = some (shard.exec (fun row => .ok (jsonLine row)) (generators shard.outputPath)
            call).1 := by
  obtain ⟨answer, hanswer⟩ := Option.isSome_iff_exists.1 ha
  have hreply := h.answer_eq hanswer
  have hget : s.sent[(agg.recordCalls batches).length + k]? = some (i, call) := by
    rw [hsent, List.getElem?_append_right (Nat.le_add_right _ _), Nat.add_sub_cancel_left, hcall]
  have htake : s.sent.take ((agg.recordCalls batches).length + k)
      = agg.recordCalls batches ++ others.take k := by
    rw [hsent, List.take_length_add_append]
  rw [replyOf, hget, Option.map_some, htake] at hreply
  have hsilent : Silent (others.take k) := fun c hc => hothers c (List.mem_of_mem_take hc)
  refine ⟨_, ?_, by rw [hanswer, ← hreply]⟩
  rw [runCalls_drawn]
  exact served_runCalls agg i batches hsilent

section Runs

variable {agg} {files : Files} {batches : List (List EvalResult)} {others : List (Nat × ShardCall)}
  {s : Actors} (h : agg.Run (fun row => .ok (jsonLine row)) draws files s)
  (hsent : s.sent = agg.recordCalls batches ++ others) (hothers : Silent others)

include h hsent hothers

/-- A shard with nothing left to do knows all of its rows. -/
theorem Run.served_of_done {i : Nat} (hi : s.mailbox i = []) :
    agg.Served draws jsonLine files batches.flatten i (s.state i) := by
  rw [h.state_of_done hi, hsent]
  exact served_runCalls agg i batches hothers

end Runs

/-! ## Two shards -/

/-- A facade over two shards, the tasks of one of which have an `a` for their id. -/
def twoShards : ShardedAggregator where
  cfg :=
    { nWorkers := 1, batchSize := 2, tasks := []
      aggregatorShards := 2, shards_pos := Nat.two_pos
      shardFor := fun taskId => if taskId = "a" then 0 else 1 }
  totalTasks := 3
  outputPathStr := "results/results.jsonl"
  outputPath := ⟨"results", "results.jsonl"⟩
  routed := by
    intro taskId
    show (if taskId = "a" then 0 else 1) < 2
    split <;> decide

/-- Two batches with three results, one of them a failure and one for a task seen before. -/
def twoBatches : List (List EvalResult) :=
  [[{ taskId := "b", score := 1 / 2, response := "x", latencySeconds := 3, workerId := 0 },
    { taskId := "a", score := 1, response := "y", latencySeconds := 2, workerId := 1,
      batchLatencySeconds := some 5, conditionScores := [("brevity", 1)], tokensGenerated := 4 }],
   [{ taskId := "b", score := 0, response := "", latencySeconds := 0, workerId := 0,
      failed := true }]]

/-- All calls are sent at once, and the second shard is served first. -/
def servedTwice (files : Files) (calls : List (Nat × ShardCall)) : Actors :=
  ((Mailbox.Actors.start (twoShards.start files)).sendAll
    (twoShards.recordCalls twoBatches ++ calls)).executeAll
      (ResultsAggregatorImpl.exec (fun row => .ok row.taskId) (fun _ _ => 0)) [1, 1, 1, 0, 0]

theorem servedTwice_run (files : Files) (calls : List (Nat × ShardCall)) :
    twoShards.Run (fun row => .ok row.taskId) (fun _ _ => 0) files (servedTwice files calls) :=
  (Run.sendAll Relation.ReflTransGen.refl (fun _ _ => trivial)).executeAll [1, 1, 1, 0, 0]

end ShardedAggregator

end EvalHarness
