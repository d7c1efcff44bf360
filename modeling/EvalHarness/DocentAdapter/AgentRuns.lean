import EvalHarness.Bench.KillTest

set_option autoImplicit false

/-! # Agent runs (`docent_adapter.py`)

The records that `iter_records` yields become agent runs, each with the prompt of its task, which
`load_prompts` looks up by the task's id, and are uploaded in chunks. -/

namespace EvalHarness.Docent

open Text EvalHarness.Measure

/-! ## Python values -/

/-- `rec[field]`. -/
def subscript (rec : Record) (field : String) : Except Exc Json :=
  match rec.get? field with
  | some value => .ok value
  | none => .error ⟨"KeyError", s!"'{field}'"⟩

/-- `rec.get(field, default)`. -/
def getField (rec : Record) (field : String) (default : Json) : Json :=
  (rec.get? field).getD default

/-- `a or b`. -/
def either (a b : Json) : Json := if truthy a then a else b

/-- `type(value).__name__`. A number without a fraction passes for an integer. -/
def typeName : Json → String
  | .null => "NoneType"
  | .bool _ => "bool"
  | .num q => if q.den = 1 then "int" else "float"
  | .str _ => "str"
  | .obj _ => "dict"

/-- `float(value)`, given what it makes of texts. -/
def float (ofText : String → Except Exc ℚ) : Json → Except Exc ℚ
  | .num q => .ok q
  | .bool b => .ok (if b then 1 else 0)
  | .str text => ofText text
  | value => .error ⟨"TypeError",
      s!"float() argument must be a string or a real number, not '{typeName value}'"⟩

/-- `value.items()`. -/
def items : Json → Except Exc (List (String × Json))
  | .obj fields => .ok fields
  | value => .error ⟨"AttributeError", s!"'{typeName value}' object has no attribute 'items'"⟩

/-! ## `to_agent_run` -/

/-- An `AgentRun`: the roles and the contents of its messages, and its metadata. -/
structure AgentRun where
  name : Json
  messages : List (String × Json)
  metadata : Record

def promptUnavailable : Json := .str "(prompt unavailable: task source not provided)"

def noResponse : Json := .str "(failed: no response captured)"

variable (ofText : String → Except Exc ℚ)

/-- `scores`. -/
def scoresOf (rec : Record) : Except Exc Record := do
  let total ← float ofText (← subscript rec "score")
  let failed ← subscript rec "failed"
  let conds ← (← items (← subscript rec "condition_scores")).mapM (fun e =>
    (float ofText e.2).map (fun value => ("cond_" ++ e.1, Json.num value)))
  return (Dict.empty.update
    [("rubric_total", .num total), ("failed", .bool (truthy failed))]).update
    conds

/-- `metadata`, without that of the run. -/
def metadataOf (rec task : Record) (taskId source : Json) (scores : Record) : Record :=
  Dict.empty.update
    [("task_id", taskId),
     ("external_id", taskId),
     ("scores", .obj scores.entries),
     ("expected_answer", getField task "expected_answer" .null),
     ("failure_kind", getField rec "failure_kind" .null),
     ("hooked", getField rec "hooked" (.bool false)),
     ("hook_state", either (getField rec "hook_state" .null) (.obj [])),
     ("stopped_early", getField rec "stopped_early" (.bool false)),
     ("worker_id", getField rec "worker_id" .null),
     ("latency_seconds", getField rec "latency_seconds" .null),
     ("batch_latency_seconds", getField rec "batch_latency_seconds" .null),
     ("tokens_generated", getField rec "tokens_generated" (.num 0)),
     ("source", source)]

/-- `to_agent_run`. -/
def toAgentRun (rec task runMeta : Record) : Except Exc AgentRun := do
  let prompt := either (getField task "prompt" .null) promptUnavailable
  let failed ← subscript rec "failed"
  let response ← if truthy failed then .ok (either (getField rec "error" .null) noResponse)
    else subscript rec "response"
  let scores ← scoresOf ofText rec
  let taskId ← subscript rec "task_id"
  let source ← subscript rec "_source"
  return {
    name := taskId
    messages := [("user", prompt), ("assistant", response)]
    metadata := (metadataOf rec task taskId source scores).update runMeta.entries }

/-! ## `load_prompts` -/

/-- A task of `make_tasks`, as `load_prompts` keeps it. -/
def promptRecord (task : Main.CompletionTask) : Record :=
  Dict.empty.update [("prompt", .str (String.ofList task.prompt)),
    ("expected_answer",
      (task.expectedAnswer.map (fun answer => .str (String.ofList answer))).getD .null)]

/-- `load_prompts`, given the tasks of the file, if there is one, and whether `main` can be
    imported. -/
def loadPrompts (tasksJson : Option (List Record)) (imported : Bool) (nHint : Nat) :
    Except Exc (Dict Key Record) :=
  match tasksJson with
  | some tasks => tasks.foldlM (fun prompts task => do
      let key ← asKey (← subscript task "task_id")
      return prompts.set key task) .empty
  | none =>
      if imported then
        .ok (Dict.empty.update ((Main.makeTasks (max nHint 1)).map
          (fun task => (some (.inr task.taskId), promptRecord task))))
      else .ok .empty

/-! ## `main` -/

/-- A `K=V` argument: the text before and behind the first `=`, if there is one. -/
def splitPair (kv : Str) : Option (Str × Str) :=
  match kv.dropWhile (fun c => c ≠ '=') with
  | [] => none
  | _ :: value => some (kv.takeWhile (fun c => c ≠ '='), value)

/-- `dict(kv.split("=", 1) for kv in args.run_meta)`, from argument `i` on. -/
def parseRunMeta (runMeta : Record) : Nat → List String → Except Exc Record
  | _, [] => .ok runMeta
  | i, kv :: rest =>
      match splitPair kv.toList with
      | none => .error ⟨"ValueError",
          s!"dictionary update sequence element #{i} has length 1; 2 is required"⟩
      | some (key, value) =>
          parseRunMeta (runMeta.set (String.ofList key) (.str (String.ofList value))) (i + 1) rest

/-- An element of `runs`. -/
def agentRunOf (prompts : Dict Key Record) (runMeta rec : Record) : Except Exc AgentRun := do
  let key ← asKey (← subscript rec "task_id")
  toAgentRun ofText rec ((prompts.get? key).getD .empty) runMeta

/-- `runs`. -/
def agentRuns (prompts : Dict Key Record) (runMeta : Record) (records : List Record) :
    Except Exc (List AgentRun) :=
  records.mapM (agentRunOf ofText prompts runMeta)

/-- `r.metadata["scores"]["failed"]`, as a number. -/
def failedFlag (run : AgentRun) : Except Exc Nat := do
  match ← subscript run.metadata "scores" with
  | .obj fields =>
      match fields.lookup "failed" with
      | some value => return (truthy value).toNat
      | none => .error ⟨"KeyError", "'failed'"⟩
  | .str _ => .error ⟨"TypeError", "string indices must be integers, not 'str'"⟩
  | value => .error ⟨"TypeError", s!"'{typeName value}' object is not subscriptable"⟩

/-- `n_fail`. -/
def nFail (runs : List AgentRun) : Except Exc Nat := (runs.mapM failedFlag).map List.sum

/-- `n_hook`. -/
def nHook (runs : List AgentRun) : Except Exc Nat :=
  (runs.mapM (fun run => (subscript run.metadata "hooked").map
    (fun value => (truthy value).toNat))).map List.sum

/-- The upload loop: the runs of its `add_agent_runs` calls. -/
def uploadChunks (runs : List AgentRun) (batchSize : Int) : Except Exc (List (List AgentRun)) :=
  if batchSize = 0 then .error ⟨"ValueError", "range() arg 3 must not be zero"⟩
  else if batchSize < 0 then .ok []
  else
    let b := batchSize.toNat
    .ok ((List.range ((runs.length + b - 1) / b)).map (fun k => (runs.drop (k * b)).take b))

/-- What `main` prints first, and what it uploads. -/
structure Adapted where
  mapped : Nat
  failed : Nat
  hooked : Nat
  uploaded : List (List AgentRun)

/-- `main`, from the records on. -/
def adapt (tasksJson : Option (List Record)) (imported : Bool) (runMetaArgs : List String)
    (batchSize : Int) (dryRun : Bool) (records : List Record) : Except Exc Adapted := do
  let runMeta ← parseRunMeta .empty 0 runMetaArgs
  let prompts ← loadPrompts tasksJson imported records.length
  let runs ← agentRuns ofText prompts runMeta records
  let failed ← nFail runs
  let hooked ← nHook runs
  if dryRun then
    if runs.isEmpty then .error ⟨"IndexError", "list index out of range"⟩
    else return ⟨runs.length, failed, hooked, []⟩
  else return ⟨runs.length, failed, hooked, ← uploadChunks runs batchSize⟩

/-! ## A record of the aggregator -/

/-- A record that `iter_records` has yielded for a result. -/
structure Sourced (rec : Record) (row : EvalResult) : Prop where
  erased : rec.erase "_source" = row.toDict
  source : ∃ source, rec.get? "_source" = some source

theorem Sourced.get? {rec : Record} {row : EvalResult} (h : Sourced rec row) {field : String}
    (hfield : field ≠ "_source") : rec.get? field = row.toDict.get? field := by
  rw [← h.erased, Dict.get?_erase, if_neg hfield]

/-- The values of a field of a record and of the dictionary of its result. -/
theorem Sourced.subscript {rec : Record} {row : EvalResult} (h : Sourced rec row) {field : String}
    (hfield : field ≠ "_source") {value : Json} (hvalue : row.toDict.get? field = some value) :
    Docent.subscript rec field = .ok value := by
  rw [Docent.subscript, h.get? hfield, hvalue]

theorem Sourced.getField {rec : Record} {row : EvalResult} (h : Sourced rec row) {field : String}
    (hfield : field ≠ "_source") {value : Json} (hvalue : row.toDict.get? field = some value)
    (default : Json) : Docent.getField rec field default = value := by
  rw [Docent.getField, h.get? hfield, hvalue, Option.getD_some]

/-- What the conditions of a result are called among the scores. -/
def condScores (row : EvalResult) : List (String × Json) :=
  row.conditionScores.map (fun e => ("cond_" ++ e.1, .num e.2))

/-- What an agent run says of a result, field by field. -/
def described (row : EvalResult) : List (String × Json) :=
  [("task_id", .str row.taskId),
    ("external_id", .str row.taskId),
    ("scores", .obj ([("rubric_total", .num row.score), ("failed", .bool row.failed)]
      ++ condScores row)),
    ("failure_kind", (row.failureKind.map (fun kind => Json.str kind.name)).getD .null),
    ("hooked", .bool row.hooked),
    ("hook_state", .obj (row.hookState.map (fun e => (e.1, .str e.2)))),
    ("stopped_early", .bool row.stoppedEarly),
    ("worker_id", .num row.workerId),
    ("latency_seconds", .num row.latencySeconds),
    ("batch_latency_seconds", (row.batchLatencySeconds.map Json.num).getD .null),
    ("tokens_generated", .num row.tokensGenerated)]

/-- The answer in the transcript of a result: the error of a failed one. -/
def answer (row : EvalResult) : Json :=
  if row.failed then either ((row.error.map Json.str).getD .null) noResponse else .str row.response

/-- The agent run of a result. -/
structure Mapped (row : EvalResult) (prompt : Json) (run : AgentRun) : Prop where
  name : run.name = .str row.taskId
  messages : run.messages = [("user", prompt), ("assistant", answer row)]
  fields : ∀ e ∈ described row, run.metadata.get? e.1 = some e.2

/-- Run metadata that overrides nothing that is said of a result. -/
def Additional (runMeta : Record) : Prop :=
  ∀ field ∈ ["task_id", "external_id", "scores", "failure_kind", "hooked", "hook_state",
    "stopped_early", "worker_id", "latency_seconds", "batch_latency_seconds", "tokens_generated"],
    field ∉ runMeta.keys

theorem mapM_eq_ok {α β : Type} {f : α → Except Exc β} {g : α → β} {l : List α}
    (h : ∀ a ∈ l, f a = .ok (g a)) : l.mapM f = .ok (l.map g) := by
  induction l with
  | nil => rfl
  | cons a l ih =>
      have hrest := ih (fun b hb => h b (List.mem_cons_of_mem _ hb))
      rw [List.mapM_cons, h a List.mem_cons_self, hrest]
      rfl

theorem nodup_condScores {row : EvalResult}
    (h : (row.conditionScores.map Prod.fst).Nodup) : ((condScores row).map Prod.fst).Nodup := by
  rw [condScores, List.map_map]
  have hkeys : row.conditionScores.map (Prod.fst ∘ fun e => ("cond_" ++ e.1, Json.num e.2))
      = (row.conditionScores.map Prod.fst).map (fun name => "cond_" ++ name) := by
    rw [List.map_map]
    rfl
  rw [hkeys]
  exact h.map (fun a b heq => String.append_right_inj _ |>.1 heq)

theorem scoresOf_sourced {rec : Record} {row : EvalResult} (h : Sourced rec row)
    (hconds : (row.conditionScores.map Prod.fst).Nodup) : ∃ scores,
    scoresOf ofText rec = .ok scores ∧ scores.entries
      = [("rubric_total", .num row.score), ("failed", .bool row.failed)] ++ condScores row := by
  have hscore : subscript rec "score" = .ok (.num row.score) := h.subscript (by decide) rfl
  have hfailed : subscript rec "failed" = .ok (.bool row.failed) := h.subscript (by decide) rfl
  have hcond : subscript rec "condition_scores"
      = .ok (.obj (row.conditionScores.map (fun e => (e.1, .num e.2)))) :=
    h.subscript (by decide) rfl
  have htotal : float ofText (.num row.score) = .ok row.score := rfl
  have hvalues : (row.conditionScores.map (fun e => (e.1, Json.num e.2))).mapM (fun e =>
      (float ofText e.2).map (fun value => ("cond_" ++ e.1, Json.num value)))
      = .ok (condScores row) := by
    have hall := mapM_eq_ok (f := fun e : String × Json =>
        (float ofText e.2).map (fun value => ("cond_" ++ e.1, Json.num value)))
      (g := fun e => ("cond_" ++ e.1, e.2))
      (l := row.conditionScores.map (fun e => (e.1, Json.num e.2))) (fun e he => by
        obtain ⟨e', -, rfl⟩ := List.mem_map.1 he
        rfl)
    rw [hall, List.map_map]
    rfl
  have hbase : (Dict.empty.update [("rubric_total", Json.num row.score),
      ("failed", .bool row.failed)]).entries
      = [("rubric_total", .num row.score), ("failed", .bool row.failed)] := by
    simp [Dict.update, Dict.set, Dict.setEntries, Dict.empty]
  have hscores := Dict.entries_update_of_nodup (Dict.empty.update
    [("rubric_total", Json.num row.score), ("failed", .bool row.failed)]) (nodup_condScores hconds)
    (fun k hk hin => ?_)
  · rw [hbase] at hscores
    refine ⟨_, ?_, hscores⟩
    simp only [scoresOf, hscore, hfailed, hcond, items, bind, Except.bind, htotal, hvalues]
    rfl
  · -- the names of the conditions have a prefix that these two have not
    rw [condScores, List.map_map] at hk
    obtain ⟨e, -, rfl⟩ := List.mem_map.1 hk
    rw [Dict.keys, hbase] at hin
    simp only [List.map_cons, List.map_nil, List.mem_cons, List.not_mem_nil, or_false,
      Function.comp_apply] at hin
    rcases hin with heq | heq
    · have hchars := congrArg String.toList heq
      simp at hchars
    · have hchars := congrArg String.toList heq
      simp at hchars

/-- What the metadata says of the result of a record. -/
theorem metadataOf_sourced {rec : Record} {row : EvalResult} (h : Sourced rec row) (task : Record)
    (source : Json) {scores : Record} (hscores : scores.entries
      = [("rubric_total", .num row.score), ("failed", .bool row.failed)] ++ condScores row) :
    ∀ e ∈ described row,
      (metadataOf rec task (.str row.taskId) source scores).get? e.1 = some e.2 := by
  have hkind : getField rec "failure_kind" .null
      = (row.failureKind.map (fun kind => Json.str kind.name)).getD .null :=
    h.getField (by decide) rfl _
  have hhooked : getField rec "hooked" (.bool false) = .bool row.hooked :=
    h.getField (by decide) rfl _
  have hstate : getField rec "hook_state" .null
      = .obj (row.hookState.map (fun e => (e.1, .str e.2))) := h.getField (by decide) rfl _
  have hstopped : getField rec "stopped_early" (.bool false) = .bool row.stoppedEarly :=
    h.getField (by decide) rfl _
  have hworker : getField rec "worker_id" .null = .num row.workerId :=
    h.getField (by decide) rfl _
  have hlatency : getField rec "latency_seconds" .null = .num row.latencySeconds :=
    h.getField (by decide) rfl _
  have hbatch : getField rec "batch_latency_seconds" .null
      = (row.batchLatencySeconds.map Json.num).getD .null := h.getField (by decide) rfl _
  have htokens : getField rec "tokens_generated" (.num 0) = .num row.tokensGenerated :=
    h.getField (by decide) rfl _
  have hempty : either (.obj (row.hookState.map (fun e => (e.1, .str e.2)))) (.obj [])
      = .obj (row.hookState.map (fun e => (e.1, .str e.2))) := by
    unfold either truthy
    rcases row.hookState with _ | ⟨e, rest⟩
    · rfl
    · rfl
  intro e he
  rw [metadataOf, hscores, hkind, hhooked, hstate, hstopped, hworker, hlatency, hbatch, htokens,
    hempty]
  simp only [described, List.mem_cons, List.not_mem_nil, or_false] at he
  rcases he with rfl | rfl | rfl | rfl | rfl | rfl | rfl | rfl | rfl | rfl | rfl <;>
    simp [Dict.update, Dict.get?_set]

/-- A record becomes the agent run of its result. -/
theorem toAgentRun_sourced {rec : Record} {row : EvalResult} (h : Sourced rec row)
    (hconds : (row.conditionScores.map Prod.fst).Nodup) (task : Record) {runMeta : Record}
    (hmeta : Additional runMeta) : ∃ run, toAgentRun ofText rec task runMeta = .ok run ∧
      Mapped row (either (getField task "prompt" .null) promptUnavailable) run := by
  obtain ⟨source, hsource⟩ := h.source
  obtain ⟨scores, hscores, hentries⟩ := scoresOf_sourced ofText h hconds
  have hfailed : subscript rec "failed" = .ok (.bool row.failed) := h.subscript (by decide) rfl
  have hresponse : subscript rec "response" = .ok (.str row.response) :=
    h.subscript (by decide) rfl
  have hid : subscript rec "task_id" = .ok (.str row.taskId) := h.subscript (by decide) rfl
  have hsubscript : subscript rec "_source" = .ok source := by rw [subscript, hsource]
  have herror : getField rec "error" .null = (row.error.map Json.str).getD .null :=
    h.getField (by decide) rfl .null
  have hanswer : answer row = if row.failed = true then
      either (getField rec "error" .null) noResponse else .str row.response := by
    rw [herror, answer]
  refine ⟨⟨.str row.taskId, [("user", either (getField task "prompt" .null) promptUnavailable),
    ("assistant", answer row)], (metadataOf rec task (.str row.taskId) source scores).update
      runMeta.entries⟩, ?_, rfl, rfl, fun e he => ?_⟩
  · simp only [toAgentRun, hfailed, hid, hsubscript, hscores, bind, Except.bind, hresponse]
    rw [hanswer]
    show (if row.failed = true then _ else _) = _
    split
    · rfl
    · rfl
  · have hkept : e.1 ∉ runMeta.entries.map Prod.fst := by
      refine hmeta e.1 ?_
      simp only [described, List.mem_cons, List.not_mem_nil, or_false] at he
      rcases he with rfl | rfl | rfl | rfl | rfl | rfl | rfl | rfl | rfl | rfl | rfl <;> simp
    rw [Dict.get?_update_of_not_mem _ hkept]
    exact metadataOf_sourced h task source hentries e he

/-! ## The prompts -/

/-- The prompt in the agent run of the task with a number, of a run with so many records. -/
def promptOf (count i : Nat) : Json :=
  if i < max count 1 then .str (Main.completion i).1 else promptUnavailable

theorem completion_prompt_ne (i : Nat) : (Main.completion i).1 ≠ "" := by
  have hall : ∀ c ∈ Main.completions, c.1 ≠ "" := by decide +kernel
  exact hall _ (List.get_mem _ _)

/-- The prompts are found by the ids of the tasks, as far as there are tasks. -/
theorem get?_loadPrompts (count : Nat) : ∃ prompts, loadPrompts none true count = .ok prompts ∧
    ∀ i, prompts.get? (some (.inr (Main.completionId i)))
      = if i < max count 1 then some (promptRecord (Main.completionTask i)) else none := by
  refine ⟨_, rfl, fun i => ?_⟩
  have hkeys : (((Main.makeTasks (max count 1)).map (fun task =>
      ((some (.inr task.taskId) : Key), promptRecord task))).map Prod.fst)
        = (List.range (max count 1)).map (fun i => some (.inr (Main.completionId i))) := by
    rw [Main.makeTasks, List.map_map, List.map_map]
    rfl
  have hinj : Function.Injective (fun i => (some (.inr (Main.completionId i)) : Key)) :=
    fun i j h => Main.completionId_injective (Sum.inr.inj (Option.some.inj h))
  have hentries := Dict.entries_update_of_nodup (Dict.empty : Dict Key Record)
    (hkeys ▸ List.nodup_range.map hinj) (fun _ _ => List.not_mem_nil)
  split
  · next hlt =>
      rw [Dict.get?_eq_some_iff, hentries]
      refine List.mem_append_right _ (List.mem_map.2 ⟨Main.completionTask i, ?_, rfl⟩)
      exact List.mem_map_of_mem (List.mem_range.2 hlt)
  · next hge =>
      rw [Dict.get?_eq_none_iff, Dict.keys, hentries, List.map_append, hkeys]
      intro hmem
      rcases List.mem_append.1 hmem with hnone | hin
      · cases hnone
      · obtain ⟨j, hj, heq⟩ := List.mem_map.1 hin
        exact hge (hinj heq ▸ List.mem_range.1 hj)

/-- The prompt that is looked up for a task. -/
theorem prompt_of_get? {prompts : Dict Key Record} {count i : Nat}
    (h : prompts.get? (some (.inr (Main.completionId i)))
      = if i < max count 1 then some (promptRecord (Main.completionTask i)) else none) :
    either (getField ((prompts.get? (some (.inr (Main.completionId i)))).getD .empty) "prompt"
      .null) promptUnavailable = promptOf count i := by
  rw [h, promptOf]
  split
  · have hprompt : getField (promptRecord (Main.completionTask i)) "prompt" .null
        = .str (Main.completion i).1 := by
      simp [getField, promptRecord, Dict.update, Dict.get?_set, Main.completionTask]
    rw [Option.getD_some, hprompt, either, if_pos]
    exact decide_eq_true (completion_prompt_ne i)
  · rfl

/-! ## All records -/

/-- The agent runs of some results, each with its prompt as far as that is found. -/
def MappedAll (count : Nat) (rows : List EvalResult) (runs : List AgentRun) : Prop :=
  List.Forall₂ (fun row run => ∃ i, row.taskId = Main.completionId i ∧
    Mapped row (promptOf count i) run) rows runs

theorem agentRuns_sourced {prompts : Dict Key Record} {count : Nat}
    (hprompts : ∀ i, prompts.get? (some (.inr (Main.completionId i)))
      = if i < max count 1 then some (promptRecord (Main.completionTask i)) else none)
    {runMeta : Record} (hmeta : Additional runMeta) {records : List Record}
    {rows : List EvalResult} (h : List.Forall₂ Sourced records rows)
    (hconds : ∀ row ∈ rows, (row.conditionScores.map Prod.fst).Nodup)
    (hids : ∀ row ∈ rows, ∃ i, row.taskId = Main.completionId i) :
    ∃ runs, agentRuns ofText prompts runMeta records = .ok runs ∧ MappedAll count rows runs := by
  induction h with
  | nil => exact ⟨[], rfl, .nil⟩
  | @cons rec row records rows hrow _ ih =>
      obtain ⟨runs, hruns, hmapped⟩ := ih (fun r hr => hconds r (List.mem_cons_of_mem _ hr))
        (fun r hr => hids r (List.mem_cons_of_mem _ hr))
      obtain ⟨i, hi⟩ := hids row List.mem_cons_self
      have hid : subscript rec "task_id" = .ok (.str (Main.completionId i)) :=
        hi ▸ hrow.subscript (by decide) rfl
      obtain ⟨run, hrun, hone⟩ := toAgentRun_sourced ofText hrow
        (hconds row List.mem_cons_self)
        ((prompts.get? (some (.inr (Main.completionId i)))).getD .empty) hmeta
      rw [prompt_of_get? (hprompts i)] at hone
      refine ⟨run :: runs, ?_, .cons ⟨i, hi, hone⟩ hmapped⟩
      have hfirst : agentRunOf ofText prompts runMeta rec = .ok run := by
        rw [agentRunOf, hid]
        exact hrun
      rw [agentRuns] at hruns
      rw [agentRuns, List.mapM_cons, hfirst, hruns]
      rfl

theorem sum_toNat (p : EvalResult → Bool) (rows : List EvalResult) :
    (rows.map (fun row => (p row).toNat)).sum = rows.countP p := by
  induction rows with
  | nil => rfl
  | cons row rows ih =>
      rw [List.map_cons, List.sum_cons, ih, List.countP_cons, Nat.add_comm]
      rcases p row
      · rfl
      · rfl

/-- A loop over agent runs that reads the same of each as of its result. -/
theorem sum_mapM_mapped {count : Nat} {rows : List EvalResult} {runs : List AgentRun}
    (h : MappedAll count rows runs) {flag : AgentRun → Except Exc Nat} {p : EvalResult → Bool}
    (hflag : ∀ row prompt run, Mapped row prompt run → flag run = .ok (p row).toNat) :
    (runs.mapM flag).map List.sum = .ok (rows.countP p) := by
  have hall : runs.mapM flag = .ok (rows.map (fun row => (p row).toNat)) := by
    induction h with
    | nil => rfl
    | cons hrow _ ih =>
        obtain ⟨i, -, hone⟩ := hrow
        rw [List.mapM_cons, hflag _ _ _ hone, ih]
        rfl
  rw [hall]
  exact congrArg Except.ok (sum_toNat p rows)

theorem failedFlag_mapped {row : EvalResult} {prompt : Json} {run : AgentRun}
    (h : Mapped row prompt run) : failedFlag run = .ok row.failed.toNat := by
  have hscores : subscript run.metadata "scores" = .ok (.obj ([("rubric_total", .num row.score),
      ("failed", .bool row.failed)] ++ condScores row)) := by
    rw [subscript, h.fields _ (List.mem_cons_of_mem _ (List.mem_cons_of_mem _ List.mem_cons_self))]
  simp only [failedFlag, hscores, bind, Except.bind]
  rfl

theorem hookedFlag_mapped {row : EvalResult} {prompt : Json} {run : AgentRun}
    (h : Mapped row prompt run) :
    (subscript run.metadata "hooked").map (fun value => (truthy value).toNat)
      = .ok row.hooked.toNat := by
  have hhooked : run.metadata.get? "hooked" = some (.bool row.hooked) :=
    h.fields ("hooked", .bool row.hooked) (by simp [described])
  rw [subscript, hhooked]
  rfl

/-! ## The upload -/

/-- Chunks of a positive size are all of the runs, in order. -/
theorem uploadChunks_flatten (runs : List AgentRun) {batchSize : Int} (h : 0 < batchSize) :
    ∃ chunks, uploadChunks runs batchSize = .ok chunks ∧ chunks.flatten = runs := by
  rw [uploadChunks, if_neg (by omega), if_neg (by omega)]
  refine ⟨_, rfl, ?_⟩
  rw [flatten_map_take_drop]
  refine List.take_of_length_le ?_
  have hsize : 0 < batchSize.toNat := by omega
  have hdiv := Nat.div_add_mod (runs.length + batchSize.toNat - 1) batchSize.toNat
  have hmod := Nat.mod_lt (runs.length + batchSize.toNat - 1) hsize
  rw [Nat.mul_comm]
  omega

/-- What `main` does with the records of some results: only the upload depends on the size of the
    chunks. -/
theorem adapt_sourced {records : List Record} {rows : List EvalResult}
    (hrecords : List.Forall₂ Sourced records rows)
    (hconds : ∀ row ∈ rows, (row.conditionScores.map Prod.fst).Nodup)
    (hids : ∀ row ∈ rows, ∃ i, row.taskId = Main.completionId i) {args : List String}
    {runMeta : Record} (hargs : parseRunMeta .empty 0 args = .ok runMeta)
    (hmeta : Additional runMeta) :
    ∃ runs, MappedAll rows.length rows runs ∧ ∀ batchSize : Int,
      adapt ofText none true args batchSize false records
        = (uploadChunks runs batchSize).map (fun chunks => ⟨rows.length,
            rows.countP EvalResult.failed, rows.countP EvalResult.hooked, chunks⟩) := by
  have hlength : records.length = rows.length := hrecords.length_eq
  obtain ⟨prompts, hload, hprompts⟩ := get?_loadPrompts rows.length
  obtain ⟨runs, hruns, hmapped⟩ := agentRuns_sourced ofText hprompts hmeta hrecords
    hconds hids
  have hfailed : nFail runs = .ok (rows.countP EvalResult.failed) :=
    sum_mapM_mapped hmapped (fun _ _ _ h => failedFlag_mapped h)
  have hhooked : nHook runs = .ok (rows.countP EvalResult.hooked) :=
    sum_mapM_mapped hmapped (fun _ _ _ h => hookedFlag_mapped h)
  have hcount : runs.length = rows.length := hmapped.length_eq.symm
  refine ⟨runs, hmapped, fun batchSize => ?_⟩
  simp only [adapt, hargs, hlength, hload, hruns, hfailed, hhooked, hcount, bind, Except.bind]
  rcases uploadChunks runs batchSize with exc | chunks
  · rfl
  · rfl

/-! ## What becomes of the results of a run -/

theorem prompt_mem_iff {row : EvalResult} {count i : Nat} {run : AgentRun}
    (h : Mapped row (promptOf count i) run) :
    ("user", Json.str (Main.completion i).1) ∈ run.messages ↔ i < max count 1 := by
  have hother : ∀ c ∈ Main.completions,
      c.1 ≠ "(prompt unavailable: task source not provided)" := by decide +kernel
  rw [h.messages, promptOf]
  split
  · next hlt => exact iff_of_true List.mem_cons_self hlt
  · next hge =>
      refine iff_of_false (fun hmem => ?_) hge
      rcases List.mem_cons.1 hmem with heq | hin
      · exact hother _ (List.get_mem _ _) (Json.str.inj (Prod.mk.inj heq).2)
      · have huser := (Prod.mk.inj (List.mem_singleton.1 hin)).1
        exact absurd huser (by decide)

/-- The user message of an agent run has the prompt of the task of its result. -/
def OwnPrompt (row : EvalResult) (run : AgentRun) : Prop :=
  ∃ i, row.taskId = Main.completionId i ∧ ("user", Json.str (Main.completion i).1) ∈ run.messages

theorem MappedAll.ownPrompt_iff {count : Nat} {rows : List EvalResult} {runs : List AgentRun}
    (h : MappedAll count rows runs) : List.Forall₂ OwnPrompt rows runs ↔
      ∀ row ∈ rows, ∃ i < max count 1, row.taskId = Main.completionId i := by
  induction h with
  | nil => exact iff_of_true .nil (fun _ hrow => absurd hrow List.not_mem_nil)
  | @cons row run rows runs hrow _ ih =>
      obtain ⟨i, hi, hone⟩ := hrow
      have hown : OwnPrompt row run ↔ ∃ j < max count 1, row.taskId = Main.completionId j := by
        constructor
        · rintro ⟨j, hj, hmem⟩
          obtain rfl := Main.completionId_injective (hi.symm.trans hj)
          exact ⟨i, (prompt_mem_iff hone).1 hmem, hi⟩
        · rintro ⟨j, hlt, hj⟩
          obtain rfl := Main.completionId_injective (hi.symm.trans hj)
          exact ⟨i, hi, (prompt_mem_iff hone).2 hlt⟩
      rw [List.forall₂_cons, ih, hown, List.forall_mem_cons]

/-- Whatever results of generated tasks the adapter has read, it makes one agent run of each, with
    its own prompt if and only if no task has a number beyond that of the results. It counts them,
    and uploads all of them, in order, in chunks of a positive size; of a negative size there are
    none, and a size of zero is an error. -/
theorem results_adapted {records : List Record} {rows : List EvalResult}
    (hrecords : List.Forall₂ Sourced records rows)
    (hconds : ∀ row ∈ rows, (row.conditionScores.map Prod.fst).Nodup)
    (hids : ∀ row ∈ rows, ∃ i, row.taskId = Main.completionId i) {args : List String}
    {runMeta : Record} (hargs : parseRunMeta .empty 0 args = .ok runMeta)
    (hmeta : Additional runMeta) :
    ∃ runs, List.Forall₂ (fun row run => ∃ prompt, Mapped row prompt run) rows runs ∧
      (List.Forall₂ OwnPrompt rows runs ↔
        ∀ row ∈ rows, ∃ i < max rows.length 1, row.taskId = Main.completionId i) ∧
      (∀ batchSize : Int, batchSize ≠ 0 →
        ∃ out, adapt ofText none true args batchSize false records = .ok out ∧
          out.mapped = rows.length ∧ out.failed = rows.countP EvalResult.failed ∧
          out.hooked = rows.countP EvalResult.hooked ∧
          (0 < batchSize → out.uploaded.flatten = runs) ∧ (batchSize < 0 → out.uploaded = [])) ∧
      ∃ msg, adapt ofText none true args 0 false records = .error ⟨"ValueError", msg⟩ := by
  obtain ⟨runs, hmapped, hadapt⟩ := adapt_sourced ofText hrecords hconds hids hargs hmeta
  refine ⟨runs, hmapped.imp ?_, hmapped.ownPrompt_iff, fun batchSize hsize => ?_, ?_⟩
  · rintro row run ⟨i, -, hone⟩
    exact ⟨_, hone⟩
  · rw [hadapt]
    rcases lt_or_gt_of_ne hsize with hneg | hpos
    · rw [uploadChunks, if_neg hsize, if_pos hneg]
      exact ⟨_, rfl, rfl, rfl, rfl, fun hpos => absurd hneg (by omega), fun _ => rfl⟩
    · obtain ⟨chunks, hchunks, hflatten⟩ := uploadChunks_flatten runs hpos
      rw [hchunks]
      exact ⟨_, rfl, rfl, rfl, rfl, fun _ => hflatten, fun hneg => absurd hneg (by omega)⟩
  · rw [hadapt]
    exact ⟨_, rfl⟩

/-- The results of the first and of the sixth task alone. -/
def fewRows : List EvalResult :=
  [ShardedAggregator.sampleRow (Main.completionId 0),
    ShardedAggregator.sampleRow (Main.completionId 5)]

theorem sourced_withSource (path : String) (lineno : Nat) (row : EvalResult) :
    Sourced (withSource path lineno row.toDict) row :=
  ⟨erase_withSource path lineno row, _, Dict.get?_set_self _ _ _⟩

theorem additional_empty : Additional .empty := fun _ _ => List.not_mem_nil

/-- Uploaded in chunks of a negative size, none of the two is, and the second has no prompt. -/
theorem results_adapted_few : ∃ runs out,
    adapt (fun _ => .ok 0) none true [] (-1) false
      (fewRows.map (fun row => withSource "results.jsonl" 1 row.toDict)) = .ok out ∧
    out.mapped = 2 ∧ out.uploaded = [] ∧ ¬ List.Forall₂ OwnPrompt fewRows runs := by
  have hrecords : List.Forall₂ Sourced
      (fewRows.map (fun row => withSource "results.jsonl" 1 row.toDict)) fewRows :=
    .cons (sourced_withSource _ _ _) (.cons (sourced_withSource _ _ _) .nil)
  have hconds : ∀ row ∈ fewRows, (row.conditionScores.map Prod.fst).Nodup :=
    List.forall_mem_cons.2 ⟨List.nodup_nil, List.forall_mem_singleton.2 List.nodup_nil⟩
  have hids : ∀ row ∈ fewRows, ∃ i, row.taskId = Main.completionId i :=
    List.forall_mem_cons.2 ⟨⟨0, rfl⟩, List.forall_mem_singleton.2 ⟨5, rfl⟩⟩
  have hargs : parseRunMeta .empty 0 [] = .ok .empty := rfl
  obtain ⟨runs, -, hprompts, huploads, -⟩ :=
    results_adapted (fun _ => .ok 0) hrecords hconds hids hargs additional_empty
  obtain ⟨out, hout, hmapped, -, -, -, hnone⟩ := huploads (-1) (by decide)
  refine ⟨runs, out, hout, hmapped, hnone (by decide), fun hall => ?_⟩
  obtain ⟨i, hi, heq⟩ := hprompts.1 hall _ (List.mem_cons_of_mem _ List.mem_cons_self)
  have hfive : Main.completionId 5 = Main.completionId i := heq
  obtain rfl := Main.completionId_injective hfive
  exact absurd hi (by decide)

/-! ## An agent run tells its result -/

theorem failureKind_name_injective {a b : Option FailureKind}
    (h : (a.map (fun kind => Json.str kind.name)).getD .null
      = (b.map (fun kind => Json.str kind.name)).getD .null) : a = b := by
  rcases a with _ | (_ | _) <;> rcases b with _ | (_ | _) <;> simp_all [FailureKind.name]

/-- Results with the same agent run are the same, but for the response of a failed one, and the
    error of one that has not failed or has an empty error. -/
structure SameButHidden (row row' : EvalResult) : Prop where
  taskId : row.taskId = row'.taskId
  score : row.score = row'.score
  failed : row.failed = row'.failed
  conditionScores : row.conditionScores = row'.conditionScores
  failureKind : row.failureKind = row'.failureKind
  hooked : row.hooked = row'.hooked
  hookState : row.hookState = row'.hookState
  stoppedEarly : row.stoppedEarly = row'.stoppedEarly
  workerId : row.workerId = row'.workerId
  latencySeconds : row.latencySeconds = row'.latencySeconds
  batchLatencySeconds : row.batchLatencySeconds = row'.batchLatencySeconds
  tokensGenerated : row.tokensGenerated = row'.tokensGenerated
  response : row.failed = false → row.response = row'.response
  error : row.failed = true → ∀ text, text ≠ "" → row.error = some text →
    ∀ text', text' ≠ "" → row'.error = some text' → text = text'

/-- Whatever the tasks and the metadata of the run, and wherever the records have been read. -/
theorem agent_run_determines_result {rec rec' : Record} {row row' : EvalResult}
    (h : Sourced rec row) (h' : Sourced rec' row')
    (hconds : (row.conditionScores.map Prod.fst).Nodup)
    (hconds' : (row'.conditionScores.map Prod.fst).Nodup) {task task' runMeta runMeta' : Record}
    (hmeta : Additional runMeta) (hmeta' : Additional runMeta')
    (hsame : toAgentRun ofText rec task runMeta = toAgentRun ofText rec' task' runMeta') :
    SameButHidden row row' := by
  obtain ⟨run, hrun, hmapped⟩ := toAgentRun_sourced ofText h hconds task hmeta
  obtain ⟨run', hrun', hmapped'⟩ := toAgentRun_sourced ofText h' hconds' task' hmeta'
  obtain rfl : run = run' := Except.ok.inj (hrun.symm.trans (hsame.trans hrun'))
  have hfield : ∀ (field : String) {value value' : Json}, (field, value) ∈ described row →
      (field, value') ∈ described row' → value = value' := by
    intro field value value' hin hin'
    have hvalue : run.metadata.get? field = some value := hmapped.fields _ hin
    have hvalue' : run.metadata.get? field = some value' := hmapped'.fields _ hin'
    exact Option.some.inj (hvalue.symm.trans hvalue')
  have hscores : [("rubric_total", Json.num row.score), ("failed", .bool row.failed)]
        ++ condScores row
      = [("rubric_total", Json.num row'.score), ("failed", .bool row'.failed)]
        ++ condScores row' :=
    Json.obj.inj (hfield "scores" (by simp [described]) (by simp [described]))
  obtain ⟨hscore, hrest⟩ := List.cons.inj hscores
  obtain ⟨hfailed, hcond⟩ := List.cons.inj hrest
  replace hfailed : row.failed = row'.failed := Json.bool.inj (Prod.mk.inj hfailed).2
  have hnames : Function.Injective (fun e : String × ℚ => ("cond_" ++ e.1, Json.num e.2)) := by
    intro a b heq
    obtain ⟨hname, hvalue⟩ := Prod.mk.inj heq
    exact Prod.ext ((String.append_right_inj _).1 hname) (Json.num.inj hvalue)
  have hstates : Function.Injective (fun e : String × String => (e.1, Json.str e.2)) := by
    intro a b heq
    obtain ⟨hname, hvalue⟩ := Prod.mk.inj heq
    exact Prod.ext hname (Json.str.inj hvalue)
  have hbatch : (row.batchLatencySeconds.map Json.num).getD .null
      = (row'.batchLatencySeconds.map Json.num).getD .null :=
    hfield "batch_latency_seconds" (by simp [described]) (by simp [described])
  have hanswers := hmapped.messages.symm.trans hmapped'.messages
  replace hanswers : answer row = answer row' :=
    (Prod.mk.inj (List.cons.inj (List.cons.inj hanswers).2).1).2
  refine
    { taskId := Json.str.inj (hmapped.name.symm.trans hmapped'.name)
      score := Json.num.inj (Prod.mk.inj hscore).2
      failed := hfailed
      conditionScores := hnames.list_map hcond
      failureKind := failureKind_name_injective
        (hfield "failure_kind" (by simp [described]) (by simp [described]))
      hooked := Json.bool.inj
        (hfield "hooked" (by simp [described]) (by simp [described]))
      hookState := hstates.list_map (Json.obj.inj
        (hfield "hook_state" (by simp [described]) (by simp [described])))
      stoppedEarly := Json.bool.inj
        (hfield "stopped_early" (by simp [described]) (by simp [described]))
      workerId := Int.cast_injective (Json.num.inj
        (hfield "worker_id" (by simp [described]) (by simp [described])))
      latencySeconds := Json.num.inj
        (hfield "latency_seconds" (by simp [described]) (by simp [described]))
      batchLatencySeconds := ?_
      tokensGenerated := Nat.cast_injective (Json.num.inj
        (hfield "tokens_generated" (by simp [described]) (by simp [described])))
      response := fun hok => ?_
      error := fun hfail text htext herror text' htext' herror' => ?_ }
  · generalize row.batchLatencySeconds = latency at hbatch ⊢
    generalize row'.batchLatencySeconds = latency' at hbatch ⊢
    rcases latency with _ | latency <;> rcases latency' with _ | latency' <;> simp_all
  · rw [answer, answer, ← hfailed, hok] at hanswers
    exact Json.str.inj hanswers
  · have htruthy : ∀ text : String, text ≠ "" → either (.str text) noResponse = .str text :=
      fun text hne => if_pos (decide_eq_true hne)
    rw [answer, answer, ← hfailed, hfail, herror, herror'] at hanswers
    simp only [if_true, Option.map_some, Option.getD_some, htruthy text htext,
      htruthy text' htext'] at hanswers
    exact Json.str.inj hanswers

def failedRow (response : String) : EvalResult :=
  { ShardedAggregator.sampleRow "a" with failed := true, response }

theorem get?_failedRow (response response' field : String) (h : field ≠ "response") :
    (withSource "results.jsonl" 1 (failedRow response).toDict).get? field
      = (withSource "results.jsonl" 1 (failedRow response').toDict).get? field := by
  have hne : ¬ "response" = field := fun heq => h heq.symm
  rw [withSource, withSource, Dict.get?_set, Dict.get?_set]
  split
  · rfl
  · simp only [Dict.get?, EvalResult.toDict, failedRow, List.find?_cons, hne, decide_false]

/-- Two failed results that differ in their responses. -/
theorem agent_run_determines_result_failed : SameButHidden (failedRow "4") (failedRow "5") := by
  have hget := get?_failedRow "4" "5"
  have hfailed : (withSource "results.jsonl" 1 (failedRow "5").toDict).get? "failed"
      = some (.bool true) := (sourced_withSource "results.jsonl" 1 (failedRow "5")).get? (by decide)
  have hsame : toAgentRun (fun _ => .ok 0)
        (withSource "results.jsonl" 1 (failedRow "4").toDict) .empty .empty
      = toAgentRun (fun _ => .ok 0)
        (withSource "results.jsonl" 1 (failedRow "5").toDict) .empty .empty := by
    simp only [toAgentRun, scoresOf, metadataOf, subscript, getField, ne_eq, String.reduceEq,
      not_false_eq_true, hget, hfailed]
    rfl
  exact agent_run_determines_result (fun _ => .ok 0) (sourced_withSource "results.jsonl" 1 _)
    (sourced_withSource "results.jsonl" 1 _) List.nodup_nil List.nodup_nil additional_empty
    additional_empty hsame

/-! ## From the run to the upload -/

variable {loads : String → Except Exc Record} {jsonLine : EvalResult → String} {files : Files}

theorem iterLines_source (path : String) (lineno : Nat) (lines : List Str) :
    ∀ rec ∈ (iterLines loads path lineno lines).items,
      ∃ source, rec.get? "_source" = some source := by
  induction lines generalizing lineno with
  | nil => exact fun rec hrec => absurd hrec List.not_mem_nil
  | cons line lines ih =>
      intro rec hrec
      unfold iterLines at hrec
      dsimp only at hrec
      split at hrec
      · exact ih (lineno + 1) rec hrec
      · split at hrec
        · cases hrec
        · split at hrec
          · cases hrec
          · rcases List.mem_cons.1 hrec with rfl | hin
            · exact ⟨_, Dict.get?_set_self _ _ _⟩
            · exact ih (lineno + 1) rec hin

theorem iterPaths_source (paths : List PurePath) :
    ∀ rec ∈ (iterPaths loads files paths).items, ∃ source, rec.get? "_source" = some source := by
  induction paths with
  | nil => exact fun rec hrec => absurd hrec List.not_mem_nil
  | cons path paths ih =>
      intro rec hrec
      unfold iterPaths at hrec
      dsimp only at hrec
      split at hrec
      · exact iterLines_source path.text 1 _ rec hrec
      · rcases List.mem_append.1 hrec with hhere | hlater
        · exact iterLines_source path.text 1 _ rec hhere
        · exact ih rec hlater

/-- Records that are those of some results, but for where they have been read. -/
theorem sourced_of_map_erase {records : List Record} {rows : List EvalResult}
    (h : records.map (fun rec => rec.erase "_source") = rows.map EvalResult.toDict)
    (hsource : ∀ rec ∈ records, ∃ source, rec.get? "_source" = some source) :
    List.Forall₂ Sourced records rows := by
  induction records generalizing rows with
  | nil =>
      obtain rfl := List.map_eq_nil_iff.1 h.symm
      exact .nil
  | cons rec records ih =>
      rcases rows with _ | ⟨row, rows⟩
      · cases h
      · rw [List.map_cons, List.map_cons, List.cons.injEq] at h
        exact .cons ⟨h.1, hsource rec List.mem_cons_self⟩
          (ih h.2 (fun r hr => hsource r (List.mem_cons_of_mem _ hr)))

open ShardedAggregator in
/-- A run over generated tasks that writes to the documented file from a single shard: whatever
    happens to the workers, the adapter uploads one agent run for each task, with its own prompt. -/
theorem run_uploaded {σ : Type} {w : World σ} {s₀ s : Sys σ} {n : Nat}
    (htasks : w.cfg.tasks = (Main.makeTasks n).map (fun task => task.toEvalTask))
    (h : startRun w = .ok s₀)
    (hworker : ∀ st hd batch rows st', w.evaluateBatch st hd batch = (.ok rows, st') →
      (rows.map EvalResult.taskId).Perm (batch.map w.cfg.taskId))
    (hrecord : ∀ i, (w.env i).recordFault = none) {k : Nat}
    (hs : after w s₀ k = .exited s ∨ after w s₀ k = .aborted s) {agg : ShardedAggregator}
    (hcfg : agg.cfg = w.cfg) (hone : agg.nShards = 1) (hout : agg.outputPath = resultsFile)
    (hempty : ∀ name, files (resultsFile.withName name) = none) {actors : Actors} {elapsed : ℚ}
    {draws : Nat → Nat → Nat}
    (hrun : agg.Run (fun row => .ok (jsonLine row)) draws files actors)
    (hsent : actors.sent = agg.runCallsOf s.shardCalls elapsed)
    (hanswered : ∀ n < actors.sent.length, (actors.answers n).isSome)
    (hreadable : ∀ call ∈ s.shardCalls, ∀ row ∈ call.2, Readable loads jsonLine row ∧
      (row.conditionScores.map Prod.fst).Nodup)
    {listing : List String} (hnodup : listing.Nodup)
    (hlisting : ∀ name, name ∈ listing ↔
      ((agg.finalize (agg.disk files actors.state)).2 (resultsFile.withName name)).isSome)
    {args : List String} {runMeta : Record} (hargs : parseRunMeta .empty 0 args = .ok runMeta)
    (hmeta : Additional runMeta) {batchSize : Int} (hsize : 0 < batchSize) :
    ∃ rows out, rows.Perm (s.shardCalls.flatMap Prod.snd) ∧
      (rows.map EvalResult.taskId).Perm ((Main.makeTasks n).map (fun task => task.taskId)) ∧
      (iterRecords loads (agg.finalize (agg.disk files actors.state)).2 listing
        documentedGlob).raised = none ∧
      adapt ofText none true args batchSize false (iterRecords loads
        (agg.finalize (agg.disk files actors.state)).2 listing documentedGlob).items = .ok out ∧
      List.Forall₂ (fun row run => ∃ prompt, Mapped row prompt run) rows out.uploaded.flatten ∧
      List.Forall₂ OwnPrompt rows out.uploaded.flatten := by
  obtain ⟨hcalls, hids⟩ := recordedRows_at_end h hworker hrecord hs
  generalize recordedRows s.log = batches at hcalls hids
  rw [hcalls, ← hcfg, runCallsOf_shardGroups] at hsent
  have hmailbox : ∀ i < agg.nShards, actors.mailbox i = [] := by
    have hdrawn : agg.DrawnRun (fun row => .ok (jsonLine row)) (fun _ => draws) files actors := hrun
    exact fun i _ => hdrawn.mailbox_nil hanswered i
  have hrows : ∀ row ∈ batches.flatten, Readable loads jsonLine row ∧
      (row.conditionScores.map Prod.fst).Nodup := by
    intro row hrow
    obtain ⟨batch, hbatch, hin⟩ := List.mem_flatten.1 hrow
    obtain ⟨group, hgroup, hmem⟩ := List.mem_flatMap.1
      ((shardGroups_perm agg.routed batch).mem_iff.2 hin)
    refine hreadable group ?_ row hmem
    rw [hcalls, ← hcfg]
    exact List.mem_flatMap.2 ⟨batch, hbatch, hgroup⟩
  have hall : (s.shardCalls.flatMap Prod.snd).Perm batches.flatten := by
    rw [hcalls, ← hcfg, List.flatMap_assoc]
    exact List.Perm.flatten_congr (List.forall₂_map_left_iff.2 (List.forall₂_same.2
      (fun batch _ => shardGroups_perm agg.routed batch)))
  have hnone : agg.finalizeCalls = [] := if_pos hone
  rw [hnone, List.nil_append, ← List.append_nil (agg.summaryCalls elapsed), ← hnone] at hsent
  obtain ⟨read, hread, hraised, hitems⟩ := iterRecords_gives hout hempty (fun row hrow =>
    (hrows row hrow).1) (agg.silent_summaryCalls elapsed) hrun hsent hmailbox hnodup hlisting
  rw [if_pos hone] at hread
  rw [htasks, List.map_map] at hids
  have hreadIds : (read.map EvalResult.taskId).Perm
      ((Main.makeTasks n).map (fun task => task.taskId)) := (hread.map _).trans hids
  have hlength : read.length = n := by
    have hlen := hreadIds.length_eq
    rwa [List.length_map, List.length_map, Main.makeTasks, List.length_map,
      List.length_range] at hlen
  have hnumber : ∀ row ∈ read, ∃ i < n, row.taskId = Main.completionId i := by
    intro row hrow
    have hmem := hreadIds.mem_iff.1 (List.mem_map_of_mem hrow)
    rw [Main.map_taskId_makeTasks] at hmem
    obtain ⟨i, hi, heq⟩ := List.mem_map.1 hmem
    exact ⟨i, List.mem_range.1 hi, heq.symm⟩
  have hsourced : List.Forall₂ Sourced (iterRecords loads
      (agg.finalize (agg.disk files actors.state)).2 listing documentedGlob).items read := by
    refine sourced_of_map_erase hitems (fun rec hrec => ?_)
    unfold iterRecords at hrec
    dsimp only at hrec
    split at hrec
    · cases hrec
    · exact iterPaths_source _ rec hrec
  obtain ⟨runs, hmapped, hadapt⟩ := adapt_sourced ofText
    hsourced (fun row hrow => (hrows row (hread.mem_iff.1 hrow)).2)
    (fun row hrow => (hnumber row hrow).imp (fun _ => And.right)) hargs hmeta
  obtain ⟨chunks, hchunks, rfl⟩ := uploadChunks_flatten runs hsize
  refine ⟨read, _, hread.trans hall.symm, hreadIds, hraised,
    by rw [hadapt, hchunks]; rfl, ?_, ?_⟩
  · refine hmapped.imp ?_
    rintro row run ⟨i, -, hmapped⟩
    exact ⟨_, hmapped⟩
  · refine hmapped.ownPrompt_iff.2 ?_
    intro row hrow
    obtain ⟨i, hi, heq⟩ := hnumber row hrow
    refine ⟨i, ?_, heq⟩
    rw [hlength]
    exact lt_max_of_lt_left hi

/-! ## Two tasks -/

/-- Two generated tasks in one batch for one worker, which fails on the batch and not on its
    halves. -/
def twoTasks : Config where
  nWorkers := 1
  batchSize := 2
  tasks := (Main.makeTasks 2).map (fun task => task.toEvalTask)

def twoTasksWorld : World Unit where
  cfg := twoTasks
  evaluateBatch := fun _ _ batch =>
    (if 1 < batch.length then .error ⟨"RayActorError", "The actor died"⟩
      else .ok (batch.map (fun t => ShardedAggregator.sampleRow (twoTasks.taskId t))), ())
  backend := ()
  env := promptReply 1

def twoTasksShard : ShardedAggregator :=
  { ShardedAggregator.oneShard with cfg := twoTasks, routed := fun _ => Nat.one_pos }

def taskRow (i : Nat) : EvalResult := ShardedAggregator.sampleRow (Main.completionId i)

def twoTasksActors : ShardedAggregator.Actors :=
  ((Mailbox.Actors.start (twoTasksShard.start (fun _ => none))).sendAll
    (twoTasksShard.runCallsOf [(0, [taskRow 0]), (0, [taskRow 1])] 10)).executeAll
      (ResultsAggregatorImpl.exec (fun row => .ok (ShardedAggregator.sampleLine row))
        (fun _ _ => 0)) [0, 0, 0]

/-- `json.loads`, for the lines of the two results. -/
def twoTasksLoads (text : String) : Except Exc Record :=
  match [taskRow 0, taskRow 1].find? (fun row => ShardedAggregator.sampleLine row = text) with
  | some row => .ok row.toDict
  | none => .error ⟨"JSONDecodeError", "Expecting value: line 1 column 1 (char 0)"⟩

theorem taskRow_readable : ∀ row ∈ [taskRow 0, taskRow 1],
    Readable twoTasksLoads ShardedAggregator.sampleLine row := by
  have hid : ∀ row ∈ [taskRow 0, taskRow 1],
      '\n' ∉ row.taskId.toList ∧ '\r' ∉ row.taskId.toList := by decide +kernel
  have hfound : ∀ row ∈ [taskRow 0, taskRow 1], [taskRow 0, taskRow 1].find?
      (fun other => ShardedAggregator.sampleLine other = ShardedAggregator.sampleLine row)
        = some row := by decide +kernel
  intro row hrow
  obtain ⟨hnewline, hreturn⟩ := hid row hrow
  refine ⟨ShardedAggregator.not_mem_sampleLine (.inl rfl) hnewline,
    ShardedAggregator.not_mem_sampleLine (.inr rfl) hreturn,
    (ShardedAggregator.sampleLine_ends row).1, (ShardedAggregator.sampleLine_ends row).2, ?_⟩
  rw [twoTasksLoads, hfound row hrow]

theorem run_uploaded_two : ∃ s₀ s rows out, startRun twoTasksWorld = .ok s₀ ∧
    after twoTasksWorld s₀ 4 = .exited s ∧ rows.Perm [taskRow 0, taskRow 1] ∧
    (rows.map EvalResult.taskId).Perm ["task_00000", "task_00001"] ∧
    adapt (fun _ => .ok 0) none true [] 200 false (iterRecords twoTasksLoads
      (twoTasksShard.finalize (twoTasksShard.disk (fun _ => none) twoTasksActors.state)).2
        (twoTasksShard.writtenPaths.map PurePath.name)
          documentedGlob).items = .ok out ∧
    List.Forall₂ OwnPrompt rows out.uploaded.flatten := by
  obtain ⟨s₀, s, h, hs, hcalls⟩ := exists_exited (w := twoTasksWorld) (k := 4)
    (P := fun s => s.shardCalls = [(0, [taskRow 0]), (0, [taskRow 1])]) (by decide +kernel)
  have hworker : ∀ st hd batch rows st', twoTasksWorld.evaluateBatch st hd batch = (.ok rows, st') →
      (rows.map EvalResult.taskId).Perm (batch.map twoTasks.taskId) := by
    intro st hd batch rows st' hok
    simp only [twoTasksWorld, Prod.mk.injEq] at hok
    obtain ⟨hrows, -⟩ := hok
    split at hrows
    · cases hrows
    · cases hrows
      rw [List.map_map]
      exact .refl _
  have hrun : twoTasksShard.Run (fun row => .ok (ShardedAggregator.sampleLine row)) (fun _ _ => 0)
      (fun _ => none) twoTasksActors :=
    (Mailbox.Run.sendAll Relation.ReflTransGen.refl (fun _ _ => trivial)).executeAll _
  have hsent : twoTasksActors.sent = twoTasksShard.runCallsOf s.shardCalls 10 := by
    rw [hcalls]
    rfl
  have hreadable : ∀ call ∈ s.shardCalls, ∀ row ∈ call.2,
      Readable twoTasksLoads ShardedAggregator.sampleLine row ∧
        (row.conditionScores.map Prod.fst).Nodup := by
    intro call hcall row hrow
    rw [hcalls] at hcall
    have hnone : ∀ i, ((taskRow i).conditionScores.map Prod.fst).Nodup := fun _ => List.nodup_nil
    simp only [List.mem_cons, List.not_mem_nil, or_false] at hcall
    rcases hcall with rfl | rfl
    · obtain rfl := List.mem_singleton.1 hrow
      exact ⟨taskRow_readable _ List.mem_cons_self, hnone 0⟩
    · obtain rfl := List.mem_singleton.1 hrow
      exact ⟨taskRow_readable _ (List.mem_cons_of_mem _ List.mem_cons_self), hnone 1⟩
  have hanswered : ∀ n < twoTasksActors.sent.length, (twoTasksActors.answers n).isSome := by
    decide +kernel
  have hcallsOf : twoTasksActors.sent = twoTasksShard.recordCalls [[taskRow 0], [taskRow 1]]
      ++ (twoTasksShard.summaryCalls 10 ++ twoTasksShard.finalizeCalls) := rfl
  have hlisting := ShardedAggregator.mem_names_iff rfl (fun _ => rfl)
    (twoTasksShard.silent_summaryCalls 10) hrun hcallsOf (by decide +kernel)
  have hargs : parseRunMeta .empty 0 [] = .ok .empty := rfl
  have hsize : (0 : Int) < 200 := by decide
  obtain ⟨rows, out, hrows, hids, -, hadapted, -, hprompts⟩ := run_uploaded (fun _ => .ok 0)
    (n := 2) rfl h hworker (fun _ => rfl) (Or.inl hs) rfl rfl rfl (fun _ => rfl) hrun hsent
    hanswered hreadable (by decide +kernel) hlisting hargs additional_empty hsize
  rw [hcalls] at hrows
  exact ⟨s₀, s, rows, out, h, hs, hrows, hids, hadapted, hprompts⟩

end EvalHarness.Docent
