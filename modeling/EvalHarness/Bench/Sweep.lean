import EvalHarness.Bench.Saturation
import EvalHarness.Lib.Digits
import EvalHarness.Lib.Resumable

set_option autoImplicit false

/-! # A sweep over a grid of saturation runs (`bench/sweep_saturation.py`)

Each point of the grid is run in a process of its own, which writes its report to a file named after
the point. A point whose file is there is skipped, so that a sweep that was stopped goes on when it
is started again. -/

namespace EvalHarness.Sweep

open Text Saturation

/-- `LATENCIES_S`. -/
def latenciesS : List ℚ := [1 / 2, 1 / 10, 1 / 50, 1 / 200]

/-- `WORKER_COUNTS`. -/
def workerCounts : List Nat := [16, 64, 128, 256]

/-- `BATCH_SIZES`. -/
def batchSizes : List Nat := [1, 8, 64]

structure GridPoint where
  latencyS : ℚ
  workers : Nat
  batch : Nat
deriving DecidableEq

/-- `itertools.product(LATENCIES_S, WORKER_COUNTS, BATCH_SIZES)`. -/
def grid : List GridPoint :=
  latenciesS.flatMap (fun latencyS => workerCounts.flatMap (fun workers =>
    batchSizes.map (fun batch => ⟨latencyS, workers, batch⟩)))

/-- The arguments of `main`. -/
structure SweepArgs where
  maxWorkers : Int := 256
  outDir : String := "bench/results"
  failRate : ℚ := 0
  aggregatorShards : Nat := 1
  deciderShards : Nat := 1
  tasks : Option Int := none
  targetDuration : ℚ := 20
  minTasks : Int := 2000
  maxTasks : Int := 200000
  dryRun : Bool := false

/-- The latency in the name of a file: `int(round(latency_s * 1000))`. -/
def milliseconds (latencyS : ℚ) : Nat := (roundHalfEven (latencyS * 1000)).toNat

/-- The shards in the name of a file. -/
def shardSuffix (aggregatorShards deciderShards : Nat) : Str :=
  if aggregatorShards = 1 ∧ deciderShards = 1 then []
  else "_a".toList ++ decimal aggregatorShards ++ "_d".toList ++ decimal deciderShards

/-- `result_path`. -/
def resultPath (outDir : String) (p : GridPoint) (aggregatorShards deciderShards : Nat := 1) :
    PurePath where
  parent := outDir
  name := String.ofList ("sat_w".toList ++ decimal p.workers ++ "_l".toList
    ++ padded 3 (milliseconds p.latencyS) ++ "_b".toList ++ decimal p.batch
    ++ shardSuffix aggregatorShards deciderShards ++ ".json".toList)

/-- What a process of `bench.saturation` is started with: its arguments, and where its report is to
    go. -/
structure Cmd where
  args : Args
  out : PurePath

/-- `tasks_for`. -/
def tasksFor (ns : SweepArgs) (p : GridPoint) : Int :=
  match ns.tasks with
  | some n => n
  | none =>
      let offered : ℚ := p.workers * p.batch / p.latencyS
      max ns.minTasks (min ns.maxTasks (Recording.truncate (offered * ns.targetDuration)))

/-- Where the report of a point goes. -/
def SweepArgs.path (ns : SweepArgs) (p : GridPoint) : PurePath :=
  resultPath ns.outDir p ns.aggregatorShards ns.deciderShards

/-- `point_cmd`. -/
def pointCmd (ns : SweepArgs) (p : GridPoint) : Cmd where
  args :=
    { workers := p.workers
      latencyS := p.latencyS
      batchSize := p.batch
      tasks := tasksFor ns p
      failRate := ns.failRate
      aggregatorShards := ns.aggregatorShards
      deciderShards := ns.deciderShards }
  out := ns.path p

/-- What becomes of a process: it ends with return code 0 and has written its report, or with
    another one, and may have left a part of a report. -/
inductive Child where
  | reported (text : String)
  | failed (left : Option String)

/-- What is at its path after a process. -/
def Child.left : Child → Option String
  | .reported text => some text
  | .failed left => left

/-- The processes so far, and the files. -/
structure Store where
  files : Files
  runs : List (Cmd × Child)

/-- A sweep in progress, with its counters. -/
structure Sweeping extends Store where
  ran : Nat := 0
  skippedExisting : Nat := 0
  skippedCapped : Nat := 0
  failed : Nat := 0

/-- A process, what it leaves and how it is counted. -/
def Sweeping.run (s : Sweeping) (cmd : Cmd) (child : Child) : Sweeping :=
  { s with
    files := match child.left with
      | none => s.files
      | some text => Function.update s.files cmd.out (some text)
    runs := s.runs ++ [(cmd, child)]
    ran := match child with
      | .reported _ => s.ran + 1
      | .failed _ => s.ran
    failed := match child with
      | .reported _ => s.failed
      | .failed _ => s.failed + 1 }

/-- The loop of `main` at one point, given what becomes of each process. -/
def visit (ns : SweepArgs) (child : Nat → Child) (s : Sweeping) (p : GridPoint) : Sweeping :=
  let out := ns.path p
  if ns.maxWorkers < p.workers then { s with skippedCapped := s.skippedCapped + 1 }
  else if (s.files out).isSome then { s with skippedExisting := s.skippedExisting + 1 }
  else if ns.dryRun then s
  else s.run (pointCmd ns p) (child s.runs.length)

/-- A sweep, or the beginning of one that is stopped after some points. -/
def sweep (ns : SweepArgs) (child : Nat → Child) (st : Store) (points : List GridPoint := grid) :
    Sweeping :=
  points.foldl (visit ns child) { st with }

/-- The exit code of `main`. -/
def Sweeping.exitCode (s : Sweeping) : Nat := if s.failed = 0 then 0 else 1

/-! ## The names of the files -/

theorem head_not_decimal {c : Char} {rest : Str} (h : asciiDigits.isDecimal c = false) :
    ∀ d ∈ (c :: rest).head?, asciiDigits.isDecimal d = false := by
  intro d hd
  obtain rfl := Option.some.inj hd
  exact h

/-- A number that is written in front of something other than a digit ends where it ends. -/
theorem padded_append_inj {width m n : Nat} {rest rest' : Str}
    (hrest : ∀ c ∈ rest.head?, asciiDigits.isDecimal c = false)
    (hrest' : ∀ c ∈ rest'.head?, asciiDigits.isDecimal c = false)
    (h : padded width m ++ rest = padded width n ++ rest') : m = n ∧ rest = rest' := by
  have hnumber := number_padded asciiDigits width m hrest
  rw [h, number_padded asciiDigits width n hrest'] at hnumber
  obtain ⟨hn, hr⟩ := Prod.ext_iff.1 (Option.some.inj hnumber)
  exact ⟨hn.symm, hr.symm⟩

theorem decimal_append_inj {m n : Nat} {rest rest' : Str}
    (hrest : ∀ c ∈ rest.head?, asciiDigits.isDecimal c = false)
    (hrest' : ∀ c ∈ rest'.head?, asciiDigits.isDecimal c = false)
    (h : decimal m ++ rest = decimal n ++ rest') : m = n ∧ rest = rest' := by
  rw [← padded_zero, ← padded_zero] at h
  exact padded_append_inj hrest hrest' h

/-- What follows the last number of a name. -/
def ending (aggregatorShards deciderShards : Nat) : Str :=
  shardSuffix aggregatorShards deciderShards ++ ".json".toList

theorem ending_one : ending 1 1 = '.' :: ['j', 's', 'o', 'n'] := rfl

theorem ending_shards {a d : Nat} (h : ¬(a = 1 ∧ d = 1)) :
    ending a d = '_' :: 'a' :: (decimal a ++ '_' :: 'd' :: (decimal d ++ ending 1 1)) := by
  rw [ending, shardSuffix, if_neg h]
  simp [ending, shardSuffix]

theorem head_ending (a d : Nat) : ∀ c ∈ (ending a d).head?, asciiDigits.isDecimal c = false := by
  by_cases h : a = 1 ∧ d = 1
  · rw [h.1, h.2, ending_one]
    exact head_not_decimal (by decide)
  · rw [ending_shards h]
    exact head_not_decimal (by decide)

theorem ending_injective {a d a' d' : Nat} (h : ending a d = ending a' d') : a = a' ∧ d = d' := by
  by_cases hone : a = 1 ∧ d = 1
  · by_cases hone' : a' = 1 ∧ d' = 1
    · exact ⟨hone.1.trans hone'.1.symm, hone.2.trans hone'.2.symm⟩
    · rw [hone.1, hone.2, ending_one, ending_shards hone'] at h
      exact absurd (List.cons.inj h).1 (by decide)
  · by_cases hone' : a' = 1 ∧ d' = 1
    · rw [hone'.1, hone'.2, ending_one, ending_shards hone] at h
      exact absurd (List.cons.inj h).1 (by decide)
    · rw [ending_shards hone, ending_shards hone', List.cons_inj_right, List.cons_inj_right] at h
      obtain ⟨ha, hrest⟩ := decimal_append_inj (head_not_decimal (by decide))
        (head_not_decimal (by decide)) h
      rw [List.cons_inj_right, List.cons_inj_right] at hrest
      exact ⟨ha, (decimal_append_inj (head_ending 1 1) (head_ending 1 1) hrest).1⟩

theorem name_resultPath (outDir : String) (p : GridPoint) (a d : Nat) :
    (resultPath outDir p a d).name.toList = 's' :: 'a' :: 't' :: '_' :: 'w' :: (decimal p.workers
      ++ '_' :: 'l' :: (padded 3 (milliseconds p.latencyS)
        ++ '_' :: 'b' :: (decimal p.batch ++ ending a d))) := by
  simp [resultPath, ending]

/-- A path tells the point and the numbers of shards. -/
theorem resultPath_inj {outDir : String} {p q : GridPoint} {a d a' d' : Nat}
    (h : resultPath outDir p a d = resultPath outDir q a' d') :
    p.workers = q.workers ∧ milliseconds p.latencyS = milliseconds q.latencyS ∧
      p.batch = q.batch ∧ a = a' ∧ d = d' := by
  have hname := congrArg (fun path => path.name.toList) h
  simp only [name_resultPath, List.cons_inj_right] at hname
  obtain ⟨hworkers, hlatency⟩ := decimal_append_inj (head_not_decimal (by decide))
    (head_not_decimal (by decide)) hname
  rw [List.cons_inj_right, List.cons_inj_right] at hlatency
  obtain ⟨hms, hbatch⟩ := padded_append_inj (head_not_decimal (by decide))
    (head_not_decimal (by decide)) hlatency
  rw [List.cons_inj_right, List.cons_inj_right] at hbatch
  obtain ⟨hbatch, hending⟩ := decimal_append_inj (head_ending a d) (head_ending a' d') hbatch
  exact ⟨hworkers, hms, hbatch, ending_injective hending⟩

/-- No two points of the grid have the same path. -/
theorem nodup_paths (outDir : String) (a d : Nat) :
    (grid.map (fun p => resultPath outDir p a d)).Nodup := by
  have htold : (grid.map (fun p => (p.workers, milliseconds p.latencyS, p.batch))).Nodup := by
    decide +kernel
  refine List.Nodup.of_map (fun path => path) (List.pairwise_map.2 (List.pairwise_map.2 ?_))
  refine (List.pairwise_map.1 htold).imp (fun hne heq => hne ?_)
  obtain ⟨hworkers, hms, hbatch, -⟩ := resultPath_inj heq
  rw [hworkers, hms, hbatch]

/-! ## One sweep is a session that resumes -/

/-- The points that a sweep is to run. -/
def SweepArgs.uncapped (ns : SweepArgs) (points : List GridPoint) : List GridPoint :=
  points.filter (fun p => (p.workers : Int) ≤ ns.maxWorkers)

/-- The processes that a sweep starts unless their reports are there. -/
def SweepArgs.jobs (ns : SweepArgs) (points : List GridPoint) : List Cmd :=
  if ns.dryRun then [] else (ns.uncapped points).map (pointCmd ns)

def Child.isReported : Child → Bool
  | .reported _ => true
  | .failed _ => false

/-- What a store says about resuming: the files, and what each process has left. -/
def Store.resumable (st : Store) : Resumable.State Cmd PurePath String :=
  ⟨st.files, st.runs.map (fun r => (r.1, r.2.left))⟩

variable {ns : SweepArgs} {child : Nat → Child}

theorem resumable_run (s : Sweeping) (cmd : Cmd) :
    (s.run cmd (child s.runs.length)).toStore.resumable
      = Resumable.attempt Cmd.out (fun i => (child i).left) s.toStore.resumable cmd := by
  simp only [Sweeping.run, Store.resumable, Resumable.attempt, List.map_append, List.map_cons,
    List.map_nil, List.length_map]
  rcases (child s.runs.length).left with _ | text <;> rfl

theorem resumable_visit (s : Sweeping) (p : GridPoint) :
    (visit ns child s p).toStore.resumable
      = Resumable.session Cmd.out (fun i => (child i).left) s.toStore.resumable (ns.jobs [p]) := by
  unfold visit SweepArgs.jobs SweepArgs.uncapped
  by_cases hcap : ns.maxWorkers < p.workers
  · rw [if_pos hcap, List.filter_cons_of_neg (by simpa using hcap)]
    split <;> rfl
  · rw [if_neg hcap, List.filter_cons_of_pos (by simpa using hcap)]
    by_cases hdry : ns.dryRun = true
    · rw [if_pos hdry, if_pos hdry]
      split <;> rfl
    · rw [if_neg hdry, if_neg hdry]
      by_cases hthere : (s.files (ns.path p)).isSome
      · have hdone : (s.toStore.resumable.store (pointCmd ns p).out).isSome := hthere
        rw [if_pos hthere]
        exact (Resumable.step_of_done hdone).symm
      · have hmissing : s.toStore.resumable.store (pointCmd ns p).out = none :=
          Option.not_isSome_iff_eq_none.1 hthere
        rw [if_neg hthere, resumable_run]
        exact (Resumable.step_of_missing hmissing).symm

theorem resumable_foldl (s : Sweeping) (points : List GridPoint) :
    (points.foldl (visit ns child) s).toStore.resumable
      = Resumable.session Cmd.out (fun i => (child i).left) s.toStore.resumable
          (ns.jobs points) := by
  induction points generalizing s with
  | nil => rw [SweepArgs.jobs, SweepArgs.uncapped, List.filter_nil, List.map_nil, ite_self]; rfl
  | cons p points ih =>
      have hjobs : ns.jobs (p :: points) = ns.jobs [p] ++ ns.jobs points := by
        unfold SweepArgs.jobs SweepArgs.uncapped
        split
        · rfl
        · rw [← List.map_append, ← List.filter_append, List.singleton_append]
      rw [List.foldl_cons, ih, resumable_visit, hjobs, Resumable.session, Resumable.session,
        Resumable.session, List.foldl_append]

/-- A sweep is a session over the points within the cap. -/
theorem resumable_sweep (ns : SweepArgs) (child : Nat → Child) (st : Store)
    (points : List GridPoint) :
    (sweep ns child st points).toStore.resumable
      = Resumable.session Cmd.out (fun i => (child i).left) st.resumable (ns.jobs points) :=
  resumable_foldl _ _

/-- The counters of a sweep: every point that is not only printed counts once, and the processes
    count by how they ended. -/
structure Tally (ns : SweepArgs) (st : Store) (visited : Nat) (s : Sweeping) : Prop where
  grows : st.runs <+: s.runs
  points : ns.dryRun = false →
    s.ran + s.skippedExisting + s.skippedCapped + s.failed = visited
  ran : s.runs.countP (fun r => r.2.isReported) = st.runs.countP (fun r => r.2.isReported) + s.ran
  failed : s.runs.countP (fun r => !r.2.isReported)
    = st.runs.countP (fun r => !r.2.isReported) + s.failed

theorem Tally.visit {st : Store} {visited : Nat} {s : Sweeping} (h : Tally ns st visited s)
    (p : GridPoint) : Tally ns st (visited + 1) (visit ns child s p) := by
  have hgrows := h.grows
  have hpoints := h.points
  have hran := h.ran
  have hfailed := h.failed
  unfold Sweep.visit
  dsimp only
  split
  · exact ⟨hgrows, fun hdry => by have := hpoints hdry; dsimp only; omega, hran, hfailed⟩
  · split
    · exact ⟨hgrows, fun hdry => by have := hpoints hdry; dsimp only; omega, hran, hfailed⟩
    · split
      · next hdry =>
          exact ⟨hgrows, fun hnot => absurd (hnot.symm.trans hdry) (by decide), hran, hfailed⟩
      · rcases hchild : child s.runs.length with text | left
        · refine ⟨hgrows.trans (List.prefix_append _ _), fun hdry => ?_, ?_, ?_⟩
          · have := hpoints hdry
            show s.ran + 1 + s.skippedExisting + s.skippedCapped + s.failed = visited + 1
            omega
          · exact (List.countP_append ..).trans (congrArg (· + 1) hran)
          · exact (List.countP_append ..).trans hfailed
        · refine ⟨hgrows.trans (List.prefix_append _ _), fun hdry => ?_, ?_, ?_⟩
          · have := hpoints hdry
            show s.ran + s.skippedExisting + s.skippedCapped + (s.failed + 1) = visited + 1
            omega
          · exact (List.countP_append ..).trans hran
          · exact (List.countP_append ..).trans (congrArg (· + 1) hfailed)

theorem tally_sweep (ns : SweepArgs) (child : Nat → Child) (st : Store) (points : List GridPoint) :
    Tally ns st points.length (sweep ns child st points) := by
  induction points using List.reverseRecOn with
  | nil => exact ⟨List.prefix_rfl, fun _ => rfl, rfl, rfl⟩
  | append_singleton points p ih =>
      rw [sweep, List.foldl_append, List.length_append]
      exact ih.visit p

/-- Without a failure counted, no process of the sweep has failed. -/
theorem Tally.not_mem_failed {st : Store} {visited : Nat} {s : Sweeping}
    (h : Tally ns st visited s) (hnone : s.failed = 0) {cmd : Cmd} (left : Option String) :
    (cmd, Child.failed left) ∉ s.runs.drop st.runs.length := by
  intro hmem
  obtain ⟨rest, hrest⟩ := h.grows
  have hfailed := h.failed
  rw [← hrest, List.countP_append, hnone] at hfailed
  rw [← hrest, List.drop_left] at hmem
  have hpos : 0 < rest.countP (fun r => !r.2.isReported) :=
    List.countP_pos_iff.2 ⟨_, hmem, rfl⟩
  omega

/-! ## Sweeps of one directory -/

/-- Sweeps one after the other into a directory, each of which is stopped after some points. -/
def sweeps (outDir : String) (child : Nat → Child) (st : Store) (stopped : List (SweepArgs × Nat)) :
    Store :=
  stopped.foldl (fun st x =>
    (sweep { x.1 with outDir := outDir } child st (grid.take x.2)).toStore) st

/-- What holds after a sweep that others went before, all of which began with some files. -/
structure Resumes (ns : SweepArgs) (files : Files) (before : Store) (s : Sweeping) : Prop where
  /-- The processes that it starts are those of the points that have no file, in their order. -/
  started : s.runs.map Prod.fst = before.runs.map Prod.fst
    ++ ((ns.uncapped grid).filter (fun p => (before.files (ns.path p)).isNone)).map (pointCmd ns)
  /-- No process follows one that has left a file at the same path. -/
  once : s.runs.Pairwise (fun r r' => r.1.out = r'.1.out → r.2.left = none)
  /-- A file is what was there, or what the process that has left something there has left. -/
  files : ∀ path, s.files path = (files path).or
    (s.runs.findSome? (fun r => if r.1.out = path then r.2.left else none))
  /-- A process at the path of a point has run with the settings of the point. -/
  settings : ∀ r ∈ s.runs, ∀ p ∈ grid, r.1.out = ns.path p →
    r.1.args.workers = p.workers ∧ r.1.args.latencyS = p.latencyS ∧ r.1.args.batchSize = p.batch ∧
      r.1.args.aggregatorShards = ns.aggregatorShards ∧ r.1.args.deciderShards = ns.deciderShards
  /-- Its counters count every point of the grid. -/
  counted : s.ran + s.skippedExisting + s.skippedCapped + s.failed = grid.length
  /-- A point without a file is one whose process has failed in it. -/
  missing : ∀ p ∈ ns.uncapped grid, s.files (ns.path p) = none →
    (pointCmd ns p, Child.failed none) ∈ s.runs.drop before.runs.length

/-- The processes that sweeps into a directory start. -/
def FromGrid (outDir : String) (cmd : Cmd) : Prop :=
  ∃ ns : SweepArgs, ns.outDir = outDir ∧ ∃ p ∈ grid, cmd = pointCmd ns p

theorem fromGrid_jobs {points : List GridPoint} (h : ∀ p ∈ points, p ∈ grid) :
    ∀ cmd ∈ ns.jobs points, FromGrid ns.outDir cmd := by
  intro cmd hcmd
  unfold SweepArgs.jobs SweepArgs.uncapped at hcmd
  split at hcmd
  · cases hcmd
  · obtain ⟨p, hp, rfl⟩ := List.mem_map.1 hcmd
    exact ⟨ns, rfl, p, h p (List.mem_filter.1 hp).1, rfl⟩

theorem latency_of_milliseconds : ∀ p ∈ grid, ∀ q ∈ grid,
    milliseconds p.latencyS = milliseconds q.latencyS → p.latencyS = q.latencyS := by
  decide +kernel

theorem FromGrid.settings {cmd : Cmd} (h : FromGrid ns.outDir cmd) {p : GridPoint} (hp : p ∈ grid)
    (hout : cmd.out = ns.path p) :
    cmd.args.workers = p.workers ∧ cmd.args.latencyS = p.latencyS ∧ cmd.args.batchSize = p.batch ∧
      cmd.args.aggregatorShards = ns.aggregatorShards ∧
      cmd.args.deciderShards = ns.deciderShards := by
  obtain ⟨ns', hdir, q, hq, rfl⟩ := h
  have hpath : resultPath ns'.outDir q ns'.aggregatorShards ns'.deciderShards = ns.path p := hout
  rw [hdir] at hpath
  obtain ⟨hworkers, hms, hbatch, ha, hd⟩ := resultPath_inj hpath
  exact ⟨congrArg Nat.cast hworkers, latency_of_milliseconds q hq p hp hms,
    congrArg Nat.cast hbatch, congrArg Nat.cast ha, congrArg Nat.cast hd⟩

/-- What sweeps keep: they are sound as sessions, and all their processes come from the grid. -/
structure Store.Swept (outDir : String) (files : Files) (st : Store) : Prop where
  sound : Resumable.Sound Cmd.out files st.resumable
  fromGrid : ∀ r ∈ st.runs, FromGrid outDir r.1

theorem Store.Swept.sweep {outDir : String} {files : Files} {st : Store}
    (h : st.Swept outDir files) (hdir : ns.outDir = outDir) {points : List GridPoint}
    (hpoints : ∀ p ∈ points, p ∈ grid) :
    (sweep ns child st points).toStore.Swept outDir files := by
  refine ⟨?_, fun r hr => ?_⟩
  · rw [resumable_sweep]
    exact h.sound.session _
  · have hattempt : (r.1, r.2.left) ∈ (Sweep.sweep ns child st points).toStore.resumable.attempts :=
      List.mem_map.2 ⟨r, hr, rfl⟩
    rw [resumable_sweep] at hattempt
    rcases Resumable.mem_attempts_session hattempt with hold | hnew
    · obtain ⟨r', hr', heq⟩ := List.mem_map.1 hold
      rw [← congrArg Prod.fst heq]
      exact h.fromGrid r' hr'
    · rw [← hdir]
      exact fromGrid_jobs hpoints r.1 hnew

theorem swept_sweeps (outDir : String) (child : Nat → Child) (files : Files)
    (stopped : List (SweepArgs × Nat)) :
    (sweeps outDir child ⟨files, []⟩ stopped).Swept outDir files := by
  induction stopped using List.reverseRecOn with
  | nil => exact ⟨Resumable.sound_initial _, fun _ hr => absurd hr List.not_mem_nil⟩
  | append_singleton stopped x ih =>
      rw [sweeps, List.foldl_append]
      exact ih.sweep rfl (fun _ hp => List.mem_of_mem_take hp)

theorem jobs_of_run (hdry : ns.dryRun = false) (points : List GridPoint) :
    ns.jobs points = (ns.uncapped points).map (pointCmd ns) :=
  if_neg (by rw [hdry]; exact Bool.false_ne_true)

/-- However often sweeps of a directory are stopped and started again, with whatever arguments: the
    next one takes up what they have left. When it exits with 0, nothing is left to do for a sweep
    with the same shards and no more workers. -/
theorem sweep_resumes (child : Nat → Child) (files : Files) (stopped : List (SweepArgs × Nat))
    {ns : SweepArgs} (hdry : ns.dryRun = false) :
    let before := sweeps ns.outDir child ⟨files, []⟩ stopped
    let s := sweep ns child before
    Resumes ns files before s ∧
    (s.exitCode = 0 → ∀ again : SweepArgs, (∀ p, again.path p = ns.path p) →
      again.maxWorkers ≤ ns.maxWorkers →
      (sweep again child s.toStore).files = s.files ∧ (sweep again child s.toStore).ran = 0 ∧
        (sweep again child s.toStore).exitCode = 0) := by
  intro before s
  have hbefore : before.Swept ns.outDir files := swept_sweeps _ _ _ _
  have hafter : s.toStore.Swept ns.outDir files := hbefore.sweep rfl (fun _ hp => hp)
  have hresumed : s.toStore.resumable
      = Resumable.session Cmd.out (fun i => (child i).left) before.resumable
          ((ns.uncapped grid).map (pointCmd ns)) := by
    rw [← jobs_of_run hdry]
    exact resumable_sweep ns child before grid
  have htally : Tally ns before grid.length s := tally_sweep ns child before grid
  have hmissing : ∀ p ∈ ns.uncapped grid, s.files (ns.path p) = none →
      (pointCmd ns p, Child.failed none) ∈ s.runs.drop before.runs.length := by
    intro p hp hnone
    have hleft : (Resumable.session Cmd.out (fun i => (child i).left) before.resumable
        ((ns.uncapped grid).map (pointCmd ns))).store (pointCmd ns p).out = none := by
      rw [← hresumed]
      exact hnone
    have hattempt := Resumable.mem_attempts_of_missing (List.mem_map.2 ⟨p, hp, rfl⟩) hleft
    rw [← hresumed] at hattempt
    have hdrop : s.toStore.resumable.attempts.drop before.resumable.attempts.length
        = (s.runs.drop before.runs.length).map (fun r => (r.1, r.2.left)) := by
      rw [List.map_drop]
      exact congrArg (fun n => s.toStore.resumable.attempts.drop n) (List.length_map _)
    rw [hdrop] at hattempt
    obtain ⟨⟨cmd, c⟩, hr, heq⟩ := List.mem_map.1 hattempt
    obtain ⟨hcmd, hleft⟩ := Prod.ext_iff.1 heq
    cases hcmd
    cases c with
    | reported text => cases hleft
    | failed left =>
        cases hleft
        exact hr
  have hnodup : (((ns.uncapped grid).map (pointCmd ns)).map Cmd.out).Nodup := by
    rw [List.map_map]
    exact (nodup_paths ns.outDir ns.aggregatorShards ns.deciderShards).sublist
      (List.filter_sublist.map _)
  refine ⟨⟨?_, List.pairwise_map.1 hafter.sound.once, fun path => ?_,
    fun r hr p hp hout => (hafter.fromGrid r hr).settings hp hout, htally.points hdry, hmissing⟩,
    fun hexit again hpath hcap => ?_⟩
  · have hattempts := congrArg (fun r => r.attempts.map Prod.fst) hresumed
    rw [Resumable.attempts_session hnodup, List.filter_map] at hattempts
    simp only [Store.resumable, List.map_map] at hattempts
    exact hattempts
  · have hstore := hafter.sound.store path
    rwa [Store.resumable, List.findSome?_map] at hstore
  · have hnone : s.failed = 0 := by
      by_contra hfailed
      exact absurd (hexit.symm.trans (if_neg hfailed)) (by decide)
    have hdone : ∀ cmd ∈ again.jobs grid, (s.files cmd.out).isSome := by
      intro cmd hcmd
      unfold SweepArgs.jobs SweepArgs.uncapped at hcmd
      split at hcmd
      · cases hcmd
      · obtain ⟨p, hp, rfl⟩ := List.mem_map.1 hcmd
        obtain ⟨hgrid, hworkers⟩ := List.mem_filter.1 hp
        have hin : p ∈ ns.uncapped grid := by
          refine List.mem_filter.2 ⟨hgrid, decide_eq_true ?_⟩
          exact (of_decide_eq_true hworkers).trans hcap
        show (s.files (again.path p)).isSome
        rw [hpath p, ← Option.ne_none_iff_isSome]
        exact fun hnot => htally.not_mem_failed hnone _ (hmissing p hin hnot)
    have hsame : (sweep again child s.toStore).toStore.resumable = s.toStore.resumable := by
      rw [resumable_sweep]
      exact Resumable.session_of_done hdone
    have hagain := tally_sweep again child s.toStore grid
    have hlength : (sweep again child s.toStore).runs.length = s.runs.length := by
      have := congrArg (fun r => r.attempts.length) hsame
      simpa only [Store.resumable, List.length_map] using this
    have hran := hagain.ran
    have hfailed := hagain.failed
    rw [List.length_eq_countP_add_countP (fun r => r.2.isReported),
      List.length_eq_countP_add_countP (l := s.runs) (fun r => r.2.isReported)] at hlength
    simp only [Bool.not_eq_true, Bool.decide_eq_false] at hlength
    refine ⟨congrArg Resumable.State.store hsame, by omega, if_pos (by omega)⟩

/-- The first sweep is stopped after three points, of which the first has failed. -/
theorem sweep_resumes_stopped :
    let child := fun i => if i = 0 then Child.failed none else .reported "done"
    let before := sweeps "results" child ⟨fun _ => none, []⟩ [({}, 3)]
    let s := sweep { outDir := "results" } child before
    Resumes { outDir := "results" } (fun _ => none) before s ∧ s.ran = 46 ∧
      ∀ again : SweepArgs, (∀ p, again.path p = { outDir := "results" : SweepArgs }.path p) →
        again.maxWorkers ≤ 256 → (sweep again child s.toStore).ran = 0 := by
  intro child before s
  have hdry : ({ outDir := "results" } : SweepArgs).dryRun = false := rfl
  obtain ⟨hresumes, hagain⟩ := sweep_resumes child (fun _ => none) [({}, 3)] hdry
  have hran : s.ran = 46 ∧ s.exitCode = 0 := by decide +kernel
  exact ⟨hresumes, hran.1, fun again hpath hcap => (hagain hran.2 again hpath hcap).2.1⟩

end EvalHarness.Sweep
