import EvalHarness.Coordinator.Pool
import EvalHarness.Coordinator.Executions

set_option autoImplicit false

/-! # Worker ids

The ids below `n_workers` are the slots' ids: the primaries get them, and so does every worker
`_blocking_replace` constructs for a slot. Standbys and refills draw larger ids from a counter. The
result rows of a batch carry the id of the worker that computed them; the failure rows of a batch
carry the number of the slot. Whoever reads the rows takes an id of `n_workers` or more for a
replacement, which is right for promoted standbys and wrong for the rest. -/

namespace EvalHarness

variable {σ : Type} {w : World σ}

/-- The actors created as primaries at startup. -/
def Config.primaries (cfg : Config) : List Handle := (List.range cfg.nWorkers).map startHandle

/-- An actor constructed after the startup under the id of a slot. -/
def Config.BlockingReplacement (cfg : Config) (h : Handle) : Prop :=
  cfg.nWorkers + cfg.standby ≤ h.actor ∧ h.workerId < cfg.nWorkers

theorem Config.mem_primaries {cfg : Config} {h : Handle} :
    h ∈ cfg.primaries ↔ h.actor < cfg.nWorkers ∧ h.workerId = h.actor := by
  rw [primaries, List.mem_map]
  constructor
  · rintro ⟨k, hk, rfl⟩
    exact ⟨List.mem_range.1 hk, rfl⟩
  · rintro ⟨hlt, hid⟩
    refine ⟨h.actor, List.mem_range.2 hlt, ?_⟩
    obtain ⟨actor, workerId⟩ := h
    cases hid
    rfl

/-! ## Numbering -/

/-- The actors that have been admitted or may still be. -/
def Point.registered (pt : Point σ) : List Handle :=
  admissions pt.sys.log ++ (pt.sys.standbyRefills ++ pt.phase.refills).map Refill.handle

/-- How the ids are given out. -/
structure Point.Numbered (w : World σ) (pt : Point σ) : Prop where
  slots : ∀ i (h : Handle), pt.sys.workers[i]? = some (some h) →
    h.workerId = i ∨ w.cfg.nWorkers ≤ h.workerId
  pool : ∀ h ∈ pt.sys.standbyPool, w.cfg.nWorkers ≤ h.workerId
  below : ∀ h ∈ pt.registered, h.workerId < pt.sys.nextWorkerId
  unique : ∀ h ∈ pt.registered, ∀ h' ∈ pt.registered, w.cfg.nWorkers ≤ h.workerId →
    h.workerId = h'.workerId → h = h'
  origin : ∀ h ∈ admissions pt.sys.log, h ∈ w.cfg.primaries ∨ w.cfg.nWorkers ≤ h.workerId ∨
    w.cfg.BlockingReplacement h

theorem Refilled.numbered {attempt : Nat} {s s' : Sys σ} {p : Phase} (h : Refilled attempt s s')
    (hI : Point.Numbered w ⟨s, p⟩) : Point.Numbered w ⟨s', p⟩ := by
  cases h with
  | refused => exact ⟨hI.slots, hI.pool, hI.below, hI.unique, hI.origin⟩
  | started time =>
      let new := s.freshHandle s.nextWorkerId
      let rf : Refill := ⟨new, time, attempt⟩
      have hmem : ∀ h,
          h ∈ (⟨s.constructRefill.addRefill new time attempt, p⟩ : Point σ).registered →
          h = new ∨ h ∈ (⟨s, p⟩ : Point σ).registered := by
        intro h hin
        replace hin : h ∈ admissions s.log
          ++ ((s.standbyRefills ++ [rf]) ++ p.refills).map Refill.handle := hin
        simp only [Point.registered, List.map_append, List.mem_append, List.map_cons, List.map_nil,
          List.mem_singleton] at hin ⊢
        tauto
      have hbelow : ∀ h ∈ (⟨s, p⟩ : Point σ).registered, h.workerId < s.nextWorkerId := hI.below
      refine ⟨hI.slots, hI.pool, fun h hin => ?_,
        fun h hin h' hin' hid heq => ?_, hI.origin⟩
      · show h.workerId < s.nextWorkerId + 1
        rcases hmem h hin with rfl | hold
        · exact Nat.lt_succ_self _
        · exact Nat.lt_succ_of_lt (hbelow h hold)
      · -- the id of the new actor is larger than every id before
        rcases hmem h hin with rfl | hold <;> rcases hmem h' hin' with rfl | hold'
        · rfl
        · exact absurd (hbelow h' hold') (by rw [← heq]; exact lt_irrefl _)
        · exact absurd (hbelow h hold) (by rw [heq]; exact lt_irrefl _)
        · exact hI.unique h hold h' hold' hid heq

theorem Point.Numbered.fail {s : Sys σ} {rf : Refill} {rest : List Refill} (call : Option Nat)
    (hI : Point.Numbered w ⟨s, .polling (rf :: rest)⟩) :
    Point.Numbered w ⟨(s.emit (.checked rf.handle call)).countRefillFailure.emit
      (.killed rf.handle), .polling rest⟩ := by
  have hsub : ∀ h ∈ (⟨(s.emit (.checked rf.handle call)).countRefillFailure.emit
      (.killed rf.handle), .polling rest⟩ : Point σ).registered,
      h ∈ (⟨s, .polling (rf :: rest)⟩ : Point σ).registered := by
    intro h hin
    replace hin : h ∈ admissions s.log ++ (s.standbyRefills ++ rest).map Refill.handle := hin
    simp only [Point.registered, Phase.refills, List.map_append, List.mem_append, List.map_cons,
      List.mem_cons] at hin ⊢
    tauto
  exact ⟨hI.slots, hI.pool, fun h hin => hI.below h (hsub h hin),
    fun h hin h' hin' => hI.unique h (hsub h hin) h' (hsub h' hin'), hI.origin⟩

theorem Move.numbered {a b : Point σ} (hr : Reach w a) (h : Move w a b) (hI : a.Numbered w) :
    b.Numbered w := by
  cases h with
  | vacate s p slot hslot hwhy =>
      have hadm : admissions (s.vacate slot).log = admissions s.log := admissions_vacate s slot
      have hreg : (⟨s.vacate slot, p⟩ : Point σ).registered = (⟨s, p⟩ : Point σ).registered :=
        congrArg (· ++ _) hadm
      refine ⟨fun i h hh => ?_, hI.pool, hreg ▸ hI.below, hreg ▸ hI.unique,
        hadm ▸ hI.origin⟩
      replace hh : (s.workers.set slot none)[i]? = some (some h) := hh
      rw [List.getElem?_set] at hh
      split at hh
      · split at hh <;> cases hh
      · exact hI.slots i h hh
  | promote s p slot h s' time hslot hempty hpool hs' =>
      refine hs'.numbered ⟨fun i h' hh => ?_, fun h' hin => ?_, hI.below, hI.unique,
        hI.origin⟩
      · replace hh : (s.workers.set slot (some h))[i]? = some (some h') := hh
        rw [List.getElem?_set] at hh
        split at hh
        · split at hh <;> cases hh
          -- a standby keeps its id, which no slot has
          exact Or.inr (hI.pool h (List.mem_of_getLast? hpool))
        · exact hI.slots i h' hh
      · exact hI.pool h' (List.mem_of_mem_dropLast hin)
  | install s p slot healthy hslot hempty =>
      have hlt : slot < w.cfg.nWorkers := hr.workers_length ▸ hr.counted.slot slot hslot
      have hids : s.nextWorkerId = w.cfg.nWorkers + w.cfg.standby + s.stats.refillsStarted :=
        hr.pooled.ids
      refine ⟨fun i h hh => ?_, hI.pool, fun h hin => ?_,
        fun h hin h' hin' hid heq => ?_, fun h hin => ?_⟩
      · replace hh : (s.workers.set slot (some (s.freshHandle slot)))[i]? = some (some h) := hh
        rw [List.getElem?_set] at hh
        split at hh
        · next hi =>
            split at hh <;> cases hh
            exact Or.inl hi
        · exact hI.slots i h hh
      · rcases List.mem_cons.1 hin with rfl | hold
        · show slot < s.nextWorkerId
          omega
        · exact hI.below h hold
      · -- only the others have ids from `n_workers` on
        rcases List.mem_cons.1 hin with rfl | hold
        · exact absurd hid (not_le.2 hlt)
        · rcases List.mem_cons.1 hin' with rfl | hold'
          · rw [heq] at hid
            exact absurd hid (not_le.2 hlt)
          · exact hI.unique h hold h' hold' hid heq
      · rcases List.mem_cons.1 hin with rfl | hold
        · exact Or.inr (Or.inr ⟨hr.startup_le, hlt⟩)
        · exact hI.origin h hold
  | abandon s p slot exc =>
      exact ⟨hI.slots, hI.pool, hI.below, hI.unique, hI.origin⟩
  | poll s =>
      have hbelow := hI.below
      have hunique := hI.unique
      simp only [Point.registered, Phase.refills, List.append_nil] at hbelow hunique
      exact ⟨hI.slots, hI.pool, hbelow, hunique, hI.origin⟩
  | keep s rf rest =>
      have hreg : (⟨{ s with standbyRefills := s.standbyRefills ++ [rf] }, .polling rest⟩ :
          Point σ).registered = (⟨s, .polling (rf :: rest)⟩ : Point σ).registered := by
        simp [Point.registered, Phase.refills]
      exact ⟨hI.slots, hI.pool, hreg ▸ hI.below, hreg ▸ hI.unique, hI.origin⟩
  | join s rf rest healthy time =>
      have hsub : ∀ h ∈ (⟨(s.joinPool rf.handle healthy).samplePool time, .polling rest⟩ :
          Point σ).registered, h ∈ (⟨s, .polling (rf :: rest)⟩ : Point σ).registered := by
        intro h hin
        replace hin : h ∈ (rf.handle :: admissions s.log)
          ++ (s.standbyRefills ++ rest).map Refill.handle := hin
        simp only [Point.registered, Phase.refills, List.map_append, List.mem_append, List.map_cons,
          List.mem_cons] at hin ⊢
        tauto
      have hid : w.cfg.nWorkers ≤ rf.handle.workerId := by
        have := hr.pooled.refillIds rf.handle
          (List.mem_append_left _ (List.mem_map_of_mem (by simp [Phase.refills])))
        omega
      refine ⟨hI.slots, fun h hin => ?_, fun h hin => hI.below h (hsub h hin),
        fun h hin h' hin' => hI.unique h (hsub h hin) h' (hsub h' hin'), fun h hin => ?_⟩
      · rcases List.mem_append.1 hin with hin | hin
        · exact hI.pool h hin
        · rw [List.mem_singleton.1 hin]
          exact hid
      · rcases List.mem_cons.1 hin with rfl | hin
        · exact Or.inr (Or.inl hid)
        · exact hI.origin h hin
  | failRefill s rf rest s' hagain hs' => exact hs'.numbered (hI.fail _)
  | giveUpRefill s rf rest hlast call => exact hI.fail call
  | _ => exact ⟨hI.slots, hI.pool, hI.below, hI.unique, hI.origin⟩

theorem Reach.numbered {pt : Point σ} (h : Reach w pt) : pt.Numbered w := by
  refine h.invariant_of_created (I := Point.Numbered w) (fun s batches hcreate _ => ?_)
    (fun _ _ hr hm hI => hm.numbered hr hI)
  have hs := createWorkers_started hcreate
  have hadm : ∀ h ∈ admissions s.log, ∃ k < w.cfg.nWorkers + w.cfg.standby, h = startHandle k := by
    intro h hin
    rw [createWorkers_admissions hcreate, List.mem_reverse] at hin
    obtain ⟨k, hk, rfl⟩ := List.mem_map.1 hin
    exact ⟨k, List.mem_range.1 hk, rfl⟩
  have hreg : ∀ h ∈ admissions s.log ++ (s.standbyRefills ++ []).map Refill.handle,
      ∃ k < w.cfg.nWorkers + w.cfg.standby, h = startHandle k := by
    rw [hs.standbyRefills]
    simpa using hadm
  refine ⟨fun i h hh => ?_, fun h hin => ?_, fun h hin => ?_,
    fun h hin h' hin' _ heq => ?_, fun h hin => ?_⟩
  · replace hh : s.workers[i]? = some (some h) := hh
    rw [hs.workers, List.getElem?_map] at hh
    obtain ⟨k, hk, heq⟩ := Option.map_eq_some_iff.1 hh
    cases heq
    obtain ⟨hlt, rfl⟩ := List.getElem?_eq_some_iff.1 hk
    exact Or.inl (by simp [startHandle])
  · replace hin : h ∈ s.standbyPool := hin
    rw [hs.standbyPool] at hin
    obtain ⟨k, hk, rfl⟩ := List.mem_map.1 hin
    exact (List.mem_range'_1.1 hk).1
  · obtain ⟨k, hk, rfl⟩ := hreg h hin
    exact hs.nextWorkerId ▸ hk
  · obtain ⟨k, -, rfl⟩ := hreg h hin
    obtain ⟨k', -, rfl⟩ := hreg h' hin'
    exact congrArg startHandle heq
  · obtain ⟨k, -, rfl⟩ := hadm h hin
    by_cases hk : k < w.cfg.nWorkers
    · exact Or.inl (Config.mem_primaries.2 ⟨hk, rfl⟩)
    · exact Or.inr (Or.inl (not_lt.1 hk))

/-! ## The attempt behind a row -/

/-- The refs taken out of `active`, with their flights. -/
def removedRefs (log : List Event) : List (ObjectRef × Flight) :=
  log.filterMap (fun
    | .harvested ref f => some (ref, f)
    | .evicted ref f _ => some (ref, f)
    | _ => none)

/-- The `record_batch` calls, finished or not, with the rows they are given, each with the log
    before it. -/
def recordCalls (log : List Event) : List ((Cause × Batch × List EvalResult) × List Event) :=
  pastOf (fun
    | .recorded cause batch rows => some (cause, batch, rows)
    | .recordRaised cause batch rows _ _ => some (cause, batch, rows)
    | _ => none) log

/-- The shard groups these calls have submitted: all of those of their rows, or those before the
    call to a shard that raised. -/
def Config.submitted (cfg : Config) : List Event → List (Nat × List EvalResult)
  | [] => []
  | .recorded _ _ rows :: before => cfg.submitted before ++ cfg.shardGroups rows
  | .recordRaised _ _ rows k _ :: before => cfg.submitted before ++ (cfg.shardGroups rows).take k
  | _ :: before => cfg.submitted before

/-- The id on a row tells whether the attempt was executed by a replacement. -/
def Config.Marks (cfg : Config) (row : EvalResult) (worker : Handle) : Prop :=
  (cfg.nWorkers : Int) ≤ row.workerId ↔ worker ∉ cfg.primaries

/-- When it does: for a result, unless the worker was constructed by `_blocking_replace`; for a
    terminal failure, if the worker is a primary. -/
def Config.Markable (cfg : Config) : Cause → Handle → Prop
  | .completed, worker => ¬ cfg.BlockingReplacement worker
  | _, worker => worker ∈ cfg.primaries

/-- What ties the rows of a `record_batch` call to an attempt: the driver took it out of `active`
    last, it is one on this batch, and if it succeeded, these are the rows it returned. -/
structure Attempted (executed : List (ObjectRef × Batch × Outcome)) (cause : Cause) (batch : Batch)
    (rows : List EvalResult) (before : List Event) (ref : ObjectRef) (f : Flight) : Prop where
  last : (removedRefs before).head? = some (ref, f)
  same : f.batch = batch
  returned : cause = .completed → (ref, batch, .ok rows) ∈ executed

/-- The rows of a `record_batch` call, other than the abort's, come from an attempt, and each of
    them tells who executed it exactly when it can. -/
def Config.Attributes (cfg : Config) (executed : List (ObjectRef × Batch × Outcome))
    (call : (Cause × Batch × List EvalResult) × List Event) : Prop :=
  call.1.1 ≠ .workersDead → ∃ ref f,
    Attempted executed call.1.1 call.1.2.1 call.1.2.2 call.2 ref f ∧
      ∀ row ∈ call.1.2.2, (cfg.Marks row ref.worker ↔ cfg.Markable call.1.1 ref.worker)

theorem Config.Attributes.mono {cfg : Config}
    {executed executed' : List (ObjectRef × Batch × Outcome)}
    {call : (Cause × Batch × List EvalResult) × List Event}
    (h : cfg.Attributes executed call) (hsub : ∀ x ∈ executed, x ∈ executed') :
    cfg.Attributes executed' call := by
  intro hcause
  obtain ⟨ref, f, hattempt, hmarks⟩ := h hcause
  exact ⟨ref, f, ⟨hattempt.last, hattempt.same, fun hok => hsub _ (hattempt.returned hok)⟩, hmarks⟩

/-- A result row carries the id of the worker that computed it. -/
theorem Config.marks_result {cfg : Config} {row : EvalResult} {worker : Handle}
    (hrow : row.workerId = worker.workerId)
    (horigin : worker ∈ cfg.primaries ∨ cfg.nWorkers ≤ worker.workerId ∨
      cfg.BlockingReplacement worker) :
    cfg.Marks row worker ↔ cfg.Markable .completed worker := by
  have hprimary : worker ∈ cfg.primaries → worker.workerId < cfg.nWorkers ∧
      ¬ cfg.BlockingReplacement worker := by
    intro hin
    obtain ⟨hlt, hid⟩ := Config.mem_primaries.1 hin
    exact ⟨by omega, fun hrep => by have := hrep.1; omega⟩
  have hreplaced : cfg.BlockingReplacement worker → worker.workerId < cfg.nWorkers := And.right
  unfold Config.Marks Config.Markable
  rw [hrow, Nat.cast_le]
  by_cases hin : worker ∈ cfg.primaries
  · obtain ⟨hlt, hnot⟩ := hprimary hin
    simp [hin, hnot, hlt]
  · by_cases hrep : cfg.BlockingReplacement worker
    · simp [hin, hrep, hreplaced hrep]
    · have hle : cfg.nWorkers ≤ worker.workerId :=
        (horigin.resolve_left hin).resolve_right hrep
      simp [hin, hrep, hle]

/-- A failure row carries the number of a slot. -/
theorem Config.marks_failure {cfg : Config} {row : EvalResult} {worker : Handle} {slot : Nat}
    {cause : Cause} (hcause : cause ≠ .completed) (hrow : row.workerId = slot)
    (hslot : slot < cfg.nWorkers) : cfg.Marks row worker ↔ cfg.Markable cause worker := by
  have hmark : cfg.Markable cause worker ↔ worker ∈ cfg.primaries := by
    cases cause <;> first | rfl | exact absurd rfl hcause
  rw [hmark, Config.Marks, hrow, Nat.cast_le]
  simp [not_le.2 hslot]

/-- The flight the driver has taken out of `active` and not settled yet. -/
def Phase.attempt : Phase → Option Flight
  | .fetched _ f _ | .lost f _ => some f
  | _ => none

/-- The attempt the driver holds, and what it has submitted to the shards so far. -/
structure Point.Attributed (w : World σ) (pt : Point σ) : Prop where
  held : ∀ f, pt.phase.attempt = some f → ∃ ref, (removedRefs pt.sys.log).head? = some (ref, f) ∧
    ref.worker ∈ admissions pt.sys.log ∧ f.slot < w.cfg.nWorkers
  fetched : ∀ ref f out, pt.phase = .fetched ref f out →
    (removedRefs pt.sys.log).head? = some (ref, f)
  calls : ∀ call ∈ recordCalls pt.sys.log, w.cfg.Attributes pt.sys.ray.executed call
  submitted : pt.sys.shardCalls = w.cfg.submitted pt.sys.log

theorem Point.Attributed.settled {pt : Point σ} (hphase : pt.phase.attempt = none)
    (hcalls : ∀ call ∈ recordCalls pt.sys.log, w.cfg.Attributes pt.sys.ray.executed call)
    (hsubmitted : pt.sys.shardCalls = w.cfg.submitted pt.sys.log) : pt.Attributed w where
  held := fun f hf => by
    rw [hphase] at hf
    cases hf
  fetched := fun ref f out hp => by
    rw [hp] at hphase
    cases hphase
  calls := hcalls
  submitted := hsubmitted

/-- The workers stamp their rows with their own id. -/
def World.Stamps (w : World σ) : Prop :=
  ∀ st hd batch rows st', w.evaluateBatch st hd batch = (.ok rows, st') →
    ∀ row ∈ rows, row.workerId = hd.workerId

/-- A flight in `active` is with an admitted worker, in a slot there is. -/
theorem Reach.flight_held {s : Sys σ} {p : Phase} (hr : Reach w ⟨s, p⟩) {ref : ObjectRef}
    {f : Flight} (hf : s.active.get? ref = some f) :
    ref.worker ∈ admissions s.log ∧ f.slot < w.cfg.nWorkers := by
  have hinstalled := hr.disciplined.installed ref f hf
  refine ⟨hr.admitted.slots ref.worker (List.mem_of_getElem? hinstalled), ?_⟩
  have hlt : f.slot < s.workers.length := (List.getElem?_eq_some_iff.1 hinstalled).1
  exact lt_of_lt_of_eq hlt hr.workers_length

/-- The rows of a harvested outcome come from the attempt. -/
theorem Reach.attributes_completed (hstamp : w.Stamps) {s : Sys σ} {ref : ObjectRef} {f : Flight}
    {rows : List EvalResult} (hr : Reach w ⟨s, .fetched ref f (.ok rows)⟩)
    (hI : Point.Attributed w ⟨s, .fetched ref f (.ok rows)⟩) :
    w.cfg.Attributes s.ray.executed ((.completed, f.batch, rows), s.log) := by
  intro _
  obtain ⟨ref', href', hadm, -⟩ := hI.held f rfl
  have href := hI.fetched ref f (.ok rows) rfl
  obtain rfl : ref = ref' := by
    rw [href] at href'
    cases href'
    rfl
  have hexecuted := hr.linked.fetched ref f (.ok rows) rfl
  refine ⟨ref, f, ⟨href, rfl, fun _ => hexecuted⟩, fun row hrow => ?_⟩
  obtain ⟨st, hst⟩ := hr.linked.legal _ hexecuted
  have hid := hstamp st ref.worker f.batch rows _ (Prod.ext hst.symm rfl) row hrow
  exact Config.marks_result hid (hr.numbered.origin ref.worker hadm)

/-- The rows of a flight that is given up carry its slot. -/
theorem Point.Attributed.condemned {s : Sys σ} {f : Flight} {reason : Option Exc}
    (hI : Point.Attributed w ⟨s, .lost f reason⟩) :
    w.cfg.Attributes s.ray.executed
      ((causeOf reason, f.batch, w.cfg.condemnedRows f reason), s.log) := by
  intro _
  obtain ⟨ref, href, -, hslot⟩ := hI.held f rfl
  have hcause : causeOf reason ≠ .completed := by cases reason <;> simp [causeOf]
  refine ⟨ref, f, ⟨href, rfl, fun hok => absurd hok hcause⟩, fun row hrow => ?_⟩
  rcases reason with _ | exc <;>
  · obtain ⟨t, -, rfl⟩ := List.mem_map.1 hrow
    exact Config.marks_failure hcause rfl hslot

theorem Move.attributed (hstamp : w.Stamps) {a b : Point σ} (hr : Reach w a) (h : Move w a b)
    (hI : a.Attributed w) : b.Attributed w := by
  cases h with
  | call s p d hd hwhy =>
      refine ⟨hI.held, hI.fetched, fun call hcall => (hI.calls call hcall).mono ?_, hI.submitted⟩
      exact (Move.call s p d hd hwhy).executed_subset
  | harvest s ref f out hf ho =>
      obtain ⟨hadm, hslot⟩ := hr.flight_held hf
      refine ⟨fun f' hf' => ?_, fun ref' f' out' hp => ?_, hI.calls, hI.submitted⟩
      · cases hf'
        exact ⟨ref, rfl, hadm, hslot⟩
      · cases hp
        rfl
  | evict s ref f now submittedAt hf hage =>
      obtain ⟨hadm, hslot⟩ := hr.flight_held hf
      refine ⟨fun f' hf' => ?_, fun ref' f' out' hp => (by cases hp), hI.calls, hI.submitted⟩
      cases hf'
      exact ⟨ref, rfl, hadm, hslot⟩
  | complete s ref f rows =>
      exact .settled rfl (List.forall_mem_cons.2 ⟨hr.attributes_completed hstamp hI, hI.calls⟩)
        (congrArg (· ++ w.cfg.shardGroups rows) hI.submitted)
  | fail s ref f exc =>
      exact ⟨hI.held, fun ref' f' out' hp => (by cases hp), hI.calls, hI.submitted⟩
  | completeFailed s ref f rows i k exc hrec hk =>
      exact ⟨hI.held, fun ref' f' out' hp => (by cases hp),
        List.forall_mem_cons.2 ⟨hr.attributes_completed hstamp hI, hI.calls⟩,
        congrArg (· ++ (w.cfg.shardGroups rows).take k) hI.submitted⟩
  | condemn s f reason b hb hgate =>
      exact .settled rfl (List.forall_mem_cons.2 ⟨hI.condemned, hI.calls⟩)
        (congrArg (· ++ w.cfg.shardGroups (w.cfg.condemnedRows f reason)) hI.submitted)
  | condemnFailed s f reason b hb hgate i k exc hrec =>
      exact ⟨hI.held, fun ref' f' out' hp => (by cases hp),
        List.forall_mem_cons.2 ⟨hI.condemned, hI.calls⟩,
        congrArg (· ++ (w.cfg.shardGroups (w.cfg.condemnedRows f reason)).take k) hI.submitted⟩
  | abort s hdead =>
      exact .settled rfl (List.forall_mem_cons.2 ⟨fun hne => absurd rfl hne, hI.calls⟩)
        (congrArg (· ++ _) hI.submitted)
  | abortFailed s i k exc hrec =>
      exact .settled rfl (List.forall_mem_cons.2 ⟨fun hne => absurd rfl hne, hI.calls⟩)
        (congrArg (· ++ _) hI.submitted)
  | vacate s p slot hslot hwhy =>
      have hrefs : removedRefs (s.vacate slot).log = removedRefs s.log :=
        filterMap_vacate (fun _ => rfl) s slot
      have hadm : admissions (s.vacate slot).log = admissions s.log := admissions_vacate s slot
      have hcalls : recordCalls (s.vacate slot).log = recordCalls s.log :=
        pastOf_vacate (fun _ => rfl) s slot
      have hsubmitted : w.cfg.submitted (s.vacate slot).log = w.cfg.submitted s.log := by
        show w.cfg.submitted ((((s.workers[slot]?).join).map Event.killed).toList ++ s.log) = _
        cases (s.workers[slot]?).join <;> rfl
      refine ⟨?_, hrefs ▸ hI.fetched, hcalls ▸ hI.calls, hsubmitted ▸ hI.submitted⟩
      have hheld := hI.held
      rw [← hrefs, ← hadm] at hheld
      exact hheld
  | promote s p slot h s' time hslot hempty hpool hs' =>
      cases hs' <;> exact ⟨hI.held, hI.fetched, hI.calls, hI.submitted⟩
  | install s p slot healthy hslot hempty =>
      refine ⟨fun f hf => ?_, hI.fetched, hI.calls, hI.submitted⟩
      obtain ⟨ref, href, hadm, hlt⟩ := hI.held f hf
      exact ⟨ref, href, List.mem_cons_of_mem _ hadm, hlt⟩
  | abandon s p slot exc => exact ⟨hI.held, hI.fetched, hI.calls, hI.submitted⟩
  | fallback s p => exact ⟨hI.held, hI.fetched, hI.calls, hI.submitted⟩
  | failRefill s rf rest s' hagain hs' =>
      cases hs' <;> exact .settled rfl hI.calls hI.submitted
  | _ => exact .settled rfl hI.calls hI.submitted

/-- The startup submits nothing to the shards. -/
theorem createWorkers_shardCalls {s : Sys σ} (h : createWorkers w (Sys.initial w) = .ok s) :
    s.shardCalls = [] := by
  obtain ⟨workers, s₁, standbys, s₂, s₃, s₄, h₁, h₂, h₃, h₄, rfl⟩ := createWorkers_phases h
  have hkeeps₁ : s₁.shardCalls = [] := constructAll_keeps Sys.shardCalls (fun _ _ => rfl) h₁
  have hkeeps₂ := constructAll_keeps Sys.shardCalls (fun _ _ => rfl) h₂
  have hkeeps₃ := awaitHealthy_keeps Sys.shardCalls (fun _ _ _ _ => rfl) h₃
  have hkeeps₄ := validateAll_keeps Sys.shardCalls (fun _ => rfl) h₄
  exact hkeeps₄.trans (hkeeps₃.trans (hkeeps₂.trans hkeeps₁))

theorem submitted_start {s : Sys σ} (hs : Started w s) : w.cfg.submitted s.log = [] := by
  have hstaffing : ∀ log : List Event, (∀ e ∈ log, w.cfg.submitted [e] = []) →
      w.cfg.submitted log = [] := by
    intro log hlog
    induction log with
    | nil => rfl
    | cons e before ih =>
        have hone := hlog e List.mem_cons_self
        have hrest := ih (fun e' he' => hlog e' (List.mem_cons_of_mem e he'))
        cases e <;> simp_all [Config.submitted]
  obtain ⟨probes, hlog, hprobes⟩ := hs.log
  refine hstaffing _ (fun e he => ?_)
  rw [hlog] at he
  rcases List.mem_append.1 he with he | he
  · rcases hprobes e he with ⟨hd, call, rfl⟩ | ⟨hd, healthy, rfl⟩ <;> rfl
  · obtain ⟨k, -, rfl⟩ := List.mem_map.1 (List.mem_reverse.1 he)
    rfl

theorem Reach.attributed (hstamp : w.Stamps) {pt : Point σ} (h : Reach w pt) :
    pt.Attributed w := by
  refine h.invariant_of_created (I := Point.Attributed w) (fun s batches hcreate _ => ?_)
    (fun _ _ hr hm hI => hm.attributed hstamp hr hI)
  have hs := createWorkers_started hcreate
  have hnone : recordCalls s.log = [] := pastOf_start hs (fun _ => rfl) (fun _ _ => rfl)
  have hempty : s.shardCalls = [] := createWorkers_shardCalls hcreate
  refine .settled rfl ?_ (hempty.trans (submitted_start hs).symm)
  show ∀ call ∈ recordCalls s.log, _
  rw [hnone]
  exact fun call hcall => absurd hcall List.not_mem_nil

/-- In every run, the rows of each `record_batch` call but the abort's belong to one attempt, and
    the id on a row tells whether a replacement executed the attempt exactly if the row is a result
    and its worker was not constructed by `_blocking_replace`, or it is a terminal failure and its
    worker is a primary. The rows of these calls are what the shards are sent. -/
theorem worker_id_marks_iff (hstamp : w.Stamps) {s₀ : Sys σ} (h : startRun w = .ok s₀) (k : Nat) :
    (∀ cause batch rows before,
      ((cause, batch, rows), before) ∈ recordCalls (after w s₀ k).sys.log → cause ≠ .workersDead →
        ∃ ref f, Attempted (after w s₀ k).sys.ray.executed cause batch rows before ref f ∧
          ∀ row ∈ rows, (w.cfg.Marks row ref.worker ↔ w.cfg.Markable cause ref.worker)) ∧
      (after w s₀ k).sys.shardCalls = w.cfg.submitted (after w s₀ k).sys.log := by
  obtain ⟨p, hr⟩ := (reach_after h k).exists_phase
  have hattributed := hr.attributed hstamp
  exact ⟨fun cause batch rows before hcall => hattributed.calls _ hcall, hattributed.submitted⟩

/-! ## A replacement with the id of a primary

One worker, whose batch fails and whose health check then fails; the replacement
`_blocking_replace` constructs has the id of the slot and evaluates the batch. -/

/-- One row per task, stamped with the id of the worker. -/
def stampedRows (cfg : Config) (hd : Handle) (batch : Batch) : List EvalResult :=
  (emptyRows cfg batch).map (fun row => { row with workerId := hd.workerId })

/-- The first actor fails on every batch. -/
def firstFailing (cfg : Config) : EvaluateBatch Unit := fun _ hd batch =>
  (if hd.actor = 0 then .error ⟨"RuntimeError", "boom"⟩ else .ok (stampedRows cfg hd batch), ())

/-- Call 8 is the health check of the worker; its replacement is actor 1. -/
def replacedReply (step : Nat) : Reply :=
  { promptReply 1 step with
    health := if step = 8 then .error ⟨"GetTimeoutError", "Get timed out"⟩ else .ok true
    finished := (promptReply 1 step).finished ++
      (List.range (step + 1)).map (fun call => ⟨⟨1, 0⟩, call⟩) }

def replacedWorld : World Unit where
  cfg := leakConfig
  evaluateBatch := firstFailing leakConfig
  backend := ()
  env := replacedReply

theorem replacedWorld_stamps : replacedWorld.Stamps := by
  intro st hd batch rows st' h row hrow
  unfold replacedWorld firstFailing at h
  simp only [Prod.mk.injEq] at h
  split at h
  · cases h.1
  · obtain ⟨r, -, rfl⟩ := List.mem_map.1 (Except.ok.inj h.1 ▸ hrow)
    rfl

theorem worker_id_marks_iff_replaced : ∃ s₀, startRun replacedWorld = .ok s₀ ∧
    (∀ cause batch rows before,
      ((cause, batch, rows), before) ∈ recordCalls (after replacedWorld s₀ 2).sys.log →
        cause ≠ .workersDead → ∃ ref f,
          Attempted (after replacedWorld s₀ 2).sys.ray.executed cause batch rows before ref f ∧
          ∀ row ∈ rows, (replacedWorld.cfg.Marks row ref.worker ↔
            replacedWorld.cfg.Markable cause ref.worker)) ∧
      (after replacedWorld s₀ 2).sys.shardCalls
        = replacedWorld.cfg.submitted (after replacedWorld s₀ 2).sys.log := by
  obtain ⟨s₀, h, -⟩ := exists_startRun (w := replacedWorld) (P := fun _ => true)
    (by decide +kernel)
  exact ⟨s₀, h, worker_id_marks_iff replacedWorld_stamps h 2⟩

/-- The one row of the run was computed by actor 1, which is no primary, and has worker id 0. -/
theorem replacement_unmarked : ∃ s₀ s, startRun replacedWorld = .ok s₀ ∧
    after replacedWorld s₀ 2 = .head s ∧
    (recordCalls s.log).map (fun call => ((call.1.1, call.1.2.1), (removedRefs call.2).head?))
      = [((.completed, [0]), some (⟨⟨1, 0⟩, 1⟩, ⟨0, [0], 1⟩))] ∧
    (recordCalls s.log).map (fun call => call.1.2.2.map EvalResult.workerId) = [[0]] ∧
    s.shardCalls.map (fun call => call.2.map EvalResult.workerId) = [[0]] ∧
    (⟨1, 0⟩ : Handle) ∉ replacedWorld.cfg.primaries ∧ replacedWorld.cfg.nWorkers = 1 := by
  obtain ⟨s₀, s, h, hs, hrecorded, hgiven, hrows⟩ := exists_head (w := replacedWorld) (k := 2)
    (P := fun s => (recordCalls s.log).map
          (fun call => ((call.1.1, call.1.2.1), (removedRefs call.2).head?))
        = [((.completed, [0]), some (⟨⟨1, 0⟩, 1⟩, ⟨0, [0], 1⟩))] ∧
      (recordCalls s.log).map (fun call => call.1.2.2.map EvalResult.workerId) = [[0]] ∧
      s.shardCalls.map (fun call => call.2.map EvalResult.workerId) = [[0]]) (by decide +kernel)
  exact ⟨s₀, s, h, hs, hrecorded, hgiven, hrows, by decide, rfl⟩

end EvalHarness
