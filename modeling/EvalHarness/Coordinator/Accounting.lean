import EvalHarness.Coordinator.Slots
import EvalHarness.Lib.Ledger

set_option autoImplicit false

/-! # The tables as a ledger

`Point.ledger` reads the tables, the driver's locals and the log as a ledger of jobs: a batch on
`pending` or `deferred` waits, one in `active` runs, a failed or evicted one is lost, and its tasks
are settled when the aggregator gets them. `Move.accounted`: every move is a step of the ledger or
does not touch it. So what `Lib/Ledger.lean` proves of every ledger holds of every run. -/

namespace EvalHarness

open Ledger

variable {σ : Type} {w : World σ}

/-! ## The split policy and the gate -/

/-- The batches a lost batch goes back as. -/
def halves (batch : Batch) : List Batch := (retryEntries batch 0).map Entry.batch

theorem retryEntries_eq (batch : Batch) (rc : Nat) :
    retryEntries batch rc = (halves batch).map (fun part => ⟨part, rc + 1⟩) := by
  unfold halves retryEntries
  split <;> simp

theorem halves_splitting : Splitting halves where
  flatten batch := retryEntries_flatten batch 0
  ne_nil batch hne part hpart := by
    obtain ⟨e, he, rfl⟩ := List.mem_map.1 hpart
    exact retryEntries_ne_nil hne e he

/-- May a lost batch go back? Both failure paths look at the budget of its first task. -/
def Config.gate (cfg : Config) (j : Job TaskRef) (reason : Option Exc) : Prop :=
  ∃ b, cfg.taskMaxRetries j.tasks = .ok b ∧ RetryGate b j.tasks j.losses reason

theorem Config.gate_iff {cfg : Config} {batch : Batch} {rc : Nat} {reason : Option Exc} {b : Int}
    (hb : cfg.taskMaxRetries batch = .ok b) :
    cfg.gate ⟨batch, rc⟩ reason ↔ RetryGate b batch rc reason := by
  constructor
  · rintro ⟨b', hb', h⟩
    rw [hb] at hb'
    cases hb'
    exact h
  · exact fun h => ⟨b, hb, h⟩

/-! ## Reading the log as a ledger -/

def Cause.verdict : Cause → Verdict
  | .completed => .completed
  | .exception _ | .hung => .condemned
  | .workersDead => .aborted

/-- Every flight handed to a worker. -/
def dispatches (log : List Event) : List Flight :=
  log.filterMap (fun | .dispatched _ f _ => some f | _ => none)

/-- Every flight lost, to an exception or (`none`) to an eviction. -/
def losses (log : List Event) : List (Flight × Option Exc) :=
  log.filterMap (fun
    | .failed f exc => some (f, some exc)
    | .evicted _ f _ => some (f, none)
    | _ => none)

/-- Every batch handed to the aggregator. -/
def recordings (log : List Event) : List (Cause × Batch) :=
  log.filterMap (fun | .recorded cause batch _ => some (cause, batch) | _ => none)

/-! What the startup and the kills leave alone. -/

theorem dispatches_start {s : Sys σ} (hs : Started w s) : dispatches s.log = [] :=
  filterMap_start hs (fun _ => rfl) (fun _ _ => rfl)

theorem losses_start {s : Sys σ} (hs : Started w s) : losses s.log = [] :=
  filterMap_start hs (fun _ => rfl) (fun _ _ => rfl)

theorem recordings_start {s : Sys σ} (hs : Started w s) : recordings s.log = [] :=
  filterMap_start hs (fun _ => rfl) (fun _ _ => rfl)

theorem dispatches_vacate (s : Sys σ) (slot : Nat) :
    dispatches (s.vacate slot).log = dispatches s.log := filterMap_vacate (fun _ => rfl) s slot

theorem losses_vacate (s : Sys σ) (slot : Nat) : losses (s.vacate slot).log = losses s.log :=
  filterMap_vacate (fun _ => rfl) s slot

theorem recordings_vacate (s : Sys σ) (slot : Nat) :
    recordings (s.vacate slot).log = recordings s.log := filterMap_vacate (fun _ => rfl) s slot

def Entry.job (e : Entry) : Job TaskRef := ⟨e.batch, e.retryCount⟩

def Flight.job (f : Flight) : Job TaskRef := ⟨f.batch, f.retryCount⟩

/-- The jobs of a number of entries. -/
def entryJobs (es : List Entry) : Multiset (Job TaskRef) := ↑(es.map Entry.job)

/-- The jobs of a number of flights. -/
def flightJobs (fs : List Flight) : Multiset (Job TaskRef) := ↑(fs.map Flight.job)

theorem entryJobs_append (es es' : List Entry) :
    entryJobs (es ++ es') = entryJobs es + entryJobs es' := by
  rw [entryJobs, List.map_append, ← Multiset.coe_add]
  rfl

theorem entryJobs_perm {es es' : List Entry} (h : es.Perm es') : entryJobs es = entryJobs es' :=
  Multiset.coe_eq_coe.2 (h.map _)

theorem flightJobs_perm {fs fs' : List Flight} (h : fs.Perm fs') :
    flightJobs fs = flightJobs fs' :=
  Multiset.coe_eq_coe.2 (h.map _)

/-- One flight more, at the end. -/
theorem flightJobs_snoc (fs : List Flight) (f : Flight) :
    flightJobs (fs ++ [f]) = f.job ::ₘ flightJobs (fs ++ []) := by
  rw [List.append_nil]
  exact flightJobs_perm (List.perm_append_singleton f fs)

/-- One entry more, at the end. -/
theorem entryJobs_snoc (es : List Entry) (e : Entry) :
    entryJobs (es ++ [e]) = e.job ::ₘ entryJobs (es ++ []) := by
  rw [List.append_nil]
  exact entryJobs_perm (List.perm_append_singleton e es)

def lossJob (l : Flight × Option Exc) : Job TaskRef × Option Exc := (l.1.job, l.2)

/-- The records of one batch, task by task. -/
def settleRecords (r : Cause × Batch) : List (Verdict × TaskRef) :=
  r.2.map (fun t => (r.1.verdict, t))

/-- The entries waiting to be dispatched; after the abort there are none left. -/
def queued (t : Tables) : Phase → List Entry
  | .over => []
  | p => t.pending ++ t.deferred.map Prod.snd ++ p.heldEntries

def Point.ledger (pt : Point σ) : Book TaskRef (Option Exc) where
  waiting := entryJobs (queued pt.sys.toTables pt.phase)
  running := flightJobs (pt.sys.active.values ++ pt.phase.heldFlights)
  lost := ↑(pt.phase.lostFlights.map lossJob)
  dispatched := flightJobs (dispatches pt.sys.log)
  losses := ↑((losses pt.sys.log).map lossJob)
  settled := ↑((recordings pt.sys.log).flatMap settleRecords)

/-! ## Every move is accounted for -/

/-- What must have happened for a job to be completed or lost, and for everything to be given up. -/
def Permits (w : World σ) (a b : Point σ) : Label TaskRef (Option Exc) → Prop
  | .complete j => ∃ ref f rows, a.phase = .fetched ref f (.ok rows) ∧ f.job = j
  | .lose j (some exc) => (∃ ref f, a.phase = .fetched ref f (.error exc) ∧ f.job = j) ∨
      ∃ i k, (w.env i).recordFault = some (k, exc)
  | .lose _ none => ∃ ref f r, Event.evicted ref f r ∈ b.sys.log
  | .abort => b.phase = .over
  | _ => True

/-- A move is a step of the ledger or leaves it alone. -/
def Accounted (w : World σ) (a b : Point σ) : Prop :=
  b.ledger = a.ledger ∨
    ∃ ℓ, Step halves w.cfg.gate a.ledger ℓ b.ledger ∧ Permits w a b ℓ

theorem Accounted.of_step {a b : Point σ} {ℓ : Label TaskRef (Option Exc)}
    {L : Book TaskRef (Option Exc)} (h : Step halves w.cfg.gate a.ledger ℓ L) (hL : b.ledger = L)
    (hp : Permits w a b ℓ) : Accounted w a b :=
  Or.inr ⟨ℓ, hL ▸ h, hp⟩

/-- The same batches in another order. -/
theorem Accounted.of_perm {a b : Point σ}
    (hq : (queued b.sys.toTables b.phase).Perm (queued a.sys.toTables a.phase))
    (ha : b.sys.active.values ++ b.phase.heldFlights = a.sys.active.values ++ a.phase.heldFlights)
    (hp : b.phase.lostFlights = a.phase.lostFlights) (hl : b.sys.log = a.sys.log) :
    Accounted w a b := by
  refine Or.inl ?_
  simp only [Point.ledger, ha, hp, hl, entryJobs_perm hq]

theorem parts_coe (f : Flight) :
    f.job.parts halves = entryJobs (retryEntries f.batch f.retryCount) := by
  rw [Job.parts, entryJobs, retryEntries_eq, List.map_map]
  rfl

theorem bind_settle_coe (v : Verdict) (es : List Entry) :
    (entryJobs es).bind (Job.settle v)
      = (↑((es.flatMap Entry.batch).map (fun t => (v, t))) : Multiset (Verdict × TaskRef)) := by
  induction es with
  | nil => rfl
  | cons e rest ih =>
      rw [show entryJobs (e :: rest) = e.job ::ₘ entryJobs rest from rfl, Multiset.cons_bind, ih,
        List.flatMap_cons, List.map_append, ← Multiset.coe_add]
      rfl

theorem wakeUp_perm (s : Sys σ) (now : ℚ) :
    (queued (s.wakeUp now).toTables .idle).Perm (queued s.toTables .idle) := by
  have hsplit : ((s.deferred.filter (fun d => d.1 ≤ now)).map Prod.snd ++
      (s.deferred.filter (fun d => ¬ d.1 ≤ now)).map Prod.snd).Perm (s.deferred.map Prod.snd) := by
    rw [← List.map_append]
    simp only [decide_not]
    exact (List.filter_append_perm _ _).map Prod.snd
  show (s.pending ++ _ ++ _ ++ []).Perm (s.pending ++ s.deferred.map Prod.snd ++ [])
  rw [List.append_nil, List.append_nil, List.append_assoc]
  exact hsplit.append_left _

theorem Move.accounted {a b : Point σ} (hr : Reach w a) (h : Move w a b) : Accounted w a b := by
  cases h with
  | harvest s ref f out hf ho =>
      -- the flight is still running: the driver holds it, and `active` no longer does
      have hperm : ((s.active.erase ref).values ++ [f]).Perm (s.active.values ++ []) := by
        rw [List.append_nil]
        exact List.perm_append_comm.trans (s.active.values_perm_erase hf).symm
      refine Or.inl ?_
      show Book.mk _ (flightJobs ((s.active.erase ref).values ++ [f])) _ _ _ _ = _
      rw [flightJobs_perm hperm]
      rfl
  | complete s ref f rows =>
      exact .of_step (.complete _ f.job _ (flightJobs_snoc _ _)) rfl ⟨ref, f, rows, rfl, rfl⟩
  | fail s ref f exc =>
      exact .of_step (.lose _ f.job (some exc) _ (flightJobs_snoc _ _)) rfl
        (Or.inl ⟨ref, f, rfl, rfl⟩)
  | completeFailed s ref f rows i k exc hfault hk =>
      -- the rows came back, and the aggregator refused them
      exact .of_step (.lose _ f.job (some exc) _ (flightJobs_snoc _ _)) rfl
        (Or.inr ⟨i, k, hfault⟩)
  | evict s ref f now submittedAt hf hage =>
      refine .of_step (.lose _ f.job none (flightJobs ((s.active.erase ref).values ++ [])) ?_) rfl
        ⟨ref, f, _, List.mem_cons_self⟩
      show flightJobs (s.active.values ++ []) = _
      rw [List.append_nil, List.append_nil]
      exact flightJobs_perm (s.active.values_perm_erase hf)
  | retry s f reason b hb hgate =>
      -- the parts count as waiting while the driver still holds them
      refine .of_step (.retry _ f.job reason 0 rfl ((Config.gate_iff hb).2 hgate)) ?_ trivial
      rw [parts_coe]
      show Book.mk (entryJobs (s.pending ++ s.deferred.map Prod.snd ++ _)) _ _ _ _ _
        = Book.mk (_ + entryJobs (s.pending ++ s.deferred.map Prod.snd ++ [])) _ _ _ _ _
      rw [← entryJobs_append, List.append_nil, entryJobs_perm List.perm_append_comm]
      rfl
  | condemn s f reason b hb hgate =>
      refine .of_step (.condemn _ f.job reason 0 rfl
        (fun hg => hgate ((Config.gate_iff hb).1 hg))) ?_ trivial
      cases reason <;> rfl
  | defer s f e rest delay jitter hdelay =>
      refine .of_perm ?_ rfl rfl rfl
      show (s.pending ++ (s.deferred ++ [(_, e)]).map Prod.snd ++ rest).Perm
        (s.pending ++ s.deferred.map Prod.snd ++ e :: rest)
      simp
  | requeue s f entries =>
      refine .of_perm ?_ rfl rfl rfl
      show (s.pending ++ entries ++ s.deferred.map Prod.snd ++ []).Perm
        (s.pending ++ s.deferred.map Prod.snd ++ entries)
      rw [List.append_nil, List.append_assoc, List.append_assoc]
      exact List.perm_append_comm.append_left _
  | wakeUp s now => exact .of_perm (wakeUp_perm s now) rfl rfl rfl
  | claim s slot e rest hp hslot hlive =>
      refine .of_perm ?_ rfl rfl rfl
      show (rest ++ s.deferred.map Prod.snd ++ [e]).Perm
        (s.pending ++ s.deferred.map Prod.snd ++ [])
      rw [hp, List.append_nil]
      exact List.perm_append_singleton _ _
  | take s slot e rest hp =>
      refine .of_perm ?_ rfl rfl rfl
      show (rest ++ s.deferred.map Prod.snd ++ [e]).Perm
        (s.pending ++ s.deferred.map Prod.snd ++ [])
      rw [hp, List.append_nil]
      exact List.perm_append_singleton _ _
  | bounce s slot e hh =>
      refine .of_perm ?_ rfl rfl rfl
      show (s.pending ++ [e] ++ s.deferred.map Prod.snd ++ []).Perm
        (s.pending ++ s.deferred.map Prod.snd ++ [e])
      rw [List.append_nil, List.append_assoc, List.append_assoc]
      exact List.perm_append_comm.append_left _
  | submit s slot e h time hh =>
      have hnew : s.freshRef h ∉ s.active.keys := hr.fresh.freshRef_notMem h
      refine .of_step (.dispatch _ e.job _ (entryJobs_snoc _ _)) ?_ trivial
      show Book.mk _ (flightJobs ((s.active.set (s.freshRef h)
        ⟨slot, e.batch, e.retryCount⟩).values ++ [])) _ _ _ _ = _
      rw [s.active.values_set_of_not_mem _ hnew, List.append_nil, flightJobs_snoc]
      rfl
  | abort s hdead =>
      refine .of_step (.abort _) ?_ rfl
      show Book.mk _ _ _ _ _ _ = Book.mk _ _ _ _ _ ((entryJobs
        (s.pending ++ s.deferred.map Prod.snd ++ [])).bind (Job.settle .aborted) + _)
      rw [bind_settle_coe, List.append_nil]
      rfl
  | vacate s p slot hslot hwhy =>
      refine Or.inl ?_
      simp only [Point.ledger, dispatches_vacate, losses_vacate, recordings_vacate]
      rfl
  | promote s p slot h s' time hslot hempty hpool hs' => cases hs' <;> exact Or.inl rfl
  | failRefill s rf rest s' hagain hs' => cases hs' <;> exact Or.inl rfl
  | _ => exact Or.inl rfl

/-! ## Runs as ledgers -/

theorem start_ledger {s : Sys σ} (hs : Started w s) (batches : List Batch) :
    Point.ledger (⟨{ s with pending := batches.map (fun batch => ⟨batch, 0⟩) }, .idle⟩ : Point σ)
      = Book.start batches := by
  have hentries : entryJobs (batches.map (fun batch => ⟨batch, 0⟩) ++ s.deferred.map Prod.snd ++ [])
      = (Book.start batches : Book TaskRef (Option Exc)).waiting := by
    rw [hs.deferred, List.map_nil, List.append_nil, List.append_nil, entryJobs, List.map_map]
    rfl
  simp only [Point.ledger, dispatches_start hs, losses_start hs, recordings_start hs, hs.active]
  show Book.mk (entryJobs (batches.map _ ++ s.deferred.map Prod.snd ++ [])) _ _ _ _ _ = _
  rw [hentries]
  rfl

/-- Every run is a run of the ledger. -/
theorem Reach.steps {pt : Point σ} (h : Reach w pt) :
    ∃ batches, makeBatches (List.range w.cfg.tasks.length) w.cfg.batchSize = .ok batches ∧
      Steps halves w.cfg.gate (Book.start batches) pt.ledger := by
  refine h.invariant (I := fun pt => ∃ batches,
    makeBatches (List.range w.cfg.tasks.length) w.cfg.batchSize = .ok batches ∧
      Steps halves w.cfg.gate (Book.start batches) pt.ledger)
    (fun s batches hs hbatches => ⟨batches, hbatches, ?_⟩) (fun a b hr hm hI => ?_)
  · rw [start_ledger hs]
  · obtain ⟨batches, hbatches, hsteps⟩ := hI
    refine ⟨batches, hbatches, ?_⟩
    rcases hm.accounted hr with heq | ⟨ℓ, hstep, -⟩
    · rwa [heq]
    · exact hsteps.tail ⟨ℓ, hstep⟩

/-- Every task is in exactly one place. -/
theorem Reach.total {pt : Point σ} (h : Reach w pt) :
    pt.ledger.total = ↑(List.range w.cfg.tasks.length) := by
  obtain ⟨batches, hbatches, hsteps⟩ := h.steps
  rw [Steps.total halves_splitting hsteps, Book.start_total, makeBatches_flatten hbatches]

/-- Only tasks of the input are lost. -/
theorem Reach.losses_known {pt : Point σ} (h : Reach w pt) :
    ∀ l ∈ pt.ledger.losses, ∀ t ∈ l.1.tasks, t < w.cfg.tasks.length := by
  obtain ⟨batches, hbatches, hsteps⟩ := h.steps
  intro l hl t ht
  have hin := Steps.losses_known halves_splitting hsteps
    (fun l hl => absurd hl (Multiset.notMem_zero l)) l hl t ht
  rw [h.total] at hin
  exact List.mem_range.1 (Multiset.mem_coe.1 hin)

/-- Retry counts are loss counts. -/
theorem Reach.consistent {pt : Point σ} (h : Reach w pt) : Consistent w.cfg.gate pt.ledger := by
  obtain ⟨batches, hbatches, hsteps⟩ := h.steps
  refine Steps.consistent halves_splitting hsteps (Book.start_consistent ?_ ?_)
  · rw [makeBatches_flatten hbatches]
    exact List.nodup_range
  · exact makeBatches_ne_nil hbatches

/-- Where the gate has respected the limits of all tasks of a batch, the work is bounded. -/
theorem Reach.bounded {pt : Point σ} {limit : TaskRef → Nat} (h : Reach w pt)
    (hgate : ∀ l ∈ pt.ledger.losses, w.cfg.gate l.1 l.2 → ∀ t ∈ l.1.tasks, l.1.losses < limit t) :
    Bounded limit pt.ledger := by
  obtain ⟨batches, hbatches, hsteps⟩ := h.steps
  refine Steps.bounded halves_splitting hsteps (Book.start_consistent ?_ ?_)
    (Book.start_bounded limit batches) hgate
  · rw [makeBatches_flatten hbatches]
    exact List.nodup_range
  · exact makeBatches_ne_nil hbatches

end EvalHarness
