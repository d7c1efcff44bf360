import EvalHarness.Coordinator.Run

set_option autoImplicit false

/-! # The scheduler as a protocol

The functions of `Run.lean` are long sequences of small steps on the tables. `Move` lists these
steps once, each with the guard under which the driver makes it; `Refinement.lean` shows that every
function is a path of moves, and the invariants of the later modules are proved move by move.

Between two moves the driver may hold a batch in its local variables, or know that a slot is free.
`Phase` is that knowledge: a batch is in one of the tables, or in the phase, or at the
aggregator. -/

namespace EvalHarness

variable {σ : Type}

/-- What the driver holds outside its tables.
    * `fetched`: a flight taken out of `active` whose outcome is known;
    * `lost`: a flight whose attempt failed, by an exception or (`none`) by an eviction;
    * `spread`: a flight being put back as entries, on `pending` if it hung, else on `deferred`;
    * `free`: a slot that has just been freed;
    * `taken`: an entry popped from `pending` for a slot without a flight;
    * `polling`: in-flight refills taken off the list and not looked at yet;
    * `over`: nothing, after the all-workers-dead abort. -/
inductive Phase where
  | idle
  | fetched (ref : ObjectRef) (f : Flight) (out : Outcome)
  | lost (f : Flight) (reason : Option Exc)
  | spread (f : Flight) (hung : Bool) (entries : List Entry)
  | free (slot : Nat)
  | taken (slot : Nat) (e : Entry)
  | polling (refills : List Refill)
  | over

/-- The slot the driver knows to be without a flight. -/
def Phase.slot? : Phase → Option Nat
  | .fetched _ f _ | .lost f _ | .spread f _ _ => some f.slot
  | .free slot | .taken slot _ => some slot
  | .idle | .polling _ | .over => none

/-- The batches the driver holds that are not sent to a worker. -/
def Phase.heldEntries : Phase → List Entry
  | .spread _ _ entries => entries
  | .taken _ e => [e]
  | .idle | .fetched .. | .lost .. | .free _ | .polling _ | .over => []

/-- The harvested flight the driver has not settled. -/
def Phase.heldFlights : Phase → List Flight
  | .fetched _ f _ => [f]
  | _ => []

/-- The failed or evicted flight the driver has not put back or given up. -/
def Phase.lostFlights : Phase → List (Flight × Option Exc)
  | .lost f reason => [(f, reason)]
  | _ => []

/-- The refills the driver holds. -/
def Phase.refills : Phase → List Refill
  | .polling refills => refills
  | _ => []

structure Point (σ : Type) where
  sys : Sys σ
  phase : Phase

/-- The gate both failure paths apply to a lost batch whose first task has budget `b`. -/
def RetryGate (b : Int) (batch : Batch) (retryCount : Nat) : Option Exc → Prop
  | some exc => retryCount < b ∧ (classifyFailure exc = .transient ∨ 1 < batch.length)
  | none => retryCount < b

/-- Why a lost flight is given up. -/
def causeOf : Option Exc → Cause
  | some exc => .exception (classifyFailure exc)
  | none => .hung

/-- The rows recorded for a lost flight that is given up. -/
def Config.condemnedRows (cfg : Config) (f : Flight) : Option Exc → List EvalResult
  | some exc => f.batch.map (cfg.failedRow f.slot exc.text (classifyFailure exc))
  | none => f.batch.map (cfg.failedRow f.slot (cfg.hungError f.retryCount) .transient)

/-- The rows recorded by the all-workers-dead abort. -/
def Config.abortRows (cfg : Config) (batch : Batch) : List EvalResult :=
  batch.map (cfg.failedRow (-1) "all workers dead before dispatch" .transient)

/-- The tables at a wait: no free live worker while there is work to dispatch. -/
def Tables.Saturated (t : Tables) : Prop :=
  t.pending = [] ∨ ∀ i h, t.workers[i]? = some (some h) → i ∈ t.busy

/-- The tables when the driver sleeps: everything left is deferred beyond `now`. -/
def Tables.Dormant (t : Tables) (now : ℚ) : Prop :=
  t.pending = [] ∧ t.active.keys = [] ∧ t.deferred ≠ [] ∧ ∀ d ∈ t.deferred, now < d.1

/-- What an exception leaving a function is due to: the aggregator refused rows, a backoff has no
    float, or a lost batch has no first task. -/
def Culprit (w : World σ) (p : Phase) (exc : Exc) : Prop :=
  (∃ i k, (w.env i).recordFault = some (k, exc)) ∨
  (∃ f e rest jitter, p = .spread f false (e :: rest) ∧
    backoffSeconds f.retryCount jitter = .error exc) ∨
  (∃ f reason, p = .lost f reason ∧ w.cfg.taskMaxRetries f.batch = .error exc)

/-- Why a worker is replaced: a health check fails in this run, or a flight was evicted. -/
def Sys.Troubled (w : World σ) (s : Sys σ) : Prop :=
  (∃ i, (w.env i).health ≠ .ok true) ∨ ∃ ref f r, Event.evicted ref f r ∈ s.log

/-- The reply to a readiness check lets the actor in: it has an answer, and `validate_backend`
    passes. -/
def Reply.Admits (r : Reply) (healthy : Bool) : Prop := r.health = .ok healthy ∧ r.validate = none

/-- The reply to a readiness check turns the actor away: the check or `validate_backend` raises. -/
def Reply.Refuses (r : Reply) : Prop :=
  (∃ exc, r.health = .error exc) ∨ ∃ exc, r.validate = some exc

/-- A refill attempt: its construction is submitted, or already that raises. -/
inductive Refilled (attempt : Nat) (s : Sys σ) : Sys σ → Prop where
  | started (time : ℚ) : Refilled attempt s
      (s.constructRefill.addRefill (s.freshHandle s.nextWorkerId) time attempt)
  | refused : Refilled attempt s s.countRefillFailure

/-- One step of the driver. -/
inductive Move (w : World σ) : Point σ → Point σ → Prop where
  /-- Time passes and workers work. The driver sleeps only with nothing in flight, or while it
      replaces a worker. -/
  | call (s p) (d : ℚ) (hd : 0 ≤ d) (hwhy : d = 0 ∨ s.active.keys = [] ∨ s.Troubled w) :
      Move w ⟨s, p⟩ ⟨s.sleep w d, p⟩
  -- Harvest.
  | wait (s) (h : s.Saturated) (hne : s.active.keys ≠ []) :
      Move w ⟨s, .idle⟩ ⟨s.emit (.waiting s.toTables), .idle⟩
  | sleep (s) (now : ℚ) (h : s.Dormant now) :
      Move w ⟨s, .idle⟩ ⟨s.emit (.sleeping s.toTables now), .idle⟩
  | harvest (s ref f out) (hf : s.active.get? ref = some f)
      (ho : s.ray.resolved.get? ref = some out) :
      Move w ⟨s, .idle⟩ ⟨(s.dropRef ref).emit (.harvested ref f), .fetched ref f out⟩
  | complete (s ref f rows) :
      Move w ⟨s, .fetched ref f (.ok rows)⟩
        ⟨(s.countCompleted rows.length).handOver w .completed f.batch rows, .free f.slot⟩
  | fail (s ref f exc) :
      Move w ⟨s, .fetched ref f (.error exc)⟩ ⟨s.emit (.failed f exc), .lost f (some exc)⟩
  | completeFailed (s ref f rows) (i k : Nat) (exc : Exc)
      (hr : (w.env i).recordFault = some (k, exc)) (hk : k < (w.cfg.shardGroups rows).length) :
      Move w ⟨s, .fetched ref f (.ok rows)⟩
        ⟨((s.countCompleted rows.length).handOverFailed w .completed f.batch rows k exc).emit
          (.failed f exc), .lost f (some exc)⟩
  -- Timeout scan.
  | pass (s ref f) (now submittedAt : ℚ) (hf : s.active.get? ref = some f)
      (hage : now - submittedAt < w.cfg.hangThresholdS) :
      Move w ⟨s, .idle⟩
        ⟨s.emit (.visited ref now submittedAt (s.ray.resolved.get? ref).isSome), .idle⟩
  | evict (s ref f) (now submittedAt : ℚ) (hf : s.active.get? ref = some f)
      (hage : ¬ now - submittedAt < w.cfg.hangThresholdS) (hnow : now ≤ s.ray.clock)
      (htime : (s.refTimeouts.get? ref).getD now = submittedAt) :
      Move w ⟨s, .idle⟩
        ⟨((s.emit (.visited ref now submittedAt (s.ray.resolved.get? ref).isSome)).dropRef ref).emit
          (.evicted ref f (s.ray.resolved.get? ref).isSome), .lost f none⟩
  -- A lost flight goes back or is given up.
  | retry (s f reason) (b : Int) (hb : w.cfg.taskMaxRetries f.batch = .ok b)
      (hgate : RetryGate b f.batch f.retryCount reason) :
      Move w ⟨s, .lost f reason⟩
        ⟨(countedRetryEntries f.batch f.retryCount s).2,
          .spread f reason.isNone (retryEntries f.batch f.retryCount)⟩
  | condemn (s f reason) (b : Int) (hb : w.cfg.taskMaxRetries f.batch = .ok b)
      (hgate : ¬ RetryGate b f.batch f.retryCount reason) :
      Move w ⟨s, .lost f reason⟩
        ⟨(s.countFailed f.batch.length).handOver w (causeOf reason) f.batch
          (w.cfg.condemnedRows f reason), .free f.slot⟩
  | condemnFailed (s f reason) (b : Int) (hb : w.cfg.taskMaxRetries f.batch = .ok b)
      (hgate : ¬ RetryGate b f.batch f.retryCount reason) (i k : Nat) (exc : Exc)
      (hr : (w.env i).recordFault = some (k, exc)) :
      Move w ⟨s, .lost f reason⟩
        ⟨(s.countFailed f.batch.length).handOverFailed w (causeOf reason) f.batch
          (w.cfg.condemnedRows f reason) k exc, .lost f reason⟩
  | defer (s f e rest) (delay : ℚ) (jitter : ℚ)
      (hdelay : backoffSeconds f.retryCount jitter = .ok delay) :
      Move w ⟨s, .spread f false (e :: rest)⟩
        ⟨{ s with deferred := s.deferred ++ [(s.ray.clock + delay, e)] }.countRetried 1,
          .spread f false rest⟩
  | requeue (s f entries) :
      Move w ⟨s, .spread f true entries⟩
        ⟨{ s with pending := s.pending ++ entries }.countRetried entries.length, .free f.slot⟩
  | settled (s f) : Move w ⟨s, .spread f false []⟩ ⟨s, .free f.slot⟩
  -- Dispatch.
  | wakeUp (s) (now : ℚ) : Move w ⟨s, .idle⟩ ⟨s.wakeUp now, .idle⟩
  | claim (s slot e rest) (hp : s.pending = e :: rest) (hslot : slot ∉ s.busy)
      (hlive : (s.workers[slot]?).join ≠ none) :
      Move w ⟨s, .idle⟩ ⟨{ s with pending := rest }, .taken slot e⟩
  | take (s slot e rest) (hp : s.pending = e :: rest) :
      Move w ⟨s, .free slot⟩ ⟨{ s with pending := rest }, .taken slot e⟩
  | rest (s slot) : Move w ⟨s, .free slot⟩ ⟨s, .idle⟩
  | submit (s slot e h) (time : ℚ) (hh : s.workers[slot]? = some (some h))
      (htime : s.ray.clock ≤ time) :
      Move w ⟨s, .taken slot e⟩
        ⟨((s.launch slot e h).stamp (s.freshRef h) time).emit (.submitted (s.freshRef h) time),
          .idle⟩
  | bounce (s slot e) (hh : (s.workers[slot]?).join = none) :
      Move w ⟨s, .taken slot e⟩ ⟨{ s with pending := s.pending ++ [e] }, .idle⟩
  | abort (s) (hdead : s.workers.all Option.isNone) :
      Move w ⟨s, .idle⟩
        ⟨(s.countFailed (s.undispatched.flatMap Entry.batch).length).handOver w .workersDead
          (s.undispatched.flatMap Entry.batch)
          (w.cfg.abortRows (s.undispatched.flatMap Entry.batch)), .over⟩
  | abortFailed (s) (i k : Nat) (exc : Exc) (hr : (w.env i).recordFault = some (k, exc)) :
      Move w ⟨s, .idle⟩
        ⟨(s.countFailed (s.undispatched.flatMap Entry.batch).length).handOverFailed w .workersDead
          (s.undispatched.flatMap Entry.batch)
          (w.cfg.abortRows (s.undispatched.flatMap Entry.batch)) k exc, .idle⟩
  -- Replacement, in a slot without a flight.
  | vacate (s p slot) (hslot : p.slot? = some slot) (hwhy : s.Troubled w) :
      Move w ⟨s, p⟩ ⟨s.vacate slot, p⟩
  | promote (s p slot h s') (time : ℚ) (hslot : p.slot? = some slot)
      (hempty : (s.workers[slot]?).join = none) (hpool : s.standbyPool.getLast? = some h)
      (hs' : Refilled 0 ((s.promote slot h).samplePool time) s') : Move w ⟨s, p⟩ ⟨s', p⟩
  | fallback (s p) : Move w ⟨s, p⟩ ⟨s.countFallback, p⟩
  | install (s p slot) (healthy : Bool) (hslot : p.slot? = some slot)
      (hempty : (s.workers[slot]?).join = none) (call : Nat) (hcall : (w.env call).Admits healthy) :
      Move w ⟨s, p⟩
        ⟨(((s.construct (s.freshHandle slot)).emit (.checked (s.freshHandle slot) (some call))).emit
          (.probed (s.freshHandle slot) healthy)).setSlot slot (some (s.freshHandle slot)), p⟩
  | abandon (s p slot exc) (call : Nat) (hcall : (w.env call).Refuses) :
      Move w ⟨s, p⟩
        ⟨((s.construct (s.freshHandle slot)).emit (.checked (s.freshHandle slot) (some call))).emit
          (.attemptFailed (s.freshHandle slot) exc), p⟩
  -- Refills.
  | poll (s) : Move w ⟨s, .idle⟩ ⟨{ s with standbyRefills := [] }, .polling s.standbyRefills⟩
  | keep (s rf rest) :
      Move w ⟨s, .polling (rf :: rest)⟩
        ⟨{ s with standbyRefills := s.standbyRefills ++ [rf] }, .polling rest⟩
  | join (s rf rest) (healthy : Bool) (time : ℚ) (call : Nat)
      (hcall : (w.env call).Admits healthy) :
      Move w ⟨s, .polling (rf :: rest)⟩
        ⟨((s.emit (.checked rf.handle (some call))).joinPool rf.handle healthy).samplePool time,
          .polling rest⟩
  | failRefill (s rf rest s') (hagain : rf.attempt + 1 < standbyRefillMaxAttempts)
      {call : Option Nat} (hs' : Refilled (rf.attempt + 1)
        ((s.emit (.checked rf.handle call)).countRefillFailure.emit (.killed rf.handle)) s')
      (hcall : ∀ i ∈ call, (w.env i).Refuses) :
      Move w ⟨s, .polling (rf :: rest)⟩ ⟨s', .polling rest⟩
  | giveUpRefill (s rf rest) (hlast : ¬ rf.attempt + 1 < standbyRefillMaxAttempts)
      (call : Option Nat) (hcall : ∀ i ∈ call, (w.env i).Refuses) :
      Move w ⟨s, .polling (rf :: rest)⟩
        ⟨(s.emit (.checked rf.handle call)).countRefillFailure.emit (.killed rf.handle),
          .polling rest⟩
  | polled (s) : Move w ⟨s, .polling []⟩ ⟨s, .idle⟩

abbrev Path (w : World σ) : Point σ → Point σ → Prop := Relation.ReflTransGen (Move w)

/-- The points of all runs: start up, then move. -/
def Reach (w : World σ) (pt : Point σ) : Prop :=
  ∃ s, createWorkers w (Sys.initial w) = .ok s ∧
    ∃ batches, makeBatches (List.range w.cfg.tasks.length) w.cfg.batchSize = .ok batches ∧
      Path w ⟨{ s with pending := batches.map (fun batch => ⟨batch, 0⟩) }, .idle⟩ pt

end EvalHarness
