import EvalHarness.Lib.Dict
import EvalHarness.Types

set_option autoImplicit false

/-! # Ray, as the driver sees it

The coordinator is one sequential process; everything else happens inside its calls to Ray, to the
clock and to the aggregator. `Reply` is what the outside does during one such call, and a run takes
one reply after the other from the stream `World.env`, so quantifying over the stream quantifies
over every order of completions, every answer and every clock advance.

Worker calls are kept apart from their harvest: a submitted `evaluate_batch` is `inFlight` until the
worker executes it (at a moment the environment chooses), from then on its outcome is `resolved`,
and the driver sees it only when `ray.wait` reports the ref. A ref leaves `inFlight` when it
resolves, so it resolves at most once. -/

namespace EvalHarness

/-- An actor handle. `actor` tells actors apart, `workerId` is the constructor argument. -/
structure Handle where
  actor : Nat
  workerId : Nat
deriving DecidableEq, Repr

/-- The ref of one actor call; it names the actor the call went to. -/
structure ObjectRef where
  worker : Handle
  call : Nat
deriving DecidableEq, Repr

/-- What `ray.get` on an `evaluate_batch` ref gives: the returned rows or the raised exception. -/
abbrev Outcome := Except Exc (List EvalResult)

def Outcome.failed : Outcome → Bool
  | .ok _ => false
  | .error _ => true

/-- `get_stats` of a worker. -/
structure WorkerStats where
  workerId : Nat
  model : String
  backend : String
  completed : Nat
  failed : Nat
  poisoned : Bool
deriving DecidableEq, Repr

/-- The least time a call takes is one a call can take. -/
theorem noTime_nonneg : (0 : ℚ) ≤ 0 := le_rfl

/-- The least draw of the jitter is one of its draws. -/
theorem noJitter_mem : (0 : ℚ) ≤ 0 ∧ (0 : ℚ) ≤ 1 := ⟨le_rfl, zero_le_one⟩

/-- What the outside does during one call of the driver. Every call reads the fields that concern
    it and lets time pass.
    * `elapsed`, `finished`: how long the call takes beyond its minimum, and which outstanding
      `evaluate_batch` calls are executed meanwhile, in order;
    * `pick`: which of several resolved refs `ray.wait` reports;
    * `construct`, `validate`, `health`: whether a constructor submission or `validate_backend`
      raises, and what a `health_check` answers;
    * `ready`: whether `ray.wait` on a readiness ping reports it;
    * `jitter`: the unit draw behind `random.uniform`;
    * `recordFault`: `record_batch` raises after submitting that many shard groups;
    * `drain`, `stats`, `finalize`, `summary`: the answers of the end-of-run calls. -/
structure Reply where
  elapsed : ℚ := 0
  elapsed_nonneg : 0 ≤ elapsed := by exact noTime_nonneg
  finished : List ObjectRef := []
  pick : Nat := 0
  construct : Option Exc := none
  validate : Option Exc := none
  health : Except Exc Bool := .ok true
  ready : Bool := false
  jitter : ℚ := 0
  jitter_mem : 0 ≤ jitter ∧ jitter ≤ 1 := by exact noJitter_mem
  recordFault : Option (Nat × Exc) := none
  drain : Option Exc := none
  stats : Except Exc WorkerStats := .ok ⟨0, "", "", 0, 0, false⟩
  finalize : Option Exc := none
  summary : Option Exc := none

/-- The cluster's side of a run: the clock, the number of driver calls so far, the outstanding and
    the resolved `evaluate_batch` calls, the state of the backend, and every execution so far
    (latest first). -/
structure RayState (σ : Type) where
  clock : ℚ
  step : Nat
  inFlight : Dict ObjectRef Batch
  resolved : Dict ObjectRef Outcome
  backend : σ
  executed : List (ObjectRef × Batch × Outcome)

variable {σ : Type}

/-- `evaluate_batch` of a worker: from the state the workers share, the actor and the batch. -/
abbrev EvaluateBatch (σ : Type) := σ → Handle → Batch → Outcome × σ

/-- A worker executes one outstanding call; a ref that is not outstanding is left alone. -/
def RayState.execute (evaluateBatch : EvaluateBatch σ) (r : RayState σ) (ref : ObjectRef) :
    RayState σ :=
  match r.inFlight.get? ref with
  | none => r
  | some batch =>
      let out := (evaluateBatch r.backend ref.worker batch).1
      { r with
        inFlight := r.inFlight.erase ref
        resolved := r.resolved.set ref out
        backend := (evaluateBatch r.backend ref.worker batch).2
        executed := (ref, batch, out) :: r.executed }

/-- One call of the driver, taking at least `atLeast` seconds: the clock moves on and the calls the
    reply names are executed. -/
def RayState.call (evaluateBatch : EvaluateBatch σ) (reply : Reply) (atLeast : ℚ) (r : RayState σ) :
    RayState σ :=
  reply.finished.foldl (RayState.execute evaluateBatch)
    { r with step := r.step + 1, clock := r.clock + atLeast + reply.elapsed }

/-- `evaluate_batch.remote(batch)`. -/
def RayState.submit (r : RayState σ) (ref : ObjectRef) (batch : Batch) : RayState σ :=
  { r with inFlight := r.inFlight.set ref batch }

/-- The resolved refs among `refs`, with their outcomes: what `ray.wait` can report. -/
def RayState.readyAmong (r : RayState σ) (refs : List ObjectRef) : List (ObjectRef × Outcome) :=
  refs.filterMap (fun ref => (r.resolved.get? ref).map (fun out => (ref, out)))

/-- `ray.wait(refs, num_returns=1)`, after the wait: one of the resolved refs, if there is one. -/
def RayState.wait (r : RayState σ) (pick : Nat) (refs : List ObjectRef) :
    Option (ObjectRef × Outcome) :=
  (r.readyAmong refs)[pick % (r.readyAmong refs).length]?

/-! ## What a call leaves alone -/

/-- Rule of induction for a driver call: what holds once the clock has moved and survives every
    single execution holds after the call. -/
theorem RayState.call_induct {evaluateBatch : EvaluateBatch σ} {reply : Reply} {atLeast : ℚ}
    {r : RayState σ} (P : RayState σ → Prop)
    (hclock : P { r with step := r.step + 1, clock := r.clock + atLeast + reply.elapsed })
    (hexec : ∀ r' ref, P r' → P (r'.execute evaluateBatch ref)) :
    P (r.call evaluateBatch reply atLeast) := by
  unfold RayState.call
  generalize { r with step := r.step + 1, clock := r.clock + atLeast + reply.elapsed } = r'
    at hclock
  induction reply.finished generalizing r' with
  | nil => exact hclock
  | cons ref rest ih => exact ih _ (hexec r' ref hclock)

@[simp] theorem RayState.execute_clock (evaluateBatch : EvaluateBatch σ) (r : RayState σ)
    (ref : ObjectRef) : (r.execute evaluateBatch ref).clock = r.clock := by
  unfold RayState.execute
  split <;> rfl

theorem RayState.call_clock (evaluateBatch : EvaluateBatch σ) (reply : Reply) (atLeast : ℚ)
    (r : RayState σ) :
    (r.call evaluateBatch reply atLeast).clock = r.clock + atLeast + reply.elapsed :=
  RayState.call_induct (fun r' => r'.clock = r.clock + atLeast + reply.elapsed) rfl
    (fun r' ref h => by rw [execute_clock, h])

theorem RayState.call_clock_le (evaluateBatch : EvaluateBatch σ) (reply : Reply) (atLeast : ℚ)
    (r : RayState σ) : r.clock + atLeast ≤ (r.call evaluateBatch reply atLeast).clock := by
  rw [RayState.call_clock]
  linarith [reply.elapsed_nonneg]

/-- The clock does not go back, and a resolved ref stays resolved. -/
structure RayState.Later (r r' : RayState σ) : Prop where
  clock : r.clock ≤ r'.clock
  resolved : ∀ ref, (r.resolved.get? ref).isSome → (r'.resolved.get? ref).isSome

theorem RayState.Later.refl (r : RayState σ) : RayState.Later r r := ⟨le_refl _, fun _ => id⟩

theorem RayState.Later.trans {a b c : RayState σ} (h : RayState.Later a b)
    (h' : RayState.Later b c) : RayState.Later a c :=
  ⟨h.clock.trans h'.clock, fun ref href => h'.resolved ref (h.resolved ref href)⟩

theorem RayState.later_execute (evaluateBatch : EvaluateBatch σ) (r : RayState σ)
    (ref : ObjectRef) : RayState.Later r (r.execute evaluateBatch ref) := by
  refine ⟨(RayState.execute_clock evaluateBatch r ref).ge, fun ref' href => ?_⟩
  unfold RayState.execute
  split
  · exact href
  · rw [Dict.get?_set]
    split
    · rfl
    · exact href

theorem RayState.later_call (evaluateBatch : EvaluateBatch σ) (r : RayState σ) (reply : Reply)
    {d : ℚ} (hd : 0 ≤ d) : RayState.Later r (r.call evaluateBatch reply d) := by
  refine RayState.call_induct (RayState.Later r) ⟨?_, fun _ => id⟩
    (fun r' ref h => h.trans (RayState.later_execute evaluateBatch r' ref))
  show r.clock ≤ r.clock + d + reply.elapsed
  linarith [reply.elapsed_nonneg]

theorem RayState.wait_mem {r : RayState σ} {pick : Nat} {refs : List ObjectRef} {ref : ObjectRef}
    {out : Outcome} (h : r.wait pick refs = some (ref, out)) :
    ref ∈ refs ∧ r.resolved.get? ref = some out := by
  have hmem := List.mem_of_getElem? h
  obtain ⟨ref', hin, hmap⟩ := List.mem_filterMap.1 hmem
  obtain ⟨out', hout, heq⟩ := Option.map_eq_some_iff.1 hmap
  simp only [Prod.mk.injEq] at heq
  obtain ⟨rfl, rfl⟩ := heq
  exact ⟨hin, hout⟩

/-- `ray.wait` reports something as soon as some ref has resolved. -/
theorem RayState.wait_none {r : RayState σ} {pick : Nat} {refs : List ObjectRef}
    (h : r.wait pick refs = none) : ∀ ref ∈ refs, r.resolved.get? ref = none := by
  intro ref hin
  unfold RayState.wait at h
  rw [List.getElem?_eq_none_iff] at h
  by_contra hne
  obtain ⟨out, hout⟩ := Option.ne_none_iff_exists'.1 hne
  have hmem : (ref, out) ∈ r.readyAmong refs :=
    List.mem_filterMap.2 ⟨ref, hin, by rw [hout]; rfl⟩
  have hpos : 0 < (r.readyAmong refs).length := List.length_pos_of_mem hmem
  exact absurd (Nat.mod_lt pick hpos) (by omega)

end EvalHarness
