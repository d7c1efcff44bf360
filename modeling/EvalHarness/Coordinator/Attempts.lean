import EvalHarness.Coordinator.Calm
import EvalHarness.Coordinator.Executions

set_option autoImplicit false

/-! # Attempts

How often a batch has been tried is known in two places: to the workers, which execute calls, and to
the driver, which sees outcomes one harvest at a time. In a calm run the two agree up to the flights
whose outcome the driver has not seen yet, and when a worker executes a batch, the number of earlier
executions of the same batch is the number of its earlier losses. So a fault plan that looks at this
number only decides the same, whatever the order of the executions. -/

namespace EvalHarness

open Ledger

variable {σ : Type} {w : World σ}

/-- How often the workers have executed a batch. -/
def RayState.tries (r : RayState σ) (batch : Batch) : Nat :=
  r.executed.countP (fun x => x.2.1 = batch)

/-- How often an attempt at a batch was lost. -/
def attempts (log : List Event) (batch : Batch) : Nat :=
  (losses log).countP (fun l => l.1.batch = batch)

/-- The batches that came back. -/
def completions (log : List Event) : List Batch :=
  log.filterMap (fun | .recorded .completed batch _ => some batch | _ => none)

/-- A fault plan: `evaluate_batch` fails exactly when the attempt number of its batch says so, and
    all its exceptions are of one kind. `agrees st tries` says that the workers' state knows how
    often each batch has been tried. -/
structure FaultPlan (w : World σ) (kind : FailureKind) (fails : Batch → Nat → Prop)
    (agrees : σ → (Batch → Nat) → Prop) : Prop where
  start : agrees w.backend (fun _ => 0)
  outcome : ∀ st tries hd batch, agrees st tries → (∀ t ∈ batch, t < w.cfg.tasks.length) →
    (Outcome.failed (w.evaluateBatch st hd batch).1 ↔ fails batch (tries batch))
  next : ∀ st tries hd batch, agrees st tries → (∀ t ∈ batch, t < w.cfg.tasks.length) →
    agrees (w.evaluateBatch st hd batch).2 (Function.update tries batch (tries batch + 1))
  kind : ∀ st hd batch exc, (w.evaluateBatch st hd batch).1 = .error exc →
    classifyFailure exc = kind

/-! ## Outcomes the driver has not seen -/

/-- The batches in flight that have resolved, and whether they failed. -/
def returned (active : Dict ObjectRef Flight) (resolved : Dict ObjectRef Outcome) :
    List (Batch × Bool) :=
  active.entries.filterMap (fun x =>
    (resolved.get? x.1).map (fun out => (x.2.batch, Outcome.failed out)))

/-- The harvested batch the driver has not settled, and whether it failed. -/
def Phase.returned : Phase → List (Batch × Bool)
  | .fetched _ f out => [(f.batch, Outcome.failed out)]
  | _ => []

theorem returned_erase {active : Dict ObjectRef Flight} (resolved : Dict ObjectRef Outcome)
    {ref : ObjectRef} {f : Flight} (hf : active.get? ref = some f) :
    (returned active resolved).Perm (((resolved.get? ref).map (fun out =>
      (f.batch, Outcome.failed out))).toList ++ returned (active.erase ref) resolved) := by
  refine ((active.perm_erase hf).filterMap _).trans (List.Perm.of_eq ?_)
  rw [List.filterMap_cons]
  cases resolved.get? ref <;> rfl

theorem returned_set_resolved {active : Dict ObjectRef Flight}
    {resolved : Dict ObjectRef Outcome} {ref : ObjectRef} (out : Outcome)
    (h : ref ∉ active.keys) :
    returned active (resolved.set ref out) = returned active resolved := by
  refine List.filterMap_congr (fun x hx => ?_)
  have hne : x.1 ≠ ref := fun heq => h (heq ▸ List.mem_map_of_mem hx)
  rw [Dict.get?_set, if_neg hne]

theorem returned_set_active {active : Dict ObjectRef Flight} {resolved : Dict ObjectRef Outcome}
    {ref : ObjectRef} (f : Flight) (h : ref ∉ active.keys) (hnone : resolved.get? ref = none) :
    returned (active.set ref f) resolved = returned active resolved := by
  rw [returned, active.entries_set_of_not_mem f h, List.filterMap_append]
  simp [hnone, returned]

theorem mem_returned {active : Dict ObjectRef Flight} {resolved : Dict ObjectRef Outcome}
    {y : Batch × Bool} (h : y ∈ returned active resolved) :
    ∃ ref f out, active.get? ref = some f ∧ resolved.get? ref = some out ∧
      y = (f.batch, Outcome.failed out) := by
  obtain ⟨⟨ref, f⟩, hin, heq⟩ := List.mem_filterMap.1 h
  obtain ⟨out, hout, rfl⟩ := Option.map_eq_some_iff.1 heq
  exact ⟨ref, f, out, (active.get?_eq_some_iff ref f).2 hin, hout, rfl⟩

/-! ## No batch is in two places -/

theorem mem_completions {log : List Event} {batch : Batch} :
    batch ∈ completions log ↔ (.completed, batch) ∈ recordings log := by
  rw [completions, recordings, List.mem_filterMap, List.mem_filterMap]
  constructor
  · rintro ⟨e, he, heq⟩
    split at heq <;> simp only [Option.some.injEq, reduceCtorEq] at heq
    exact ⟨_, he, by rw [heq]⟩
  · rintro ⟨e, he, heq⟩
    split at heq <;> simp only [Option.some.injEq, Prod.mk.injEq, reduceCtorEq] at heq
    obtain ⟨rfl, rfl⟩ := heq
    exact ⟨_, he, rfl⟩

/-- The batch of a flight: not empty, made of tasks of the input, and in no other place. -/
structure Alone (w : World σ) (pt : Point σ) (ref : ObjectRef) (batch : Batch) : Prop where
  ne_nil : batch ≠ []
  known : ∀ t ∈ batch, t < w.cfg.tasks.length
  active : ∀ ref' f', ref' ≠ ref → pt.sys.active.get? ref' = some f' → f'.batch ≠ batch
  held : ∀ f ∈ pt.phase.heldFlights, f.batch ≠ batch
  completed : batch ∉ completions pt.sys.log

theorem Reach.alone {pt : Point σ} (h : Reach w pt) {ref : ObjectRef} {f : Flight}
    (hf : pt.sys.active.get? ref = some f) : Alone w pt ref f.batch := by
  have hrunning : pt.ledger.running = f.job ::ₘ
      flightJobs ((pt.sys.active.erase ref).values ++ pt.phase.heldFlights) := by
    show flightJobs (pt.sys.active.values ++ pt.phase.heldFlights) = _
    rw [flightJobs_perm ((pt.sys.active.values_perm_erase hf).append_right _)]
    rfl
  have hold := Book.placed_of_running hrunning
  obtain ⟨hne, -⟩ := h.consistent.placed _ (hold ▸ Multiset.mem_cons_self _ _)
  obtain ⟨hapart, hsettled⟩ := h.consistent.apart hold
  obtain ⟨t, ht⟩ := List.exists_mem_of_ne_nil _ hne
  have hother : ∀ g ∈ (pt.sys.active.erase ref).values ++ pt.phase.heldFlights,
      g.batch ≠ f.batch := by
    intro g hg heq
    refine hapart ⟨g.job, g.job.losses, g.job.losses + 1⟩ ?_ t ?_ ht
    · exact Multiset.mem_add.2 (Or.inl (Multiset.mem_add.2 (Or.inr (Multiset.mem_map_of_mem _
        (Multiset.mem_coe.2 (List.mem_map_of_mem hg))))))
    · show t ∈ g.batch
      rw [heq]
      exact ht
  refine ⟨hne, fun t' ht' => ?_, fun ref' f' hne' hf' => hother f' (List.mem_append_left _ ?_),
    fun g hg => hother g (List.mem_append_right _ hg), fun hin => ?_⟩
  · have hin : t' ∈ pt.ledger.total := by
      rw [Book.total, hrunning, tasksOf_cons]
      simp [Flight.job, ht']
    rw [h.total] at hin
    exact List.mem_range.1 (Multiset.mem_coe.1 hin)
  · refine Dict.mem_values_of_get? (k := ref') ?_
    rw [Dict.get?_erase, if_neg hne', hf']
  · refine hsettled .completed t ?_ ht
    exact List.mem_flatMap.2 ⟨_, mem_completions.1 hin, List.mem_map.2 ⟨t, ht, rfl⟩⟩

/-! ## Executions and losses -/

/-- An execution, as far as the plan is concerned. -/
def RayState.trials (r : RayState σ) : List (Batch × Bool) :=
  r.executed.map (fun x => (x.2.1, Outcome.failed x.2.2))

/-- What the driver knows of the executions: the losses and the completions. -/
def settledTrials (log : List Event) : List (Batch × Bool) :=
  (losses log).map (fun l => (l.1.batch, true)) ++ (completions log).map (fun b => (b, false))

theorem RayState.tries_eq (r : RayState σ) (batch : Batch) :
    r.tries batch = r.trials.countP (fun y => y.1 = batch) := by
  rw [RayState.tries, RayState.trials, List.countP_map]
  rfl

/-- How the workers' executions and the driver's log fit together.
    * `agrees`: the workers' state knows how often each batch has been tried;
    * `inFlight`: what is in flight at the workers is in `active`;
    * `balance`: every execution is a loss, a completion, or has not been seen by the driver;
    * `resolved`, `fetched`: the outcomes it has not seen are the planned ones. -/
structure Tried (w : World σ) (fails : Batch → Nat → Prop) (agrees : σ → (Batch → Nat) → Prop)
    (pt : Point σ) : Prop where
  agrees : agrees pt.sys.ray.backend pt.sys.ray.tries
  inFlight : ∀ ref batch, pt.sys.ray.inFlight.get? ref = some batch →
    ∃ f, pt.sys.active.get? ref = some f
  balance : pt.sys.ray.trials.Perm (settledTrials pt.sys.log ++
    returned pt.sys.active pt.sys.ray.resolved ++ pt.phase.returned)
  resolved : ∀ ref f out, pt.sys.active.get? ref = some f →
    pt.sys.ray.resolved.get? ref = some out →
    (Outcome.failed out ↔ fails f.batch (attempts pt.sys.log f.batch))
  fetched : ∀ ref f out, pt.phase = .fetched ref f out →
    (Outcome.failed out ↔ fails f.batch (attempts pt.sys.log f.batch))

section

variable {kind : FailureKind} {fails : Batch → Nat → Prop} {agrees : σ → (Batch → Nat) → Prop}

/-- A batch in flight has been tried as often as it was lost. -/
theorem Tried.tries_eq {pt : Point σ} (h : Tried w fails agrees pt) {ref : ObjectRef} {f : Flight}
    (halone : Alone w pt ref f.batch) (hout : pt.sys.ray.resolved.get? ref = none) :
    pt.sys.ray.tries f.batch = attempts pt.sys.log f.batch := by
  have hreturned : (returned pt.sys.active pt.sys.ray.resolved).countP (fun y => y.1 = f.batch)
      = 0 := by
    rw [List.countP_eq_zero]
    intro y hy
    obtain ⟨ref', f', out, hf', hout', rfl⟩ := mem_returned hy
    have hne : ref' ≠ ref := fun heq => by
      rw [heq, hout] at hout'
      cases hout'
    simpa using halone.active ref' f' hne hf'
  have hheld : pt.phase.returned.countP (fun y => y.1 = f.batch) = 0 := by
    rw [List.countP_eq_zero]
    intro y hy
    cases hp : pt.phase <;> simp only [hp, Phase.returned, List.not_mem_nil, List.mem_singleton]
      at hy
    next ref' g out =>
      subst hy
      simpa using halone.held g (by simp [hp, Phase.heldFlights])
  have hcompleted : ((completions pt.sys.log).map (fun b => (b, false))).countP
      (fun y : Batch × Bool => y.1 = f.batch) = 0 := by
    rw [List.countP_map, List.countP_eq_zero]
    intro b hb
    have hne : b ≠ f.batch := fun heq => halone.completed (heq ▸ hb)
    simpa using hne
  rw [RayState.tries_eq, h.balance.countP_eq, settledTrials]
  simp only [List.countP_append, hreturned, hheld, hcompleted, Nat.add_zero]
  rw [List.countP_map]
  rfl

/-- A worker executes a call. -/
theorem Tried.execute (hplan : FaultPlan w kind fails agrees) {s : Sys σ} {p : Phase}
    (halone : ∀ ref f, s.active.get? ref = some f → Alone w ⟨s, p⟩ ref f.batch)
    {r : RayState σ} (hlinked : Linked s.active s.nextCall r)
    (h : Tried w fails agrees ⟨{ s with ray := r }, p⟩) (ref : ObjectRef) :
    Tried w fails agrees ⟨{ s with ray := r.execute w.evaluateBatch ref }, p⟩ := by
  unfold RayState.execute
  split
  · exact h
  · next batch hbatch =>
      obtain ⟨f, hf⟩ := h.inFlight ref batch hbatch
      replace hf : s.active.get? ref = some f := hf
      obtain ⟨rfl, hnone⟩ : batch = f.batch ∧ r.resolved.get? ref = none := by
        rcases hlinked.outstanding ref f hf with ⟨hin, hnone⟩ | ⟨hout, -⟩
        · rw [hbatch] at hin
          exact ⟨Option.some.inj hin, hnone⟩
        · rw [hbatch] at hout
          cases hout
      have hal := halone ref f hf
      have htries : r.tries f.batch = attempts s.log f.batch :=
        h.tries_eq ⟨hal.ne_nil, hal.known, hal.active, hal.held, hal.completed⟩ hnone
      have hplanned := hplan.outcome r.backend r.tries ref.worker f.batch h.agrees hal.known
      have hnext := hplan.next r.backend r.tries ref.worker f.batch h.agrees hal.known
      generalize w.evaluateBatch r.backend ref.worker f.batch = x at hplanned hnext
      refine ⟨?_, fun ref' batch' h' => ?_, ?_, fun ref' f' out hf' hout => ?_, h.fetched⟩
      · -- one more execution of this batch, as many of every other
        convert hnext using 1
        funext b
        simp only [RayState.tries, List.countP_cons, Function.update_apply]
        by_cases hb : b = f.batch
        · simp [hb]
        · have hb' : ¬ f.batch = b := fun heq => hb heq.symm
          simp [hb, hb']
      · rw [Dict.get?_erase] at h'
        split at h'
        · cases h'
        · exact h.inFlight ref' batch' h'
      · -- the outcome is one more the driver has not seen
        have hbefore := returned_erase r.resolved hf
        have hafter := returned_erase (r.resolved.set ref x.1) hf
        rw [hnone] at hbefore
        have herased : ref ∉ (s.active.erase ref).keys := by simp
        rw [Dict.get?_set_self, returned_set_resolved x.1 herased] at hafter
        have hbalance : r.trials.Perm (settledTrials s.log ++ returned s.active r.resolved ++
          p.returned) := h.balance
        show ((f.batch, Outcome.failed x.1) :: r.trials).Perm (settledTrials s.log ++
          returned s.active (r.resolved.set ref x.1) ++ p.returned)
        refine (hbalance.cons _).trans ?_
        have hmove : ((f.batch, Outcome.failed x.1) :: returned s.active r.resolved).Perm
            (returned s.active (r.resolved.set ref x.1)) := (hbefore.cons _).trans hafter.symm
        rw [← List.cons_append]
        refine List.Perm.append_right _ (List.perm_middle.symm.trans ?_)
        exact hmove.append_left _
      · rw [Dict.get?_set] at hout
        split at hout
        · next heq =>
            subst heq
            obtain rfl : f = f' := Option.some.inj (hf.symm.trans hf')
            obtain rfl := Option.some.inj hout
            rw [hplanned, htries]
        · exact h.resolved ref' f' out hf' hout

theorem attempts_failed_of_ne {log : List Event} {f : Flight} {exc : Exc} {batch : Batch}
    (h : f.batch ≠ batch) : attempts (.failed f exc :: log) batch = attempts log batch :=
  List.countP_cons_of_neg (by simpa using h)

/-- The driver takes a resolved flight out of the tables. -/
theorem Tried.harvest {s : Sys σ} {ref : ObjectRef} {f : Flight} {out : Outcome}
    (hlinked : Linked s.active s.nextCall s.ray) (hf : s.active.get? ref = some f)
    (ho : s.ray.resolved.get? ref = some out) (h : Tried w fails agrees ⟨s, .idle⟩) :
    Tried w fails agrees ⟨(s.dropRef ref).emit (.harvested ref f), .fetched ref f out⟩ := by
  -- a call with an outcome is no longer in flight
  have hgone : s.ray.inFlight.get? ref = none := by
    rcases hlinked.outstanding ref f hf with ⟨-, hnone⟩ | ⟨hgone, -⟩
    · replace hnone : s.ray.resolved.get? ref = none := hnone
      rw [ho] at hnone
      cases hnone
    · exact hgone
  refine ⟨h.agrees, fun ref' batch h' => ?_, ?_, fun ref' f' out' hf' hout => ?_,
    fun ref' f' out' hp => ?_⟩
  · obtain ⟨f', hf'⟩ := h.inFlight ref' batch h'
    refine ⟨f', ?_⟩
    show (s.active.erase ref).get? ref' = some f'
    rw [Dict.get?_erase, if_neg (fun heq => ?_)]
    · exact hf'
    · replace h' : s.ray.inFlight.get? ref' = some batch := h'
      rw [heq, hgone] at h'
      cases h'
  · have hreturned := returned_erase s.ray.resolved hf
    rw [ho] at hreturned
    have hbalance : s.ray.trials.Perm (settledTrials s.log ++
      returned s.active s.ray.resolved ++ []) := h.balance
    show s.ray.trials.Perm (settledTrials s.log ++ returned (s.active.erase ref) s.ray.resolved
      ++ [(f.batch, Outcome.failed out)])
    rw [List.append_nil] at hbalance
    rw [List.append_assoc]
    exact hbalance.trans ((hreturned.trans List.perm_append_comm).append_left _)
  · replace hf' : (s.active.erase ref).get? ref' = some f' := hf'
    rw [Dict.get?_erase] at hf'
    split at hf'
    · cases hf'
    · exact h.resolved ref' f' out' hf' hout
  · cases hp
    exact h.resolved ref f out hf ho

/-- It hands over the rows of a batch. -/
theorem Tried.complete {s : Sys σ} {ref : ObjectRef} {f : Flight} {rows : List EvalResult}
    (h : Tried w fails agrees ⟨s, .fetched ref f (.ok rows)⟩) :
    Tried w fails agrees
      ⟨(s.countCompleted rows.length).handOver w .completed f.batch rows, .free f.slot⟩ := by
  refine ⟨h.agrees, h.inFlight, ?_, h.resolved, fun ref' f' out' hp => by cases hp⟩
  have hbalance : s.ray.trials.Perm (settledTrials s.log ++
    returned s.active s.ray.resolved ++ [(f.batch, false)]) := h.balance
  refine hbalance.trans (List.perm_append_comm.trans ?_)
  show ((f.batch, false) :: (settledTrials s.log ++ returned s.active s.ray.resolved)).Perm
    ((losses s.log).map (fun l => (l.1.batch, true)) ++
      (f.batch, false) :: (completions s.log).map (fun b => (b, false)) ++
      returned s.active s.ray.resolved ++ [])
  rw [List.append_nil, ← List.cons_append]
  exact List.perm_middle.symm.append_right _

/-- It notes a loss, which is one of another batch than those in flight. -/
theorem Tried.fail {s : Sys σ} {ref : ObjectRef} {f : Flight} {exc : Exc}
    (halone : ∀ ref' f', s.active.get? ref' = some f' → f.batch ≠ f'.batch)
    (h : Tried w fails agrees ⟨s, .fetched ref f (.error exc)⟩) :
    Tried w fails agrees ⟨s.emit (.failed f exc), .lost f (some exc)⟩ := by
  refine ⟨h.agrees, h.inFlight, ?_, fun ref' f' out hf' hout => ?_,
    fun ref' f' out' hp => by cases hp⟩
  · have hbalance : s.ray.trials.Perm (settledTrials s.log ++
      returned s.active s.ray.resolved ++ [(f.batch, true)]) := h.balance
    refine hbalance.trans (List.perm_append_comm.trans ?_)
    show ((f.batch, true) :: (settledTrials s.log ++ returned s.active s.ray.resolved)).Perm
      ((f.batch, true) :: settledTrials s.log ++ returned s.active s.ray.resolved ++ [])
    rw [List.append_nil, List.cons_append]
  · have hne : f.batch ≠ f'.batch := halone ref' f' hf'
    show _ ↔ fails f'.batch (attempts (.failed f exc :: s.log) f'.batch)
    rw [attempts_failed_of_ne hne]
    exact h.resolved ref' f' out hf' hout

/-- It sends a batch to a worker. -/
theorem Tried.submit {s : Sys σ} {slot : Nat} {e : Entry} {hd : Handle} (time : ℚ)
    (hlinked : Linked s.active s.nextCall s.ray) (hnew : s.freshRef hd ∉ s.active.keys)
    (h : Tried w fails agrees ⟨s, .taken slot e⟩) :
    Tried w fails agrees ⟨((s.launch slot e hd).stamp (s.freshRef hd) time).emit
      (.submitted (s.freshRef hd) time), .idle⟩ := by
  -- the ref is new, so nobody has resolved it
  have hnone : s.ray.resolved.get? (s.freshRef hd) = none := by
    by_contra hsome
    obtain ⟨out, hout⟩ := Option.ne_none_iff_exists'.1 hsome
    exact absurd (hlinked.resolved_fresh _ out hout) (lt_irrefl _)
  refine ⟨h.agrees, fun ref' batch h' => ?_, ?_, fun ref' f' out' hf' hout => ?_,
    fun ref' f' out' hp => by cases hp⟩
  · replace h' : (s.ray.inFlight.set (s.freshRef hd) e.batch).get? ref' = some batch := h'
    show ∃ f, (s.active.set (s.freshRef hd) _).get? ref' = some f
    rw [Dict.get?_set] at h' ⊢
    split at h'
    · next heq => exact ⟨_, if_pos heq⟩
    · next hne =>
        rw [if_neg hne]
        exact h.inFlight ref' batch h'
  · show s.ray.trials.Perm (settledTrials s.log ++
      returned (s.active.set (s.freshRef hd) _) s.ray.resolved ++ [])
    rw [returned_set_active _ hnew hnone]
    exact h.balance
  · replace hf' : (s.active.set (s.freshRef hd) _).get? ref' = some f' := hf'
    rw [Dict.get?_set] at hf'
    split at hf'
    · next heq =>
        replace hout : s.ray.resolved.get? ref' = some out' := hout
        rw [heq, hnone] at hout
        cases hout
    · exact h.resolved ref' f' out' hf' hout

theorem Move.tried (hplan : FaultPlan w kind fails agrees) (hcalm : Calm w) {a b : Point σ}
    (hr : Reach w a) (hm : Move w a b) (heva : evictions a.sys.log = [])
    (hevb : evictions b.sys.log = []) (h : Tried w fails agrees a) : Tried w fails agrees b := by
  have hlinked := hr.linked.linked
  cases hm with
  | call s p d hd =>
      refine (RayState.call_induct (fun r => Linked s.active s.nextCall r ∧
        Tried w fails agrees ⟨{ s with ray := r }, p⟩) ⟨?_, ?_⟩ (fun r ref hI => ?_)).2
      · exact ⟨hlinked.inFlight_fresh, hlinked.resolved_fresh, hlinked.outstanding⟩
      · exact ⟨h.agrees, h.inFlight, h.balance, h.resolved, h.fetched⟩
      · exact ⟨hI.1.execute _ ref, hI.2.execute hplan (fun _ _ hf => hr.alone hf) hI.1 ref⟩
  | harvest s ref f out hf ho => exact h.harvest hlinked hf ho
  | complete s ref f rows => exact h.complete
  | fail s ref f exc =>
      refine h.fail ?_
      intro ref' f' hf'
      exact (hr.alone hf').held f (by simp [Phase.heldFlights])
  | submit s slot e hd time hh htime =>
      exact h.submit time hlinked (hr.fresh.freshRef_notMem hd)
  | condemn s f reason b hb hgate =>
      cases reason <;>
        exact ⟨h.agrees, h.inFlight, h.balance, h.resolved, fun ref' f' out' hp => by cases hp⟩
  | evict s ref f now submittedAt hf hage =>
      exact absurd hevb (by simp [evictions, Sys.emit])
  | completeFailed s ref f rows i k exc hfault hk =>
      exact absurd hfault (by simp [hcalm.recording i])
  | condemnFailed s f reason b hb hgate i k exc hfault =>
      exact absurd hfault (by simp [hcalm.recording i])
  | abortFailed s i k exc hfault => exact absurd hfault (by simp [hcalm.recording i])
  | vacate s p slot hslot hwhy => exact absurd hwhy (hcalm.not_troubled heva)
  | promote s p slot h' s' time hslot hempty hpool hs' =>
      cases hs' <;> exact ⟨h.agrees, h.inFlight, h.balance, h.resolved, h.fetched⟩
  | failRefill s rf rest s' hagain hs' =>
      cases hs' <;>
        exact ⟨h.agrees, h.inFlight, h.balance, h.resolved, fun ref' f' out' hp => by cases hp⟩
  | fallback s p => exact ⟨h.agrees, h.inFlight, h.balance, h.resolved, h.fetched⟩
  | install s p slot healthy hslot hempty =>
      exact ⟨h.agrees, h.inFlight, h.balance, h.resolved, h.fetched⟩
  | abandon s p slot exc => exact ⟨h.agrees, h.inFlight, h.balance, h.resolved, h.fetched⟩
  | _ => exact ⟨h.agrees, h.inFlight, h.balance, h.resolved, fun ref' f' out' hp => by cases hp⟩

theorem Reach.tried (hplan : FaultPlan w kind fails agrees) (hcalm : Calm w) {pt : Point σ}
    (h : Reach w pt) (hev : evictions pt.sys.log = []) : Tried w fails agrees pt := by
  refine h.invariant_of_no_evictions (I := Tried w fails agrees) (fun s batches hs _ => ?_)
    (fun a b hr hm heva hevb hI => hm.tried hplan hcalm hr heva hevb hI) hev
  have hcompletions : completions s.log = [] := filterMap_start hs (fun _ => rfl) (fun _ _ => rfl)
  refine ⟨?_, ?_, ?_, ?_, fun ref f out hp => by cases hp⟩
  · show agrees s.ray.backend s.ray.tries
    have htries : s.ray.tries = fun _ => 0 := by
      funext batch
      simp [RayState.tries, hs.executed]
    rw [hs.backend, htries]
    exact hplan.start
  · show ∀ ref batch, s.ray.inFlight.get? ref = some batch → _
    rw [hs.inFlight]
    exact fun ref batch h => by cases h
  · show s.ray.trials.Perm (settledTrials s.log ++ returned s.active s.ray.resolved ++ [])
    rw [RayState.trials, settledTrials, returned, hs.executed, losses_start hs, hcompletions,
      hs.active]
    exact .refl _
  · show ∀ ref f out, s.active.get? ref = some f → _
    rw [hs.active]
    exact fun ref f out h => by cases h

end

end EvalHarness
