import EvalHarness.Coordinator.Refinement
import EvalHarness.Coordinator.Startup

set_option autoImplicit false

/-! # The loop is a path of moves

`reach_after`: wherever the loop stands, the protocol can be there. The two moves with a guard on
all slots, `wait` and `sleep`, need what `dispatch_pending_to_idle` leaves behind: it looks at every
slot, so it stops with `pending` empty or every live slot busy, and it neither loses nor adds
work. -/

namespace EvalHarness

variable {σ : Type} {w : World σ}

/-! ## Slots -/

theorem Move.workers_length {a b : Point σ} (h : Move w a b) :
    b.sys.workers.length = a.sys.workers.length := by
  cases h with
  | vacate s p slot hslot hwhy => exact List.length_set
  | install s p slot healthy hslot hempty => exact List.length_set
  | promote s p slot h s' time hslot hempty hpool hs' => cases hs' <;> exact List.length_set
  | failRefill s rf rest s' hagain hs' => cases hs' <;> rfl
  | _ => rfl

theorem Reach.tail {a b : Point σ} (h : Reach w a) (hab : Path w a b) : Reach w b := by
  obtain ⟨s, hs, batches, hb, hpath⟩ := h
  exact ⟨s, hs, batches, hb, hpath.trans hab⟩

theorem Reach.step {a b : Point σ} (h : Reach w a) (hab : Move w a b) : Reach w b :=
  h.tail (.single hab)

/-- Rule of induction for the points of a run. -/
theorem Reach.invariant {I : Point σ → Prop}
    (hstart : ∀ s batches, Started w s →
      makeBatches (List.range w.cfg.tasks.length) w.cfg.batchSize = .ok batches →
      I ⟨{ s with pending := batches.map (fun batch => ⟨batch, 0⟩) }, .idle⟩)
    (hstep : ∀ a b, Reach w a → Move w a b → I a → I b) {pt : Point σ} (h : Reach w pt) :
    I pt := by
  obtain ⟨s, hs, batches, hb, hpath⟩ := h
  have hfirst : Reach w ⟨{ s with pending := batches.map (fun batch => ⟨batch, 0⟩) }, .idle⟩ :=
    ⟨s, hs, batches, hb, .refl⟩
  exact (Transition.invariant_of_step (I := fun pt => Reach w pt ∧ I pt)
    (fun a b hm hI => ⟨hI.1.step hm, hstep a b hI.1 hm hI.2⟩) hpath
    ⟨hfirst, hstart s batches (createWorkers_started hs) hb⟩).2

theorem Reach.workers_length {pt : Point σ} (h : Reach w pt) :
    pt.sys.workers.length = w.cfg.nWorkers :=
  h.invariant (I := fun pt => pt.sys.workers.length = w.cfg.nWorkers)
    (fun s batches hs _ => by
      show s.workers.length = _
      rw [hs.workers]
      simp)
    (fun _ _ _ hm hI => hm.workers_length.trans hI)

theorem Reach.fresh {pt : Point σ} (h : Reach w pt) : pt.sys.Fresh :=
  h.invariant (I := fun pt => pt.sys.Fresh)
    (fun s batches hs _ => by
      show ∀ ref ∈ s.active.keys, _
      rw [hs.active]
      exact fun ref href => absurd href List.not_mem_nil)
    (fun _ _ _ hm hI => hm.fresh hI)

/-! ## Dispatch -/

/-- How many batches the tables hold. -/
def Tables.load (t : Tables) : Nat := t.pending.length + t.deferred.length + t.active.entries.length

/-- What handing pending work to idle workers does to the tables. -/
structure Dispatched (s s' : Sys σ) : Prop where
  workers : s'.workers = s.workers
  deferred : s'.deferred = s.deferred
  load : s'.load = s.load
  keys : ∀ ref ∈ s.active.keys, ref ∈ s'.active.keys
  busy : ∀ i ∈ s.busy, i ∈ s'.busy
  fresh : s'.Fresh

theorem Dispatched.refl {s : Sys σ} (h : s.Fresh) : Dispatched s s :=
  ⟨rfl, rfl, rfl, fun _ => id, fun _ => id, h⟩

theorem Dispatched.trans {a b c : Sys σ} (h : Dispatched a b) (h' : Dispatched b c) :
    Dispatched a c where
  workers := h'.workers.trans h.workers
  deferred := h'.deferred.trans h.deferred
  load := h'.load.trans h.load
  keys := fun ref href => h'.keys ref (h.keys ref href)
  busy := fun i hi => h'.busy i (h.busy i hi)
  fresh := h'.fresh

/-- Submitting the first pending batch to a live slot moves it into `active`. -/
theorem submit_dispatched {s : Sys σ} {slot : Nat} {e : Entry} {rest : List Entry} {h : Handle}
    (hf : s.Fresh) (hp : s.pending = e :: rest) (hh : (s.workers[slot]?).join = some h) :
    Dispatched s (submit w slot e { s with pending := rest }) ∧
      slot ∈ (submit w slot e { s with pending := rest }).busy := by
  have hnew : s.freshRef h ∉ s.active.keys := hf.freshRef_notMem h
  have hsub : ∀ s : Sys σ, (s.workers[slot]?).join = some h → submit w slot e s
      = (((s.launch slot e h).call w).stamp (s.freshRef h)
          ((s.launch slot e h).call w).ray.clock).emit
            (.submitted (s.freshRef h) ((s.launch slot e h).call w).ray.clock) := by
    intro s hh
    unfold submit
    simp only [hh]
  let f : Flight := ⟨slot, e.batch, e.retryCount⟩
  have hentries := s.active.entries_set_of_not_mem f hnew
  have hvalues := s.active.values_set_of_not_mem f hnew
  rw [hsub { s with pending := rest } hh]
  refine ⟨⟨rfl, rfl, ?_, ?_, ?_, ?_⟩, ?_⟩
  · show rest.length + s.deferred.length + (s.active.set (s.freshRef h) f).entries.length = _
    rw [hentries]
    simp only [Tables.load, hp, List.length_append, List.length_cons, List.length_nil]
    omega
  · intro ref href
    show ref ∈ (s.active.set (s.freshRef h) f).entries.map Prod.fst
    rw [hentries, List.map_append]
    exact List.mem_append_left _ href
  · intro i hi
    show i ∈ (s.active.set (s.freshRef h) f).values.map Flight.slot
    rw [hvalues, List.map_append]
    exact List.mem_append_left _ hi
  · exact Sys.Fresh.launch (s := { s with pending := rest }) hf slot e h
  · show slot ∈ (s.active.set (s.freshRef h) f).values.map Flight.slot
    rw [hvalues, List.map_append]
    exact List.mem_append_right _ List.mem_cons_self

theorem dispatchToSlots_spec (busy : List Nat) : ∀ (slots : List Nat) (s : Sys σ), s.Fresh →
    (∀ i ∈ busy, i ∈ s.busy) → Dispatched s (dispatchToSlots w busy slots s) ∧
      ((dispatchToSlots w busy slots s).pending = [] ∨
        ∀ i ∈ slots, ∀ h, s.workers[i]? = some (some h) →
          i ∈ (dispatchToSlots w busy slots s).busy) := by
  intro slots
  induction slots with
  | nil => intro s hf _; exact ⟨.refl hf, Or.inr (fun i hi => absurd hi List.not_mem_nil)⟩
  | cons i slots ih =>
      intro s hf hbusy
      unfold dispatchToSlots
      split
      · next hp => exact ⟨.refl hf, Or.inl hp⟩
      · next e rest hp =>
          split
          · next hskip =>
              obtain ⟨hd, hsat⟩ := ih s hf hbusy
              refine ⟨hd, hsat.imp_right (fun hall j hj h hh => ?_)⟩
              rcases List.mem_cons.1 hj with rfl | hj'
              · rcases hskip with hdead | hin
                · rw [hh] at hdead
                  cases hdead
                · exact hd.busy _ (hbusy _ hin)
              · exact hall j hj' h hh
          · next hgo =>
              rw [not_or] at hgo
              obtain ⟨h, hh⟩ := Option.ne_none_iff_exists'.1 hgo.1
              obtain ⟨hone, hslot⟩ := submit_dispatched (w := w) hf hp hh
              obtain ⟨hd, hsat⟩ := ih _ hone.fresh (fun j hj => hone.busy j (hbusy j hj))
              refine ⟨hone.trans hd, hsat.imp_right (fun hall j hj h' hh' => ?_)⟩
              rcases List.mem_cons.1 hj with rfl | hj'
              · exact hd.busy _ hslot
              · exact hall j hj' h' (by rw [hone.workers]; exact hh')

theorem dispatchPendingToIdle_spec {s : Sys σ} (hf : s.Fresh)
    (hlen : s.workers.length = w.cfg.nWorkers) :
    Dispatched s (dispatchPendingToIdle w s) ∧ (dispatchPendingToIdle w s).Saturated := by
  unfold dispatchPendingToIdle
  split
  · next hp => exact ⟨.refl hf, Or.inl (List.isEmpty_iff.1 hp)⟩
  · obtain ⟨hd, hsat⟩ :=
      dispatchToSlots_spec (w := w) s.busy (List.range w.cfg.nWorkers) s hf (fun _ => id)
    refine ⟨hd, hsat.imp_right (fun hall i h hh => ?_)⟩
    rw [hd.workers] at hh
    have hi : i < s.workers.length := (List.getElem?_eq_some_iff.1 hh).1
    exact hall i (List.mem_range.2 (hlen ▸ hi)) h hh

/-! ## Sleep -/

/-- What the steps before `dispatch` leave alone. -/
theorem pollStandbyRefills_tables (s : Sys σ) :
    (pollStandbyRefills w s).toTables = s.toTables := by
  have hstart : ∀ (attempt : Nat) (s : Sys σ),
      (startStandbyRefill w attempt s).toTables = s.toTables := by
    intro attempt s
    unfold startStandbyRefill
    dsimp only
    split <;> rfl
  have hfail : ∀ (h : Handle) (attempt : Nat) (s : Sys σ),
      (failRefill w h attempt s).toTables = s.toTables := by
    intro h attempt s
    unfold failRefill
    dsimp only
    split
    · exact hstart _ _
    · rfl
  have hone : ∀ (s : Sys σ) (rf : Refill), (pollRefill w s rf).toTables = s.toTables := by
    intro s rf
    unfold pollRefill
    dsimp only
    split
    · split
      · rfl
      · exact hfail _ _ _
    · split
      · exact hfail _ _ _
      · rfl
  have hfold : ∀ (refills : List Refill) (s : Sys σ),
      (refills.foldl (pollRefill w) s).toTables = s.toTables := by
    intro refills
    induction refills with
    | nil => intro s; rfl
    | cons rf rest ih => intro s; exact (ih _).trans (hone s rf)
  exact hfold _ _

theorem Tables.load_wakeUp (s : Sys σ) (now : ℚ) : (s.wakeUp now).load = s.load := by
  have hsplit := List.length_eq_length_filter_add (l := s.deferred) (fun d => decide (d.1 ≤ now))
  simp only [Tables.load, Sys.wakeUp, List.length_append, List.length_map, hsplit,
    decide_not]
  omega

theorem Tables.idle_iff_load (t : Tables) : t.idle = true ↔ t.load = 0 := by
  simp only [Tables.idle, Tables.load, Dict.keys, Bool.and_eq_true, List.isEmpty_iff,
    List.map_eq_nil_iff, Nat.add_eq_zero_iff, List.length_eq_zero_iff]
  tauto

/-! ## The body of the loop -/

/-- The tables of an iteration once pending work has been handed out. -/
def dispatchPhase (w : World σ) (s : Sys σ) : Sys σ :=
  dispatchPendingToIdle w (promoteReadyRetries w (pollStandbyRefills w s))

theorem iteration_eq (s : Sys σ) :
    iteration w s =
      if (pollStandbyRefills w s).workers.all Option.isNone then
        match abortRun w (pollStandbyRefills w s) with
        | .ok s => .aborted s
        | .error raised => .raised raised.exc raised.sys
      else if (dispatchPhase w s).active.keys.isEmpty then
        .head (((dispatchPhase w s).emit (.sleeping (dispatchPhase w s).toTables
          (promoteReadyRetries w (pollStandbyRefills w s)).ray.clock)).sleep w retryPollInterval)
      else
        match waitAndHarvest w (dispatchPhase w s) with
        | .ok s => .head s
        | .error raised => .raised raised.exc raised.sys := rfl

/-- What holds in every iteration when the driver is about to wait or to sleep. -/
structure Ready (w : World σ) (s s' : Sys σ) : Prop where
  path : Path w ⟨s, .idle⟩ ⟨s', .idle⟩
  saturated : s'.Saturated
  workers : s'.workers = s.workers
  load : s'.load = s.load
  keys : ∀ ref ∈ s.active.keys, ref ∈ s'.active.keys
  later : ∀ d ∈ s'.deferred, (promoteReadyRetries w (pollStandbyRefills w s)).ray.clock < d.1
  deferred : ∀ d ∈ s'.deferred, d ∈ s.deferred

theorem dispatchPhase_ready {s : Sys σ} (hf : s.Fresh)
    (hlen : s.workers.length = w.cfg.nWorkers) : Ready w s (dispatchPhase w s) := by
  have htables := pollStandbyRefills_tables (w := w) s
  have hpoll := pollStandbyRefills_path (w := w) s
  have hprom := hpoll.trans (promoteReadyRetries_path (pollStandbyRefills w s))
  have hworkers : (promoteReadyRetries w (pollStandbyRefills w s)).workers = s.workers := by
    show (pollStandbyRefills w s).workers = s.workers
    rw [htables]
  obtain ⟨hd, hsat⟩ :=
    dispatchPendingToIdle_spec (w := w) (Path.fresh hprom hf) (hworkers ▸ hlen)
  have hwoken : ∀ d, d ∈ (dispatchPhase w s).deferred ↔ d ∈ s.deferred ∧
      ¬ d.1 ≤ (promoteReadyRetries w (pollStandbyRefills w s)).ray.clock := by
    intro d
    rw [dispatchPhase, hd.deferred]
    show d ∈ ((pollStandbyRefills w s).deferred.filter _) ↔ _
    rw [congrArg Tables.deferred htables, List.mem_filter, decide_eq_true_iff]
    rfl
  refine
    { path := hprom.trans (dispatchPendingToIdle_path _)
      saturated := hsat
      workers := hd.workers.trans hworkers
      load := hd.load.trans ((Tables.load_wakeUp ((pollStandbyRefills w s).call w) _).trans
        (congrArg Tables.load htables))
      keys := fun ref href => hd.keys ref ?_
      later := fun d hin => lt_of_not_ge ((hwoken d).1 hin).2
      deferred := fun d hin => ((hwoken d).1 hin).1 }
  show ref ∈ (pollStandbyRefills w s).active.keys
  rw [congrArg Tables.active htables]
  exact href

/-- With nothing in flight after the dispatch, everything left is deferred. -/
theorem Ready.dormant {s s' : Sys σ} (h : Ready w s s') (hidle : ¬ s.idle)
    (halive : ¬ s.workers.all Option.isNone) (hactive : s'.active.keys = []) :
    s'.Dormant (promoteReadyRetries w (pollStandbyRefills w s)).ray.clock := by
  have hbusy : s'.busy = [] := by
    have hentries : s'.active.entries = [] := List.map_eq_nil_iff.1 hactive
    simp [Tables.busy, Dict.values, hentries]
  have hpending : s'.pending = [] := by
    refine h.saturated.resolve_right (fun hall => halive ?_)
    rw [List.all_eq_true]
    intro x hx
    obtain ⟨i, hi⟩ := List.mem_iff_getElem?.1 (h.workers ▸ hx : x ∈ s'.workers)
    cases x with
    | none => rfl
    | some hd =>
        have := hall i hd hi
        rw [hbusy] at this
        exact absurd this List.not_mem_nil
  refine ⟨hpending, hactive, fun hdeferred => hidle ?_, h.later⟩
  rw [Tables.idle_iff_load, ← h.load, ← Tables.idle_iff_load]
  simp [Tables.idle, hactive, hdeferred, hpending]

theorem waitAndHarvest_leads {s : Sys σ} (hsat : s.Saturated) (hne : s.active.keys ≠ []) :
    Leads w ⟨s, .idle⟩ .idle (waitAndHarvest w s) := by
  have hwait : Path w ⟨s, .idle⟩ ⟨(s.emit (.waiting s.toTables)).call w, .idle⟩ :=
    Path.call (.single (.wait s hsat hne))
  unfold waitAndHarvest
  refine Leads.trans hwait ?_
  dsimp only
  split
  · next ref out hw =>
      obtain ⟨hin, hout⟩ := RayState.wait_mem hw
      exact Leads.bind (harvest_leads _ ref out hin hout) handleTimeouts_leads
  · exact handleTimeouts_leads _

theorem abortRun_cases (s : Sys σ) (hdead : s.workers.all Option.isNone) :
    (∃ s', abortRun w s = .ok s' ∧ Path w ⟨s, .idle⟩ ⟨s', .over⟩) ∨
      ∃ raised, abortRun w s = .error raised ∧ Path w ⟨s, .idle⟩ ⟨raised.sys, .idle⟩ ∧
        Culprit w .idle raised.exc := by
  rcases record_cases (w := w) .workersDead (s.undispatched.flatMap Entry.batch)
    (w.cfg.abortRows (s.undispatched.flatMap Entry.batch))
    (s.countFailed (s.undispatched.flatMap Entry.batch).length) with h | ⟨k, exc, hr, -, h⟩
  · exact Or.inl ⟨_, h, (Path.call .refl).tail (.abort (s.call w) hdead)⟩
  · exact Or.inr ⟨_, h, (Path.call .refl).tail (.abortFailed (s.call w) _ k exc hr),
      Or.inl ⟨_, k, hr⟩⟩

/-! ## The loop -/

/-- The point of the protocol a status stands for. -/
def Status.Reached (w : World σ) : Status σ → Prop
  | .head s => Reach w ⟨s, .idle⟩
  | .exited s => Reach w ⟨s, .idle⟩ ∧ s.idle
  | .aborted s => Reach w ⟨s, .over⟩
  | .raised exc s => ∃ p, Reach w ⟨s, p⟩ ∧ Culprit w p exc

/-- Where a step of the loop can lead from a point. -/
def Status.From (w : World σ) (pt : Point σ) : Status σ → Prop
  | .head s => Path w pt ⟨s, .idle⟩
  | .exited s => Path w pt ⟨s, .idle⟩ ∧ s.idle
  | .aborted s => Path w pt ⟨s, .over⟩
  | .raised exc s => ∃ p, Path w pt ⟨s, p⟩ ∧ Culprit w p exc

theorem Status.From.trans {pt pt' : Point σ} {st : Status σ} (hpath : Path w pt pt')
    (h : st.From w pt') : st.From w pt := by
  cases st with
  | head s => exact hpath.trans h
  | exited s => exact h.imp_left hpath.trans
  | aborted s => exact hpath.trans h
  | raised exc s => exact h.imp (fun _ => And.imp_left hpath.trans)

theorem Status.From.reached {pt : Point σ} {st : Status σ} (h : st.From w pt)
    (hr : Reach w pt) : st.Reached w := by
  cases st with
  | head s => exact hr.tail h
  | exited s => exact h.imp_left hr.tail
  | aborted s => exact hr.tail h
  | raised exc s => exact h.imp (fun _ => And.imp_left hr.tail)

theorem iteration_from {s : Sys σ} (hf : s.Fresh) (hlen : s.workers.length = w.cfg.nWorkers)
    (hidle : ¬ s.idle) : (iteration w s).From w ⟨s, .idle⟩ := by
  rw [iteration_eq]
  have hready := dispatchPhase_ready hf hlen
  split
  · next hdead =>
      refine Status.From.trans (pollStandbyRefills_path s) ?_
      rcases abortRun_cases (w := w) _ hdead with ⟨s', hs', hpath⟩ | ⟨raised, hs', hpath, hcul⟩
      · rw [hs']
        exact hpath
      · rw [hs']
        exact ⟨_, hpath, hcul⟩
  · next halive =>
      have halive' : ¬ s.workers.all Option.isNone := by
        rwa [congrArg Tables.workers (pollStandbyRefills_tables s)] at halive
      refine Status.From.trans hready.path ?_
      split
      · next hempty =>
          have hdormant := hready.dormant hidle halive' (List.isEmpty_iff.1 hempty)
          refine .head (.sleep _ _ hdormant) (.single ?_)
          exact .call _ _ retryPollInterval (by norm_num [retryPollInterval])
            (Or.inr (Or.inl hdormant.2.1))
      · next hne =>
          have hleads := waitAndHarvest_leads (w := w) hready.saturated
            (fun hnil => hne (List.isEmpty_iff.2 hnil))
          cases hw : waitAndHarvest w (dispatchPhase w s) with
          | ok s' => rw [hw] at hleads; exact hleads
          | error raised => rw [hw] at hleads; exact hleads

theorem iteration_reached {s : Sys σ} (h : Reach w ⟨s, .idle⟩) (hidle : ¬ s.idle) :
    (iteration w s).Reached w :=
  (iteration_from h.fresh h.workers_length hidle).reached h

theorem advance_reached {st : Status σ} (h : st.Reached w) : (advance w st).Reached w := by
  cases st with
  | head s =>
      simp only [advance]
      split
      · next hidle => exact ⟨h, hidle⟩
      · next hidle => exact iteration_reached h hidle
  | _ => exact h

/-- What `run` does before its first iteration: create the workers, chunk the tasks, fill the
    pipeline. -/
theorem startRun_phases {s : Sys σ} (h : startRun w = .ok s) :
    ∃ s₀ batches, createWorkers w (Sys.initial w) = .ok s₀ ∧
      makeBatches (List.range w.cfg.tasks.length) w.cfg.batchSize = .ok batches ∧
      s = (fillPipeline w
        ((List.range w.cfg.nWorkers).filter (fun i => (s₀.workers[i]?).join.isSome))
        { s₀ with pending := batches.map (fun batch => ⟨batch, 0⟩) }).2 := by
  simp only [startRun, bind, Except.bind] at h
  split at h
  · cases h
  · next s₀ hcreate =>
      cases hmake : makeBatches (List.range w.cfg.tasks.length) w.cfg.batchSize with
      | error exc => simp [hmake, Except.mapError] at h
      | ok batches =>
          simp only [hmake, Except.mapError] at h
          split at h
          · cases h
          · exact ⟨s₀, batches, hcreate, rfl, (Except.ok.inj h).symm⟩

theorem startRun_reach {s : Sys σ} (h : startRun w = .ok s) : Reach w ⟨s, .idle⟩ := by
  obtain ⟨s₀, batches, hcreate, hmake, rfl⟩ := startRun_phases h
  have hstarted := createWorkers_started hcreate
  refine ⟨s₀, hcreate, batches, hmake, fillPipeline_path _ _ ?_ ?_ ?_⟩
  · exact List.Nodup.filter _ List.nodup_range
  · intro i _ hi
    simp [Tables.busy, hstarted.active, Dict.values, Dict.empty] at hi
  · intro i hi
    exact Option.isSome_iff_ne_none.1 (List.mem_filter.1 hi).2

/-- Wherever the loop stands, the protocol can be there. -/
theorem reach_after {s : Sys σ} (h : startRun w = .ok s) (k : Nat) :
    (after w s k).Reached w :=
  Transition.invariant_of_iterate (I := Status.Reached w) (fun _ => advance_reached)
    (show (Status.head s).Reached w from startRun_reach h) k

/-- The point reached, whatever the status. -/
theorem Status.Reached.exists_phase {st : Status σ} (h : st.Reached w) :
    ∃ p, Reach w ⟨st.sys, p⟩ := by
  cases st with
  | head s => exact ⟨_, h⟩
  | exited s => exact ⟨_, h.1⟩
  | aborted s => exact ⟨_, h⟩
  | raised exc s => exact h.imp (fun _ => And.left)

/-- A concrete start-up that computes gives a run to speak about. -/
theorem exists_startRun {P : Sys σ → Bool} (h : (startRun w).toOption.any P = true) :
    ∃ s, startRun w = .ok s ∧ P s = true := by
  cases hs : startRun w with
  | error raised => rw [hs] at h; cases h
  | ok s => rw [hs] at h; exact ⟨s, rfl, h⟩

def Status.head? : Status σ → Option (Sys σ)
  | .head s => some s
  | _ => none

def Status.exited? : Status σ → Option (Sys σ)
  | .exited s => some s
  | _ => none

theorem Status.head?_eq_some {st : Status σ} {s : Sys σ} : st.head? = some s ↔ st = .head s := by
  cases st <;> simp [Status.head?]

theorem Status.exited?_eq_some {st : Status σ} {s : Sys σ} :
    st.exited? = some s ↔ st = .exited s := by
  cases st <;> simp [Status.exited?]

/-- A concrete run that computes up to its `k`-th iteration. -/
theorem exists_head {k : Nat} {P : Sys σ → Prop} [DecidablePred P]
    (h : (startRun w).toOption.any (fun s₀ => (after w s₀ k).head?.any (fun s => P s)) = true) :
    ∃ s₀ s, startRun w = .ok s₀ ∧ after w s₀ k = .head s ∧ P s := by
  obtain ⟨s₀, hs₀, hany⟩ := exists_startRun h
  obtain ⟨s, hs, hP⟩ := (Option.any_eq_true _ _).1 hany
  exact ⟨s₀, s, hs₀, Status.head?_eq_some.1 hs, of_decide_eq_true hP⟩

/-- A concrete run that computes up to the exit of its loop. -/
theorem exists_exited {k : Nat} {P : Sys σ → Prop} [DecidablePred P]
    (h : (startRun w).toOption.any (fun s₀ => (after w s₀ k).exited?.any (fun s => P s)) = true) :
    ∃ s₀ s, startRun w = .ok s₀ ∧ after w s₀ k = .exited s ∧ P s := by
  obtain ⟨s₀, hs₀, hany⟩ := exists_startRun h
  obtain ⟨s, hs, hP⟩ := (Option.any_eq_true _ _).1 hany
  exact ⟨s₀, s, hs₀, Status.exited?_eq_some.1 hs, of_decide_eq_true hP⟩

theorem startRun_small : ∃ s, startRun smallWorld = .ok s := by
  obtain ⟨s, h, -⟩ := exists_startRun (w := smallWorld) (P := fun _ => true) (by decide +kernel)
  exact ⟨s, h⟩

end EvalHarness
