import EvalHarness.Coordinator.Logged
import EvalHarness.Coordinator.WorkerIds

set_option autoImplicit false

/-! # Retired actors stay retired

An actor is retired when it is evicted for a hang, when it is killed (because it failed or missed
the health check after a failure, or was given up as a refill), or when a blocking replacement gives
up on it. `Tidy` ties the first to the second: when work is handed out, everyone evicted so far has
been killed. So it is enough that no killed or abandoned actor is in any place, which `Actors.lean`
has shown. An actor that answers its *readiness* check with `False` is another matter: nobody reads
the answer, so it goes into service. -/

namespace EvalHarness

variable {σ : Type} {w : World σ}

/-! ## Everyone in service -/

/-- The actors in live slots, in the pool and in the refill list. -/
def Sys.staff (s : Sys σ) : List Handle :=
  s.workers.filterMap id ++ s.standbyPool ++ s.standbyRefills.map Refill.handle

/-- They are pairwise distinct, as actors and in their worker ids, and none has been killed. -/
structure Sys.Staffed (s : Sys σ) : Prop where
  handles : s.staff.Nodup
  ids : (s.staff.map Handle.workerId).Nodup
  alive : ∀ h ∈ s.staff, h ∉ killed s.log

theorem Sys.mem_staff {s : Sys σ} {h : Handle} : h ∈ s.staff ↔
    some h ∈ s.workers ∨ h ∈ s.standbyPool ∨ h ∈ s.standbyRefills.map Refill.handle := by
  simp [Sys.staff, List.mem_filterMap]

/-- Everyone in service is in one of the places the driver keeps actors. -/
theorem Sys.staff_owned {s : Sys σ} {p : Phase} {h : Handle} (hin : h ∈ s.staff) :
    h ∈ (⟨s, p⟩ : Point σ).owned := by
  rw [Sys.mem_staff] at hin
  refine mem_places.2 (hin.imp_right (Or.imp_right ?_))
  rw [List.map_append]
  exact List.mem_append_left _

theorem Reach.staff_apart {s : Sys σ} {p : Phase} (hr : Reach w ⟨s, p⟩) :
    ∀ h ∈ s.staff, h ∉ killed s.log ∧ h ∉ abandoned s.log :=
  fun h hin => (hr.counted.apart.2 h (Sys.staff_owned hin)).2

theorem Reach.staff_nodup {s : Sys σ} {p : Phase} (hr : Reach w ⟨s, p⟩) : s.staff.Nodup := by
  have hnodup := hr.counted.apart.1
  have howned : (⟨s, p⟩ : Point σ).owned = (↑s.staff : Multiset Handle)
      + ↑(p.refills.map Refill.handle) := by
    simp only [Point.owned, places, Sys.staff, List.map_append, ← Multiset.coe_add, add_assoc]
  rw [howned, Multiset.nodup_add] at hnodup
  exact Multiset.coe_nodup.1 hnodup.1

/-- Two actors in service with the same worker id are one: the ids of standbys and refills are
    unique, and a smaller id is the number of the slot. -/
theorem Reach.staff_ids {s : Sys σ} {p : Phase} (hr : Reach w ⟨s, p⟩) :
    ∀ h ∈ s.staff, ∀ h' ∈ s.staff, h.workerId = h'.workerId → h = h' := by
  have hN := hr.numbered
  have hA := hr.admitted
  have hregistered : ∀ h ∈ s.staff, h ∈ (⟨s, p⟩ : Point σ).registered := by
    intro h hin
    rcases Sys.mem_staff.1 hin with hslot | hpool | hrefill
    · exact List.mem_append_left _ (hA.slots h hslot)
    · exact List.mem_append_left _ (hA.pool h hpool)
    · rw [Point.registered, List.map_append]
      exact List.mem_append_right _ (List.mem_append_left _ hrefill)
  have hsmall : ∀ h ∈ s.staff, h.workerId < w.cfg.nWorkers →
      s.workers[h.workerId]? = some (some h) := by
    intro h hin hlt
    rcases Sys.mem_staff.1 hin with hslot | hpool | hrefill
    · obtain ⟨i, hi⟩ := List.mem_iff_getElem?.1 hslot
      rcases hN.slots i h hi with hid | hge
      · rw [hid]
        exact hi
      · exact absurd hlt (not_lt.2 hge)
    · exact absurd hlt (not_lt.2 (hN.pool h hpool))
    · have hflight : h ∈ (s.standbyRefills ++ p.refills).map Refill.handle := by
        rw [List.map_append]
        exact List.mem_append_left _ hrefill
      have hid := hr.pooled.refillIds h (List.mem_append_left _ hflight)
      omega
  intro h hin h' hin' heq
  by_cases hlt : h.workerId < w.cfg.nWorkers
  · have hslot := hsmall h hin hlt
    have hslot' := hsmall h' hin' (heq ▸ hlt)
    rw [heq, hslot'] at hslot
    cases hslot
    rfl
  · exact hN.unique h (hregistered h hin) h' (hregistered h' hin') (not_lt.1 hlt) heq

theorem Reach.staffed {s : Sys σ} {p : Phase} (hr : Reach w ⟨s, p⟩) : s.Staffed where
  handles := hr.staff_nodup
  ids := hr.staff_nodup.map_on hr.staff_ids
  alive := fun h hin => (hr.staff_apart h hin).1

/-! ## Evicted actors are killed before anything is submitted -/

/-- Everyone evicted has been killed. -/
def Cleared (log : List Event) : Prop :=
  ∀ ref f r, Event.evicted ref f r ∈ log → ref.worker ∈ killed log

/-- Work is submitted, and results are harvested, only when everyone evicted has been killed; and
    results are recorded right after their harvest. -/
structure Tidy (log : List Event) : Prop where
  dispatched : ∀ ref f t before, (Event.dispatched ref f t :: before) <:+ log → Cleared before
  completed : ∀ batch rows before, (Event.recorded .completed batch rows :: before) <:+ log →
    ∃ ref f before', before = .harvested ref f :: before' ∧ f.batch = batch ∧ Cleared before'

theorem killed_mono {log : List Event} (news : List Event) {h : Handle} (hin : h ∈ killed log) :
    h ∈ killed (news ++ log) := by
  rw [killed, List.filterMap_append]
  exact List.mem_append_right _ hin

/-- One event more: only a submission and a completed record have something to show. -/
theorem Tidy.cons {log : List Event} (hT : Tidy log) {e : Event}
    (hdispatched : ∀ ref f t, e = .dispatched ref f t → Cleared log)
    (hcompleted : ∀ batch rows, e = .recorded .completed batch rows →
      ∃ ref f before, log = .harvested ref f :: before ∧ f.batch = batch ∧ Cleared before) :
    Tidy (e :: log) := by
  constructor
  · intro ref f t before hsuffix
    rcases List.suffix_cons_iff.1 hsuffix with heq | hold
    · obtain ⟨hnew, rfl⟩ := List.cons.inj heq
      exact hdispatched ref f t hnew.symm
    · exact hT.dispatched ref f t before hold
  · intro batch rows before hsuffix
    rcases List.suffix_cons_iff.1 hsuffix with heq | hold
    · obtain ⟨hnew, rfl⟩ := List.cons.inj heq
      exact hcompleted batch rows hnew.symm
    · exact hT.completed batch rows before hold

theorem Tidy.internal {log news : List Event} (hT : Tidy log)
    (hnews : ∀ e ∈ news, e.internal = true) : Tidy (news ++ log) := by
  induction news with
  | nil => exact hT
  | cons e rest ih =>
      obtain ⟨he, hrest⟩ := List.forall_mem_cons.1 hnews
      refine (ih hrest).cons ?_ ?_
      · rintro ref f t rfl
        simp [Event.internal] at he
      · rintro batch rows rfl
        simp [Event.internal] at he

theorem Cleared.append {log news : List Event} (hC : Cleared log)
    (hnews : ∀ e ∈ news, e.ordinary = true) : Cleared (news ++ log) := by
  intro ref f r hin
  rcases List.mem_append.1 hin with hnew | hold
  · exact absurd (hnews _ hnew) (by simp [Event.ordinary])
  · exact killed_mono news (hC ref f r hold)

theorem Tidy.ordinary {log news : List Event} (hT : Tidy log) (hC : Cleared log)
    (hnews : ∀ e ∈ news, e.ordinary = true) : Tidy (news ++ log) := by
  induction news with
  | nil => exact hT
  | cons e rest ih =>
      obtain ⟨he, hrest⟩ := List.forall_mem_cons.1 hnews
      refine (ih hrest).cons (fun _ _ _ _ => hC.append hrest) ?_
      rintro batch rows rfl
      simp [Event.ordinary] at he

/-- What holds of the log between two steps of the driver. -/
structure Sys.Orderly (s : Sys σ) : Prop where
  tidy : Tidy s.log
  cleared : Cleared s.log

theorem Sys.Orderly.logs {s s' : Sys σ} (h : s.Orderly) (hlogs : Logs Event.ordinary s s') :
    s'.Orderly := by
  obtain ⟨news, hlog, hnews⟩ := hlogs
  refine ⟨?_, ?_⟩
  · rw [hlog]
    exact h.tidy.ordinary h.cleared hnews
  · rw [hlog]
    exact h.cleared.append hnews

/-- The same for a function that may raise: an exception may leave an evicted actor alive. -/
def ActOrderly : Act σ (Sys σ) → Prop
  | .ok s => s.Orderly
  | .error raised => Tidy raised.sys.log

theorem ActOrderly.of_logs {s : Sys σ} {r : Act σ (Sys σ)} (h : s.Orderly)
    (hlogs : ActLogs Event.ordinary s r) : ActOrderly r := by
  cases r with
  | ok s' => exact h.logs hlogs
  | error raised =>
      have hraised : Logs Event.ordinary s raised.sys := hlogs
      exact (h.logs hraised).tidy

theorem ActOrderly.bind {r : Act σ (Sys σ)} {f : Sys σ → Act σ (Sys σ)} (h : ActOrderly r)
    (hf : ∀ s, s.Orderly → ActOrderly (f s)) : ActOrderly (r >>= f) := by
  cases r with
  | ok s => exact hf s h
  | error raised => exact h

theorem harvest_orderly {s : Sys σ} (h : s.Orderly) (ref : ObjectRef) (out : Outcome) :
    ActOrderly (harvest w ref out s) := by
  unfold harvest
  split
  · exact h.tidy
  · next f hf =>
      have hassign : ∀ s' : Sys σ, s'.Orderly →
          ActOrderly (pure (assignNext w f.slot s') : Act σ (Sys σ)) :=
        fun s' hs' => hs'.logs ((assignNext_logs _ _).mono Event.ordinary_of_sending)
      have hrecover : ∀ (exc : Exc) (s' : Sys σ), s'.Orderly → ActOrderly
          (recoverBatch w f exc s' >>= fun s => pure (assignNext w f.slot s)) :=
        fun exc s' hs' => ActOrderly.bind (.of_logs hs'
          ((recoverBatch_logs f exc s').mono Event.ordinary_of_internal)) hassign
      have hharvest : (((s.dropRef ref).emit (.harvested ref f)).call w).Orderly :=
        h.logs (.one rfl rfl)
      cases out with
      | error exc => exact hrecover exc _ hharvest
      | ok rows =>
          rcases record_cases (w := w) .completed f.batch rows
            ((((s.dropRef ref).emit (.harvested ref f)).call w).countCompleted rows.length)
            with hrec | ⟨k, exc, -, -, hrec⟩
          · simp only [settleBatch, handleSuccess, hrec]
            have hlog : ∀ s' : Sys σ, s'.log
                = .recorded .completed f.batch rows :: .harvested ref f :: s.log → s'.Orderly := by
              intro s' hs'
              refine ⟨?_, ?_⟩
              · rw [hs']
                refine Tidy.cons hharvest.tidy (by simp) ?_
                intro batch rows' heq
                -- the record of the batch comes right behind its harvest
                obtain ⟨-, rfl, -⟩ := Event.recorded.inj heq
                exact ⟨ref, f, s.log, rfl, rfl, h.cleared⟩
              · intro ref' f' r hin
                rw [hs'] at hin ⊢
                have hold : Event.evicted ref' f' r ∈ s.log := by simpa using hin
                exact killed_mono [_, _] (h.cleared ref' f' r hold)
            exact hassign _ (hlog _ rfl)
          · simp only [settleBatch, handleSuccess, hrec]
            exact hrecover exc _ (hharvest.logs (.one rfl rfl))

/-- An internal event is not an eviction. -/
theorem Logs.evicted {s s' : Sys σ} (h : Logs Event.internal s s') {ref : ObjectRef} {f : Flight}
    {r : Bool} (hin : Event.evicted ref f r ∈ s'.log) : Event.evicted ref f r ∈ s.log := by
  obtain ⟨news, hlog, hnews⟩ := h
  rw [hlog] at hin
  rcases List.mem_append.1 hin with hnew | hold
  · exact absurd (hnews _ hnew) (by simp [Event.internal])
  · exact hold

/-- An eviction ends with the worker killed. -/
theorem scanRef_orderly {s : Sys σ} (hr : Reach w ⟨s, .idle⟩) (h : s.Orderly) (now : ℚ)
    (ref : ObjectRef) : ActOrderly (scanRef w now s ref) := by
  unfold scanRef
  split
  · exact h
  · next f hf =>
      dsimp only
      generalize (s.ray.resolved.get? ref).isSome = resolved
      generalize (s.refTimeouts.get? ref).getD now = submittedAt
      have hvisited : (s.emit (.visited ref now submittedAt resolved)).Orderly :=
        h.logs (.one rfl rfl)
      split
      · exact hvisited
      · have hinstalled : (s.workers[f.slot]?).join = some ref.worker := by
          rw [hr.disciplined.installed ref f hf]
          rfl
        generalize hs₁ : ((s.emit (.visited ref now submittedAt resolved)).dropRef ref).emit
          (.evicted ref f resolved) = s₁
        have hworkers₁ : s₁.workers = s.workers := by rw [← hs₁]; rfl
        have hlog₁ : s₁.log = .evicted ref f resolved :: .visited ref now submittedAt resolved ::
            s.log := by rw [← hs₁]; rfl
        -- an eviction is neither a submission nor a record, so the log stays tidy
        have htidy₁ : Tidy s₁.log := by
          rw [hlog₁]
          exact Tidy.cons hvisited.tidy (by simp) (by simp)
        have hrequeue := requeueOrCondemn_logs (w := w) f s₁
        cases hr₂ : requeueOrCondemn w f s₁ with
        | error raised =>
            rw [hr₂] at hrequeue
            obtain ⟨news, hlog, hnews⟩ := hrequeue
            show Tidy raised.sys.log
            rw [hlog]
            exact htidy₁.internal hnews
        | ok s₂ =>
            rw [hr₂] at hrequeue
            have hreplace : Logs Event.internal s₁ (replaceWorker w f.slot s₂).2 :=
              Logs.trans hrequeue (((vacate_logs f.slot s₂).trans
                (replaceWorker_logs f.slot s₂)).mono Event.internal_of_staffing)
            have hkilled : Event.killed ref.worker ∈ (replaceWorker w f.slot s₂).2.log := by
              refine replaceWorker_killed ?_
              rw [requeueOrCondemn_workers hr₂, hworkers₁, hinstalled]
            have horderly : (replaceWorker w f.slot s₂).2.Orderly := by
              refine ⟨?_, fun ref' f' r hin => ?_⟩
              · obtain ⟨news, hlog, hnews⟩ := hreplace
                rw [hlog]
                exact htidy₁.internal hnews
              · have hold := hreplace.evicted hin
                rw [hlog₁] at hold
                rcases List.mem_cons.1 hold with heq | hold
                · cases heq
                  exact mem_killed.2 hkilled
                · rcases List.mem_cons.1 hold with heq | hold
                  · cases heq
                  · obtain ⟨news, hlog, -⟩ := hreplace
                    rw [hlog, hlog₁]
                    exact killed_mono news (killed_mono [_, _] (h.cleared ref' f' r hold))
            exact horderly.logs ((assignNext_logs _ _).mono Event.ordinary_of_sending)

theorem scan_orderly {now : ℚ} {s : Sys σ} (refs : List ObjectRef) (hr : Reach w ⟨s, .idle⟩)
    (h : s.Orderly) (hnow : now ≤ s.ray.clock) :
    ActOrderly (refs.foldlM (scanRef w now) s) := by
  induction refs generalizing s with
  | nil => exact h
  | cons ref rest ih =>
      have hone := scanRef_orderly hr h now ref
      have hpath := scanRef_leads (w := w) ref hnow
      rw [List.foldlM_cons]
      cases hs : scanRef w now s ref with
      | error raised =>
          rw [hs] at hone
          exact hone
      | ok s' =>
          rw [hs] at hone hpath
          exact ih (hr.tail hpath) hone (hnow.trans (Path.later hpath).clock)

theorem handleTimeouts_orderly {s : Sys σ} (hr : Reach w ⟨s, .idle⟩) (h : s.Orderly) :
    ActOrderly (handleTimeouts w s) :=
  scan_orderly _ (hr.tail (Path.call .refl)) (h.logs (.of_eq rfl)) le_rfl

/-! ## The loop -/

/-- The log between two iterations, and what an exception leaves of it. -/
def Status.Orderly : Status σ → Prop
  | .head s | .exited s | .aborted s => s.Orderly
  | .raised _ s => Tidy s.log

theorem waitAndHarvest_orderly {s : Sys σ} (hr : Reach w ⟨s, .idle⟩) (h : s.Orderly)
    (hsat : s.Saturated) (hne : s.active.keys ≠ []) : ActOrderly (waitAndHarvest w s) := by
  have hwait : Path w ⟨s, .idle⟩ ⟨(s.emit (.waiting s.toTables)).call w, .idle⟩ :=
    Path.call (.single (.wait s hsat hne))
  have hwaiting : ((s.emit (.waiting s.toTables)).call w).Orderly := h.logs (.one rfl rfl)
  have hr' := hr.tail hwait
  unfold waitAndHarvest
  dsimp only
  split
  · next ref out hw =>
      obtain ⟨hin, hout⟩ := RayState.wait_mem hw
      have hharvest := harvest_orderly (w := w) hwaiting ref out
      have hpath := harvest_leads (w := w) _ ref out hin hout
      cases hs : harvest w ref out ((s.emit (.waiting s.toTables)).call w) with
      | error raised =>
          rw [hs] at hharvest
          exact hharvest
      | ok s' =>
          rw [hs] at hharvest hpath
          exact handleTimeouts_orderly (hr'.tail hpath) hharvest
  · exact handleTimeouts_orderly hr' hwaiting

theorem iteration_orderly {s : Sys σ} (hr : Reach w ⟨s, .idle⟩) (h : s.Orderly) :
    (iteration w s).Orderly := by
  have hready := dispatchPhase_ready (w := w) hr.fresh hr.workers_length
  have hpoll : (pollStandbyRefills w s).Orderly := h.logs ((pollStandbyRefills_logs s).mono
    (fun e he => Event.ordinary_of_internal e (Event.internal_of_staffing e he)))
  have hprom : (promoteReadyRetries w (pollStandbyRefills w s)).Orderly := hpoll.logs (.of_eq rfl)
  have hdispatch : (dispatchPhase w s).Orderly := hprom.logs
    ((dispatchPendingToIdle_logs _).mono Event.ordinary_of_sending)
  rw [iteration_eq]
  split
  · have habort : ActOrderly (abortRun w (pollStandbyRefills w s)) :=
      .of_logs hpoll (ActLogs.after (.of_eq rfl)
        ((record_logs (by simp) _ _ _).mono Event.ordinary_of_internal))
    revert habort
    cases abortRun w (pollStandbyRefills w s) with
    | ok s' => exact id
    | error raised => exact id
  · split
    · exact hdispatch.logs (.one rfl rfl)
    · next hne =>
        have hwait := waitAndHarvest_orderly (hr.tail hready.path) hdispatch hready.saturated
          (fun hnil => hne (List.isEmpty_iff.2 hnil))
        revert hwait
        cases waitAndHarvest w (dispatchPhase w s) with
        | ok s' => exact id
        | error raised => exact id

theorem startRun_orderly {s : Sys σ} (h : startRun w = .ok s) : s.Orderly := by
  obtain ⟨s₀, batches, hcreate, -, rfl⟩ := startRun_phases h
  have hs := createWorkers_started hcreate
  have hnone : ∀ e ∈ s₀.log, e.staffing = true := by
    obtain ⟨probes, hlog, hprobes⟩ := hs.log
    intro e he
    rw [hlog] at he
    rcases List.mem_append.1 he with he | he
    · rcases hprobes e he with ⟨hd, call, rfl⟩ | ⟨hd, b, rfl⟩ <;> rfl
    · obtain ⟨k, -, rfl⟩ := List.mem_map.1 (List.mem_reverse.1 he)
      rfl
  have hempty : Tidy [] := ⟨by simp, by simp⟩
  have hstart : s₀.Orderly := by
    refine ⟨?_, fun ref f r hin => ?_⟩
    · have htidy := hempty.internal (fun e he => Event.internal_of_staffing e (hnone e he))
      rwa [List.append_nil] at htidy
    · cases hnone _ hin
  exact (hstart.logs (.of_eq rfl)).logs
    ((fillPipeline_logs _ _).mono Event.ordinary_of_sending)

theorem orderly_after {s : Sys σ} (h : startRun w = .ok s) (k : Nat) :
    (after w s k).Orderly := by
  have hstep : ∀ st : Status σ, st.Reached w ∧ st.Orderly →
      (advance w st).Reached w ∧ (advance w st).Orderly := by
    rintro st ⟨hr, ho⟩
    refine ⟨advance_reached hr, ?_⟩
    cases st with
    | head s =>
        simp only [advance]
        split
        · exact ho
        · exact iteration_orderly hr ho
    | _ => exact ho
  have hstart : (Status.head s).Reached w ∧ (Status.head s).Orderly :=
    ⟨startRun_reach h, startRun_orderly h⟩
  exact (Transition.invariant_of_iterate (I := fun st => Status.Reached w st ∧ st.Orderly) hstep
    hstart k).2

/-! ## Where work goes -/

/-- The actor was evicted, was killed, or never became ready for a blocking replacement. -/
def Retired (log : List Event) (h : Handle) : Prop :=
  (∃ ref f r, Event.evicted ref f r ∈ log ∧ ref.worker = h) ∨ h ∈ killed log ∨ h ∈ abandoned log

/-- The same, or the actor said at its readiness check that it is not healthy. -/
def Unfit (log : List Event) (h : Handle) : Prop := Retired log h ∨ Event.probed h false ∈ log

/-- Once everyone evicted has been killed, no one in service is retired. -/
theorem Reach.staff_not_retired {s : Sys σ} {p : Phase} (hr : Reach w ⟨s, p⟩)
    (hC : Cleared s.log) : ∀ h, Retired s.log h → h ∉ s.staff := by
  intro h hretired hin
  obtain ⟨halive, hkept⟩ := hr.staff_apart h hin
  rcases hretired with ⟨ref, f, r, hev, rfl⟩ | hkilled | habandoned
  · exact halive (hC ref f r hev)
  · exact halive hkilled
  · exact hkept habandoned

/-- A submission to a worker: the state it is made in lies on the way to the present one. -/
def SubmittedFrom (w : World σ) (pt : Point σ) (ref : ObjectRef) (t : Tables) (before : List Event)
    (s : Sys σ) : Prop :=
  ∃ slot e, Reach w ⟨s, .taken slot e⟩ ∧ Path w ⟨s, .taken slot e⟩ pt ∧ s.log = before ∧
    s.toTables = t ∧ s.workers[slot]? = some (some ref.worker)

/-- The submissions, each with the log before it. -/
def submissionsPast (log : List Event) : List ((ObjectRef × Tables) × List Event) :=
  pastOf (fun | .dispatched ref _ t => some (ref, t) | _ => none) log

theorem mem_submissionsPast {log before : List Event} {ref : ObjectRef} {t : Tables} :
    ((ref, t), before) ∈ submissionsPast log ↔
      ∃ f, (Event.dispatched ref f t :: before) <:+ log := by
  rw [submissionsPast, mem_pastOf]
  constructor
  · rintro ⟨later, e, rfl, he⟩
    cases e with
    | dispatched ref' f t' =>
        cases he
        exact ⟨f, List.suffix_append later _⟩
    | _ => cases he
  · rintro ⟨f, later, rfl⟩
    exact ⟨later, _, rfl, rfl⟩

theorem Reach.submitted_from {pt : Point σ} (h : Reach w pt) :
    ∀ x ∈ submissionsPast pt.sys.log, ∃ s, SubmittedFrom w pt x.1.1 x.1.2 x.2 s := by
  refine h.invariant (I := fun pt => ∀ x ∈ submissionsPast pt.sys.log,
    ∃ s, SubmittedFrom w pt x.1.1 x.1.2 x.2 s) (fun s batches hs _ => ?_) (fun a b hr hm hI => ?_)
  · show ∀ x ∈ submissionsPast s.log, _
    rw [submissionsPast, pastOf_start hs (fun _ => rfl) (fun _ _ => rfl)]
    simp
  · have hkept : ∀ x ∈ submissionsPast a.sys.log, ∃ s, SubmittedFrom w b x.1.1 x.1.2 x.2 s := by
      intro x hx
      obtain ⟨s, slot, e, hreach, hpath, hrest⟩ := hI x hx
      exact ⟨s, slot, e, hreach, hpath.tail hm, hrest⟩
    cases hm with
    | submit s slot e h time hh htime =>
        exact List.forall_mem_cons.2 ⟨⟨s, slot, e, hr, .single (.submit s slot e h time hh htime),
          rfl, rfl, hh⟩, hkept⟩
    | vacate s p slot hslot hwhy =>
        show ∀ x ∈ submissionsPast (s.vacate slot).log, _
        rw [submissionsPast, pastOf_vacate (fun _ => rfl)]
        exact hkept
    | promote s p slot h s' time hslot hempty hpool hs' => cases hs' <;> exact hkept
    | failRefill s rf rest s' hagain hs' => cases hs' <;> exact hkept
    | _ => exact hkept

/-- The refs harvested, each with the log before its harvest. -/
def harvestsPast (log : List Event) : List (ObjectRef × List Event) :=
  pastOf (fun | .harvested ref _ => some ref | _ => none) log

/-- What is harvested comes from a worker in service. -/
theorem Reach.harvested_alive {pt : Point σ} (h : Reach w pt) :
    ∀ x ∈ harvestsPast pt.sys.log, x.1.worker ∉ killed x.2 ∧ x.1.worker ∉ abandoned x.2 := by
  refine h.invariant (I := fun pt => ∀ x ∈ harvestsPast pt.sys.log,
    x.1.worker ∉ killed x.2 ∧ x.1.worker ∉ abandoned x.2) (fun s batches hs _ => ?_)
    (fun a b hr hm hI => ?_)
  · show ∀ x ∈ harvestsPast s.log, _
    rw [harvestsPast, pastOf_start hs (fun _ => rfl) (fun _ _ => rfl)]
    simp
  · cases hm with
    | harvest s ref f out hf ho =>
        have hslot : some ref.worker ∈ s.workers :=
          List.mem_of_getElem? (hr.disciplined.installed ref f hf)
        exact List.forall_mem_cons.2
          ⟨hr.staff_apart ref.worker (Sys.mem_staff.2 (Or.inl hslot)), hI⟩
    | vacate s p slot hslot hwhy =>
        show ∀ x ∈ harvestsPast (s.vacate slot).log, _
        rw [harvestsPast, pastOf_vacate (fun _ => rfl)]
        exact hI
    | promote s p slot h s' time hslot hempty hpool hs' => cases hs' <;> exact hI
    | failRefill s rf rest s' hagain hs' => cases hs' <;> exact hI
    | _ => exact hI

/-! ## Retired for good -/

/-- Actors of the kind `gone` stay out. At a loop head, and in the state in which work is submitted,
    everyone in service is distinct and alive and no one is gone; work is submitted only to actors
    that are not gone; and the results recorded were harvested when their worker was not gone. -/
structure KeepsOut (gone : List Event → Handle → Prop) (w : World σ) (st : Status σ) : Prop where
  heads : ∀ s, st = .head s → s.Staffed ∧ ∀ h, gone s.log h → h ∉ s.staff
  submissions : ∀ ref f t before, (Event.dispatched ref f t :: before) <:+ st.sys.log →
    ¬ gone before ref.worker ∧ ∃ s p, SubmittedFrom w ⟨st.sys, p⟩ ref t before s ∧ s.Staffed ∧
      ∀ h, gone before h → h ∉ s.staff
  results : ∀ batch rows before, (Event.recorded .completed batch rows :: before) <:+ st.sys.log →
    ∃ ref f before', before = .harvested ref f :: before' ∧ f.batch = batch ∧
      ¬ gone before' ref.worker

theorem keepsOut_retired {s₀ : Sys σ} (h : startRun w = .ok s₀) (k : Nat) :
    KeepsOut Retired w (after w s₀ k) := by
  have hreached := reach_after h k
  obtain ⟨p, hr⟩ := hreached.exists_phase
  have horderly := orderly_after h k
  have htidy : Tidy (after w s₀ k).sys.log := by
    revert horderly
    cases after w s₀ k with
    | raised exc s => exact id
    | _ => exact Sys.Orderly.tidy
  refine ⟨fun s hs => ?_, fun ref f t before hsuffix => ?_, fun batch rows before hsuffix => ?_⟩
  · rw [hs] at hreached horderly
    exact ⟨Reach.staffed hreached, Reach.staff_not_retired hreached horderly.cleared⟩
  · obtain ⟨s, slot, e, hreach, hpath, rfl, rfl, hslot⟩ :=
      hr.submitted_from _ (mem_submissionsPast.2 ⟨f, hsuffix⟩)
    have hout := hreach.staff_not_retired (htidy.dispatched ref f _ _ hsuffix)
    have hin : ref.worker ∈ s.staff := Sys.mem_staff.2 (Or.inl (List.mem_of_getElem? hslot))
    exact ⟨fun hgone => hout _ hgone hin, s, p, ⟨slot, e, hreach, hpath, rfl, rfl, hslot⟩,
      hreach.staffed, hout⟩
  · obtain ⟨ref, f, before', rfl, hbatch, hcleared⟩ := htidy.completed batch rows before hsuffix
    have hpast : (ref, before') ∈ harvestsPast (after w s₀ k).sys.log := by
      obtain ⟨later, hlog⟩ := hsuffix
      refine mem_pastOf.2 ⟨later ++ [.recorded .completed batch rows], .harvested ref f, ?_, rfl⟩
      simp [← hlog]
    obtain ⟨halive, hkept⟩ := hr.harvested_alive _ hpast
    refine ⟨ref, f, before', rfl, hbatch, fun hgone => ?_⟩
    rcases hgone with ⟨ref', f', r, hev, heq⟩ | hkilled | habandoned
    · exact halive (heq ▸ hcleared ref' f' r hev)
    · exact halive hkilled
    · exact hkept habandoned

/-- Retired actors stay retired: those evicted, those killed, which is what happens to a worker that
    fails or misses the check after a failure and to a refill that is given up, and those whose
    readiness check raised. If no actor answers its readiness check with `False`, the same holds of
    every actor that failed any health check. -/
theorem retired_stay_retired {s₀ : Sys σ} (h : startRun w = .ok s₀) (k : Nat) :
    KeepsOut Retired w (after w s₀ k) ∧
    (∀ (slot : Nat) (s : Sys σ) hd, (s.workers[slot]?).join = some hd →
      (s.reply w).health ≠ .ok true → Retired (checkAndReplaceIfPoisoned w slot s).log hd) ∧
    (∀ (s : Sys σ) hd attempt, Retired (failRefill w hd attempt s).log hd) ∧
    ((∀ hd, Event.probed hd false ∉ (after w s₀ k).sys.log) →
      KeepsOut Unfit w (after w s₀ k)) := by
  have hkeeps := keepsOut_retired h k
  refine ⟨hkeeps, fun slot s hd hh hhealth => ?_, fun s hd attempt => ?_, fun hnone => ?_⟩
  · exact Or.inr (Or.inl (mem_killed.2 (checkAndReplaceIfPoisoned_killed hh hhealth)))
  · exact Or.inr (Or.inl (mem_killed.2 (failRefill_killed hd attempt s)))
  · have hfit : ∀ before, before <:+ (after w s₀ k).sys.log → ∀ hd, Unfit before hd →
        Retired before hd := by
      intro before hsuffix hd hunfit
      exact hunfit.resolve_right (fun hin => hnone hd (hsuffix.subset hin))
    refine ⟨fun s hs => ?_, fun ref f t before hsuffix => ?_, fun batch rows before hsuffix => ?_⟩
    · obtain ⟨hstaffed, hout⟩ := hkeeps.heads s hs
      refine ⟨hstaffed, fun hd hunfit => hout hd (hfit s.log ?_ hd hunfit)⟩
      rw [hs]
      exact List.suffix_rfl
    · have hbefore := (List.suffix_cons _ _).trans hsuffix
      obtain ⟨hgone, s, p, hfrom, hstaffed, hout⟩ := hkeeps.submissions ref f t before hsuffix
      exact ⟨fun hunfit => hgone (hfit before hbefore _ hunfit), s, p, hfrom, hstaffed,
        fun hd hunfit => hout hd (hfit before hbefore hd hunfit)⟩
    · obtain ⟨ref, f, before', rfl, hbatch, hgone⟩ := hkeeps.results batch rows before hsuffix
      have hbefore := (List.suffix_cons _ _).trans ((List.suffix_cons _ _).trans hsuffix)
      exact ⟨ref, f, before', rfl, hbatch, fun hunfit => hgone (hfit before' hbefore _ hunfit)⟩

theorem retired_stay_retired_small : ∃ s₀, startRun smallWorld = .ok s₀ ∧
    KeepsOut Retired smallWorld (after smallWorld s₀ 2) ∧
    (∀ (slot : Nat) (s : Sys Unit) hd, (s.workers[slot]?).join = some hd →
      (s.reply smallWorld).health ≠ .ok true →
      Retired (checkAndReplaceIfPoisoned smallWorld slot s).log hd) ∧
    (∀ (s : Sys Unit) hd attempt, Retired (failRefill smallWorld hd attempt s).log hd) ∧
    ((∀ hd, Event.probed hd false ∉ (after smallWorld s₀ 2).sys.log) →
      KeepsOut Unfit smallWorld (after smallWorld s₀ 2)) := by
  obtain ⟨s₀, h⟩ := startRun_small
  exact ⟨s₀, h, retired_stay_retired h 2⟩

/-- The replacement that answered its readiness check with `False` gets the next batch. -/
theorem unhealthy_gets_work : ∃ s₀ ref f t before, startRun unhealthyWorld = .ok s₀ ∧
    (Event.dispatched ref f t :: before) <:+ (after unhealthyWorld s₀ 2).sys.log ∧
    Event.probed ref.worker false ∈ before := by
  obtain ⟨s₀, h, heval⟩ := exists_startRun (w := unhealthyWorld)
    (P := fun s => (submissionsPast (after unhealthyWorld s 2).sys.log).any
      (fun x => decide ((x.1.1.worker, false) ∈ readinessAnswers x.2))) (by decide +kernel)
  obtain ⟨⟨⟨ref, t⟩, before⟩, hin, hfalse⟩ := List.any_eq_true.1 heval
  obtain ⟨f, hsuffix⟩ := mem_submissionsPast.1 hin
  exact ⟨s₀, ref, f, t, before, h, hsuffix, mem_readinessAnswers.1 (of_decide_eq_true hfalse)⟩

end EvalHarness
