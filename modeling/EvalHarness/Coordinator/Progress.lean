import EvalHarness.Coordinator.Budget
import EvalHarness.Coordinator.Executions

set_option autoImplicit false

/-! # Bounded work and termination

Every flight leaves `active` once, by a harvest or by an eviction, and there are at most as many
flights as the budgets allow. So the loop can only go on for ever by going round without taking
anything out. It does that in two ways: waiting for refs that neither resolve nor grow old, and
sleeping until a deferred batch is due; the first is ruled out when the workers are fair to every
ref, and the clock rules out the second. -/

namespace EvalHarness

variable {σ : Type} {w : World σ}

/-! ## Flights that left `active` -/

/-- The flights taken out of `active`, by a harvest or by an eviction. -/
def removals (log : List Event) : List Flight :=
  log.filterMap (fun | .harvested _ f => some f | .evicted _ f _ => some f | _ => none)

theorem entries_length_erase {κ ν : Type} [DecidableEq κ] {d : Dict κ ν} {k : κ} {v : ν}
    (h : d.get? k = some v) : (d.erase k).entries.length + 1 = d.entries.length := by
  rw [(d.perm_erase h).length_eq, List.length_cons]

/-- Every dispatched flight is in `active` or has left it. -/
theorem Reach.removals_add_active {pt : Point σ} (h : Reach w pt) :
    (removals pt.sys.log).length + pt.sys.active.entries.length
      = (dispatches pt.sys.log).length := by
  refine h.invariant (I := fun pt => (removals pt.sys.log).length + pt.sys.active.entries.length
    = (dispatches pt.sys.log).length) (fun s batches hs _ => ?_) (fun a b hr hm hI => ?_)
  · show (removals s.log).length + s.active.entries.length = (dispatches s.log).length
    rw [removals, filterMap_start hs (fun _ => rfl) (fun _ _ => rfl), dispatches_start hs,
      hs.active]
    rfl
  · cases hm with
    | harvest s ref f out hf ho =>
        have hlen := entries_length_erase hf
        replace hI : (removals s.log).length + s.active.entries.length
          = (dispatches s.log).length := hI
        show (removals s.log).length + 1 + (s.active.erase ref).entries.length
          = (dispatches s.log).length
        omega
    | evict s ref f now submittedAt hf hage =>
        have hlen := entries_length_erase hf
        replace hI : (removals s.log).length + s.active.entries.length
          = (dispatches s.log).length := hI
        show (removals s.log).length + 1 + (s.active.erase ref).entries.length
          = (dispatches s.log).length
        omega
    | submit s slot e h time hh =>
        have hnew : s.freshRef h ∉ s.active.keys := hr.fresh.freshRef_notMem h
        have hlen : (s.active.set (s.freshRef h) ⟨slot, e.batch, e.retryCount⟩).entries.length
            = s.active.entries.length + 1 := by
          rw [s.active.entries_set_of_not_mem _ hnew, List.length_append, List.length_singleton]
        refine Eq.trans ?_ (congrArg (· + 1) hI)
        show (removals s.log).length + (s.active.set (s.freshRef h)
          ⟨slot, e.batch, e.retryCount⟩).entries.length = _
        rw [hlen, Nat.add_assoc]
    | vacate s p slot hslot hwhy =>
        show (removals (s.vacate slot).log).length + s.active.entries.length
          = (dispatches (s.vacate slot).log).length
        rw [removals, filterMap_vacate (fun _ => rfl), dispatches_vacate]
        exact hI
    | promote s p slot h s' time hslot hempty hpool hs' => cases hs' <;> exact hI
    | failRefill s rf rest s' hagain hs' => cases hs' <;> exact hI
    | _ => exact hI

theorem Reach.removals_le {pt : Point σ} (h : Reach w pt) :
    (removals pt.sys.log).length ≤ (w.cfg.maxBudget + 1) * w.cfg.tasks.length := by
  have hsum := h.removals_add_active
  have hle := h.dispatches_le
  omega

/-- `removals` only grows. -/
theorem Path.removals_le {a b : Point σ} (h : Path w a b) :
    (removals a.sys.log).length ≤ (removals b.sys.log).length := by
  exact (h.log_suffix.filterMap _).length_le

theorem Leads.removals_le {pt : Point σ} {p : Phase} {r : Act σ (Sys σ)} {s : Sys σ}
    (h : Leads w pt p r) (hr : r = .ok s) :
    (removals pt.sys.log).length ≤ (removals s.log).length := by
  subst hr
  exact Path.removals_le h

/-! ## A step of the loop that takes nothing out -/

/-- The flights in `active` stay there, with their timestamps. -/
def Sys.Keeps (s s' : Sys σ) : Prop :=
  ∀ ref ∈ s.active.keys, ref ∈ s'.active.keys ∧ s'.refTimeouts.get? ref = s.refTimeouts.get? ref

theorem Move.keeps {a b : Point σ} (h : Move w a b) (hf : a.sys.Fresh)
    (hsame : (removals b.sys.log).length = (removals a.sys.log).length) : a.sys.Keeps b.sys := by
  cases h with
  | harvest s ref f out hf ho =>
      replace hsame : (removals s.log).length + 1 = (removals s.log).length := hsame
      omega
  | evict s ref f now submittedAt hf hage =>
      replace hsame : (removals s.log).length + 1 = (removals s.log).length := hsame
      omega
  | submit s slot e h time hh =>
      have hnew : s.freshRef h ∉ s.active.keys := hf.freshRef_notMem h
      intro ref href
      have hne : ref ≠ s.freshRef h := fun heq => hnew (heq ▸ href)
      refine ⟨?_, ?_⟩
      · show ref ∈ (s.active.set (s.freshRef h) ⟨slot, e.batch, e.retryCount⟩).keys
        rw [Dict.keys_set, if_neg hnew]
        exact List.mem_append_left _ href
      · show (s.refTimeouts.set (s.freshRef h) time).get? ref = _
        rw [Dict.get?_set, if_neg hne]
  | promote s p slot h s' time hslot hempty hpool hs' =>
      cases hs' <;> exact fun ref href => ⟨href, rfl⟩
  | failRefill s rf rest s' hagain hs' => cases hs' <;> exact fun ref href => ⟨href, rfl⟩
  | _ => exact fun ref href => ⟨href, rfl⟩

theorem Path.keeps {a b : Point σ} (h : Path w a b) (hf : a.sys.Fresh)
    (hsame : (removals b.sys.log).length = (removals a.sys.log).length) : a.sys.Keeps b.sys := by
  induction h with
  | refl => exact fun ref href => ⟨href, rfl⟩
  | tail hpath hm ih =>
      -- both parts of the path take nothing out, because neither puts anything back
      have hle := Path.removals_le hpath
      have hle' := Path.removals_le (.single hm)
      have hkeeps := ih (by omega)
      have hkeeps' := hm.keeps (Path.fresh hpath hf) (by omega)
      intro ref href
      obtain ⟨hin, htime⟩ := hkeeps ref href
      obtain ⟨hin', htime'⟩ := hkeeps' ref hin
      exact ⟨hin', htime'.trans htime⟩

/-- A harvest takes a flight out. -/
theorem harvest_removes {s s' : Sys σ} {ref : ObjectRef} {out : Outcome}
    (hin : ref ∈ s.active.keys) (h : harvest w ref out s = .ok s') :
    (removals s.log).length < (removals s'.log).length := by
  obtain ⟨f, hf⟩ := Option.isSome_iff_exists.1 ((s.active.get?_isSome_iff ref).2 hin)
  exact (harvest_leads_from (w := w) s ref f out hf).removals_le h

/-- A ref the scan comes across without evicting anything is young. -/
theorem scanRef_young {now : ℚ} {s s' : Sys σ} {ref : ObjectRef}
    (h : scanRef w now s ref = .ok s')
    (hsame : (removals s'.log).length = (removals s.log).length) :
    s'.active = s.active ∧ s'.refTimeouts = s.refTimeouts ∧
      ∀ time, ref ∈ s.active.keys → s.refTimeouts.get? ref = some time →
        now - time < w.cfg.hangThresholdS := by
  unfold scanRef at h
  split at h
  · next hnone =>
      cases h
      exact ⟨rfl, rfl, fun time hin => absurd hin ((s.active.get?_eq_none_iff ref).1 hnone)⟩
  · next f hf =>
      dsimp only at h
      split at h
      · next hage =>
          cases h
          refine ⟨rfl, rfl, fun time _ htime => ?_⟩
          rwa [htime] at hage
      · next hage =>
          have hle := (evicted_leads (w := w) List.mem_cons_self).removals_le h
          have hlt : (removals s.log).length + 1 ≤ (removals s'.log).length := hle
          omega

theorem scan_young {now : ℚ} {refs : List ObjectRef} {s s' : Sys σ} (hnow : now ≤ s.ray.clock)
    (h : refs.foldlM (scanRef w now) s = .ok s')
    (hsame : (removals s'.log).length = (removals s.log).length) :
    ∀ ref ∈ refs, ∀ time, ref ∈ s.active.keys → s.refTimeouts.get? ref = some time →
        now - time < w.cfg.hangThresholdS := by
  induction refs generalizing s with
  | nil => simp
  | cons ref rest ih =>
      rw [List.foldlM_cons] at h
      cases hone : scanRef w now s ref with
      | error raised => simp [hone, bind, Except.bind] at h
      | ok s₁ =>
          simp only [hone, bind, Except.bind] at h
          have hlead := scanRef_leads (w := w) ref hnow
          have hle := hlead.removals_le hone
          rw [hone] at hlead
          have hnow' : now ≤ s₁.ray.clock := hnow.trans (Path.later hlead).clock
          have hle' := (scan_leads (w := w) rest hnow').removals_le h
          replace hle : (removals s.log).length ≤ (removals s₁.log).length := hle
          replace hle' : (removals s₁.log).length ≤ (removals s'.log).length := hle'
          obtain ⟨hactive, htimes, hyoung⟩ := scanRef_young hone (by omega)
          have hrest := ih hnow' h (by omega)
          rw [hactive, htimes] at hrest
          intro ref' href'
          rcases List.mem_cons.1 href' with rfl | href'
          · exact hyoung
          · exact hrest ref' href'

/-- A wait that takes nothing out: no ref in flight has resolved, none is old. -/
theorem waitAndHarvest_stalled {s s' : Sys σ} (h : waitAndHarvest w s = .ok s')
    (hsame : (removals s'.log).length = (removals s.log).length) :
    ∀ ref ∈ s.active.keys, s.ray.resolved.get? ref = none ∧
      ∀ time, s.refTimeouts.get? ref = some time →
        s.ray.clock - time < w.cfg.hangThresholdS := by
  have hcall : RayState.Later s.ray (s.call w).ray := RayState.later_call _ _ _ le_rfl
  unfold waitAndHarvest at h
  dsimp only at h
  split at h
  · next ref out hw =>
      obtain ⟨hin, -⟩ := RayState.wait_mem hw
      cases hone : harvest w ref out ((s.emit (.waiting s.toTables)).call w) with
      | error raised => simp [hone, bind, Except.bind] at h
      | ok s₁ =>
          simp only [hone, bind, Except.bind] at h
          have hlt := harvest_removes hin hone
          have hle := (handleTimeouts_leads (w := w) s₁).removals_le h
          replace hlt : (removals s.log).length < (removals s₁.log).length := hlt
          replace hle : (removals s₁.log).length ≤ (removals s'.log).length := hle
          omega
  · next hw =>
      simp only [bind, Except.bind] at h
      have hnone := RayState.wait_none hw
      have hscan : RayState.Later (s.call w).ray ((s.call w).call w).ray :=
        RayState.later_call _ _ _ le_rfl
      have hyoung := scan_young (s := ((s.emit (.waiting s.toTables)).call w).call w) le_rfl h hsame
      intro ref href
      refine ⟨?_, fun time htime => ?_⟩
      · rw [← Option.not_isSome_iff_eq_none]
        intro hsome
        have := hcall.resolved ref hsome
        rw [show (s.call w).ray.resolved.get? ref = none from hnone ref href] at this
        cases this
      · have hlt := hyoung ref href time href htime
        have hclock := hcall.clock.trans hscan.clock
        replace hlt : ((s.call w).call w).ray.clock - time < w.cfg.hangThresholdS := hlt
        linarith

/-- Everything left is deferred, to wake-up times later than the clock of `s`, and a second
    passes. -/
structure Sys.Dozes (s s' : Sys σ) : Prop where
  nonempty : s'.deferred ≠ []
  deferred : ∀ d ∈ s'.deferred, d ∈ s.deferred ∧ s.ray.clock < d.1
  clock : s.ray.clock + 1 ≤ s'.ray.clock

/-- A ref in flight that the driver could take out: it has resolved or is as old as the hang
    threshold. -/
def Sys.Due (w : World σ) (s : Sys σ) (ref : ObjectRef) : Prop :=
  (s.ray.resolved.get? ref).isSome ∨
    ∃ time, s.refTimeouts.get? ref = some time ∧ w.cfg.hangThresholdS ≤ s.ray.clock - time

/-- A step of the loop that takes nothing out: no ref in flight was due, all stay in flight, and
    either there are some or the driver has slept. -/
theorem iteration_stalled {s s' : Sys σ} (hr : Reach w ⟨s, .idle⟩) (hidle : ¬ s.idle)
    (h : iteration w s = .head s')
    (hsame : (removals s'.log).length = (removals s.log).length) :
    s.Keeps s' ∧ (∀ ref ∈ s.active.keys, ¬ s.Due w ref) ∧
      (s'.active.keys ≠ [] ∨ s.Dozes s') := by
  have hfrom := iteration_from (w := w) hr.fresh hr.workers_length hidle
  have hready := dispatchPhase_ready (w := w) hr.fresh hr.workers_length
  rw [h] at hfrom
  refine ⟨Path.keeps hfrom hr.fresh hsame, ?_⟩
  rw [iteration_eq] at h
  split at h
  · split at h <;> cases h
  · next halive =>
      have halive' : ¬ s.workers.all Option.isNone := by
        rwa [congrArg Tables.workers (pollStandbyRefills_tables s)] at halive
      split at h
      · next hempty =>
          -- the driver slept: nothing was in flight before, and nothing is now
          have hnil := List.isEmpty_iff.1 hempty
          obtain ⟨-, -, hne, hlater⟩ := hready.dormant hidle halive' hnil
          cases h
          have hpoll : RayState.Later s.ray
              (promoteReadyRetries w (pollStandbyRefills w s)).ray :=
            Path.later ((pollStandbyRefills_path s).trans (promoteReadyRetries_path _))
          have hsleep := RayState.call_clock_le w.evaluateBatch
            ((dispatchPhase w s).reply w) retryPollInterval (dispatchPhase w s).ray
          refine ⟨fun ref href => ?_, Or.inr ⟨hne, fun d hd => ⟨hready.deferred d hd, ?_⟩, ?_⟩⟩
          · have hin := hready.keys ref href
            rw [hnil] at hin
            cases hin
          · exact hpoll.clock.trans_lt (hlater d hd)
          · exact (add_le_add (Path.later hready.path).clock le_rfl).trans hsleep
      · next hne =>
          have hne' : (dispatchPhase w s).active.keys ≠ [] :=
            fun hnil => hne (List.isEmpty_iff.2 hnil)
          cases hw : waitAndHarvest w (dispatchPhase w s) with
          | error raised => simp [hw] at h
          | ok s₂ =>
              simp only [hw, Status.head.injEq] at h
              subst h
              -- neither the dispatch nor the wait took anything out
              have hwait := waitAndHarvest_leads (w := w) hready.saturated hne'
              rw [hw] at hwait
              have hle : (removals s.log).length ≤ (removals (dispatchPhase w s).log).length :=
                Path.removals_le hready.path
              have hle' : (removals (dispatchPhase w s).log).length ≤ (removals s₂.log).length :=
                Path.removals_le hwait
              have heq : (removals (dispatchPhase w s).log).length = (removals s.log).length := by
                omega
              have heq' : (removals s₂.log).length = (removals (dispatchPhase w s).log).length := by
                omega
              have hkeeps : s.Keeps (dispatchPhase w s) := Path.keeps hready.path hr.fresh heq
              have hkeeps' : (dispatchPhase w s).Keeps s₂ :=
                Path.keeps hwait (Path.fresh hready.path hr.fresh) heq'
              have hlater := Path.later hready.path
              have hyoung := waitAndHarvest_stalled hw (by omega)
              refine ⟨fun ref href hdue => ?_, Or.inl ?_⟩
              · obtain ⟨hin, htime⟩ := hkeeps ref href
                obtain ⟨hnone, hage⟩ := hyoung ref hin
                rcases hdue with hsome | ⟨time, hat, hold⟩
                · have := hlater.resolved ref hsome
                  simp [hnone] at this
                · have hlt := hage time (htime.trans hat)
                  have hclock : s.ray.clock ≤ (dispatchPhase w s).ray.clock := hlater.clock
                  linarith
              · obtain ⟨ref, href⟩ := List.exists_mem_of_ne_nil _ hne'
                exact List.ne_nil_of_mem (hkeeps' ref href).1

/-- The driver does not sleep for ever: the clock passes every wake-up time. -/
theorem not_dozes_forever (S : ℕ → Sys σ) : ¬ ∀ j, (S j).Dozes (S (j + 1)) := by
  intro h
  have hclock : ∀ j, (S 0).ray.clock + j ≤ (S j).ray.clock := by
    intro j
    induction j with
    | zero => simp
    | succ j ih =>
        have hstep := (h j).clock
        push_cast
        linarith
  have hdeferred : ∀ j, ∀ d ∈ (S j).deferred, d ∈ (S 0).deferred := by
    intro j
    induction j with
    | zero => exact fun d => id
    | succ j ih => exact fun d hd => ih d ((h j).deferred d hd).1
  -- a bound on the wake-up times at the beginning, and a moment after it
  obtain ⟨bound, hbound⟩ : ∃ bound : ℚ, ∀ d ∈ (S 0).deferred, d.1 ≤ bound := by
    refine ⟨((S 0).deferred.map Prod.fst).foldr max 0, ?_⟩
    generalize (S 0).deferred = l
    induction l with
    | nil => simp
    | cons d rest ih =>
        intro d' hd'
        rcases List.mem_cons.1 hd' with rfl | hd'
        · exact le_max_left _ _
        · exact (ih d' hd').trans (le_max_right _ _)
  obtain ⟨j, hj⟩ := exists_nat_gt (bound - (S 0).ray.clock)
  obtain ⟨d, hd⟩ := List.exists_mem_of_ne_nil _ (h j).nonempty
  have hlt := ((h j).deferred d hd).2
  have hle := hbound d (hdeferred _ d hd)
  have hpassed := hclock j
  linarith

/-! ## Fair runs -/

/-- Every ref in flight eventually resolves or grows as old as the hang threshold, unless it leaves
    `active` or the loop ends before. -/
def Fair (w : World σ) (s₀ : Sys σ) : Prop :=
  ∀ k s, after w s₀ k = .head s → ∀ ref ∈ s.active.keys, ∃ m, k ≤ m ∧
    ∀ s', after w s₀ m = .head s' → ref ∈ s'.active.keys → s'.Due w ref

theorem after_succ (s₀ : Sys σ) (k : Nat) : after w s₀ (k + 1) = advance w (after w s₀ k) :=
  Function.iterate_succ_apply' _ _ _

/-- Between two loop heads lies one iteration. -/
theorem iteration_of_heads {s₀ s s' : Sys σ} {k : Nat} (hs : after w s₀ k = .head s)
    (hs' : after w s₀ (k + 1) = .head s') : ¬ s.idle ∧ iteration w s = .head s' := by
  rw [after_succ, hs, advance] at hs'
  split at hs'
  · cases hs'
  · next hidle => exact ⟨hidle, hs'⟩

/-- A run that has left its loop stays where it is. -/
theorem after_stays {s₀ : Sys σ} {k m : Nat} (hle : k ≤ m) (hne : ∀ s, after w s₀ k ≠ .head s) :
    after w s₀ m = after w s₀ k := by
  induction m, hle using Nat.le_induction with
  | base => rfl
  | succ m _ ih =>
      rw [after_succ, ih]
      cases hst : after w s₀ k with
      | head s => exact absurd hst (hne s)
      | _ => rfl

theorem not_head_of_le {s₀ : Sys σ} {n m : Nat} (hn : ∀ s, after w s₀ n ≠ .head s) (h : n ≤ m) :
    ∀ s, after w s₀ m ≠ .head s := by
  rw [after_stays h hn]
  exact hn

/-- A run that leaves the loop is fair. -/
theorem Fair.of_not_head {s₀ : Sys σ} {n : Nat} (hn : ∀ s, after w s₀ n ≠ .head s) :
    Fair w s₀ := by
  intro k s _ ref _
  refine ⟨max k n, le_max_left k n, fun s' hs' => ?_⟩
  exact absurd hs' (not_head_of_le hn (le_max_right k n) s')

/-- A call during which a worker executes a ref leaves it executed. -/
theorem RayState.call_executes {evaluateBatch : EvaluateBatch σ} {reply : Reply} {d : ℚ}
    {r : RayState σ} {ref : ObjectRef} (hin : ref ∈ reply.finished) :
    (r.call evaluateBatch reply d).inFlight.get? ref = none := by
  have hkeep : ∀ (r : RayState σ) (ref' : ObjectRef), r.inFlight.get? ref = none →
      (r.execute evaluateBatch ref').inFlight.get? ref = none := by
    intro r ref' hnone
    unfold RayState.execute
    split
    · exact hnone
    · rw [Dict.get?_erase, hnone, ite_self]
  have hdone : ∀ r : RayState σ, (r.execute evaluateBatch ref).inFlight.get? ref = none := by
    intro r
    unfold RayState.execute
    split
    · next hnone => exact hnone
    · rw [Dict.get?_erase, if_pos rfl]
  have hrest : ∀ (rest : List ObjectRef) (r : RayState σ), r.inFlight.get? ref = none →
      (rest.foldl (RayState.execute evaluateBatch) r).inFlight.get? ref = none := by
    intro rest
    induction rest with
    | nil => exact fun r hnone => hnone
    | cons ref' rest ih => exact fun r hnone => ih _ (hkeep r ref' hnone)
  obtain ⟨before, rest, hsplit⟩ := List.append_of_mem hin
  rw [RayState.call, hsplit, List.foldl_append, List.foldl_cons]
  exact hrest rest _ (hdone _)

/-- After the promotion scan an iteration only moves on. -/
theorem iteration_later {s s' : Sys σ} (hr : Reach w ⟨s, .idle⟩) (h : iteration w s = .head s') :
    RayState.Later (promoteReadyRetries w (pollStandbyRefills w s)).ray s'.ray := by
  have hready := dispatchPhase_ready (w := w) hr.fresh hr.workers_length
  have hdispatch : RayState.Later (promoteReadyRetries w (pollStandbyRefills w s)).ray
      (dispatchPhase w s).ray := Path.later (dispatchPendingToIdle_path _)
  rw [iteration_eq] at h
  split at h
  · split at h <;> cases h
  · split at h
    · cases h
      exact hdispatch.trans (RayState.later_call _ _ _ (by norm_num [retryPollInterval]))
    · next hne =>
        have hwait := waitAndHarvest_leads (w := w) hready.saturated
          (fun hnil => hne (List.isEmpty_iff.2 hnil))
        cases hw : waitAndHarvest w (dispatchPhase w s) with
        | error raised => simp [hw] at h
        | ok s₂ =>
            simp only [hw, Status.head.injEq] at h
            subst h
            rw [hw] at hwait
            exact hdispatch.trans (Path.later hwait)

/-- Workers that execute every ref in flight during every call of the driver are fair. -/
theorem Fair.of_finished {s₀ : Sys σ} (h : startRun w = .ok s₀)
    (hfinished : ∀ k s, after w s₀ k = .head s → ∀ ref ∈ s.active.keys, ∀ i,
      ref ∈ (w.env i).finished) : Fair w s₀ := by
  intro k s hs ref href
  refine ⟨k + 1, Nat.le_succ k, fun s' hs' _ => Or.inl ?_⟩
  have hr : Reach w ⟨s, .idle⟩ := by
    have hreached := reach_after h k
    rwa [hs] at hreached
  obtain ⟨-, hit⟩ := iteration_of_heads hs hs'
  refine (iteration_later hr hit).resolved ref ?_
  -- the promotion scan makes a call, and the ref was in flight or had resolved by then
  have hscan := (hr.tail (pollStandbyRefills_path s)).tail (promoteReadyRetries_path _)
  obtain ⟨f, hf⟩ := Option.isSome_iff_exists.1 ((s.active.get?_isSome_iff ref).2 href)
  have hactive : (promoteReadyRetries w (pollStandbyRefills w s)).active.get? ref = some f := by
    show (pollStandbyRefills w s).active.get? ref = some f
    rw [congrArg Tables.active (pollStandbyRefills_tables s)]
    exact hf
  have hgone : (promoteReadyRetries w (pollStandbyRefills w s)).ray.inFlight.get? ref = none :=
    RayState.call_executes (hfinished k s hs ref href _)
  rcases hscan.linked.linked.outstanding ref f hactive with ⟨hin, -⟩ | ⟨-, out, hout, -⟩
  · rw [show (promoteReadyRetries w (pollStandbyRefills w s)).ray.inFlight.get? ref = _ from hgone]
      at hin
    cases hin
  · exact Option.isSome_iff_exists.2 ⟨out, hout⟩

/-! ## Termination -/

/-- The log of a run only grows. -/
theorem advance_log_suffix {st : Status σ} (h : st.Reached w) :
    st.sys.log <:+ (advance w st).sys.log := by
  cases st with
  | head s =>
      rw [advance]
      split
      · exact List.suffix_rfl
      · next hidle =>
          have hfrom := iteration_from (w := w) (Reach.fresh h) (Reach.workers_length h) hidle
          cases hit : iteration w s with
          | head s' => exact Path.log_suffix (hit ▸ hfrom : Status.From w _ (.head s'))
          | exited s' => exact Path.log_suffix (hit ▸ hfrom : Status.From w _ (.exited s')).1
          | aborted s' => exact Path.log_suffix (hit ▸ hfrom : Status.From w _ (.aborted s'))
          | raised exc s' =>
              obtain ⟨p, hpath, -⟩ := (hit ▸ hfrom : Status.From w _ (.raised exc s'))
              exact Path.log_suffix hpath
  | _ => exact List.suffix_rfl

theorem after_log_suffix {s₀ : Sys σ} (h : startRun w = .ok s₀) {j k : Nat} (hle : j ≤ k) :
    (after w s₀ j).sys.log <:+ (after w s₀ k).sys.log := by
  induction k, hle using Nat.le_induction with
  | base => exact List.suffix_rfl
  | succ k _ ih =>
      rw [after_succ]
      exact ih.trans (advance_log_suffix (reach_after h k))

theorem advance_removals_le {st : Status σ} (h : st.Reached w) :
    (removals st.sys.log).length ≤ (removals (advance w st).sys.log).length :=
  ((advance_log_suffix h).filterMap _).length_le

/-- From every loop head of a fair run on, another flight is taken out or the loop ends. -/
theorem removes_again {s₀ : Sys σ} (h : startRun w = .ok s₀) (hfair : Fair w s₀) (k : Nat) :
    ∃ m, k ≤ m ∧ ((removals (after w s₀ k).sys.log).length
        < (removals (after w s₀ m).sys.log).length ∨ ∀ s, after w s₀ m ≠ .head s) := by
  by_contra hnever
  have hmono : Monotone (fun m => (removals (after w s₀ m).sys.log).length) :=
    monotone_nat_of_le_succ (fun m => by
      rw [after_succ]
      exact advance_removals_le (reach_after h m))
  -- so from `k` on every status is a loop head, with as many removals as at `k`
  have hhead : ∀ j, ∃ s, after w s₀ (k + j) = .head s := by
    intro j
    by_contra hno
    exact hnever ⟨k + j, Nat.le_add_right k j, Or.inr (fun s hs => hno ⟨s, hs⟩)⟩
  choose S hS using hhead
  have hcount : ∀ j, (removals (S j).log).length = (removals (after w s₀ k).sys.log).length := by
    intro j
    have hsys : (after w s₀ (k + j)).sys = S j := by rw [hS j]; rfl
    have hle : ¬ (removals (after w s₀ k).sys.log).length
        < (removals (after w s₀ (k + j)).sys.log).length :=
      fun hlt => hnever ⟨k + j, Nat.le_add_right k j, Or.inl hlt⟩
    rw [← hsys]
    exact le_antisymm (not_lt.1 hle) (hmono (Nat.le_add_right k j))
  have hstall : ∀ j, (S j).Keeps (S (j + 1)) ∧ (∀ ref ∈ (S j).active.keys, ¬ (S j).Due w ref) ∧
      ((S (j + 1)).active.keys ≠ [] ∨ (S j).Dozes (S (j + 1))) := by
    intro j
    have hreached := reach_after h (k + j)
    rw [hS j] at hreached
    obtain ⟨hidle, hit⟩ := iteration_of_heads (hS j) (hS (j + 1))
    exact iteration_stalled hreached hidle hit ((hcount (j + 1)).trans (hcount j).symm)
  have hstays : ∀ j i, ∀ ref ∈ (S j).active.keys, ref ∈ (S (j + i)).active.keys := by
    intro j i ref href
    induction i with
    | zero => exact href
    | succ i ih => exact ((hstall (j + i)).1 ref ih).1
  -- a ref in flight would stay there and some day be due
  have hempty : ∀ j, (S j).active.keys = [] := by
    intro j
    by_contra hne
    obtain ⟨ref, href⟩ := List.exists_mem_of_ne_nil _ hne
    obtain ⟨m, hm, hdue⟩ := hfair (k + j) (S j) (hS j) ref href
    obtain ⟨i, rfl⟩ := Nat.exists_eq_add_of_le hm
    have hin := hstays j i ref href
    refine (hstall (j + i)).2.1 ref hin (hdue _ ?_ hin)
    rw [Nat.add_assoc]
    exact hS (j + i)
  exact not_dozes_forever S
    (fun j => (hstall j).2.2.resolve_left (fun hne => hne (hempty (j + 1))))

theorem removals_bounded {s₀ : Sys σ} (h : startRun w = .ok s₀) (k : Nat) :
    (removals (after w s₀ k).sys.log).length ≤ (w.cfg.maxBudget + 1) * w.cfg.tasks.length := by
  obtain ⟨p, hr⟩ := (reach_after h k).exists_phase
  exact hr.removals_le

/-- A fair run leaves the loop. -/
theorem Fair.ends {s₀ : Sys σ} (hfair : Fair w s₀) (h : startRun w = .ok s₀) :
    ∃ k, ∀ s, after w s₀ k ≠ .head s :=
  Transition.ends_of_progress
    (fun k => by rw [after_succ]; exact advance_removals_le (reach_after h k))
    (removals_bounded h) (removes_again h hfair)

end EvalHarness
