import EvalHarness.Coordinator.Actors

set_option autoImplicit false

/-! # Who is admitted

A worker gets into a slot or into the pool in four places: at startup, by `_blocking_replace`, and
by a completed refill. Each of them asks the actor for a `health_check` first and treats an
exception as a refusal, but reads no answer: an actor that answers that it is not healthy is
admitted like one that answers that it is. `_check_and_replace_if_poisoned` does read the answer. -/

namespace EvalHarness

variable {σ : Type} {w : World σ}

/-- The actors admitted after a readiness check, with what they answered. -/
def readinessAnswers (log : List Event) : List (Handle × Bool) :=
  log.filterMap (fun | .probed h healthy => some (h, healthy) | _ => none)

/-- The actors admitted after a readiness check. -/
def admissions (log : List Event) : List Handle := (readinessAnswers log).map Prod.fst

theorem admissions_vacate (s : Sys σ) (slot : Nat) :
    admissions (s.vacate slot).log = admissions s.log :=
  congrArg (List.map Prod.fst) (filterMap_vacate (fun _ => rfl) s slot)

theorem mem_readinessAnswers {log : List Event} {h : Handle} {healthy : Bool} :
    (h, healthy) ∈ readinessAnswers log ↔ Event.probed h healthy ∈ log :=
  mem_filterMap_event (fun e => by cases e <;> simp)

/-! ## Startup -/

/-- Rule of induction for the points of a run, from what `_create_workers` does. -/
theorem Reach.invariant_of_created {I : Point σ → Prop}
    (hstart : ∀ s batches, createWorkers w (Sys.initial w) = .ok s →
      makeBatches (List.range w.cfg.tasks.length) w.cfg.batchSize = .ok batches →
      I ⟨{ s with pending := batches.map (fun batch => ⟨batch, 0⟩) }, .idle⟩)
    (hstep : ∀ a b, Reach w a → Move w a b → I a → I b) {pt : Point σ} (h : Reach w pt) :
    I pt := by
  obtain ⟨s, hs, batches, hb, hpath⟩ := h
  have hfirst : Reach w ⟨{ s with pending := batches.map (fun batch => ⟨batch, 0⟩) }, .idle⟩ :=
    ⟨s, hs, batches, hb, .refl⟩
  exact (Transition.invariant_of_step (I := fun pt => Reach w pt ∧ I pt)
    (fun a b hm hI => ⟨hI.1.step hm, hstep a b hI.1 hm hI.2⟩) hpath
    ⟨hfirst, hstart s batches hs hb⟩).2

theorem awaitHealthy_admissions (hs : List Handle) (s s' : Sys σ)
    (h : awaitHealthy w hs s = .ok s') : admissions s'.log = hs.reverse ++ admissions s.log := by
  induction hs generalizing s with
  | nil =>
      simp only [awaitHealthy, Except.ok.injEq] at h
      subst h
      rfl
  | cons hd hs ih =>
      simp only [awaitHealthy] at h
      split at h
      · cases h
      · rw [ih _ h, List.reverse_cons, List.append_assoc]
        rfl

/-- The actors of the startup are admitted once each, in the order of construction. -/
theorem createWorkers_admissions {s : Sys σ} (h : createWorkers w (Sys.initial w) = .ok s) :
    admissions s.log
      = ((List.range (w.cfg.nWorkers + w.cfg.standby)).map startHandle).reverse := by
  obtain ⟨workers, s₁, standbys, s₂, s₃, s₄, h₁, h₂, h₃, h₄, rfl⟩ := createWorkers_phases h
  obtain ⟨hworkers, -, hact₁, -⟩ := constructAll_spec _ 0 _ rfl _ _ h₁
  obtain ⟨hstandbys, -, -, -⟩ :=
    constructAll_spec _ w.cfg.nWorkers (s₁.resetStandby w) (hact₁.trans (Nat.zero_add _)) _ _ h₂
  obtain ⟨-, -, -, hlog₄⟩ := validateAll_spec _ _ _ h₄
  show admissions s₄.log = _
  have hnone₁ : admissions s₁.log = [] :=
    constructAll_keeps (fun s => admissions s.log) (fun _ _ => rfl) h₁
  have hnone : admissions s₂.log = [] :=
    (constructAll_keeps (fun s => admissions s.log) (fun _ _ => rfl) h₂).trans hnone₁
  rw [hlog₄, awaitHealthy_admissions _ _ _ h₃]
  show (workers ++ standbys).reverse ++ admissions s₂.log = _
  rw [hnone, List.append_nil, hworkers, hstandbys, ← List.map_append, List.range_eq_range',
    ← List.range'_append_1, Nat.zero_add]

/-! ## Everyone in a slot or in the pool has been admitted -/

/-- Slots and pool hold admitted actors, a refill in flight is not admitted yet, and only
    constructed actors are admitted. -/
structure Point.Admitted (pt : Point σ) : Prop where
  slots : ∀ h, some h ∈ pt.sys.workers → h ∈ admissions pt.sys.log
  pool : ∀ h ∈ pt.sys.standbyPool, h ∈ admissions pt.sys.log
  refills : ∀ rf ∈ pt.sys.standbyRefills ++ pt.phase.refills, rf.handle ∉ admissions pt.sys.log
  constructed : ∀ h ∈ admissions pt.sys.log, h ∈ constructed pt.sys.log
  nodup : (admissions pt.sys.log).Nodup

theorem Refilled.admitted {attempt : Nat} {s s' : Sys σ} {p : Phase} (h : Refilled attempt s s')
    (hfresh : ∀ h ∈ constructed s.log, h.actor < s.nextActor) (hI : Point.Admitted ⟨s, p⟩) :
    Point.Admitted ⟨s', p⟩ := by
  cases h with
  | refused => exact ⟨hI.slots, hI.pool, hI.refills, hI.constructed, hI.nodup⟩
  | started time =>
      refine ⟨hI.slots, hI.pool, fun rf hrf => ?_, fun h hin => ?_, hI.nodup⟩
      · replace hrf : rf ∈ (s.standbyRefills ++ [⟨s.freshHandle s.nextWorkerId, time, attempt⟩])
          ++ p.refills := hrf
        rw [List.append_assoc, List.mem_append, List.mem_append, List.mem_singleton] at hrf
        rcases hrf with hold | rfl | hold
        · exact hI.refills rf (List.mem_append_left _ hold)
        · -- the new actor is unknown, so it has not been admitted
          intro hin
          exact lt_irrefl _ (hfresh _ (hI.constructed _ hin))
        · exact hI.refills rf (List.mem_append_right _ hold)
      · exact List.mem_cons_of_mem _ (hI.constructed h hin)

/-- The refills in flight are known, and different, actors. -/
theorem Point.Counted.refills {pt : Point σ} (hC : pt.Counted w) :
    ((pt.sys.standbyRefills ++ pt.phase.refills).map Refill.handle).Nodup ∧
      ∀ rf ∈ pt.sys.standbyRefills ++ pt.phase.refills, rf.handle ∈ constructed pt.sys.log := by
  obtain ⟨hnodup, hown⟩ := hC.apart
  refine ⟨Multiset.coe_nodup.1 (Multiset.nodup_add.1 hnodup).2.1, fun rf hrf => (hown _ ?_).1⟩
  exact mem_places.2 (Or.inr (Or.inr (List.mem_map_of_mem hrf)))

theorem Move.admitted {a b : Point σ} (hr : Reach w a) (h : Move w a b) (hI : a.Admitted) :
    b.Admitted := by
  cases h with
  | vacate s p slot hslot hwhy =>
      have hadm : admissions (s.vacate slot).log = admissions s.log := admissions_vacate s slot
      have hcon : constructed (s.vacate slot).log = constructed s.log := constructed_vacate s slot
      refine ⟨fun h hin => ?_, fun h hin => ?_, fun rf hrf => ?_, fun h hin => ?_, ?_⟩
      · show h ∈ admissions (s.vacate slot).log
        rw [hadm]
        rcases List.mem_or_eq_of_mem_set hin with hin | heq
        · exact hI.slots h hin
        · cases heq
      · exact hadm ▸ hI.pool h hin
      · exact hadm ▸ hI.refills rf hrf
      · exact hcon ▸ hI.constructed h (hadm ▸ hin)
      · show (admissions (s.vacate slot).log).Nodup
        exact hadm ▸ hI.nodup
  | promote s p slot h s' time hslot hempty hpool hs' =>
      have hlast : h ∈ s.standbyPool := List.mem_of_getLast? hpool
      refine hs'.admitted hr.counted.fresh
        ⟨fun h' hin => ?_, fun h' hin => ?_, hI.refills, hI.constructed, hI.nodup⟩
      · rcases List.mem_or_eq_of_mem_set hin with hin | heq
        · exact hI.slots h' hin
        · cases heq
          exact hI.pool h hlast
      · exact hI.pool h' (List.mem_of_mem_dropLast hin)
  | install s p slot healthy hslot hempty =>
      have hC := hr.counted
      -- a new actor has not been admitted before
      have hnew : s.freshHandle slot ∉ constructed s.log := fun hin => lt_irrefl _ (hC.fresh _ hin)
      refine ⟨fun h hin => ?_, fun h hin => List.mem_cons_of_mem _ (hI.pool h hin),
        fun rf hrf hin => ?_, fun h hin => ?_,
        List.nodup_cons.2 ⟨fun hin => hnew (hI.constructed _ hin), hI.nodup⟩⟩
      · rcases List.mem_or_eq_of_mem_set hin with hin | heq
        · exact List.mem_cons_of_mem _ (hI.slots h hin)
        · cases heq
          exact List.mem_cons_self
      · rcases List.mem_cons.1 hin with heq | hin
        · have hknown := hC.refills.2 rf hrf
          rw [heq] at hknown
          exact hnew hknown
        · exact hI.refills rf hrf hin
      · rcases List.mem_cons.1 hin with rfl | hin
        · exact List.mem_cons_self
        · exact List.mem_cons_of_mem _ (hI.constructed h hin)
  | abandon s p slot exc =>
      exact ⟨hI.slots, hI.pool, hI.refills,
        fun h hin => List.mem_cons_of_mem _ (hI.constructed h hin), hI.nodup⟩
  | poll s =>
      have hrefills := hI.refills
      simp only [Phase.refills, List.append_nil] at hrefills
      exact ⟨hI.slots, hI.pool, hrefills, hI.constructed, hI.nodup⟩
  | keep s rf rest =>
      have hrefills := hI.refills
      refine ⟨hI.slots, hI.pool, fun rf' hrf => hrefills rf' ?_, hI.constructed, hI.nodup⟩
      simpa [Phase.refills] using hrf
  | join s rf rest healthy time =>
      obtain ⟨hnodup, hknown⟩ := hr.counted.refills
      have hperm : (s.standbyRefills ++ rf :: rest).Perm (rf :: (s.standbyRefills ++ rest)) :=
        List.perm_middle
      have hothers := (List.nodup_cons.1 ((hperm.map Refill.handle).nodup_iff.1 hnodup)).1
      refine ⟨fun h hin => List.mem_cons_of_mem _ (hI.slots h hin), fun h hin => ?_,
        fun rf' hrf hin => ?_, fun h hin => ?_, List.nodup_cons.2
          ⟨hI.refills rf (hperm.mem_iff.2 List.mem_cons_self), hI.nodup⟩⟩
      · rcases List.mem_append.1 hin with hin | hin
        · exact List.mem_cons_of_mem _ (hI.pool h hin)
        · exact List.mem_cons.2 (Or.inl (List.mem_singleton.1 hin))
      · rcases List.mem_cons.1 hin with heq | hin
        · exact hothers (List.mem_map.2 ⟨rf', hrf, heq⟩)
        · exact hI.refills rf' (hperm.mem_iff.2 (List.mem_cons_of_mem _ hrf)) hin
      · rcases List.mem_cons.1 hin with rfl | hin
        · exact hknown rf (hperm.mem_iff.2 List.mem_cons_self)
        · exact hI.constructed h hin
  | failRefill s rf rest s' hagain hs' =>
      refine hs'.admitted hr.counted.fresh
        ⟨hI.slots, hI.pool, fun rf' hrf => hI.refills rf' ?_, hI.constructed, hI.nodup⟩
      exact List.mem_append.2 ((List.mem_append.1 hrf).imp_right (List.mem_cons_of_mem _))
  | giveUpRefill s rf rest hlast =>
      refine ⟨hI.slots, hI.pool, fun rf' hrf => hI.refills rf' ?_, hI.constructed, hI.nodup⟩
      exact List.mem_append.2 ((List.mem_append.1 hrf).imp_right (List.mem_cons_of_mem _))
  | _ => exact ⟨hI.slots, hI.pool, hI.refills, hI.constructed, hI.nodup⟩

theorem Reach.admitted {pt : Point σ} (h : Reach w pt) : pt.Admitted := by
  refine h.invariant_of_created (I := Point.Admitted) (fun s batches hcreate hbatches => ?_)
    (fun _ _ hr hm hI => hm.admitted hr hI)
  have hs := createWorkers_started hcreate
  have hadm := createWorkers_admissions hcreate
  have hknown : ∀ k, k < w.cfg.nWorkers + w.cfg.standby → startHandle k ∈ admissions s.log := by
    intro k hk
    rw [hadm, List.mem_reverse]
    exact List.mem_map_of_mem (List.mem_range.2 hk)
  refine ⟨fun h hin => ?_, fun h hin => ?_, fun rf hrf => ?_, fun h hin => ?_, ?_⟩
  · replace hin : some h ∈ s.workers := hin
    rw [hs.workers] at hin
    obtain ⟨k, hk, heq⟩ := List.mem_map.1 hin
    cases heq
    exact hknown k (Nat.lt_add_right _ (List.mem_range.1 hk))
  · replace hin : h ∈ s.standbyPool := hin
    rw [hs.standbyPool] at hin
    obtain ⟨k, hk, rfl⟩ := List.mem_map.1 hin
    exact hknown k (List.mem_range'_1.1 hk).2
  · replace hrf : rf ∈ s.standbyRefills ++ [] := hrf
    rw [hs.standbyRefills] at hrf
    cases hrf
  · show h ∈ constructed s.log
    rw [constructed_start hs, ← hadm]
    exact hin
  · show (admissions s.log).Nodup
    rw [hadm, ← constructed_start hs]
    exact (Reach.counted ⟨s, hcreate, batches, hbatches, .refl⟩).nodup

/-! ## What the readiness checks were answered -/

/-- The readiness checks that were answered, with the number of the call that answered. -/
def answeredChecks (log : List Event) : List (Handle × Nat) :=
  log.filterMap (fun | .checked h (some call) => some (h, call) | _ => none)

theorem mem_answeredChecks {log : List Event} {h : Handle} {call : Nat} :
    (h, call) ∈ answeredChecks log ↔ Event.checked h (some call) ∈ log :=
  mem_filterMap_event (fun e => by
    cases e with
    | checked h' call' => cases call' <;> simp
    | _ => simp)

theorem answeredChecks_vacate (s : Sys σ) (slot : Nat) :
    answeredChecks (s.vacate slot).log = answeredChecks s.log :=
  filterMap_vacate (fun _ => rfl) s slot

/-- One of the actors the startup constructs. -/
def Config.Early (cfg : Config) (h : Handle) : Prop := h.actor < cfg.nWorkers + cfg.standby

/-- The replies let the actor in: it has an answer, and `validate_backend`, which the startup calls
    later, passes. -/
def World.LetsIn (w : World σ) (h : Handle) (call : Nat) (healthy : Bool) : Prop :=
  (w.env call).health = .ok healthy ∧ (w.cfg.Early h ∨ (w.env call).validate = none)

/-- What becomes of an actor whose readiness check raises: it is not admitted, and its refill is
    killed and tried again, or the attempt of `_blocking_replace` it belongs to counts as failed. -/
def Rejected (log : List Event) (h : Handle) : Prop :=
  h ∉ admissions log ∧ (h ∈ abandoned log ∨ h ∈ killed log)

/-- How the checks answered so far were decided: whoever was admitted was let in by the replies to a
    check, and a check that did not lead to that was refused. -/
structure Decided (w : World σ) (log : List Event) : Prop where
  admitted : ∀ x ∈ readinessAnswers log,
    ∃ call, (x.1, call) ∈ answeredChecks log ∧ w.LetsIn x.1 call x.2
  checked : ∀ x ∈ answeredChecks log,
    (∃ healthy, (x.1, healthy) ∈ readinessAnswers log ∧ w.LetsIn x.1 x.2 healthy) ∨
      (¬ w.cfg.Early x.1 ∧ (w.env x.2).Refuses ∧ Rejected log x.1)

/-- More kills decide nothing. -/
theorem Decided.mono {log log' : List Event} (h : Decided w log)
    (hanswers : readinessAnswers log' = readinessAnswers log)
    (hchecks : answeredChecks log' = answeredChecks log)
    (habandoned : ∀ hd ∈ abandoned log, hd ∈ abandoned log')
    (hkilled : ∀ hd ∈ killed log, hd ∈ killed log') : Decided w log' := by
  have hsame : admissions log' = admissions log := congrArg (List.map Prod.fst) hanswers
  refine ⟨hanswers ▸ hchecks ▸ h.admitted, fun x hx => ?_⟩
  rw [hchecks] at hx
  rw [hanswers]
  refine (h.checked x hx).imp_right (fun hold => ⟨hold.1, hold.2.1, hsame ▸ hold.2.2.1, ?_⟩)
  exact hold.2.2.2.imp (habandoned _) (hkilled _)

/-- A check that turns an actor away. -/
theorem Decided.reject {log log' : List Event} {hd : Handle} {call : Nat} (h : Decided w log)
    (hanswers : readinessAnswers log' = readinessAnswers log)
    (hchecks : answeredChecks log' = (hd, call) :: answeredChecks log)
    (habandoned : ∀ hd ∈ abandoned log, hd ∈ abandoned log')
    (hkilled : ∀ hd ∈ killed log, hd ∈ killed log') (hlate : ¬ w.cfg.Early hd)
    (hcall : (w.env call).Refuses) (hrejected : Rejected log' hd) : Decided w log' := by
  have hsame : admissions log' = admissions log := congrArg (List.map Prod.fst) hanswers
  refine ⟨fun x hx => ?_, fun x hx => ?_⟩
  · rw [hanswers] at hx
    obtain ⟨call', hin, hlets⟩ := h.admitted x hx
    exact ⟨call', hchecks ▸ List.mem_cons_of_mem _ hin, hlets⟩
  · rw [hchecks] at hx
    rcases List.mem_cons.1 hx with rfl | hx
    · exact Or.inr ⟨hlate, hcall, hrejected⟩
    · rw [hanswers]
      refine (h.checked x hx).imp_right (fun hold => ⟨hold.1, hold.2.1, hsame ▸ hold.2.2.1, ?_⟩)
      exact hold.2.2.2.imp (habandoned _) (hkilled _)

/-- The first check of an actor, which lets it in. -/
theorem Decided.admission {log log' : List Event} {hd : Handle} {call : Nat} {healthy : Bool}
    (h : Decided w log)
    (hanswers : readinessAnswers log' = (hd, healthy) :: readinessAnswers log)
    (hchecks : answeredChecks log' = (hd, call) :: answeredChecks log)
    (habandoned : abandoned log' = abandoned log) (hkilled : killed log' = killed log)
    (hnew : ∀ call, (hd, call) ∉ answeredChecks log) (hlets : w.LetsIn hd call healthy) :
    Decided w log' := by
  have hmore : admissions log' = hd :: admissions log := congrArg (List.map Prod.fst) hanswers
  refine ⟨fun x hx => ?_, fun x hx => ?_⟩
  · rw [hanswers] at hx
    rw [hchecks]
    rcases List.mem_cons.1 hx with rfl | hx
    · exact ⟨call, List.mem_cons_self, hlets⟩
    · obtain ⟨call', hin, hlets'⟩ := h.admitted x hx
      exact ⟨call', List.mem_cons_of_mem _ hin, hlets'⟩
  · rw [hchecks] at hx
    rw [hanswers]
    rcases List.mem_cons.1 hx with rfl | hx
    · exact Or.inl ⟨healthy, List.mem_cons_self, hlets⟩
    · rcases h.checked x hx with ⟨healthy', hin, hlets'⟩ | ⟨hlate, hrefuses, hnot, hgone⟩
      · exact Or.inl ⟨healthy', List.mem_cons_of_mem _ hin, hlets'⟩
      · refine Or.inr ⟨hlate, hrefuses, ?_, habandoned ▸ hkilled ▸ hgone⟩
        rw [hmore, List.mem_cons, not_or]
        exact ⟨fun heq => hnew x.2 (heq ▸ hx), hnot⟩

/-- Only constructed actors are checked, and no refill in flight has been, nor was it constructed at
    startup. -/
structure Point.Answered (w : World σ) (pt : Point σ) : Prop where
  decided : Decided w pt.sys.log
  known : ∀ x ∈ answeredChecks pt.sys.log, x.1 ∈ constructed pt.sys.log
  refills : ∀ rf ∈ pt.sys.standbyRefills ++ pt.phase.refills,
    ¬ w.cfg.Early rf.handle ∧ ∀ call, (rf.handle, call) ∉ answeredChecks pt.sys.log

theorem Reach.startup_le {pt : Point σ} (h : Reach w pt) :
    w.cfg.nWorkers + w.cfg.standby ≤ pt.sys.nextActor := by
  refine h.invariant (I := fun pt => w.cfg.nWorkers + w.cfg.standby ≤ pt.sys.nextActor)
    (fun s batches hs _ => hs.nextActor.ge) (fun _ _ _ hm hI => ?_)
  cases hm with
  | install s p slot healthy hslot hempty => exact Nat.le_succ_of_le hI
  | abandon s p slot exc => exact Nat.le_succ_of_le hI
  | promote s p slot h s' time hslot hempty hpool hs' =>
      cases hs' with
      | started time' => exact Nat.le_succ_of_le hI
      | refused => exact hI
  | failRefill s rf rest s' hagain hs' =>
      cases hs' with
      | started time' => exact Nat.le_succ_of_le hI
      | refused => exact hI
  | _ => exact hI

/-- A constructor call returns an actor that has not been checked. -/
theorem Point.Answered.fresh {s : Sys σ} {p : Phase} (hr : Reach w ⟨s, p⟩)
    (hI : Point.Answered w ⟨s, p⟩) (id : Nat) : ¬ w.cfg.Early (s.freshHandle id) ∧
      ∀ call, (s.freshHandle id, call) ∉ answeredChecks s.log := by
  refine ⟨not_lt.2 hr.startup_le, fun call hin => ?_⟩
  exact lt_irrefl _ (hr.counted.fresh _ (hI.known _ hin))

/-- A check on an actor that was constructed just before. -/
theorem Point.Answered.check {s : Sys σ} {p : Phase} (hr : Reach w ⟨s, p⟩)
    (hI : Point.Answered w ⟨s, p⟩) (id call : Nat) :
    (∀ x ∈ (s.freshHandle id, call) :: answeredChecks s.log,
      x.1 ∈ s.freshHandle id :: constructed s.log) ∧
    ∀ rf ∈ s.standbyRefills ++ p.refills, ¬ w.cfg.Early rf.handle ∧
      ∀ call', (rf.handle, call') ∉ (s.freshHandle id, call) :: answeredChecks s.log := by
  refine ⟨List.forall_mem_cons.2 ⟨List.mem_cons_self, fun x hx =>
    List.mem_cons_of_mem _ (hI.known x hx)⟩, fun rf hrf => ⟨(hI.refills rf hrf).1, ?_⟩⟩
  intro call' hin
  rcases List.mem_cons.1 hin with heq | hin
  · -- a refill in flight has been constructed before
    have hknown : rf.handle ∈ constructed s.log := hr.counted.refills.2 rf hrf
    have hlt := hr.counted.fresh _ hknown
    rw [(Prod.mk.inj heq).1] at hlt
    exact lt_irrefl _ hlt
  · exact (hI.refills rf hrf).2 call' hin

theorem Refilled.answered {attempt : Nat} {s s' : Sys σ} {p : Phase} (h : Refilled attempt s s')
    (hnew : ∀ id, ¬ w.cfg.Early (s.freshHandle id) ∧
      ∀ call, (s.freshHandle id, call) ∉ answeredChecks s.log)
    (hI : Point.Answered w ⟨s, p⟩) : Point.Answered w ⟨s', p⟩ := by
  cases h with
  | refused => exact ⟨hI.decided.mono rfl rfl (fun _ => id) (fun _ => id), hI.known, hI.refills⟩
  | started time =>
      refine ⟨hI.decided.mono rfl rfl (fun _ => id) (fun _ => id),
        fun x hx => List.mem_cons_of_mem _ (hI.known x hx), fun rf hrf => ?_⟩
      replace hrf : rf ∈ (s.standbyRefills ++ [⟨s.freshHandle s.nextWorkerId, time, attempt⟩])
        ++ p.refills := hrf
      rw [List.append_assoc, List.mem_append, List.mem_append, List.mem_singleton] at hrf
      rcases hrf with hold | rfl | hold
      · exact hI.refills rf (List.mem_append_left _ hold)
      · exact hnew s.nextWorkerId
      · exact hI.refills rf (List.mem_append_right _ hold)

/-- A check on the refill that is polled. -/
theorem Point.Answered.checkRefill {s : Sys σ} {rf : Refill} {rest : List Refill}
    (hr : Reach w ⟨s, .polling (rf :: rest)⟩) (hI : Point.Answered w ⟨s, .polling (rf :: rest)⟩)
    (call : Nat) : (∀ x ∈ (rf.handle, call) :: answeredChecks s.log, x.1 ∈ constructed s.log) ∧
      ∀ rf' ∈ s.standbyRefills ++ rest, ¬ w.cfg.Early rf'.handle ∧
        ∀ call', (rf'.handle, call') ∉ (rf.handle, call) :: answeredChecks s.log := by
  obtain ⟨hnodup, hknown⟩ := hr.counted.refills
  have hperm : (s.standbyRefills ++ rf :: rest).Perm (rf :: (s.standbyRefills ++ rest)) :=
    List.perm_middle
  have hothers := (List.nodup_cons.1 ((hperm.map Refill.handle).nodup_iff.1 hnodup)).1
  refine ⟨List.forall_mem_cons.2 ⟨hknown rf (hperm.mem_iff.2 List.mem_cons_self), hI.known⟩,
    fun rf' hrf => ?_⟩
  obtain ⟨hlate, hunchecked⟩ := hI.refills rf' (hperm.mem_iff.2 (List.mem_cons_of_mem _ hrf))
  refine ⟨hlate, fun call' hchecked => ?_⟩
  rcases List.mem_cons.1 hchecked with heq | hchecked
  · exact hothers (List.mem_map.2 ⟨rf', hrf, (Prod.mk.inj heq).1⟩)
  · exact hunchecked call' hchecked

/-- A refill that fails is killed; if its check was answered, it was refused. -/
theorem Point.Answered.fail {s : Sys σ} {rf : Refill} {rest : List Refill} {call : Option Nat}
    (hr : Reach w ⟨s, .polling (rf :: rest)⟩) (hI : Point.Answered w ⟨s, .polling (rf :: rest)⟩)
    (hcall : ∀ i ∈ call, (w.env i).Refuses) :
    Point.Answered w ⟨(s.emit (.checked rf.handle call)).countRefillFailure.emit
      (.killed rf.handle), .polling rest⟩ := by
  have hmem : rf ∈ s.standbyRefills ++ rf :: rest := by simp
  cases call with
  | none =>
      refine ⟨hI.decided.mono rfl rfl (fun _ => id) (fun _ => List.mem_cons_of_mem _), hI.known,
        fun rf' hrf => hI.refills rf' ?_⟩
      exact List.mem_append.2 ((List.mem_append.1 hrf).imp_right (List.mem_cons_of_mem _))
  | some i =>
      obtain ⟨hknown, hrefills⟩ := hI.checkRefill hr i
      have hrejected : Rejected (.killed rf.handle :: .checked rf.handle (some i) :: s.log)
          rf.handle := ⟨hr.admitted.refills rf hmem, Or.inr List.mem_cons_self⟩
      exact ⟨hI.decided.reject rfl rfl (fun _ => id) (fun _ => List.mem_cons_of_mem _)
        (hI.refills rf hmem).1 (hcall i rfl) hrejected, hknown, hrefills⟩

theorem Move.answered {a b : Point σ} (hr : Reach w a) (h : Move w a b) (hI : a.Answered w) :
    b.Answered w := by
  cases h with
  | vacate s p slot hslot hwhy =>
      have hanswers : readinessAnswers (s.vacate slot).log = readinessAnswers s.log :=
        filterMap_vacate (fun _ => rfl) s slot
      have hchecks := answeredChecks_vacate s slot
      have hcon : constructed (s.vacate slot).log = constructed s.log := constructed_vacate s slot
      refine ⟨hI.decided.mono hanswers hchecks (fun hd hin => ?_) (fun hd hin => ?_), ?_, ?_⟩
      · obtain ⟨exc, hev⟩ := mem_abandoned.1 hin
        exact mem_abandoned.2 ⟨exc, List.mem_append_right _ hev⟩
      · exact mem_killed.2 (List.mem_append_right _ (mem_killed.1 hin))
      · exact hchecks ▸ hcon ▸ hI.known
      · exact hchecks ▸ hI.refills
  | promote s p slot h s' time hslot hempty hpool hs' =>
      have hnew := hI.fresh hr
      exact hs'.answered hnew ⟨hI.decided, hI.known, hI.refills⟩
  | install s p slot healthy hslot hempty call hcall =>
      obtain ⟨hlate, hunchecked⟩ := hI.fresh hr slot
      obtain ⟨hknown, hrefills⟩ := hI.check hr slot call
      exact ⟨hI.decided.admission rfl rfl rfl rfl hunchecked ⟨hcall.1, Or.inr hcall.2⟩, hknown,
        hrefills⟩
  | abandon s p slot exc call hcall =>
      obtain ⟨hlate, hunchecked⟩ := hI.fresh hr slot
      have hnot : s.freshHandle slot ∉ admissions s.log := fun hin =>
        lt_irrefl _ (hr.counted.fresh _ (hr.admitted.constructed _ hin))
      obtain ⟨hknown, hrefills⟩ := hI.check hr slot call
      exact ⟨hI.decided.reject rfl rfl (fun _ => List.mem_cons_of_mem _) (fun _ => id) hlate hcall
        ⟨hnot, Or.inl List.mem_cons_self⟩, hknown, hrefills⟩
  | poll s =>
      have hrefills := hI.refills
      simp only [Phase.refills, List.append_nil] at hrefills
      exact ⟨hI.decided, hI.known, hrefills⟩
  | keep s rf rest =>
      refine ⟨hI.decided, hI.known, fun rf' hrf => hI.refills rf' ?_⟩
      simpa [Phase.refills] using hrf
  | join s rf rest healthy time call hcall =>
      obtain ⟨-, hunchecked⟩ := hI.refills rf (by simp [Phase.refills])
      obtain ⟨hknown, hrefills⟩ := hI.checkRefill hr call
      exact ⟨hI.decided.admission rfl rfl rfl rfl hunchecked ⟨hcall.1, Or.inr hcall.2⟩, hknown,
        hrefills⟩
  | failRefill s rf rest s' hagain hs' hcall =>
      have hnew := hI.fresh hr
      have hfailed := hI.fail hr hcall
      refine hs'.answered (fun id => ⟨(hnew id).1, fun call' hin => ?_⟩) hfailed
      exact lt_irrefl _ (hr.counted.fresh _ (hfailed.known _ hin))
  | giveUpRefill s rf rest hlast call hcall => exact hI.fail hr hcall
  | _ => exact ⟨hI.decided.mono rfl rfl (fun _ => id) (fun _ => id), hI.known, hI.refills⟩

/-- The init barrier admits every actor it has an answer of. -/
theorem awaitHealthy_answers (hs : List Handle) (s s' : Sys σ) (h : awaitHealthy w hs s = .ok s') :
    ∃ news : List (Handle × Nat × Bool), (∀ x ∈ news, (w.env x.2.1).health = .ok x.2.2) ∧
      readinessAnswers s'.log = news.map (fun x => (x.1, x.2.2)) ++ readinessAnswers s.log ∧
      answeredChecks s'.log = news.map (fun x => (x.1, x.2.1)) ++ answeredChecks s.log := by
  induction hs generalizing s with
  | nil =>
      simp only [awaitHealthy, Except.ok.injEq] at h
      subst h
      exact ⟨[], by simp, rfl, rfl⟩
  | cons hd hs ih =>
      simp only [awaitHealthy] at h
      split at h
      · cases h
      · next healthy hhealth =>
          obtain ⟨news, hnews, hanswers, hchecks⟩ := ih _ h
          refine ⟨news ++ [(hd, s.ray.step, healthy)], fun x hx => ?_, ?_, ?_⟩
          · rcases List.mem_append.1 hx with hx | hx
            · exact hnews x hx
            · rw [List.mem_singleton.1 hx]
              exact hhealth
          · rw [hanswers, List.map_append, List.append_assoc]
            rfl
          · rw [hchecks, List.map_append, List.append_assoc]
            rfl

theorem createWorkers_answers {s : Sys σ} (h : createWorkers w (Sys.initial w) = .ok s) :
    ∃ news : List (Handle × Nat × Bool), (∀ x ∈ news, (w.env x.2.1).health = .ok x.2.2) ∧
      readinessAnswers s.log = news.map (fun x => (x.1, x.2.2)) ∧
      answeredChecks s.log = news.map (fun x => (x.1, x.2.1)) := by
  obtain ⟨workers, s₁, standbys, s₂, s₃, s₄, h₁, h₂, h₃, h₄, rfl⟩ := createWorkers_phases h
  obtain ⟨-, -, -, hlog₄⟩ := validateAll_spec _ _ _ h₄
  have hnone : readinessAnswers s₂.log = [] ∧ answeredChecks s₂.log = [] := by
    have hanswers : readinessAnswers s₁.log = [] :=
      constructAll_keeps (fun s => readinessAnswers s.log) (fun _ _ => rfl) h₁
    have hchecks : answeredChecks s₁.log = [] :=
      constructAll_keeps (fun s => answeredChecks s.log) (fun _ _ => rfl) h₁
    exact ⟨(constructAll_keeps (fun s => readinessAnswers s.log) (fun _ _ => rfl) h₂).trans
        hanswers,
      (constructAll_keeps (fun s => answeredChecks s.log) (fun _ _ => rfl) h₂).trans hchecks⟩
  obtain ⟨news, hnews, hanswers, hchecks⟩ := awaitHealthy_answers _ _ _ h₃
  rw [hnone.1, List.append_nil] at hanswers
  rw [hnone.2, List.append_nil] at hchecks
  exact ⟨news, hnews, hlog₄ ▸ hanswers, hlog₄ ▸ hchecks⟩

theorem Reach.answered {pt : Point σ} (h : Reach w pt) : pt.Answered w := by
  refine h.invariant_of_created (I := Point.Answered w) (fun s batches hcreate hbatches => ?_)
    (fun _ _ hr hm hI => hm.answered hr hI)
  have hs := createWorkers_started hcreate
  obtain ⟨news, hnews, hanswers, hchecks⟩ := createWorkers_answers hcreate
  have hconstructed : ∀ x ∈ news, x.1 ∈ constructed s.log := by
    intro x hx
    rw [constructed_start hs, ← createWorkers_admissions hcreate, admissions, hanswers,
      List.map_map]
    exact List.mem_map_of_mem hx
  have hearly : ∀ x ∈ news, w.cfg.Early x.1 := by
    intro x hx
    have hlt := (Reach.counted ⟨s, hcreate, batches, hbatches, .refl⟩).fresh x.1 (hconstructed x hx)
    exact lt_of_lt_of_eq hlt hs.nextActor
  have hlets : ∀ x ∈ news, w.LetsIn x.1 x.2.1 x.2.2 :=
    fun x hx => ⟨hnews x hx, Or.inl (hearly x hx)⟩
  refine ⟨⟨fun x hx => ?_, fun x hx => ?_⟩, fun x hx => ?_, fun rf hrf => ?_⟩
  · replace hx : x ∈ readinessAnswers s.log := hx
    rw [hanswers] at hx
    obtain ⟨y, hy, rfl⟩ := List.mem_map.1 hx
    exact ⟨y.2.1, (hchecks ▸ List.mem_map_of_mem hy : _ ∈ answeredChecks s.log), hlets y hy⟩
  · replace hx : x ∈ answeredChecks s.log := hx
    rw [hchecks] at hx
    obtain ⟨y, hy, rfl⟩ := List.mem_map.1 hx
    exact Or.inl ⟨y.2.2, (hanswers ▸ List.mem_map_of_mem hy : _ ∈ readinessAnswers s.log),
      hlets y hy⟩
  · replace hx : x ∈ answeredChecks s.log := hx
    rw [hchecks] at hx
    obtain ⟨y, hy, rfl⟩ := List.mem_map.1 hx
    exact hconstructed y hy
  · replace hrf : rf ∈ s.standbyRefills ++ [] := hrf
    rw [hs.standbyRefills] at hrf
    cases hrf

/-! ## Only those who say that they are healthy -/

/-- Everyone in a slot or in the pool was admitted after a readiness check, everyone ever admitted
    answered a check with `True`, which is what `_check_and_replace_if_poisoned` asks for, and
    whoever answered one with `False` was rejected like an actor whose check raises. -/
structure Sys.OnlyHealthy (w : World σ) (s : Sys σ) : Prop where
  admitted : ∀ h, some h ∈ s.workers ∨ h ∈ s.standbyPool → h ∈ admissions s.log
  healthy : ∀ h ∈ admissions s.log, ∃ call, Event.checked h (some call) ∈ s.log ∧
    (w.env call).health = .ok true
  unhealthy : ∀ h call, Event.checked h (some call) ∈ s.log → (w.env call).health = .ok false →
    Rejected s.log h

/-- A run admits only healthy workers if and only if no readiness check is answered with `False`,
    unless it is the check of an actor constructed after the startup whose `validate_backend`
    raises. -/
theorem only_healthy_iff {s₀ : Sys σ} (h : startRun w = .ok s₀) (k : Nat) :
    (after w s₀ k).sys.OnlyHealthy w ↔
      ∀ hd call, Event.checked hd (some call) ∈ (after w s₀ k).sys.log →
        (w.env call).health = .ok false →
          w.cfg.nWorkers + w.cfg.standby ≤ hd.actor ∧ (w.env call).validate ≠ none := by
  obtain ⟨p, hr⟩ := (reach_after h k).exists_phase
  have hA := hr.admitted
  have hdecided := hr.answered.decided
  constructor
  · intro honly hd call hchecked hfalse
    have hrejected := honly.unhealthy hd call hchecked hfalse
    rcases hdecided.checked (hd, call) (mem_answeredChecks.2 hchecked) with
      ⟨healthy, hin, -⟩ | ⟨hlate, hrefuses, -⟩
    · exact absurd (List.mem_map_of_mem hin) hrejected.1
    · refine ⟨not_lt.1 hlate, ?_⟩
      rcases hrefuses with ⟨exc, hraised⟩ | ⟨exc, hinvalid⟩
      · rw [hfalse] at hraised
        cases hraised
      · simp [hinvalid]
  · intro hnone
    refine ⟨fun hd hin => hin.elim (hA.slots hd) (hA.pool hd), fun hd hin => ?_,
      fun hd call hchecked hfalse => ?_⟩
    · obtain ⟨⟨_, healthy⟩, hanswer, rfl⟩ := List.mem_map.1 hin
      obtain ⟨call, hcheck, hhealth, hvalid⟩ := hdecided.admitted _ hanswer
      have hchecked := mem_answeredChecks.1 hcheck
      cases healthy with
      | true => exact ⟨call, hchecked, hhealth⟩
      | false =>
          obtain ⟨hlate, hinvalid⟩ := hnone _ call hchecked hhealth
          exact absurd hvalid (not_or.2 ⟨not_lt.2 hlate, hinvalid⟩)
    · obtain ⟨hlate, hinvalid⟩ := hnone hd call hchecked hfalse
      rcases hdecided.checked (hd, call) (mem_answeredChecks.2 hchecked) with
        ⟨healthy, -, -, hvalid⟩ | ⟨-, -, hrejected⟩
      · exact absurd hvalid (not_or.2 ⟨not_lt.2 hlate, hinvalid⟩)
      · exact hrejected

theorem only_healthy_iff_small : ∃ s₀, startRun smallWorld = .ok s₀ ∧
    ((after smallWorld s₀ 2).sys.OnlyHealthy smallWorld ↔
      ∀ hd call, Event.checked hd (some call) ∈ (after smallWorld s₀ 2).sys.log →
        (smallWorld.env call).health = .ok false →
          smallWorld.cfg.nWorkers + smallWorld.cfg.standby ≤ hd.actor ∧
            (smallWorld.env call).validate ≠ none) := by
  obtain ⟨s₀, h⟩ := startRun_small
  exact ⟨s₀, h, only_healthy_iff h 2⟩

/-! ## A worker that says that it is not healthy

One worker, whose batch fails and whose health check then fails; its replacement answers the
readiness check with `False`. -/

/-- Call 8 is the health check of the worker, call 11 the readiness check of its replacement. -/
def unhealthyReply (step : Nat) : Reply :=
  if step = 8 then { promptReply 1 step with health := .error ⟨"GetTimeoutError", "Get timed out"⟩ }
  else if step = 11 then { promptReply 1 step with health := .ok false }
  else promptReply 1 step

def unhealthyWorld : World Unit where
  cfg := leakConfig
  evaluateBatch := failingOn leakConfig (fun _ => true)
  backend := ()
  env := unhealthyReply

/-- The replacement is installed in the slot all the same. -/
theorem unhealthy_admitted : ∃ s₀ s, startRun unhealthyWorld = .ok s₀ ∧
    after unhealthyWorld s₀ 1 = .head s ∧ ∃ hd, some hd ∈ s.workers ∧
      Event.checked hd (some 11) ∈ s.log ∧ (unhealthyWorld.env 11).health = .ok false ∧
      Event.probed hd false ∈ s.log ∧ Event.probed hd true ∉ s.log := by
  obtain ⟨s₀, s, h, hs, hslot, hchecked, hfalse, htrue⟩ :=
    exists_head (w := unhealthyWorld) (k := 1)
      (P := fun s => some ⟨1, 0⟩ ∈ s.workers ∧ (⟨1, 0⟩, 11) ∈ answeredChecks s.log ∧
        (⟨1, 0⟩, false) ∈ readinessAnswers s.log ∧ (⟨1, 0⟩, true) ∉ readinessAnswers s.log)
      (by decide +kernel)
  exact ⟨s₀, s, h, hs, ⟨1, 0⟩, hslot, mem_answeredChecks.1 hchecked, rfl,
    mem_readinessAnswers.1 hfalse, fun hin => htrue (mem_readinessAnswers.2 hin)⟩

end EvalHarness
