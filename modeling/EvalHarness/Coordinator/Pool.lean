import EvalHarness.Coordinator.Admissions

set_option autoImplicit false

/-! # The standby pool in numbers

The statistics `_standby_summary` reports, against what happened to the pool: promotions take a
standby out, completed refills put one in, and a refill in flight has not done so yet. -/

namespace EvalHarness

variable {σ : Type} {w : World σ}

/-- The sizes in a pool timeline: the first is the configured size, each promotion takes one off,
    each completed refill adds one, and the last is the size now. -/
inductive Timeline (configured : Nat) : List Nat → Nat → Nat → Nat → Prop where
  | start : Timeline configured [configured] configured 0 0
  | promotion {sizes : List Nat} {size promotions completed : Nat}
      (h : Timeline configured sizes (size + 1) promotions completed) :
      Timeline configured (sizes ++ [size]) size (promotions + 1) completed
  | completion {sizes : List Nat} {size promotions completed : Nat}
      (h : Timeline configured sizes size promotions completed) :
      Timeline configured (sizes ++ [size + 1]) (size + 1) promotions (completed + 1)

theorem Timeline.balance {configured size promotions completed : Nat} {sizes : List Nat}
    (h : Timeline configured sizes size promotions completed) :
    size + promotions = configured + completed := by
  induction h with
  | start => rfl
  | promotion _ ih => omega
  | completion _ ih => omega

theorem Timeline.ends {configured size promotions completed : Nat} {sizes : List Nat}
    (h : Timeline configured sizes size promotions completed) :
    sizes.head? = some configured ∧ sizes.getLast? = some size := by
  induction h with
  | start => exact ⟨rfl, rfl⟩
  | promotion _ ih | completion _ ih => simp [List.head?_append, ih.1]

/-- The actors killed without ever having been admitted: the started refills that failed. -/
def failedRefills : List Event → List Handle
  | [] => []
  | .killed h :: earlier =>
      if h ∈ admissions earlier then failedRefills earlier else h :: failedRefills earlier
  | _ :: earlier => failedRefills earlier

/-- The standby statistics in the middle of a run, with the refills the driver holds. -/
structure Point.Pooled (w : World σ) (pt : Point σ) : Prop where
  timeline : Timeline w.cfg.standby (pt.sys.stats.poolTimeline.map Prod.snd)
    pt.sys.standbyPool.length pt.sys.stats.promotions pt.sys.stats.refillsCompleted
  started : pt.sys.stats.refillsStarted = pt.sys.stats.refillsCompleted
    + (pt.sys.standbyRefills ++ pt.phase.refills).length + (failedRefills pt.sys.log).length
  failures : (failedRefills pt.sys.log).length ≤ pt.sys.stats.refillFailures
  ids : pt.sys.nextWorkerId = w.cfg.nWorkers + w.cfg.standby + pt.sys.stats.refillsStarted
  refillIds : ∀ h ∈ (pt.sys.standbyRefills ++ pt.phase.refills).map Refill.handle
      ++ failedRefills pt.sys.log, w.cfg.nWorkers + w.cfg.standby ≤ h.workerId

theorem Refilled.pooled {attempt : Nat} {s s' : Sys σ} {p : Phase} (h : Refilled attempt s s')
    (hI : Point.Pooled w ⟨s, p⟩) : Point.Pooled w ⟨s', p⟩ := by
  cases h with
  | refused => exact ⟨hI.timeline, hI.started, Nat.le_succ_of_le hI.failures, hI.ids, hI.refillIds⟩
  | started time =>
      have hstarted := hI.started
      refine ⟨hI.timeline, ?_, hI.failures, congrArg (· + 1) hI.ids, fun h hin => ?_⟩
      · show s.stats.refillsStarted + 1 = s.stats.refillsCompleted
          + ((s.standbyRefills ++ [_]) ++ p.refills).length + (failedRefills s.log).length
        simp only [List.length_append, List.length_cons, List.length_nil] at hstarted ⊢
        omega
      · let rf : Refill := ⟨s.freshHandle s.nextWorkerId, time, attempt⟩
        replace hin : h ∈ ((s.standbyRefills ++ [rf]) ++ p.refills).map Refill.handle
          ++ failedRefills s.log := hin
        have hids : s.nextWorkerId = _ := hI.ids
        have hold := hI.refillIds h
        simp only [List.map_append, List.mem_append, List.map_cons, List.map_nil,
          List.mem_singleton] at hin hold
        rcases hin with ((hin | rfl) | hin) | hin
        · exact hold (Or.inl (Or.inl hin))
        · show _ ≤ s.nextWorkerId
          omega
        · exact hold (Or.inl (Or.inr hin))
        · exact hold (Or.inr hin)

/-- A refill that fails is one more that has failed, in flight no longer. -/
theorem Point.Pooled.fail {s : Sys σ} {rf : Refill} {rest : List Refill} (call : Option Nat)
    (hA : Point.Admitted ⟨s, .polling (rf :: rest)⟩)
    (hI : Point.Pooled w ⟨s, .polling (rf :: rest)⟩) :
    Point.Pooled w ⟨(s.emit (.checked rf.handle call)).countRefillFailure.emit
      (.killed rf.handle), .polling rest⟩ := by
  have hnew : rf.handle ∉ admissions s.log :=
    hA.refills rf (List.mem_append_right _ List.mem_cons_self)
  have hfailed : failedRefills (.killed rf.handle :: s.log) = rf.handle :: failedRefills s.log :=
    if_neg hnew
  have hstarted := hI.started
  have hfailures := hI.failures
  refine ⟨hI.timeline, ?_, ?_, hI.ids, fun h hin => hI.refillIds h ?_⟩
  · show s.stats.refillsStarted = s.stats.refillsCompleted
      + (s.standbyRefills ++ rest).length + (failedRefills (.killed rf.handle :: s.log)).length
    rw [hfailed]
    simp only [Phase.refills, List.length_append, List.length_cons] at hstarted ⊢
    omega
  · show (failedRefills (.killed rf.handle :: s.log)).length ≤ s.stats.refillFailures + 1
    rw [hfailed]
    exact Nat.succ_le_succ hfailures
  · replace hin : h ∈ (s.standbyRefills ++ rest).map Refill.handle
      ++ failedRefills (.killed rf.handle :: s.log) := hin
    rw [hfailed] at hin
    simp only [Phase.refills, List.map_append, List.map_cons, List.mem_append, List.mem_cons]
      at hin ⊢
    tauto

theorem Move.pooled {a b : Point σ} (hr : Reach w a) (h : Move w a b) (hI : a.Pooled w) :
    b.Pooled w := by
  cases h with
  | vacate s p slot hslot hwhy =>
      have hfailed : failedRefills (s.vacate slot).log = failedRefills s.log := by
        show failedRefills ((((s.workers[slot]?).join).map Event.killed).toList ++ s.log) = _
        cases hh : (s.workers[slot]?).join with
        | none => rfl
        | some old =>
            -- whoever was in the slot has been admitted
            have hin : old ∈ admissions s.log :=
              hr.admitted.slots old (List.mem_of_getElem? (Option.join_eq_some_iff.1 hh))
            exact if_pos hin
      exact ⟨hI.timeline, hfailed ▸ hI.started, hfailed ▸ hI.failures, hI.ids,
        hfailed ▸ hI.refillIds⟩
  | promote s p slot h s' time hslot hempty hpool hs' =>
      refine hs'.pooled ⟨?_, hI.started, hI.failures, hI.ids, hI.refillIds⟩
      have hlast : s.standbyPool.dropLast ++ [h] = s.standbyPool :=
        List.dropLast_append_getLast? h hpool
      have hlen : s.standbyPool.length = s.standbyPool.dropLast.length + 1 := by
        rw [← hlast]
        simp
      have htimeline := hI.timeline
      simp only [hlen] at htimeline
      simpa [Sys.samplePool, Sys.promote] using htimeline.promotion
  | poll s =>
      have hstarted := hI.started
      have hids := hI.refillIds
      simp only [Phase.refills, List.append_nil] at hstarted hids
      exact ⟨hI.timeline, hstarted, hI.failures, hI.ids, hids⟩
  | keep s rf rest =>
      have hstarted := hI.started
      have hids := hI.refillIds
      refine ⟨hI.timeline, hstarted.trans ?_, hI.failures, hI.ids, fun h hin => hids h ?_⟩
      · simp [Phase.refills]
      · simpa [Phase.refills] using hin
  | join s rf rest healthy time =>
      have hstarted := hI.started
      refine ⟨?_, ?_, hI.failures, hI.ids, fun h hin => hI.refillIds h ?_⟩
      · simpa [Sys.samplePool, Sys.joinPool, Sys.emit] using hI.timeline.completion
      · show s.stats.refillsStarted = s.stats.refillsCompleted + 1
          + (s.standbyRefills ++ rest).length + (failedRefills s.log).length
        simp only [Phase.refills, List.length_append, List.length_cons] at hstarted ⊢
        omega
      · replace hin : h ∈ (s.standbyRefills ++ rest).map Refill.handle ++ failedRefills s.log := hin
        simp only [Phase.refills, List.map_append, List.map_cons, List.mem_append, List.mem_cons]
          at hin ⊢
        tauto
  | failRefill s rf rest s' hagain hs' => exact hs'.pooled (hI.fail _ hr.admitted)
  | giveUpRefill s rf rest hlast call => exact hI.fail call hr.admitted
  | _ => exact ⟨hI.timeline, hI.started, hI.failures, hI.ids, hI.refillIds⟩

theorem failedRefills_start {s : Sys σ} (hs : Started w s) : failedRefills s.log = [] := by
  have hskip : ∀ log : List Event, killed log = [] → failedRefills log = [] := by
    intro log
    induction log with
    | nil => exact fun _ => rfl
    | cons e earlier ih =>
        intro hk
        cases e with
        | killed h => cases hk
        | _ => exact ih hk
  exact hskip s.log (filterMap_start hs (fun _ => rfl) (fun _ _ => rfl))

theorem Reach.pooled {pt : Point σ} (h : Reach w pt) : pt.Pooled w := by
  refine h.invariant (I := Point.Pooled w) (fun s batches hs _ => ?_)
    (fun _ _ hr hm hI => hm.pooled hr hI)
  obtain ⟨time, hstats⟩ := hs.stats
  have hfailed := failedRefills_start hs
  refine ⟨?_, ?_, ?_, ?_, ?_⟩
  · show Timeline _ (s.stats.poolTimeline.map Prod.snd) s.standbyPool.length _ _
    rw [hstats, hs.standbyPool, List.length_map, List.length_range']
    exact .start
  · show s.stats.refillsStarted = s.stats.refillsCompleted + (s.standbyRefills ++ []).length
      + (failedRefills s.log).length
    rw [hstats, hs.standbyRefills, hfailed]
    rfl
  · show (failedRefills s.log).length ≤ _
    rw [hfailed]
    exact Nat.zero_le _
  · show s.nextWorkerId = _ + s.stats.refillsStarted
    rw [hstats, hs.nextWorkerId]
    rfl
  · show ∀ h ∈ (s.standbyRefills ++ []).map Refill.handle ++ failedRefills s.log, _
    rw [hs.standbyRefills, hfailed]
    exact fun h hin => absurd hin List.not_mem_nil

/-! ## At a loop head -/

/-- The pool statistics at a loop head. -/
structure PoolAccounts (w : World σ) (s : Sys σ) : Prop where
  size : (s.standbyPool.length : ℤ)
    = w.cfg.standby - s.stats.promotions + s.stats.refillsCompleted
  bounded : s.standbyPool.length + s.standbyRefills.length ≤ w.cfg.standby
  failed : (s.stats.refillsStarted : ℤ) - s.stats.refillsCompleted - s.standbyRefills.length
    = (failedRefills s.log).length
  refills : ∀ h ∈ failedRefills s.log, w.cfg.nWorkers + w.cfg.standby ≤ h.workerId
  failures : (failedRefills s.log).length ≤ s.stats.refillFailures
  nextWorkerId : s.nextWorkerId = w.cfg.nWorkers + w.cfg.standby + s.stats.refillsStarted
  timeline : Timeline w.cfg.standby (s.stats.poolTimeline.map Prod.snd) s.standbyPool.length
    s.stats.promotions s.stats.refillsCompleted
  first : (s.stats.poolTimeline.map Prod.snd).head? = some w.cfg.standby
  last : (s.stats.poolTimeline.map Prod.snd).getLast? = some s.standbyPool.length

/-- The pool statistics add up at every loop head. -/
theorem pool_accounts {s₀ s : Sys σ} (h : startRun w = .ok s₀) (k : Nat)
    (hs : after w s₀ k = .head s) : PoolAccounts w s := by
  have hreached := reach_after h k
  rw [hs] at hreached
  have hr : Reach w ⟨s, .idle⟩ := hreached
  have hP := hr.pooled
  have hbalance : s.standbyPool.length + s.stats.promotions
    = w.cfg.standby + s.stats.refillsCompleted := hP.timeline.balance
  have hstarted : s.stats.refillsStarted = s.stats.refillsCompleted
    + (s.standbyRefills ++ []).length + (failedRefills s.log).length := hP.started
  have hpool : s.standbyPool.length + (s.standbyRefills ++ []).length ≤ w.cfg.standby :=
    hr.counted.pool
  rw [List.append_nil] at hstarted hpool
  refine
    { size := by omega
      bounded := hpool
      failed := by omega
      refills := fun h hin => hP.refillIds h (List.mem_append_right _ hin)
      failures := hP.failures
      nextWorkerId := hP.ids
      timeline := hP.timeline
      first := hP.timeline.ends.1
      last := hP.timeline.ends.2 }

theorem pool_accounts_small : ∃ s₀ s, startRun smallWorld = .ok s₀ ∧
    after smallWorld s₀ 2 = .head s ∧ PoolAccounts smallWorld s := by
  obtain ⟨s₀, s, h, hs, -⟩ := exists_head (w := smallWorld) (k := 2) (P := fun _ => True)
    (by decide +kernel)
  exact ⟨s₀, s, h, hs, pool_accounts h 2 hs⟩

end EvalHarness
