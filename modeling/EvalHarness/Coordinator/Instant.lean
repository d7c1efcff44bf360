import EvalHarness.Coordinator.Calm
import EvalHarness.Coordinator.Progress

set_option autoImplicit false

/-! # An instant cluster

The most obliging cluster there is: workers are healthy, calls take no time, and during every call
of the driver each worker executes whatever has been submitted to it. Its runs end, without an
eviction. -/

namespace EvalHarness

variable {σ : Type} {w : World σ}

/-! ## Nothing grows old -/

/-- Where calls take no time nothing grows old: the clock moves only while nothing is in flight. -/
theorem Reach.no_evictions (hcalm : Calm w) (hinstant : ∀ i, (w.env i).elapsed = 0)
    {pt : Point σ} (h : Reach w pt) : evictions pt.sys.log = [] := by
  refine (h.invariant (I := fun pt => evictions pt.sys.log = [] ∧ ∀ ref ∈ pt.sys.active.keys,
    ∀ time, pt.sys.refTimeouts.get? ref = some time → pt.sys.ray.clock ≤ time)
    (fun s batches hs _ => ?_) (fun a b hr hm hI => ?_)).1
  · have hnone : evictions s.log = [] := evictions_start hs
    refine ⟨hnone, ?_⟩
    show ∀ ref ∈ s.active.keys, _
    rw [hs.active]
    exact fun ref href => absurd href List.not_mem_nil
  · obtain ⟨hev, hyoung⟩ := hI
    cases hm with
    | call s p d hd hwhy =>
        refine ⟨hev, fun ref href time htime => ?_⟩
        have hclock := RayState.call_clock w.evaluateBatch (s.reply w) d s.ray
        have helapsed : (s.reply w).elapsed = 0 := hinstant _
        rcases hwhy with rfl | hempty | htrouble
        · show (s.ray.call w.evaluateBatch (s.reply w) 0).clock ≤ time
          rw [hclock, helapsed]
          simpa using hyoung ref href time htime
        · exact absurd (hempty ▸ href : ref ∈ ([] : List ObjectRef)) List.not_mem_nil
        · exact absurd htrouble (hcalm.not_troubled hev)
    | harvest s ref f out hf ho =>
        refine ⟨hev, fun ref' href' time htime => ?_⟩
        replace htime : (s.refTimeouts.erase ref).get? ref' = some time := htime
        have hin : ref' ∈ (s.active.erase ref).keys := href'
        rw [Dict.keys_erase, List.mem_filter, decide_eq_true_iff] at hin
        rw [Dict.get?_erase, if_neg hin.2] at htime
        exact hyoung ref' hin.1 time htime
    | evict s ref f now submittedAt hf hage hnow htime =>
        -- nothing in flight grows old, and the threshold is positive
        refine absurd ?_ hage
        have hpos : (0 : ℚ) < w.cfg.hangThresholdS :=
          lt_of_lt_of_le (by norm_num [hangThresholdMinS]) (le_max_left _ _)
        cases hsub : s.refTimeouts.get? ref with
        | none =>
            simp only [hsub, Option.getD_none] at htime
            simpa [← htime] using hpos
        | some time =>
            simp only [hsub, Option.getD_some] at htime
            have hle := hyoung ref (Dict.mem_keys_of_get? hf) time hsub
            replace hle : s.ray.clock ≤ time := hle
            linarith
    | submit s slot e h time hh htime =>
        refine ⟨hev, fun ref href time' htime' => ?_⟩
        replace htime' : (s.refTimeouts.set (s.freshRef h) time).get? ref = some time' := htime'
        show s.ray.clock ≤ time'
        rw [Dict.get?_set] at htime'
        split at htime'
        · rwa [← Option.some.inj htime']
        · next hne =>
            have hin :
                ref ∈ (s.active.set (s.freshRef h) ⟨slot, e.batch, e.retryCount⟩).keys := href
            rw [Dict.keys_set, if_neg (hr.fresh.freshRef_notMem h)] at hin
            rcases List.mem_append.1 hin with hin | hin
            · exact hyoung ref hin time' htime'
            · exact absurd (List.mem_singleton.1 hin) hne
    | vacate s p slot hslot hwhy => exact absurd hwhy (hcalm.not_troubled hev)
    | promote s p slot h s' time hslot hempty hpool hs' => cases hs' <;> exact ⟨hev, hyoung⟩
    | failRefill s rf rest s' hagain hs' => cases hs' <;> exact ⟨hev, hyoung⟩
    | _ => exact ⟨hev, hyoung⟩

/-! ## Everything is executed at once -/

theorem Reach.nextCall_eq {pt : Point σ} (h : Reach w pt) :
    pt.sys.nextCall = (dispatches pt.sys.log).length := by
  refine h.invariant (I := fun pt => pt.sys.nextCall = (dispatches pt.sys.log).length)
    (fun s batches hs _ => ?_) (fun a b hr hm hI => ?_)
  · show s.nextCall = (dispatches s.log).length
    rw [dispatches_start hs, hs.nextCall]
    rfl
  · cases hm with
    | submit s slot e h time hh => exact congrArg (· + 1) hI
    | vacate s p slot hslot hwhy =>
        show s.nextCall = (dispatches (s.vacate slot).log).length
        rw [dispatches_vacate]
        exact hI
    | promote s p slot h s' time hslot hempty hpool hs' => cases hs' <;> exact hI
    | failRefill s rf rest s' hagain hs' => cases hs' <;> exact hI
    | _ => exact hI

/-- How many calls a run can submit. -/
def Config.maxCalls (cfg : Config) : Nat := (cfg.maxBudget + 1) * cfg.tasks.length

/-- The refs of a calm run are known beforehand. -/
theorem Reach.ref_known (hcalm : Calm w) {pt : Point σ} (h : Reach w pt)
    (hev : evictions pt.sys.log = []) {ref : ObjectRef} (href : ref ∈ pt.sys.active.keys) :
    ∃ a < w.cfg.nWorkers, ref.worker = startHandle a ∧ ref.call < w.cfg.maxCalls := by
  obtain ⟨f, hf⟩ := Option.isSome_iff_exists.1 ((pt.sys.active.get?_isSome_iff ref).2 href)
  have hworker := h.disciplined.installed ref f hf
  rw [h.workers_eq hcalm hev, List.getElem?_map, Option.map_eq_some_iff] at hworker
  obtain ⟨a, ha, heq⟩ := hworker
  refine ⟨a, List.mem_range.1 (List.mem_of_getElem? ha), (Option.some.inj heq).symm, ?_⟩
  calc ref.call < pt.sys.nextCall := h.fresh ref href
    _ = (dispatches pt.sys.log).length := h.nextCall_eq
    _ ≤ w.cfg.maxCalls := h.dispatches_le

/-- A reply that takes no time and lets the first `n` actors execute their calls up to the given
    number. -/
def instantReply (n calls : Nat) : Reply where
  finished := (List.range n).flatMap (fun a =>
    (List.range calls).map (fun call => ⟨startHandle a, call⟩))

/-- The world of an instant cluster. -/
def World.Instant (w : World σ) : Prop :=
  ∀ i, w.env i = instantReply w.cfg.nWorkers w.cfg.maxCalls

theorem World.Instant.calm (h : w.Instant) : Calm w :=
  ⟨fun i => by rw [h i]; rfl, fun i => by rw [h i]; rfl⟩

theorem World.Instant.no_evictions (h : w.Instant) {pt : Point σ} (hr : Reach w pt) :
    evictions pt.sys.log = [] :=
  hr.no_evictions h.calm (fun i => by rw [h i]; rfl)

/-- The run of an instant cluster ends, without an eviction. -/
theorem World.Instant.ends (h : w.Instant) {s₀ : Sys σ} (hs₀ : startRun w = .ok s₀) :
    Fair w s₀ ∧ ∃ k, (∀ s, after w s₀ k ≠ .head s) ∧ evictions (after w s₀ k).sys.log = [] := by
  have hfair : Fair w s₀ := by
    refine Fair.of_finished hs₀ (fun k s hs ref href i => ?_)
    have hr : Reach w ⟨s, .idle⟩ := by
      have hreached := reach_after hs₀ k
      rwa [hs] at hreached
    obtain ⟨a, ha, hworker, hcall⟩ := hr.ref_known h.calm (h.no_evictions hr) href
    rw [h i]
    refine List.mem_flatMap.2 ⟨a, List.mem_range.2 ha, List.mem_map.2 ⟨ref.call,
      List.mem_range.2 hcall, ?_⟩⟩
    rw [← hworker]
  obtain ⟨k, hk⟩ := hfair.ends hs₀
  refine ⟨hfair, k, hk, ?_⟩
  obtain ⟨p, hr⟩ := (reach_after hs₀ k).exists_phase
  exact h.no_evictions hr

end EvalHarness
