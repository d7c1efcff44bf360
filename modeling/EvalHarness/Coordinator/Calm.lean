import EvalHarness.Coordinator.Conservation
import EvalHarness.Coordinator.Timeouts

set_option autoImplicit false

/-! # Calm runs

A run is calm when its workers pass every health check, the aggregator takes every batch and the
timeout scan evicts nothing. Then every slot stays live, so the run cannot end by the abort, and the
one thing that can still end it early is a backoff that overflows. -/

namespace EvalHarness

open Ledger

variable {σ : Type} {w : World σ}

/-- Workers pass every health check, and the aggregator takes every batch. -/
structure Calm (w : World σ) : Prop where
  healthy : ∀ i, (w.env i).health = .ok true
  recording : ∀ i, (w.env i).recordFault = none

theorem evictions_eq_nil {log : List Event} :
    evictions log = [] ↔ ∀ ref f resolved, Event.evicted ref f resolved ∉ log := by
  rw [List.eq_nil_iff_forall_not_mem]
  constructor
  · exact fun h ref f resolved hin => h (ref, resolved) (mem_evictions.2 ⟨f, hin⟩)
  · rintro h ⟨ref, resolved⟩ hin
    obtain ⟨f, hf⟩ := mem_evictions.1 hin
    exact h ref f resolved hf

theorem Calm.not_troubled (hcalm : Calm w) {s : Sys σ} (hev : evictions s.log = []) :
    ¬ s.Troubled w := by
  rintro (⟨i, hi⟩ | ⟨ref, f, r, hin⟩)
  · exact hi (hcalm.healthy i)
  · exact evictions_eq_nil.1 hev ref f r hin

/-- Rule of induction for the points of a run without evictions. -/
theorem Reach.invariant_of_no_evictions {I : Point σ → Prop}
    (hstart : ∀ s batches, Started w s →
      makeBatches (List.range w.cfg.tasks.length) w.cfg.batchSize = .ok batches →
      I ⟨{ s with pending := batches.map (fun batch => ⟨batch, 0⟩) }, .idle⟩)
    (hstep : ∀ a b, Reach w a → Move w a b → evictions a.sys.log = [] →
      evictions b.sys.log = [] → I a → I b)
    {pt : Point σ} (h : Reach w pt) (hev : evictions pt.sys.log = []) : I pt := by
  refine h.invariant (I := fun pt => evictions pt.sys.log = [] → I pt)
    (fun s batches hs hb _ => hstart s batches hs hb) (fun a b hr hm hI hev => ?_) hev
  have heva : evictions a.sys.log = [] := evictions_eq_nil_of_suffix hm.log_suffix hev
  exact hstep a b hr hm heva hev (hI heva)

/-! ## No slot dies -/

/-- The slots keep the workers of the start: none is vacated, so there is nothing to fill. -/
theorem Reach.workers_eq (hcalm : Calm w) {pt : Point σ} (h : Reach w pt)
    (hev : evictions pt.sys.log = []) :
    pt.sys.workers = (List.range w.cfg.nWorkers).map (fun k => some (startHandle k)) := by
  refine h.invariant_of_no_evictions
    (I := fun pt =>
      pt.sys.workers = (List.range w.cfg.nWorkers).map (fun k => some (startHandle k)))
    (fun s batches hs _ => hs.workers) (fun a b _ hm hev _ hI => ?_) hev
  -- every slot is taken, so that a write to an empty one is past the end
  have hfull : ∀ (slot : Nat) (x : Option Handle), (a.sys.workers[slot]?).join = none →
      a.sys.workers.set slot x = a.sys.workers := by
    intro slot x hempty
    refine List.set_eq_of_length_le (not_lt.1 (fun hlt => ?_))
    rw [hI, List.length_map] at hlt
    rw [hI, List.getElem?_map, List.getElem?_eq_getElem hlt] at hempty
    cases hempty
  cases hm with
  | vacate s p slot hslot hwhy => exact absurd hwhy (hcalm.not_troubled hev)
  | promote s p slot h s' time hslot hempty hpool hs' =>
      cases hs' <;> exact (hfull slot _ hempty).trans hI
  | install s p slot healthy hslot hempty => exact (hfull slot _ hempty).trans hI
  | failRefill s rf rest s' hagain hs' => cases hs' <;> exact hI
  | _ => exact hI

/-- A calm run with workers is not aborted. -/
theorem Reach.not_over (hcalm : Calm w) {pt : Point σ} (h : Reach w pt)
    (hev : evictions pt.sys.log = []) (hn : 0 < w.cfg.nWorkers) : pt.phase ≠ .over := by
  intro hover
  have hdead := (h.allDead hover).1
  rw [h.workers_eq hcalm hev, List.all_eq_true] at hdead
  have hfirst := hdead _ (List.mem_map_of_mem (List.mem_range.2 hn))
  simp at hfirst

/-- A run that starts has workers. -/
theorem startRun_workers_pos {s₀ : Sys σ} (h : startRun w = .ok s₀) : 0 < w.cfg.nWorkers := by
  have hempty : ∀ s : Sys σ, fillPipeline w [] s = ([], s) := fun s => rfl
  by_contra hzero
  have hn : w.cfg.nWorkers = 0 := by omega
  simp only [startRun, bind, Except.bind, hn, List.range_zero, List.filter_nil, hempty] at h
  split at h
  · cases h
  · next s hcreate =>
      have hactive := (createWorkers_started hcreate).active
      split at h
      · cases h
      · simp [hactive, Dict.empty, Dict.keys] at h

/-! ## Backoffs -/

/-- Without evictions every loss is due to an exception. -/
theorem losses_reason {log : List Event} (hev : evictions log = []) :
    ∀ l ∈ losses log, ∃ exc, l.2 = some exc := by
  intro l hl
  obtain ⟨e, he, heq⟩ := List.mem_filterMap.1 hl
  cases e <;> simp only [Option.some.injEq, reduceCtorEq] at heq
  · exact ⟨_, by rw [← heq]⟩
  · exact absurd he (evictions_eq_nil.1 hev _ _ _)

theorem retryEntries_cons (batch : Batch) (rc : Nat) :
    ∃ e rest, retryEntries batch rc = e :: rest := by
  unfold retryEntries
  split <;> exact ⟨_, _, rfl⟩

/-- Every flight lost by an exception that may go back has a backoff, except the one being put
    back. -/
def Point.Backed (w : World σ) (pt : Point σ) : Prop :=
  ∀ f exc, (f, some exc) ∈ losses pt.sys.log → w.cfg.gate f.job (some exc) →
    f.retryCount < 1024 ∨ pt.phase = .lost f (some exc) ∨
      ∃ e rest, pt.phase = .spread f false (e :: rest)

/-- A loss that the driver holds is the only one that may have no backoff. -/
theorem Point.Backed.lose {a : Point σ} {s : Sys σ} {f : Flight} {reason : Option Exc}
    (h : a.Backed w) (hlosses : losses s.log = (f, reason) :: losses a.sys.log)
    (hidle : a.phase.slot? = none ∨ ∃ ref out, a.phase = .fetched ref f out) :
    Point.Backed w ⟨s, .lost f reason⟩ := by
  intro f' exc hin hgate
  replace hin : (f', some exc) ∈ losses s.log := hin
  rw [hlosses] at hin
  rcases List.mem_cons.1 hin with heq | hold
  · cases heq
    exact Or.inr (Or.inl rfl)
  · refine Or.inl ((h f' exc hold hgate).resolve_right ?_)
    rintro (hlost | ⟨e, rest, hspread⟩)
    · simp [hlost, Phase.slot?] at hidle
    · simp [hspread, Phase.slot?] at hidle

theorem Reach.backed {pt : Point σ} (h : Reach w pt) : pt.Backed w := by
  refine h.invariant (I := Point.Backed w) (fun s batches hs _ => ?_) (fun a b _ hm hI => ?_)
  · intro f exc hin
    replace hin : (f, some exc) ∈ losses s.log := hin
    rw [losses_start hs] at hin
    cases hin
  · cases hm with
    | fail s ref f exc => exact hI.lose rfl (Or.inr ⟨ref, _, rfl⟩)
    | completeFailed s ref f rows i k exc hfault hk => exact hI.lose rfl (Or.inr ⟨ref, _, rfl⟩)
    | evict s ref f now submittedAt hf hage => exact hI.lose rfl (Or.inl rfl)
    | retry s f reason b hb hgate =>
        intro f' exc hin hg
        rcases hI f' exc hin hg with hlt | hlost | ⟨e, rest, hspread⟩
        · exact Or.inl hlt
        · -- the flight at hand: it did not hang, so it is put back with a backoff
          simp only [Phase.lost.injEq] at hlost
          obtain ⟨rfl, rfl⟩ := hlost
          obtain ⟨e, rest, hentries⟩ := retryEntries_cons f.batch f.retryCount
          exact Or.inr (Or.inr ⟨e, rest, by rw [hentries]; rfl⟩)
        · simp at hspread
    | condemn s f reason b hb hgate =>
        intro f' exc hin hg
        replace hin : (f', some exc) ∈ losses s.log := by cases reason <;> exact hin
        rcases hI f' exc hin hg with hlt | hlost | ⟨e, rest, hspread⟩
        · exact Or.inl hlt
        · simp only [Phase.lost.injEq] at hlost
          obtain ⟨rfl, rfl⟩ := hlost
          exact absurd ((Config.gate_iff hb).1 hg) hgate
        · simp at hspread
    | condemnFailed s f reason b hb hgate i k exc hfault => cases reason <;> exact hI
    | defer s f e rest delay jitter hdelay =>
        intro f' exc hin hg
        rcases hI f' exc hin hg with hlt | hlost | ⟨e', rest', hspread⟩
        · exact Or.inl hlt
        · simp at hlost
        · simp only [Phase.spread.injEq] at hspread
          obtain ⟨rfl, -⟩ := hspread
          refine Or.inl (not_le.1 (fun hle => ?_))
          obtain ⟨exc', hexc⟩ := (backoffSeconds_error_iff f.retryCount jitter).2 hle
          rw [hdelay] at hexc
          cases hexc
    | vacate s p slot hslot hwhy =>
        have hsame : losses (s.vacate slot).log = losses s.log :=
          filterMap_vacate (fun _ => rfl) s slot
        intro f exc hin
        exact hI f exc (hsame ▸ hin)
    | promote s p slot h s' time hslot hempty hpool hs' => cases hs' <;> exact hI
    | failRefill s rf rest s' hagain hs' =>
        cases hs' <;> exact fun f exc hin hg => Or.inl ((hI f exc hin hg).resolve_right (by simp))
    | call s p d hd => exact hI
    | fallback s p => exact hI
    | install s p slot healthy hslot hempty => exact hI
    | abandon s p slot exc => exact hI
    | _ => exact fun f exc hin hg => Or.inl ((hI f exc hin hg).resolve_right (by simp))

/-- With nothing being put back, no task has been dispatched more than 1025 times. -/
theorem Reach.dispatchCount_le {s : Sys σ} (h : Reach w ⟨s, .idle⟩)
    (hev : evictions s.log = []) (t : TaskRef) : dispatchCount s.log t ≤ 1025 := by
  have hbounded : Bounded (fun _ => 1024) (⟨s, .idle⟩ : Point σ).ledger := by
    refine h.bounded (fun l hl hgate _ _ => ?_)
    obtain ⟨⟨f, reason⟩, hin, rfl⟩ := List.mem_map.1 (Multiset.mem_coe.1 hl)
    obtain ⟨exc, rfl⟩ : ∃ exc, reason = some exc := losses_reason hev _ hin
    exact (h.backed f exc hin hgate).resolve_right (by simp)
  have hle := hbounded.dispatches t
  rwa [ledger_dispatchCount] at hle

end EvalHarness
