import EvalHarness.Coordinator.Fate
import EvalHarness.Coordinator.Progress

set_option autoImplicit false

/-! # How often batches are split

A split turns one batch into two and a record takes one away, so at any moment the splits so far are
the batches there are, recorded ones included, less the batches of the start. When a calm run has
exited, the recorded batches are the leaves of its forest, and so the number of splits is fixed by
the plan as well. -/

namespace EvalHarness

open Ledger

variable {σ : Type} {w : World σ}

/-- How many batches the driver holds. -/
def Phase.holds : Phase → Nat
  | .spread _ _ entries => entries.length
  | .fetched .. | .lost .. | .taken .. => 1
  | .idle | .free _ | .polling _ | .over => 0

/-- How many batches are not recorded yet, before the abort. -/
def Point.openBatches (pt : Point σ) : Nat := pt.sys.load + pt.phase.holds

/-- Every batch there is, recorded or not, is one of the start or due to a split. -/
def Point.Balanced (w : World σ) (pt : Point σ) : Prop :=
  (recordings pt.sys.log).length + pt.openBatches = w.cfg.batches.length + pt.sys.splitCount

theorem retryEntries_length (batch : Batch) (rc : Nat) :
    (retryEntries batch rc).length
      = 1 + if 1 < (retryEntries batch rc).length then 1 else 0 := by
  unfold retryEntries
  split <;> simp

/-- What a step does to the batches: those it records, opens and splits off balance. -/
theorem Point.Balanced.step {a b : Point σ} (h : a.Balanced w)
    (heq : (recordings b.sys.log).length + b.openBatches + a.sys.splitCount
      = (recordings a.sys.log).length + a.openBatches + b.sys.splitCount) : b.Balanced w := by
  unfold Point.Balanced at h ⊢
  omega

theorem Move.balanced {a b : Point σ} (hr : Reach w a) (hm : Move w a b) (hover : b.phase ≠ .over)
    (h : a.Balanced w) : b.Balanced w := by
  cases hm with
  | harvest s ref f out hf ho =>
      have hlen := entries_length_erase hf
      refine h.step ?_
      simp [Point.openBatches, Tables.load, Phase.holds, Sys.dropRef, Sys.emit, recordings, ← hlen]
      omega
  | evict s ref f now submittedAt hf hage =>
      have hlen := entries_length_erase hf
      refine h.step ?_
      simp [Point.openBatches, Tables.load, Phase.holds, Sys.dropRef, Sys.emit, recordings, ← hlen]
      omega
  | submit s slot e hd time hh =>
      have hnew := s.active.entries_set_of_not_mem ⟨slot, e.batch, e.retryCount⟩
        (hr.fresh.freshRef_notMem hd : s.freshRef hd ∉ s.active.keys)
      refine h.step ?_
      simp [Point.openBatches, Tables.load, Phase.holds, Sys.launch, Sys.stamp, Sys.emit,
        recordings,
        hnew]
      omega
  | complete s ref f rows =>
      refine h.step ?_
      simp [Point.openBatches, Tables.load, Phase.holds, Sys.handOver, Sys.countCompleted, Sys.emit,
        recordings]
      omega
  | condemn s f reason b hb hgate =>
      refine h.step ?_
      simp [Point.openBatches, Tables.load, Phase.holds, Sys.handOver, Sys.countFailed, Sys.emit,
        recordings]
      omega
  | retry s f reason b hb hgate =>
      -- a split is counted, and makes one batch more
      have hlen := retryEntries_length f.batch f.retryCount
      refine h.step ?_
      simp [Point.openBatches, Tables.load, Phase.holds, countedRetryEntries]
      omega
  | defer s f e rest delay jitter hdelay =>
      refine h.step ?_
      simp [Point.openBatches, Tables.load, Phase.holds, Sys.countRetried]
      omega
  | requeue s f entries =>
      refine h.step ?_
      simp [Point.openBatches, Tables.load, Phase.holds, Sys.countRetried]
      omega
  | wakeUp s now =>
      refine h.step ?_
      have hload := Tables.load_wakeUp s now
      simp only [Point.openBatches, hload]
      rfl
  | claim s slot e rest hp hslot hlive =>
      refine h.step ?_
      simp [Point.openBatches, Tables.load, Phase.holds, hp]
      omega
  | take s slot e rest hp =>
      refine h.step ?_
      simp [Point.openBatches, Tables.load, Phase.holds, hp]
      omega
  | bounce s slot e hh =>
      refine h.step ?_
      simp [Point.openBatches, Tables.load, Phase.holds]
      omega
  | vacate s p slot hslot hwhy =>
      refine h.step ?_
      rw [show (⟨s.vacate slot, p⟩ : Point σ).sys = s.vacate slot from rfl, recordings_vacate]
      rfl
  | abort s hdead => exact absurd rfl hover
  | promote s p slot h' s' time hslot hempty hpool hs' => cases hs' <;> exact h
  | failRefill s rf rest s' hagain hs' => cases hs' <;> exact h
  | _ => exact h

theorem Move.not_over {a b : Point σ} (hm : Move w a b) (hover : b.phase ≠ .over) :
    a.phase ≠ .over := by
  cases hm <;> first | exact hover | simp

/-- Until the abort, every batch there is is one of the start or due to a split. -/
theorem Reach.balanced {pt : Point σ} (h : Reach w pt) : pt.phase ≠ .over → pt.Balanced w := by
  refine h.invariant (I := fun pt => pt.phase ≠ .over → pt.Balanced w)
    (fun s batches hs hbatches _ => ?_) (fun a b hr hm hI hover => ?_)
  · simp [Point.Balanced, Point.openBatches, Tables.load, Phase.holds, recordings_start hs,
      hs.deferred, hs.active, hs.splitCount, Dict.empty, Config.batches_eq hbatches]
  · exact hm.balanced hr hover (hI (hm.not_over hover))

/-! ## The recorded batches -/

section

variable {kind : FailureKind} {fails : Batch → Nat → Prop} {agrees : σ → (Batch → Nat) → Prop}

/-- A batch that is recorded while its job is a node is a leaf. -/
theorem leaf_of_recorded {a b : Point σ} (hb : Grown (w.cfg.rules kind fails) w.cfg.gate b.ledger)
    (ha : Grown (w.cfg.rules kind fails) w.cfg.gate a.ledger) (hC : Consistent w.cfg.gate a.ledger)
    {x : Placed TaskRef} (hx : x ∈ a.ledger.placed) (hcount : x.dispatches = x.job.losses + 1)
    (hsame : dispatches b.sys.log = dispatches a.sys.log)
    (hrec : ∃ cause, (cause, x.job.tasks) ∈ recordings b.sys.log) :
    ∃ j n, (w.cfg.rules kind fails).Leaf j n ∧ j.tasks = x.job.tasks := by
  obtain ⟨cause, hrec⟩ := hrec
  obtain ⟨hne, hseen⟩ := hC.placed x hx
  obtain ⟨t, ht⟩ := List.exists_mem_of_ne_nil _ hne
  obtain ⟨j, n, hleaf, htj, hdispatched, -⟩ :=
    hb.settled cause.verdict t (mem_settled.2 ⟨cause, _, hrec, ht, rfl⟩)
  obtain ⟨n', hnode, -⟩ := ha.placed x hx
  have hdepth : j.losses = x.job.losses := by
    have hledger : b.ledger.dispatchCount t = a.ledger.dispatchCount t := by
      show Multiset.countP _ (flightJobs (dispatches b.sys.log)) = _
      rw [hsame]
      rfl
    have := (hseen t ht).2
    omega
  obtain ⟨rfl, rfl⟩ := hleaf.node.unique hnode (w.cfg.rules_proper kind fails) htj ht hdepth
  exact ⟨_, _, hleaf, rfl⟩

theorem Reach.recorded_leaf (hplan : FaultPlan w kind fails agrees) (hcalm : Calm w)
    (hn : 0 < w.cfg.nWorkers) {pt : Point σ} (h : Reach w pt) (hev : evictions pt.sys.log = []) :
    ∀ r ∈ recordings pt.sys.log, ∃ j n, (w.cfg.rules kind fails).Leaf j n ∧ j.tasks = r.2 := by
  refine h.invariant_of_no_evictions (I := fun pt => ∀ r ∈ recordings pt.sys.log,
    ∃ j n, (w.cfg.rules kind fails).Leaf j n ∧ j.tasks = r.2)
    (fun s batches hs _ => ?_) (fun a b hr hm heva hevb hI => ?_) hev
  · show ∀ r ∈ recordings s.log, _
    simp [recordings_start hs]
  · have hgrown := hr.grown hplan hcalm hn heva
    have hgrown' := (hr.step hm).grown hplan hcalm hn hevb
    cases hm with
    | complete s ref f rows =>
        have hrunning : (⟨s, .fetched ref f (.ok rows)⟩ : Point σ).ledger.running
            = f.job ::ₘ flightJobs (s.active.values ++ []) := flightJobs_snoc _ _
        have hx := Book.placed_of_running hrunning ▸ Multiset.mem_cons_self _ _
        exact List.forall_mem_cons.2 ⟨leaf_of_recorded hgrown' hgrown hr.consistent hx rfl rfl
          ⟨.completed, List.mem_cons_self⟩, hI⟩
    | condemn s f reason b hb hgate =>
        have hlost : (⟨s, .lost f reason⟩ : Point σ).ledger.lost = (f.job, reason) ::ₘ 0 := rfl
        have hx := Book.placed_of_lost hlost ▸ Multiset.mem_cons_self _ _
        exact List.forall_mem_cons.2 ⟨leaf_of_recorded hgrown' hgrown hr.consistent hx rfl rfl
          ⟨causeOf reason, List.mem_cons_self⟩, hI⟩
    | abort s hdead => exact absurd rfl ((hr.step (.abort s hdead)).not_over hcalm hevb hn)
    | vacate s p slot hslot hwhy => exact absurd hwhy (hcalm.not_troubled heva)
    | promote s p slot h s' time hslot hempty hpool hs' => cases hs' <;> exact hI
    | failRefill s rf rest s' hagain hs' => cases hs' <;> exact hI
    | _ => exact hI

/-- What a calm run that has exited leaves: every task is in one recorded batch, these batches are
    leaves, and their number says how often batches were split. -/
structure Recorded (w : World σ) (R : Rules TaskRef) (s : Sys σ) (bs : List Batch) : Prop where
  leaves : ∀ b ∈ bs, ∃ j n, R.Leaf j n ∧ j.tasks = b
  tasks : bs.flatten.Perm (List.range w.cfg.tasks.length)
  splits : bs.length = w.cfg.batches.length + s.splitCount

theorem Reach.recorded (hplan : FaultPlan w kind fails agrees) (hcalm : Calm w)
    (hn : 0 < w.cfg.nWorkers) {s : Sys σ} (h : Reach w ⟨s, .idle⟩) (hev : evictions s.log = [])
    (hidle : s.idle) :
    Recorded w (w.cfg.rules kind fails) s ((recordings s.log).map Prod.snd) := by
  have hload := (Tables.idle_iff_load s.toTables).1 hidle
  refine ⟨fun b hb => ?_, ?_, ?_⟩
  · obtain ⟨r, hr, rfl⟩ := List.mem_map.1 hb
    exact h.recorded_leaf hplan hcalm hn hev r hr
  · have hfaults := h.recordFaults_nil hcalm.recording
    have hperm := h.conserved hfaults
    have hheld : s.heldTasks = [] := by
      simp only [Tables.load, Nat.add_eq_zero_iff, List.length_eq_zero_iff] at hload
      simp [Tables.heldTasks, hload, Dict.values]
    rw [hheld, handedTasks_eq hfaults, List.nil_append] at hperm
    rwa [List.flatMap_def] at hperm
  · have hbalanced : (recordings s.log).length + (s.load + 0)
        = w.cfg.batches.length + s.splitCount := h.balanced (by simp)
    rw [hload] at hbalanced
    simpa using hbalanced

end

/-- Two runs with the same forest split equally often. -/
theorem Recorded.splitCount_eq {τ : Type} {w' : World τ} {R : Rules TaskRef} {s : Sys σ}
    {s' : Sys τ} {bs bs' : List Batch} (hR : R.Proper) (h : Recorded w R s bs)
    (h' : Recorded w' R s' bs') (htasks : w'.cfg.tasks.length = w.cfg.tasks.length)
    (hbatches : w'.cfg.batches = w.cfg.batches) : s'.splitCount = s.splitCount := by
  have hnd : bs.flatten.Nodup := h.tasks.nodup_iff.2 List.nodup_range
  have hperm : bs.flatten.Perm bs'.flatten := h.tasks.trans (htasks ▸ h'.tasks.symm)
  have hlen := (Rules.leaves_perm hR h.leaves h'.leaves hnd hperm).length_eq
  have hsplits := h.splits
  have hsplits' := h'.splits
  rw [hbatches] at hsplits'
  omega

end EvalHarness
