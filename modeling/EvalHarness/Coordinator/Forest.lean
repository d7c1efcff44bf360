import EvalHarness.Coordinator.Splits

set_option autoImplicit false

/-! # The bookkeeping of the retry forest

Three counters (`retry_splits`, `retried`, `completed` and `failed` together) against the batches
there are. Every batch is a slice of the input, because chunking and halving cut slices out of
slices; a split makes one batch more, and putting a lost batch back counts each of its parts. -/

namespace EvalHarness

open Ledger

variable {σ : Type} {w : World σ}

/-! ## Slices -/

/-- A contiguous part of the input, in the order of the input. -/
def Config.Slice (cfg : Config) (batch : Batch) : Prop := batch <:+: List.range cfg.tasks.length

theorem makeBatches_slice {α : Type} {tasks : List α} {b : Nat} {bs : List (List α)}
    (h : makeBatches tasks b = .ok bs) : ∀ batch ∈ bs, batch <:+: tasks := by
  unfold makeBatches at h
  split at h
  · cases h
  · simp only [Except.ok.injEq] at h
    subst h
    intro batch hbatch
    obtain ⟨k, -, rfl⟩ := List.mem_map.1 hbatch
    exact (List.take_prefix b _).isInfix.trans (List.drop_suffix (k * b) tasks).isInfix

/-- There are as many chunks as the input fills, the last one perhaps in part. -/
theorem makeBatches_length {α : Type} {tasks : List α} {b : Nat} {bs : List (List α)}
    (h : makeBatches tasks b = .ok bs) : bs.length = tasks.length ⌈/⌉ b := by
  unfold makeBatches at h
  split at h
  · cases h
  · simp only [Except.ok.injEq] at h
    subst h
    rw [List.length_map, List.length_range, Nat.ceilDiv_eq_add_pred_div]

theorem halves_slice (batch : Batch) : ∀ part ∈ halves batch, part <:+: batch := by
  intro part hpart
  unfold halves retryEntries at hpart
  split at hpart
  · simp only [List.map_cons, List.map_nil, List.mem_singleton] at hpart
    exact hpart ▸ List.infix_rfl
  · simp only [List.map_cons, List.map_nil, List.mem_cons, List.not_mem_nil, or_false] at hpart
    rcases hpart with rfl | rfl
    · exact (List.take_prefix _ batch).isInfix
    · exact (List.drop_suffix _ batch).isInfix

/-- Every batch the driver ever held is a slice of the input. -/
theorem Reach.slices {pt : Point σ} (h : Reach w pt) : pt.ledger.All w.cfg.Slice := by
  obtain ⟨batches, hbatches, hsteps⟩ := h.steps
  exact hsteps.all (fun tasks htasks part hpart => (halves_slice tasks part hpart).trans htasks)
    (Book.start_all (makeBatches_slice hbatches))

/-! ## Recorded batches -/

/-- The batches handed to the aggregator because they ended, not because of the abort. -/
def terminals (log : List Event) : List Batch :=
  ((recordings log).filter (fun r => r.1 ≠ .workersDead)).map Prod.snd

theorem Reach.terminal_slices {pt : Point σ} (h : Reach w pt) :
    ∀ batch ∈ terminals pt.sys.log, w.cfg.Slice batch := by
  refine h.invariant (I := fun pt => ∀ batch ∈ terminals pt.sys.log, w.cfg.Slice batch)
    (fun s batches hs _ => ?_) (fun a b hr hm hI => ?_)
  · show ∀ batch ∈ terminals s.log, _
    simp [terminals, recordings_start hs]
  · cases hm with
    | complete s ref f rows =>
        have hin : f.job ∈ (⟨s, .fetched ref f (.ok rows)⟩ : Point σ).ledger.running := by
          simp [Point.ledger, Phase.heldFlights, flightJobs]
        exact List.forall_mem_cons.2 ⟨hr.slices.running _ hin, hI⟩
    | condemn s f reason b hb hgate =>
        have hin : (f.job, reason) ∈ (⟨s, .lost f reason⟩ : Point σ).ledger.lost := by
          simp [Point.ledger, Phase.lostFlights, lossJob]
        cases reason <;> exact List.forall_mem_cons.2 ⟨hr.slices.lost _ hin, hI⟩
    | vacate s p slot hslot hwhy =>
        show ∀ batch ∈ terminals (s.vacate slot).log, _
        rw [terminals, recordings_vacate]
        exact hI
    | promote s p slot h s' time hslot hempty hpool hs' => cases hs' <;> exact hI
    | failRefill s rf rest s' hagain hs' => cases hs' <;> exact hI
    | _ => exact hI

/-- Before the abort every record is one of a batch that ended. -/
theorem Reach.terminals_eq {pt : Point σ} (h : Reach w pt) (hover : pt.phase ≠ .over) :
    terminals pt.sys.log = (recordings pt.sys.log).map Prod.snd := by
  have hkept : ∀ r ∈ recordings pt.sys.log, r.1 ≠ .workersDead := by
    refine h.invariant (I := fun pt => pt.phase ≠ .over → ∀ r ∈ recordings pt.sys.log,
      r.1 ≠ .workersDead) (fun s batches hs _ _ => ?_) (fun a b _ hm hI hover => ?_) hover
    · show ∀ r ∈ recordings s.log, _
      simp [recordings_start hs]
    · have hI' := hI (hm.not_over hover)
      cases hm with
      | complete s ref f rows => exact List.forall_mem_cons.2 ⟨by simp, hI'⟩
      | condemn s f reason b hb hgate =>
          cases reason <;> exact List.forall_mem_cons.2 ⟨by simp [causeOf], hI'⟩
      | abort s hdead => exact absurd rfl hover
      | vacate s p slot hslot hwhy =>
          show ∀ r ∈ recordings (s.vacate slot).log, _
          rw [recordings_vacate]
          exact hI'
      | promote s p slot h s' time hslot hempty hpool hs' => cases hs' <;> exact hI'
      | failRefill s rf rest s' hagain hs' => cases hs' <;> exact hI'
      | _ => exact hI'
  rw [terminals, List.filter_eq_self.2 (fun r hr => decide_eq_true (hkept r hr))]

/-! ## Re-queue events -/

/-- The flights lost and the batches given up, latest first. -/
def verdicts (log : List Event) : List (Flight ⊕ Batch) :=
  log.filterMap (fun
    | .failed f _ => some (.inl f)
    | .evicted _ f _ => some (.inl f)
    | .recorded (.exception _) batch _ => some (.inr batch)
    | .recorded .hung batch _ => some (.inr batch)
    | _ => none)

/-- The lost flights that went back: all but those given up right after their loss. -/
def putBack : List (Flight ⊕ Batch) → List Flight
  | [] => []
  | .inl f :: before => f :: putBack before
  | .inr _ :: .inl _ :: before => putBack before
  | .inr _ :: before => putBack before

/-- The re-queue events: each failed or hung flight that went back, whole or in halves. -/
def requeues (log : List Event) : List Flight := putBack (verdicts log)

/-- How many entries the driver has still to count as retried. -/
def Phase.owed : Phase → Nat
  | .lost _ _ => 1
  | .spread _ _ entries => entries.length
  | .idle | .fetched .. | .free _ | .taken .. | .polling _ | .over => 0

/-- Every part of a lost batch that went back is counted as retried, a batch that went back in two
    parts is a split, and the driver looks at a lost batch before it loses another one. -/
structure Point.Requeued (pt : Point σ) : Prop where
  count : pt.sys.metrics.retried + pt.phase.owed
    = (requeues pt.sys.log).length + pt.sys.splitCount
  lost : ∀ f reason, pt.phase = .lost f reason →
    ∃ before, verdicts pt.sys.log = .inl f :: before

/-- A loss is a re-queue event until the batch is given up. -/
theorem Point.Requeued.lose {s s' : Sys σ} {p : Phase} {f : Flight} {reason : Option Exc}
    (h : (⟨s, p⟩ : Point σ).Requeued) (hp : p.owed = 0)
    (hlog : verdicts s'.log = .inl f :: verdicts s.log)
    (hmetrics : s'.metrics.retried = s.metrics.retried) (hsplits : s'.splitCount = s.splitCount) :
    (⟨s', .lost f reason⟩ : Point σ).Requeued := by
  refine ⟨?_, fun f' reason' hp' => ?_⟩
  · have hcount : s.metrics.retried + p.owed = (requeues s.log).length + s.splitCount := h.count
    have hrequeues : requeues s'.log = f :: requeues s.log := by rw [requeues, hlog]; rfl
    show s'.metrics.retried + 1 = (requeues s'.log).length + s'.splitCount
    rw [hmetrics, hsplits, hrequeues, List.length_cons]
    omega
  · cases hp'
    exact ⟨_, hlog⟩

/-- Giving a batch up takes its loss off the re-queue events. -/
theorem requeues_condemned {log : List Event} {f : Flight} (reason : Option Exc)
    {before : List (Flight ⊕ Batch)} (h : verdicts log = .inl f :: before) (batch : Batch)
    (rows : List EvalResult) :
    (requeues (.recorded (causeOf reason) batch rows :: log)).length + 1
      = (requeues log).length := by
  have hverdicts : verdicts (.recorded (causeOf reason) batch rows :: log)
      = .inr batch :: verdicts log := by
    cases reason <;> rfl
  simp [requeues, hverdicts, h, putBack]

theorem Move.requeued {a b : Point σ} (hm : Move w a b) (hI : a.Requeued) : b.Requeued := by
  have hcount := hI.count
  cases hm with
  | fail s ref f exc => exact hI.lose rfl rfl rfl rfl
  | completeFailed s ref f rows i k exc hr hk => exact hI.lose rfl rfl rfl rfl
  | evict s ref f now submittedAt hf hage => exact hI.lose rfl rfl rfl rfl
  | retry s f reason b hb hgate =>
      have hlen := retryEntries_length f.batch f.retryCount
      refine ⟨?_, fun f' reason' hp => by cases hp⟩
      simp only [countedRetryEntries, Phase.owed] at hcount ⊢
      omega
  | condemn s f reason b hb hgate =>
      obtain ⟨before, hbefore⟩ := hI.lost f reason rfl
      have hgone := requeues_condemned reason hbefore f.batch
        (w.cfg.condemnedRows f reason)
      refine ⟨?_, fun f' reason' hp => by cases hp⟩
      simp only [Phase.owed, Sys.handOver, Sys.countFailed, Sys.emit] at hcount hgone ⊢
      omega
  | defer s f e rest delay jitter hdelay =>
      refine ⟨?_, fun f' reason' hp => by cases hp⟩
      simp only [Phase.owed, Sys.countRetried, List.length_cons] at hcount ⊢
      omega
  | requeue s f entries =>
      refine ⟨?_, fun f' reason' hp => by cases hp⟩
      simp only [Phase.owed, Sys.countRetried] at hcount ⊢
      omega
  | vacate s p slot hslot hwhy =>
      have hlog : verdicts (s.vacate slot).log = verdicts s.log :=
        filterMap_vacate (fun _ => rfl) s slot
      have hlost := hI.lost
      refine ⟨?_, fun f reason hp => ?_⟩
      · rwa [requeues, hlog]
      · rw [hlog]
        exact hlost f reason hp
  | call s p d hd => exact ⟨hcount, hI.lost⟩
  | fallback s p => exact ⟨hcount, hI.lost⟩
  | install s p slot healthy hslot hempty => exact ⟨hcount, hI.lost⟩
  | abandon s p slot exc => exact ⟨hcount, hI.lost⟩
  | condemnFailed s f reason b hb hgate i k exc hr => exact ⟨hcount, hI.lost⟩
  | promote s p slot h s' time hslot hempty hpool hs' =>
      cases hs' <;> exact ⟨hcount, hI.lost⟩
  | failRefill s rf rest s' hagain hs' =>
      cases hs' <;> exact ⟨hcount, fun f reason hp => by cases hp⟩
  | _ => exact ⟨hcount, fun f reason hp => by cases hp⟩

theorem Reach.requeued {pt : Point σ} (h : Reach w pt) : pt.Requeued := by
  refine h.invariant (I := Point.Requeued) (fun s batches hs _ => ?_)
    (fun _ _ _ hm hI => hm.requeued hI)
  have hnone : verdicts s.log = [] := filterMap_start hs (fun _ => rfl) (fun _ _ => rfl)
  refine ⟨?_, fun f reason hp => by cases hp⟩
  simp [requeues, hnone, putBack, Phase.owed, hs.metrics, hs.splitCount]

/-! ## Counted tasks -/

/-- With one row per task and a `record_batch` that does not raise, the tasks counted as completed
    or failed are the recorded ones. -/
theorem Reach.counted_tasks
    (hworker : ∀ st hd batch rows st', w.evaluateBatch st hd batch = (.ok rows, st') →
      rows.length = batch.length)
    (hrecord : ∀ i, (w.env i).recordFault = none) {pt : Point σ} (h : Reach w pt) :
    pt.sys.metrics.completed + pt.sys.metrics.failed
      = ((recordings pt.sys.log).flatMap Prod.snd).length := by
  refine h.invariant (I := fun pt => pt.sys.metrics.completed + pt.sys.metrics.failed
    = ((recordings pt.sys.log).flatMap Prod.snd).length) (fun s batches hs _ => ?_)
    (fun a b hr hm hI => ?_)
  · simp [recordings_start hs, hs.metrics]
  · have hrow : ∀ (cause : Cause) (batch : Batch) (rows : List EvalResult) (log : List Event),
        ((recordings (.recorded cause batch rows :: log)).flatMap Prod.snd).length
          = batch.length + ((recordings log).flatMap Prod.snd).length := by
      simp [recordings]
    cases hm with
    | complete s ref f rows =>
        obtain ⟨st, hst⟩ := hr.linked.legal _ (hr.linked.fetched ref f (.ok rows) rfl)
        have hlen : rows.length = f.batch.length :=
          hworker st ref.worker f.batch rows _ (Prod.ext hst.symm rfl)
        simp only [Sys.handOver, Sys.countCompleted, Sys.emit, hrow] at hI ⊢
        omega
    | condemn s f reason b hb hgate =>
        simp only [Sys.handOver, Sys.countFailed, Sys.emit, hrow] at hI ⊢
        omega
    | abort s hdead =>
        simp only [Sys.handOver, Sys.countFailed, Sys.emit, hrow] at hI ⊢
        omega
    | completeFailed s ref f rows i k exc hfault hk => rw [hrecord i] at hfault; cases hfault
    | condemnFailed s f reason b hb hgate i k exc hfault =>
        rw [hrecord i] at hfault
        cases hfault
    | abortFailed s i k exc hfault => rw [hrecord i] at hfault; cases hfault
    | vacate s p slot hslot hwhy =>
        simp only [recordings_vacate]
        exact hI
    | promote s p slot h s' time hslot hempty hpool hs' => cases hs' <;> exact hI
    | failRefill s rf rest s' hagain hs' => cases hs' <;> exact hI
    | _ => exact hI

/-! ## The books -/

/-- The batches in the tables. -/
def Tables.batches (t : Tables) : List Batch :=
  (t.pending ++ t.deferred.map Prod.snd).map Entry.batch ++ t.active.values.map Flight.batch

theorem Tables.batches_length (t : Tables) : t.batches.length = t.load := by
  simp [Tables.batches, Tables.load, Dict.values, Nat.add_assoc]

theorem Tables.batches_flatten (t : Tables) : t.batches.flatten = t.heldTasks := by
  simp [Tables.batches, Tables.heldTasks, List.flatMap_def]

/-- The identities between the counters, the batches still queued (in `pending`, `deferred` or
    `active`) and the recorded ones. A batch leaves the queue only when it is dispatched, so the
    queued and the dispatched batches are all there ever were. -/
structure ForestBooks (w : World σ) (s : Sys σ) (queue recorded : List Batch) : Prop where
  batches : queue.length + recorded.length = w.cfg.tasks.length ⌈/⌉ w.cfg.batchSize + s.splitCount
  retried : s.metrics.retried = (requeues s.log).length + s.splitCount
  tasks : s.metrics.completed + s.metrics.failed + queue.flatten.length = w.cfg.tasks.length
  queued : ∀ batch ∈ queue ++ (dispatches s.log).map Flight.batch, w.cfg.Slice batch
  slices : ∀ batch ∈ recorded, w.cfg.Slice batch
  disjoint : recorded.Pairwise List.Disjoint

/-- The queued and the dispatched batches are slices. -/
theorem Reach.queued_slices {s : Sys σ} (h : Reach w ⟨s, .idle⟩) :
    ∀ batch ∈ s.batches ++ (dispatches s.log).map Flight.batch, w.cfg.Slice batch := by
  obtain ⟨hwaiting, hrunning, -, hdispatched⟩ := h.slices
  simp only [Point.ledger, queued, Phase.heldEntries, Phase.heldFlights, entryJobs, flightJobs,
    List.append_nil, Multiset.mem_coe, List.forall_mem_map] at hwaiting hrunning hdispatched
  intro batch hbatch
  rw [Tables.batches, List.mem_append, List.mem_append, List.mem_map, List.mem_map,
    List.mem_map] at hbatch
  rcases hbatch with (⟨e, he, rfl⟩ | ⟨f, hf, rfl⟩) | ⟨f, hf, rfl⟩
  · exact hwaiting e he
  · exact hrunning f hf
  · exact hdispatched f hf

/-- The state in which the abort found the queue. -/
theorem Reach.before_abort {s : Sys σ} (h : Reach w ⟨s, .over⟩) : ∃ s', Reach w ⟨s', .idle⟩ ∧
    s'.workers.all Option.isNone ∧ s.toTables = s'.toTables ∧ s.splitCount = s'.splitCount ∧
    dispatches s.log = dispatches s'.log ∧
    recordings s.log
      = (.workersDead, s'.undispatched.flatMap Entry.batch) :: recordings s'.log := by
  refine h.invariant (I := fun pt => pt.phase = .over → ∃ s', Reach w ⟨s', .idle⟩ ∧
    s'.workers.all Option.isNone ∧ pt.sys.toTables = s'.toTables ∧
    pt.sys.splitCount = s'.splitCount ∧ dispatches pt.sys.log = dispatches s'.log ∧
    recordings pt.sys.log = (.workersDead, s'.undispatched.flatMap Entry.batch) ::
      recordings s'.log) (fun s batches hs _ hp => by cases hp) (fun a b hr hm hI hp => ?_) rfl
  cases hm with
  | abort s hdead => exact ⟨s, hr, hdead, rfl, rfl, rfl, rfl⟩
  | call s p d hd => exact hI hp
  | fallback s p => exact hI hp
  | abandon s p slot exc => exact hI hp
  | vacate s p slot hslot hwhy =>
      obtain rfl : p = .over := hp
      cases hslot
  | promote s p slot h s' time hslot hempty hpool hs' =>
      obtain rfl : p = .over := hp
      cases hslot
  | install s p slot healthy hslot hempty =>
      obtain rfl : p = .over := hp
      cases hslot
  | _ => cases hp

section

variable (hworker : ∀ st hd batch rows st', w.evaluateBatch st hd batch = (.ok rows, st') →
    rows.length = batch.length)
  (hrecord : ∀ i, (w.env i).recordFault = none)

include hrecord

/-- The queued and the recorded batches are the input, cut up. -/
theorem Reach.cover {s : Sys σ} (h : Reach w ⟨s, .idle⟩) :
    (s.batches ++ terminals s.log).flatten.Perm (List.range w.cfg.tasks.length) := by
  have hfaults := h.recordFaults_nil hrecord
  have hconserved := h.conserved hfaults
  rw [handedTasks_eq hfaults, List.flatMap_def] at hconserved
  rw [List.flatten_append, s.batches_flatten]
  have hterminals : terminals s.log = (recordings s.log).map Prod.snd := h.terminals_eq (by simp)
  rwa [hterminals]

theorem Reach.pairwise_disjoint {s : Sys σ} (h : Reach w ⟨s, .idle⟩) :
    (s.batches ++ terminals s.log).Pairwise List.Disjoint :=
  (List.nodup_flatten.1 ((h.cover hrecord).nodup_iff.2 List.nodup_range)).2

include hworker

theorem Reach.forestBooks {s : Sys σ} (h : Reach w ⟨s, .idle⟩) :
    ForestBooks w s s.batches (terminals s.log) := by
  obtain ⟨batches, hbatches, -⟩ := h.steps
  have hbalanced : (recordings s.log).length + (s.load + 0)
      = w.cfg.batches.length + s.splitCount := h.balanced (by simp)
  have hterminals : terminals s.log = (recordings s.log).map Prod.snd := h.terminals_eq (by simp)
  have hchunks : w.cfg.batches.length = w.cfg.tasks.length ⌈/⌉ w.cfg.batchSize := by
    rw [Config.batches_eq hbatches, makeBatches_length hbatches, List.length_range]
  have hcounted := h.counted_tasks hworker hrecord
  have hcover := (h.cover hrecord).length_eq
  constructor
  · rw [s.batches_length, hterminals, List.length_map, ← hchunks]
    omega
  · simpa [Phase.owed] using h.requeued.count
  · rw [List.flatten_append, List.length_append, List.length_range, hterminals,
      ← List.flatMap_def] at hcover
    simp only at hcounted
    omega
  · exact h.queued_slices
  · exact h.terminal_slices
  · exact (List.pairwise_append.1 (h.pairwise_disjoint hrecord)).2.1

/-- After the abort the queued batches count as recorded, one by one. -/
theorem Reach.forestBooks_over {s : Sys σ} (h : Reach w ⟨s, .over⟩) :
    ForestBooks w s [] (terminals s.log ++ s.batches) ∧
      (terminals s.log ++ s.batches).flatten.Perm (List.range w.cfg.tasks.length) := by
  obtain ⟨s', hr, hdead, htables, hsplits, hdispatches, hrecordings⟩ := h.before_abort
  have hbooks := hr.forestBooks hworker hrecord
  have hterminals : terminals s.log = terminals s'.log := by
    simp [terminals, hrecordings]
  have hqueue : (s'.undispatched.flatMap Entry.batch) = s'.batches.flatten := by
    have hentries : s'.active.entries = [] :=
      List.map_eq_nil_iff.1 (hr.disciplined.forget.active_empty hdead)
    simp [Tables.batches, Tables.undispatched, Dict.values, hentries, List.flatMap_def]
  have hcover : (terminals s'.log ++ s'.batches).flatten.Perm
      (List.range w.cfg.tasks.length) :=
    List.perm_append_comm.flatten.trans (hr.cover hrecord)
  rw [htables, hterminals]
  refine ⟨⟨?_, ?_, ?_, ?_, ?_, ?_⟩, hcover⟩
  · have := hbooks.batches
    rw [List.length_append, hsplits]
    simp only [List.length_nil]
    omega
  · simpa [Phase.owed] using h.requeued.count
  · have hcounted := h.counted_tasks hworker hrecord
    have hlen := hcover.length_eq
    have hrecorded : terminals s'.log = (recordings s'.log).map Prod.snd :=
      hr.terminals_eq (by simp)
    rw [hrecordings, List.flatMap_cons, List.length_append, hqueue] at hcounted
    rw [List.flatten_append, List.length_append, List.length_range, hrecorded,
      ← List.flatMap_def] at hlen
    simp only [List.flatten_nil, List.length_nil] at hcounted ⊢
    omega
  · rw [List.nil_append, hdispatches]
    exact fun batch hbatch => hbooks.queued batch (List.mem_append_right _ hbatch)
  · intro batch hbatch
    rcases List.mem_append.1 hbatch with hin | hin
    · exact hbooks.slices batch hin
    · exact hbooks.queued batch (List.mem_append_left _ hin)
  · exact (List.pairwise_append_comm List.disjoint_symm).1 (hr.pairwise_disjoint hrecord)

end

/-- The bookkeeping of the retry forest. At every loop head and when the loop has ended, the batches
    queued and recorded are those of the start and one for each split, `retried` counts the re-queue
    events and the splits, `completed` and `failed` count the tasks that are not queued, every batch
    there ever was is a slice of the input, and the recorded slices are disjoint; at the end they
    cover the input. The abort counts as recording each queued batch. -/
theorem forest_bookkeeping {s₀ : Sys σ} (h : startRun w = .ok s₀)
    (hworker : ∀ st hd batch rows st', w.evaluateBatch st hd batch = (.ok rows, st') →
      rows.length = batch.length)
    (hrecord : ∀ i, (w.env i).recordFault = none) (k : Nat) :
    (∀ s, after w s₀ k = .head s → ForestBooks w s s.batches (terminals s.log)) ∧
    (∀ s, after w s₀ k = .exited s → ForestBooks w s [] (terminals s.log) ∧
      (terminals s.log).flatten.Perm (List.range w.cfg.tasks.length)) ∧
    (∀ s, after w s₀ k = .aborted s → AllDead w s ∧
      ForestBooks w s [] (terminals s.log ++ s.batches) ∧
      (terminals s.log ++ s.batches).flatten.Perm (List.range w.cfg.tasks.length)) := by
  have hreached := reach_after h k
  refine ⟨fun s hs => ?_, fun s hs => ?_, fun s hs => ?_⟩ <;> rw [hs] at hreached
  · exact Reach.forestBooks hworker hrecord hreached
  · obtain ⟨hr, hidle⟩ := hreached
    have hempty : s.batches = [] := by
      rw [← List.length_eq_zero_iff, s.batches_length, ← Tables.idle_iff_load]
      exact hidle
    have hbooks := hr.forestBooks hworker hrecord
    have hcover := hr.cover hrecord
    rw [hempty] at hbooks hcover
    exact ⟨hbooks, hcover⟩
  · exact ⟨Reach.allDead hreached rfl, Reach.forestBooks_over hworker hrecord hreached⟩

theorem forest_bookkeeping_small : ∃ s₀, startRun smallWorld = .ok s₀ ∧
    (∀ s, after smallWorld s₀ 2 = .head s → ForestBooks smallWorld s s.batches (terminals s.log)) ∧
    (∀ s, after smallWorld s₀ 2 = .exited s → ForestBooks smallWorld s [] (terminals s.log) ∧
      (terminals s.log).flatten.Perm (List.range 3)) ∧
    (∀ s, after smallWorld s₀ 2 = .aborted s → AllDead smallWorld s ∧
      ForestBooks smallWorld s [] (terminals s.log ++ s.batches) ∧
      (terminals s.log ++ s.batches).flatten.Perm (List.range 3)) := by
  obtain ⟨s₀, h⟩ := startRun_small
  refine ⟨s₀, h, forest_bookkeeping h (fun st hd batch rows st' hok => ?_) (fun _ => rfl) 2⟩
  have hrows := @failingOn_rows smallConfig (fun batch => 1 < batch.length) st st' hd batch rows hok
  simpa using hrows.length_eq

end EvalHarness
