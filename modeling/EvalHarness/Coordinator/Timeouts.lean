import EvalHarness.Coordinator.Logged
import EvalHarness.Coordinator.Progress

set_option autoImplicit false

/-! # The timeout scan

`_handle_timeouts` judges a ref by its age alone. Whether the ref has resolved in the meantime it
cannot see: a resolved ref the driver has not harvested yet is evicted like a hung one as soon as it
is old enough, and it grows old while the driver blocks in the replacement of another worker. -/

namespace EvalHarness

variable {σ : Type} {w : World σ}

/-- The evicted refs, and whether they had resolved. -/
def evictions (log : List Event) : List (ObjectRef × Bool) :=
  log.filterMap (fun | .evicted ref _ resolved => some (ref, resolved) | _ => none)

theorem evictions_start {s : Sys σ} (hs : Started w s) : evictions s.log = [] :=
  filterMap_start hs (fun _ => rfl) (fun _ _ => rfl)

theorem evictions_eq_nil_of_suffix {log log' : List Event} (h : log <:+ log')
    (hnone : evictions log' = []) : evictions log = [] := by
  have hsub : evictions log <:+ evictions log' := h.filterMap _
  rw [hnone] at hsub
  exact List.suffix_nil.1 hsub

theorem mem_evictions {log : List Event} {ref : ObjectRef} {resolved : Bool} :
    (ref, resolved) ∈ evictions log ↔ ∃ f, Event.evicted ref f resolved ∈ log :=
  mem_filterMap_events (fun e => by cases e <;> simp)

/-! ## Submission times -/

/-- The submissions so far, each with the clock at its return. -/
def submissionTimes (log : List Event) : List (ObjectRef × ℚ) :=
  log.filterMap (fun | .submitted ref now => some (ref, now) | _ => none)

theorem mem_submissionTimes {log : List Event} {ref : ObjectRef} {now : ℚ} :
    (ref, now) ∈ submissionTimes log ↔ Event.submitted ref now ∈ log :=
  mem_filterMap_event (fun e => by cases e <;> simp)

/-- No ref is submitted twice, and of every ref in flight `ref_timeouts` has the moment. -/
structure Sys.Timed (s : Sys σ) : Prop where
  active : ∀ ref ∈ s.active.keys,
    ∃ t, s.refTimeouts.get? ref = some t ∧ (ref, t) ∈ submissionTimes s.log
  fresh : ∀ x ∈ submissionTimes s.log, x.1.call < s.nextCall
  once : ((submissionTimes s.log).map Prod.fst).Nodup

theorem Sys.Timed.dropRef {s s' : Sys σ} (h : s.Timed) (ref : ObjectRef)
    (hactive : s'.active = s.active.erase ref)
    (htimeouts : s'.refTimeouts = s.refTimeouts.erase ref)
    (htimes : submissionTimes s'.log = submissionTimes s.log) (hcall : s'.nextCall = s.nextCall) :
    s'.Timed := by
  refine ⟨fun ref' href => ?_, htimes ▸ hcall ▸ h.fresh, htimes ▸ h.once⟩
  rw [hactive, Dict.keys_erase, List.mem_filter, decide_eq_true_eq] at href
  rw [htimeouts, htimes, Dict.get?_erase, if_neg href.2]
  exact h.active ref' href.1

theorem Sys.Timed.submit {s : Sys σ} (h : s.Timed) (slot : Nat) (e : Entry) (hd : Handle)
    (now : ℚ) : (((s.launch slot e hd).stamp (s.freshRef hd) now).emit
      (.submitted (s.freshRef hd) now)).Timed := by
  have hnew : s.freshRef hd ∉ (submissionTimes s.log).map Prod.fst := by
    intro hin
    obtain ⟨x, hx, heq⟩ := List.mem_map.1 hin
    have hlt := h.fresh x hx
    rw [heq] at hlt
    exact lt_irrefl _ hlt
  refine ⟨fun ref href => ?_, List.forall_mem_cons.2 ⟨Nat.lt_succ_self _, fun x hx => ?_⟩,
    List.nodup_cons.2 ⟨hnew, h.once⟩⟩
  · show ∃ t, (s.refTimeouts.set (s.freshRef hd) now).get? ref = some t ∧
      (ref, t) ∈ (s.freshRef hd, now) :: submissionTimes s.log
    rw [Dict.get?_set]
    split
    · next heq => exact ⟨now, rfl, heq ▸ List.mem_cons_self⟩
    · next hne =>
        replace href :
            ref ∈ (s.active.set (s.freshRef hd) ⟨slot, e.batch, e.retryCount⟩).keys := href
        have hold : ref ∈ s.active.keys := by
          rw [Dict.keys_set] at href
          split at href
          · exact href
          · exact (List.mem_append.1 href).resolve_right (fun h => hne (List.mem_singleton.1 h))
        obtain ⟨t, ht, hin⟩ := h.active ref hold
        exact ⟨t, ht, List.mem_cons_of_mem _ hin⟩
  · exact Nat.lt_succ_of_lt (h.fresh x hx)

theorem Move.timed {a b : Point σ} (h : Move w a b) (hI : a.sys.Timed) : b.sys.Timed := by
  cases h with
  | harvest s ref f out hf ho => exact hI.dropRef ref rfl rfl rfl rfl
  | evict s ref f now submittedAt hf hage => exact hI.dropRef ref rfl rfl rfl rfl
  | submit s slot e h time hh => exact hI.submit slot e h time
  | vacate s p slot hslot hwhy =>
      have htimes : submissionTimes (s.vacate slot).log = submissionTimes s.log :=
        filterMap_vacate (fun _ => rfl) s slot
      exact ⟨htimes ▸ hI.active, htimes ▸ hI.fresh, htimes ▸ hI.once⟩
  | promote s p slot h s' time hslot hempty hpool hs' =>
      cases hs' <;> exact ⟨hI.active, hI.fresh, hI.once⟩
  | failRefill s rf rest s' hagain hs' => cases hs' <;> exact ⟨hI.active, hI.fresh, hI.once⟩
  | _ => exact ⟨hI.active, hI.fresh, hI.once⟩

theorem Reach.timed {pt : Point σ} (h : Reach w pt) : pt.sys.Timed := by
  refine h.invariant (I := fun pt => pt.sys.Timed) (fun s batches hs _ => ?_)
    (fun _ _ _ hm hI => hm.timed hI)
  have hnone : submissionTimes s.log = [] := filterMap_start hs (fun _ => rfl) (fun _ _ => rfl)
  refine ⟨fun ref href => ?_, ?_, ?_⟩
  · replace href : ref ∈ s.active.keys := href
    rw [hs.active] at href
    cases href
  · show ∀ x ∈ submissionTimes s.log, _
    rw [hnone]
    exact fun x hx => absurd hx List.not_mem_nil
  · show ((submissionTimes s.log).map Prod.fst).Nodup
    rw [hnone]
    exact List.nodup_nil

/-- `ref_timeouts` has the submission time of a ref in flight. -/
theorem Reach.submitted_iff {s : Sys σ} {p : Phase} (h : Reach w ⟨s, p⟩) {ref : ObjectRef}
    (href : ref ∈ s.active.keys) (t : ℚ) :
    Event.submitted ref t ∈ s.log ↔ s.refTimeouts.get? ref = some t := by
  obtain ⟨t', ht', hin⟩ := h.timed.active ref href
  rw [← mem_submissionTimes, ht', Option.some_inj]
  constructor
  · intro ht
    exact congrArg Prod.snd (List.inj_on_of_nodup_map h.timed.once hin ht rfl)
  · rintro rfl
    exact hin

/-! ## What a scan evicts -/

/-- The state a function leaves, by its result or by an exception. -/
def Act.left : Act σ (Sys σ) → Sys σ
  | .ok s => s
  | .error raised => raised.sys

/-- Every event but an eviction. -/
def Event.sparing : Event → Bool
  | .evicted .. => false
  | _ => true

/-- Every event that leaves `active` as it is or adds to it. -/
def Event.keeping : Event → Bool
  | .harvested .. | .evicted .. => false
  | _ => true

theorem Event.sparing_of_ordinary (e : Event) (h : e.ordinary = true) : e.sparing = true := by
  cases e <;> simp_all [Event.sparing, Event.ordinary]

theorem Event.keeping_of_internal (e : Event) (h : e.internal = true) : e.keeping = true := by
  cases e <;> simp_all [Event.keeping, Event.internal]

theorem Event.keeping_of_sending (e : Event) (h : e.sending = true) : e.keeping = true := by
  cases e <;> simp_all [Event.keeping, Event.sending]

theorem Event.sparing_of_keeping (e : Event) (h : e.keeping = true) : e.sparing = true := by
  cases e <;> simp_all [Event.sparing, Event.keeping]

/-- A projection that ignores what is logged stays the same. -/
theorem Logs.filterMap_eq {β : Type} {P : Event → Bool} {g : Event → Option β} {s s' : Sys σ}
    (h : Logs P s s') (hg : ∀ e, P e = true → g e = none) :
    s'.log.filterMap g = s.log.filterMap g := by
  obtain ⟨news, hlog, hnews⟩ := h
  rw [hlog, List.filterMap_append, List.filterMap_eq_nil_iff.2 (fun e he => hg e (hnews e he)),
    List.nil_append]

theorem Logs.evictions_eq {s s' : Sys σ} (h : Logs Event.sparing s s') :
    evictions s'.log = evictions s.log :=
  h.filterMap_eq (fun e he => by cases e <;> simp_all [Event.sparing])

theorem ActLogs.evictions_eq {s : Sys σ} {r : Act σ (Sys σ)} (h : ActLogs Event.sparing s r) :
    evictions r.left.log = evictions s.log := by
  cases r with
  | ok s' => exact Logs.evictions_eq h
  | error raised => exact Logs.evictions_eq h

/-- What follows an eviction takes no other flight out. -/
theorem evicted_logs (f : Flight) (s : Sys σ) :
    ActLogs Event.keeping s (requeueOrCondemn w f s >>= fun s =>
      pure (assignNext w f.slot (replaceWorker w f.slot s).2)) := by
  have hrequeue := (requeueOrCondemn_logs (w := w) f s).mono Event.keeping_of_internal
  cases hr : requeueOrCondemn w f s with
  | error raised =>
      rw [hr] at hrequeue
      exact hrequeue
  | ok s' =>
      rw [hr] at hrequeue
      have hreplace : Logs Event.keeping s' (replaceWorker w f.slot s').2 :=
        ((vacate_logs f.slot s').trans (replaceWorker_logs f.slot s')).mono
          (fun e he => Event.keeping_of_internal e (Event.internal_of_staffing e he))
      exact Logs.trans hrequeue (hreplace.trans
        ((assignNext_logs f.slot _).mono Event.keeping_of_sending))

/-- The scan judges a ref by the timestamp in `ref_timeouts`. -/
def Sys.Overdue (w : World σ) (now : ℚ) (s : Sys σ) (ref : ObjectRef) : Prop :=
  ref ∈ s.active.keys ∧ ¬ now - (s.refTimeouts.get? ref).getD now < w.cfg.hangThresholdS

theorem scanRef_evictions (now : ℚ) (s : Sys σ) (ref : ObjectRef) (x : ObjectRef × Bool) :
    x ∈ evictions (scanRef w now s ref).left.log ↔ x ∈ evictions s.log ∨
      (x = (ref, (s.ray.resolved.get? ref).isSome) ∧ s.Overdue w now ref) := by
  unfold scanRef Sys.Overdue
  split
  · next hnone =>
      have hnot : ref ∉ s.active.keys := (s.active.get?_eq_none_iff ref).1 hnone
      simp [Act.left, hnot]
  · next f hf =>
      have hin : ref ∈ s.active.keys := (s.active.get?_isSome_iff ref).1 (by rw [hf]; rfl)
      dsimp only
      split
      · next hage =>
          show x ∈ evictions s.log ↔ _
          simp [hage]
      · next hage =>
          rw [(evicted_logs (w := w) f _).mono Event.sparing_of_keeping |>.evictions_eq]
          show x ∈ (ref, (s.ray.resolved.get? ref).isSome) :: evictions s.log ↔ _
          rw [List.mem_cons]
          simp only [hin, hage, not_false_eq_true, and_self, and_true]
          exact or_comm

/-- A ref that the scan comes across does not make it lose another. -/
theorem scanRef_keeps {now : ℚ} {s s' : Sys σ} {ref ref' : ObjectRef} (hfresh : s.Fresh)
    (h : scanRef w now s ref = .ok s') (hne : ref' ≠ ref) (hin : ref' ∈ s.active.keys) :
    ref' ∈ s'.active.keys := by
  unfold scanRef at h
  split at h
  · cases h
    exact hin
  · next f hf =>
      dsimp only at h
      split at h
      · cases h
        exact hin
      · generalize hevicted : ((s.emit _).dropRef ref).emit (.evicted ref f _) = s₁ at h
        have hlogs := evicted_logs (w := w) f s₁
        rw [h] at hlogs
        have hsame : removals s'.log = removals s₁.log :=
          Logs.filterMap_eq hlogs (fun e he => by cases e <;> simp_all [Event.keeping])
        have hpath : Path w ⟨s₁, .lost f none⟩ ⟨s', .idle⟩ := by
          have hlog : Event.evicted ref f (s.ray.resolved.get? ref).isSome ∈ s₁.log := by
            rw [← hevicted]
            exact List.mem_cons_self
          have hlead := evicted_leads (w := w) hlog
          rw [h] at hlead
          exact hlead
        have hin₁ : ref' ∈ s₁.active.keys := by
          rw [← hevicted]
          show ref' ∈ (s.active.erase ref).keys
          rw [Dict.keys_erase, List.mem_filter]
          exact ⟨hin, by simpa using hne⟩
        have hfresh₁ : s₁.Fresh := by
          rw [← hevicted]
          exact Sys.Fresh.dropRef (s := s.emit _) hfresh ref
        exact (Path.keeps hpath hfresh₁ (congrArg List.length hsame) ref' hin₁).1

/-- The scan of `refs` from `s` comes to `ref` in `s'`. -/
inductive ScanComesTo (w : World σ) (now : ℚ) :
    List ObjectRef → Sys σ → ObjectRef → Sys σ → Prop where
  | here (ref refs s) : ScanComesTo w now (ref :: refs) s ref s
  | next {first refs s s₁ ref s'} (hone : scanRef w now s first = .ok s₁)
      (hrest : ScanComesTo w now refs s₁ ref s') : ScanComesTo w now (first :: refs) s ref s'

theorem ScanComesTo.mem {now : ℚ} {refs : List ObjectRef} {s s' : Sys σ} {ref : ObjectRef}
    (h : ScanComesTo w now refs s ref s') : ref ∈ refs := by
  induction h with
  | here => exact List.mem_cons_self
  | next _ _ ih => exact List.mem_cons_of_mem _ ih

theorem scanRef_path {now : ℚ} {s s' : Sys σ} {ref : ObjectRef} (hnow : now ≤ s.ray.clock)
    (h : scanRef w now s ref = .ok s') : Path w ⟨s, .idle⟩ ⟨s', .idle⟩ ∧ now ≤ s'.ray.clock := by
  have hlead := scanRef_leads (w := w) ref hnow
  rw [h] at hlead
  exact ⟨hlead, hnow.trans (Path.later hlead).clock⟩

theorem ScanComesTo.path {now : ℚ} {refs : List ObjectRef} {s s' : Sys σ} {ref : ObjectRef}
    (h : ScanComesTo w now refs s ref s') (hnow : now ≤ s.ray.clock) :
    Path w ⟨s, .idle⟩ ⟨s', .idle⟩ := by
  induction h with
  | here => exact .refl
  | next hone _ ih =>
      obtain ⟨hpath, hnow'⟩ := scanRef_path hnow hone
      exact hpath.trans (ih hnow')

theorem ScanComesTo.keeps {now : ℚ} {refs : List ObjectRef} {s s' : Sys σ} {ref : ObjectRef}
    (h : ScanComesTo w now refs s ref s') (hnow : now ≤ s.ray.clock) (hfresh : s.Fresh)
    (hnodup : refs.Nodup) (hin : ref ∈ s.active.keys) : ref ∈ s'.active.keys := by
  induction h with
  | here => exact hin
  | next hone hrest ih =>
      obtain ⟨hnot, hnodup'⟩ := List.nodup_cons.1 hnodup
      obtain ⟨hpath, hnow'⟩ := scanRef_path hnow hone
      refine ih hnow' (Path.fresh hpath hfresh) hnodup' ?_
      exact scanRef_keeps hfresh hone (fun heq => hnot (heq ▸ hrest.mem)) hin

/-- A scan evicts what is overdue when the scan comes to it. -/
theorem scan_evictions (now : ℚ) (refs : List ObjectRef) {s : Sys σ} (x : ObjectRef × Bool) :
    x ∈ evictions (refs.foldlM (scanRef w now) s).left.log ↔ x ∈ evictions s.log ∨
      ∃ s', ScanComesTo w now refs s x.1 s' ∧ x.2 = (s'.ray.resolved.get? x.1).isSome ∧
        s'.Overdue w now x.1 := by
  induction refs generalizing s with
  | nil =>
      refine ⟨Or.inl, fun h => h.resolve_right ?_⟩
      rintro ⟨s', hcomes, -⟩
      cases hcomes
  | cons first refs ih =>
      have hone := scanRef_evictions (w := w) now s first x
      have hhere : x = (first, (s.ray.resolved.get? first).isSome) ∧ s.Overdue w now first ↔
          x.1 = first ∧ x.2 = (s.ray.resolved.get? x.1).isSome ∧ s.Overdue w now x.1 := by
        obtain ⟨ref, resolved⟩ := x
        constructor
        · rintro ⟨heq, hdue⟩
          cases heq
          exact ⟨rfl, rfl, hdue⟩
        · rintro ⟨hfirst, hresolved, hdue⟩
          exact ⟨Prod.ext hfirst (hfirst ▸ hresolved), hfirst ▸ hdue⟩
      rw [hhere] at hone
      rw [List.foldlM_cons]
      cases hs : scanRef w now s first with
      | error raised =>
          rw [hs] at hone
          refine hone.trans (or_congr_right ⟨?_, ?_⟩)
          · rintro ⟨rfl, hdue⟩
            exact ⟨s, .here _ _ _, hdue⟩
          · rintro ⟨s', hcomes, hdue⟩
            cases hcomes with
            | here => exact ⟨rfl, hdue⟩
            | next hok _ => simp [hs] at hok
      | ok s₁ =>
          rw [hs] at hone
          refine (ih (s := s₁)).trans ?_
          replace hone : x ∈ evictions s₁.log ↔ _ := hone
          rw [hone, or_assoc]
          refine or_congr_right ⟨?_, ?_⟩
          · rintro (⟨rfl, hdue⟩ | ⟨s', hcomes, hdue⟩)
            · exact ⟨s, .here _ _ _, hdue⟩
            · exact ⟨s', .next hs hcomes, hdue⟩
          · rintro ⟨s', hcomes, hdue⟩
            cases hcomes with
            | here => exact Or.inl ⟨rfl, hdue⟩
            | next hok hrest =>
                cases hs.symm.trans hok
                exact Or.inr ⟨s', hrest, hdue⟩

/-! ## The scans of a run -/

/-- The wait of an iteration and the harvest that follows it, up to the timeout scan. -/
def waitPhase (w : World σ) (s : Sys σ) : Act σ (Sys σ) :=
  let s := s.emit (.waiting s.toTables)
  let pick := (s.reply w).pick
  let s := s.call w
  match s.ray.wait pick s.active.keys with
  | some (ref, out) => harvest w ref out s
  | none => .ok s

theorem waitAndHarvest_eq (s : Sys σ) :
    waitAndHarvest w s = waitPhase w s >>= handleTimeouts w := by
  unfold waitAndHarvest waitPhase
  dsimp only
  generalize RayState.wait _ _ _ = found
  rcases found with _ | ⟨ref, out⟩ <;> rfl

/-- The state in which the iteration from a loop head calls `_handle_timeouts`, if it does. -/
def scanStart (w : World σ) (s : Sys σ) : Option (Sys σ) :=
  if s.idle ∨ (pollStandbyRefills w s).workers.all Option.isNone ∨
      (dispatchPhase w s).active.keys.isEmpty then none
  else (waitPhase w (dispatchPhase w s)).toOption

/-- Among the first `k` iterations of a run there is one whose timeout scan, begun in `s` with the
    clock read, comes to `ref` in `s'`. -/
def ScansRef (w : World σ) (s₀ : Sys σ) (k : Nat) (ref : ObjectRef) (s s' : Sys σ) : Prop :=
  ∃ j < k, ∃ head before, after w s₀ j = .head head ∧ scanStart w head = some before ∧
    s = before.call w ∧ ScanComesTo w s.ray.clock s.active.keys s ref s'

theorem harvest_spares (ref : ObjectRef) (out : Outcome) (s : Sys σ) :
    ActLogs Event.sparing s (harvest w ref out s) := by
  cases hf : s.active.get? ref with
  | none =>
      simp only [harvest, hf]
      exact Logs.refl s
  | some f =>
      have hassign : ∀ s' : Sys σ, Logs Event.sparing s' (assignNext w f.slot s') := fun s' =>
        (assignNext_logs f.slot s').mono
          (fun e he => Event.sparing_of_ordinary e (Event.ordinary_of_sending e he))
      have hrecover : ∀ (exc : Exc) (s' : Sys σ), ActLogs Event.sparing s'
          (recoverBatch w f exc s' >>= fun s => pure (assignNext w f.slot s)) := by
        intro exc s'
        have hlogs := (recoverBatch_logs (w := w) f exc s').mono
          (fun e he => Event.sparing_of_ordinary e (Event.ordinary_of_internal e he))
        cases hr : recoverBatch w f exc s' with
        | error raised =>
            rw [hr] at hlogs
            exact hlogs
        | ok s'' =>
            rw [hr] at hlogs
            exact Logs.trans hlogs (hassign s'')
      have hharvested : Logs Event.sparing s (((s.dropRef ref).emit (.harvested ref f)).call w) :=
        .one rfl rfl
      simp only [harvest, hf]
      refine ActLogs.after hharvested ?_
      generalize ((s.dropRef ref).emit (.harvested ref f)).call w = s'
      cases out with
      | error exc => exact hrecover exc s'
      | ok rows =>
          rcases record_cases (w := w) .completed f.batch rows (s'.countCompleted rows.length)
            with hrec | ⟨k, exc, -, -, hrec⟩
          · simp only [settleBatch, handleSuccess, hrec]
            have hrecord : Logs Event.sparing s' ((s'.countCompleted rows.length).call w |>.handOver
              w .completed f.batch rows) := .one rfl rfl
            exact hrecord.trans (hassign _)
          · simp only [settleBatch, handleSuccess, hrec]
            exact ActLogs.after (.one rfl rfl) (hrecover exc _)

theorem waitPhase_spares (s : Sys σ) : ActLogs Event.sparing s (waitPhase w s) := by
  have hwait : Logs Event.sparing s ((s.emit (.waiting s.toTables)).call w) := .one rfl rfl
  unfold waitPhase
  refine ActLogs.after hwait ?_
  dsimp only
  split
  · exact harvest_spares _ _ _
  · exact Logs.refl _

theorem pollStandbyRefills_spares (s : Sys σ) :
    Logs Event.sparing s (pollStandbyRefills w s) :=
  (pollStandbyRefills_logs s).mono (fun e he => Event.sparing_of_ordinary e
    (Event.ordinary_of_internal e (Event.internal_of_staffing e he)))

theorem dispatchPhase_spares (s : Sys σ) : Logs Event.sparing s (dispatchPhase w s) := by
  have hpromote : Logs Event.sparing (pollStandbyRefills w s)
      (promoteReadyRetries w (pollStandbyRefills w s)) := .of_eq rfl
  exact (pollStandbyRefills_spares s).trans (hpromote.trans ((dispatchPendingToIdle_logs _).mono
    (fun e he => Event.sparing_of_ordinary e (Event.ordinary_of_sending e he))))

/-- An iteration evicts what its scan evicts. -/
theorem advance_evictions {head : Sys σ} {x : ObjectRef × Bool} :
    x ∈ evictions (advance w (.head head)).sys.log ↔ x ∈ evictions head.log ∨
      ∃ before s', scanStart w head = some before ∧
        ScanComesTo w (before.call w).ray.clock (before.call w).active.keys (before.call w) x.1 s' ∧
        x.2 = (s'.ray.resolved.get? x.1).isSome ∧
          s'.Overdue w (before.call w).ray.clock x.1 := by
  have hpoll := (pollStandbyRefills_spares (w := w) head).evictions_eq
  have hdispatch := (dispatchPhase_spares (w := w) head).evictions_eq
  rw [advance]
  by_cases hidle : head.idle
  · simp [scanStart, hidle, Status.sys]
  rw [if_neg hidle]
  by_cases hdead : (pollStandbyRefills w head).workers.all Option.isNone
  · have hnone : scanStart w head = none := by simp [scanStart, hdead]
    have habort : ActLogs Event.sparing (pollStandbyRefills w head)
        (abortRun w (pollStandbyRefills w head)) :=
      ActLogs.after (.of_eq rfl) ((record_logs (by simp) _ _ _).mono
        (fun e he => Event.sparing_of_ordinary e (Event.ordinary_of_internal e he)))
    have hleft : (iteration w head).sys = (abortRun w (pollStandbyRefills w head)).left := by
      rw [iteration_eq, if_pos hdead]
      cases abortRun w (pollStandbyRefills w head) <;> rfl
    rw [hleft, habort.evictions_eq, hpoll, hnone]
    simp
  by_cases hempty : (dispatchPhase w head).active.keys.isEmpty
  · have hnone : scanStart w head = none := by simp [scanStart, hempty]
    have hleft : evictions (iteration w head).sys.log = evictions (dispatchPhase w head).log := by
      rw [iteration_eq, if_neg hdead, if_pos hempty]
      rfl
    rw [hleft, hdispatch, hnone]
    simp
  have hstart : scanStart w head = (waitPhase w (dispatchPhase w head)).toOption :=
    if_neg (by simp [hidle, hdead, hempty])
  have hleft : (iteration w head).sys = (waitAndHarvest w (dispatchPhase w head)).left := by
    rw [iteration_eq, if_neg hdead, if_neg hempty]
    cases waitAndHarvest w (dispatchPhase w head) <;> rfl
  have hwait := (waitPhase_spares (w := w) (dispatchPhase w head)).evictions_eq
  rw [hdispatch] at hwait
  rw [hleft, waitAndHarvest_eq, hstart]
  cases hw : waitPhase w (dispatchPhase w head) with
  | error raised =>
      rw [hw] at hwait
      replace hwait : evictions raised.sys.log = evictions head.log := hwait
      show x ∈ evictions raised.sys.log ↔ _
      rw [hwait]
      simp [Except.toOption]
  | ok before =>
      rw [hw] at hwait
      replace hwait : evictions before.log = evictions head.log := hwait
      have hscan : x ∈ evictions (handleTimeouts w before).left.log ↔ _ :=
        scan_evictions (w := w) (before.call w).ray.clock (before.call w).active.keys x
      refine hscan.trans (or_congr (hwait ▸ Iff.rfl) ?_)
      simp [Except.toOption]

/-- The scans of a run begin in reachable states. -/
theorem scanStart_path {head before : Sys σ} (hr : Reach w ⟨head, .idle⟩)
    (h : scanStart w head = some before) : Reach w ⟨before.call w, .idle⟩ := by
  unfold scanStart at h
  split at h
  · cases h
  · next hgo =>
      have hready := dispatchPhase_ready (w := w) hr.fresh hr.workers_length
      have hne : (dispatchPhase w head).active.keys ≠ [] :=
        fun hnil => hgo (Or.inr (Or.inr (List.isEmpty_iff.2 hnil)))
      refine hr.tail (hready.path.trans (Path.call ?_))
      have hwait : Path w ⟨dispatchPhase w head, .idle⟩
          ⟨((dispatchPhase w head).emit (.waiting (dispatchPhase w head).toTables)).call w,
            .idle⟩ :=
        Path.call (.single (.wait _ hready.saturated hne))
      cases hw : waitPhase w (dispatchPhase w head) with
      | error raised => simp [hw, Except.toOption] at h
      | ok s =>
          obtain rfl : s = before := by simpa [hw, Except.toOption] using h
          unfold waitPhase at hw
          dsimp only at hw
          split at hw
          · next ref out hpicked =>
              obtain ⟨hin, hout⟩ := RayState.wait_mem hpicked
              have hlead := harvest_leads (w := w) _ ref out hin hout
              rw [hw] at hlead
              exact hwait.trans hlead
          · cases hw
            exact hwait

theorem startRun_evictions {s : Sys σ} (h : startRun w = .ok s) : evictions s.log = [] := by
  obtain ⟨s₀, batches, hcreate, -, rfl⟩ := startRun_phases h
  generalize (List.range w.cfg.nWorkers).filter _ = available
  have hfill := (fillPipeline_logs (w := w) available
    { s₀ with pending := batches.map (fun batch => ⟨batch, 0⟩) }).mono
      (fun e he => Event.sparing_of_keeping e (Event.keeping_of_sending e he))
  have hstart : evictions s₀.log = [] := evictions_start (createWorkers_started hcreate)
  exact hfill.evictions_eq.trans hstart

/-- The evictions of a run are those of its scans. -/
theorem evictions_after {s₀ : Sys σ} (h : startRun w = .ok s₀) (k : Nat) {x : ObjectRef × Bool} :
    x ∈ evictions (after w s₀ k).sys.log ↔ ∃ s s', ScansRef w s₀ k x.1 s s' ∧
      x.2 = (s'.ray.resolved.get? x.1).isSome ∧ s'.Overdue w s.ray.clock x.1 := by
  induction k with
  | zero =>
      have hnone : evictions (after w s₀ 0).sys.log = [] := startRun_evictions h
      rw [hnone]
      simp [ScansRef]
  | succ k ih =>
      have hmore : ∀ s s', ScansRef w s₀ (k + 1) x.1 s s' ↔ ScansRef w s₀ k x.1 s s' ∨
          ∃ head before, after w s₀ k = .head head ∧ scanStart w head = some before ∧
            s = before.call w ∧ ScanComesTo w s.ray.clock s.active.keys s x.1 s' := by
        intro s s'
        constructor
        · rintro ⟨j, hj, hscan⟩
          rcases Nat.lt_succ_iff_lt_or_eq.1 hj with hlt | rfl
          · exact Or.inl ⟨j, hlt, hscan⟩
          · exact Or.inr hscan
        · rintro (⟨j, hj, hscan⟩ | hscan)
          · exact ⟨j, Nat.lt_succ_of_lt hj, hscan⟩
          · exact ⟨k, Nat.lt_succ_self k, hscan⟩
      rw [after_succ]
      simp only [hmore, or_and_right, exists_or]
      cases hst : after w s₀ k with
      | head head =>
          rw [hst] at ih
          rw [advance_evictions]
          refine or_congr ih ?_
          simp only [Status.head.injEq]
          constructor
          · rintro ⟨before, s', hstart, hcomes, hdue⟩
            exact ⟨_, s', ⟨head, before, rfl, hstart, rfl, hcomes⟩, hdue⟩
          · rintro ⟨s, s', ⟨head', before, rfl, hstart, rfl, hcomes⟩, hdue⟩
            exact ⟨before, s', hstart, hcomes, hdue⟩
      | _ =>
          rw [hst] at ih
          simp only [advance, reduceCtorEq, false_and, exists_false, or_false]
          exact ih

/-- When a scan comes to a ref, the ref is still in flight, and the timestamp the scan compares is
    the time of its submission. -/
theorem ScansRef.overdue_iff {s₀ : Sys σ} (h : startRun w = .ok s₀) {k : Nat} {ref : ObjectRef}
    {s s' : Sys σ} (hscan : ScansRef w s₀ k ref s s') : s'.Overdue w s.ray.clock ref ↔
      ¬ ∃ t, Event.submitted ref t ∈ s.log ∧ s.ray.clock - t < w.cfg.hangThresholdS := by
  obtain ⟨j, -, head, before, hhead, hstart, rfl, hcomes⟩ := hscan
  have hreached := reach_after h j
  rw [hhead] at hreached
  have hr := scanStart_path hreached hstart
  have hr' := hr.tail (hcomes.path le_rfl)
  have hin : ref ∈ (before.call w).active.keys := hcomes.mem
  have hin' := hcomes.keeps le_rfl hr.fresh (before.call w).active.nodup hin
  -- the submission was logged before the scan, and there is no other
  obtain ⟨t, ht, htime⟩ := hr.timed.active ref hin
  have hsubmitted := mem_submissionTimes.1 htime
  have ht' := (hr'.submitted_iff hin' t).1 ((hcomes.path le_rfl).log_suffix.subset hsubmitted)
  rw [Sys.Overdue, ht', Option.getD_some, and_iff_right hin', not_iff_not]
  constructor
  · exact fun hage => ⟨t, hsubmitted, hage⟩
  · rintro ⟨t', hsubmitted', hage⟩
    rw [(hr.submitted_iff hin t').1 hsubmitted', Option.some_inj] at ht
    exact ht ▸ hage

/-- A run evicts no resolved ref if and only if, whenever a timeout scan comes to a ref that has
    resolved by then, the ref was submitted less than the hang threshold before the moment at which
    the scan reads the clock. -/
theorem finished_not_evicted_iff {s₀ : Sys σ} (h : startRun w = .ok s₀) (k : Nat) :
    (∀ ref f, Event.evicted ref f true ∉ (after w s₀ k).sys.log) ↔
      ∀ ref s s', ScansRef w s₀ k ref s s' → (s'.ray.resolved.get? ref).isSome →
        ∃ t, Event.submitted ref t ∈ s.log ∧ s.ray.clock - t < w.cfg.hangThresholdS := by
  constructor
  · intro hnone ref s s' hscan hresolved
    by_contra hold
    obtain ⟨f, hf⟩ := mem_evictions.1 ((evictions_after h k).2
      ⟨s, s', hscan, hresolved.symm, (hscan.overdue_iff h).2 hold⟩)
    exact hnone ref f hf
  · intro hyoung ref f hin
    obtain ⟨s, s', hscan, hresolved, hdue⟩ := (evictions_after h k).1 (mem_evictions.2 ⟨f, hin⟩)
    exact (hscan.overdue_iff h).1 hdue (hyoung ref s s' hscan hresolved.symm)

theorem finished_not_evicted_iff_small : ∃ s₀, startRun smallWorld = .ok s₀ ∧
    ((∀ ref f, Event.evicted ref f true ∉ (after smallWorld s₀ 2).sys.log) ↔
      ∀ ref s s', ScansRef smallWorld s₀ 2 ref s s' → (s'.ray.resolved.get? ref).isSome →
        ∃ t, Event.submitted ref t ∈ s.log ∧
          s.ray.clock - t < smallWorld.cfg.hangThresholdS) := by
  obtain ⟨s₀, h⟩ := startRun_small
  exact ⟨s₀, h, finished_not_evicted_iff h 2⟩

/-! ## A finished batch evicted

Two workers with one task each. Both finish; the first raises, its worker reports unhealthy, and two
replacements time out after 120 s before the third comes up. The second ref, resolved all along, is
then more than 150 s old. -/

def blockedConfig : Config where
  nWorkers := 2
  batchSize := 1
  tasks := [⟨"a", none⟩, ⟨"b", none⟩]

/-- Call 12 is the health check of the first worker, calls 15 and 18 wait for its replacements. -/
def blockedReply (step : Nat) : Reply :=
  if step = 12 then { promptReply 2 step with health := .ok false }
  else if step = 15 ∨ step = 18 then
    { promptReply 2 step with
      elapsed := 120
      elapsed_nonneg := by decide
      health := .error ⟨"GetTimeoutError", "Get timed out"⟩ }
  else promptReply 2 step

def blockedWorld : World Unit where
  cfg := blockedConfig
  evaluateBatch := failingOn blockedConfig (fun batch => 0 ∈ batch)
  backend := ()
  env := blockedReply

/-- The second batch has resolved, is evicted all the same, and its task is charged with a retry. -/
theorem finished_evicted : ∃ s₀, startRun blockedWorld = .ok s₀ ∧
    (∃ ref f, Event.evicted ref f true ∈ (after blockedWorld s₀ 1).sys.log) ∧
    lossCount (after blockedWorld s₀ 1).sys.log 1 = 1 := by
  obtain ⟨s₀, h, heval⟩ := exists_startRun (w := blockedWorld)
    (P := fun s =>
      decide ((⟨startHandle 1, 1⟩, true) ∈ evictions (after blockedWorld s 1).sys.log) &&
      decide (lossCount (after blockedWorld s 1).sys.log 1 = 1)) (by decide +kernel)
  simp only [Bool.and_eq_true, decide_eq_true_eq] at heval
  exact ⟨s₀, h, ⟨_, mem_evictions.1 heval.1⟩, heval.2⟩

end EvalHarness
