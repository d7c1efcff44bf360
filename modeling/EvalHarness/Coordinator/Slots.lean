import EvalHarness.Coordinator.Log

set_option autoImplicit false

/-! # Slot discipline

Which slot has which flight. The invariant names one slot in addition, the one the driver knows to
be without a flight: that is what makes the submissions of `_assign_next` and the replacements in
the middle of a failure or an eviction legal. -/

namespace EvalHarness

variable {σ : Type} {w : World σ}

/-- Every slot has at most one ref in `active`, a slot without a handle has none, `active` and
    `ref_timeouts` have the same keys, and every active ref was submitted to the handle in its slot;
    the slot `unused`, if any, has no ref. -/
structure Tables.Disciplined (t : Tables) (unused : Option Nat := none) : Prop where
  nodup : t.busy.Nodup
  keys : ∀ ref, ref ∈ t.active.keys ↔ ref ∈ t.refTimeouts.keys
  installed : ∀ ref f, t.active.get? ref = some f → t.workers[f.slot]? = some (some ref.worker)
  unused : ∀ i, unused = some i → i ∉ t.busy

theorem Tables.mem_busy_iff (t : Tables) (i : Nat) :
    i ∈ t.busy ↔ ∃ ref f, t.active.get? ref = some f ∧ f.slot = i := by
  simp only [Tables.busy, List.mem_map, Dict.mem_values_iff]
  constructor
  · rintro ⟨f, ⟨ref, hf⟩, rfl⟩
    exact ⟨ref, f, hf, rfl⟩
  · rintro ⟨ref, f, hf, rfl⟩
    exact ⟨f, ⟨ref, hf⟩, rfl⟩

theorem Tables.Disciplined.forget {t : Tables} {unused : Option Nat} (h : t.Disciplined unused) :
    t.Disciplined :=
  ⟨h.nodup, h.keys, h.installed, fun _ hi => by cases hi⟩

theorem Tables.Disciplined.active_empty {t : Tables} {unused : Option Nat}
    (h : t.Disciplined unused) (hdead : t.workers.all Option.isNone) : t.active.keys = [] := by
  rw [List.eq_nil_iff_forall_not_mem]
  intro ref href
  obtain ⟨f, hf⟩ := Option.isSome_iff_exists.1 ((t.active.get?_isSome_iff ref).2 href)
  have hw := List.mem_of_getElem? (h.installed ref f hf)
  exact absurd (List.all_eq_true.1 hdead _ hw) (by simp)

/-! ## The operations keep it -/

/-- Taking a ref out of both tables frees its slot. -/
theorem Tables.Disciplined.dropRef {s : Sys σ} (h : s.Disciplined) {ref : ObjectRef} {f : Flight}
    (hf : s.active.get? ref = some f) : (s.dropRef ref).Disciplined (some f.slot) := by
  have hperm : s.busy.Perm (f.slot :: (s.dropRef ref).busy) :=
    (s.active.values_perm_erase hf).map Flight.slot
  have hnodup := List.nodup_cons.1 (hperm.nodup_iff.1 h.nodup)
  refine ⟨hnodup.2, fun ref' => ?_, fun ref' f' hf' => ?_, fun i hi => ?_⟩
  · show ref' ∈ (s.active.erase ref).keys ↔ ref' ∈ (s.refTimeouts.erase ref).keys
    rw [Dict.keys_erase, Dict.keys_erase, List.mem_filter, List.mem_filter, h.keys]
  · replace hf' : (s.active.erase ref).get? ref' = some f' := hf'
    rw [Dict.get?_erase] at hf'
    split at hf'
    · cases hf'
    · exact h.installed ref' f' hf'
  · cases hi
    exact hnodup.1

/-- Submitting to the free slot occupies it. -/
theorem Tables.Disciplined.launch {s : Sys σ} {slot : Nat} {e : Entry} {hd : Handle} {time : ℚ}
    (h : s.Disciplined (some slot)) (hf : s.Fresh) (hh : s.workers[slot]? = some (some hd)) :
    ((s.launch slot e hd).stamp (s.freshRef hd) time).Disciplined := by
  have hnew : s.freshRef hd ∉ s.active.keys := hf.freshRef_notMem hd
  let f : Flight := ⟨slot, e.batch, e.retryCount⟩
  refine ⟨?_, fun ref => ?_, fun ref f' hf' => ?_, fun i hi => by cases hi⟩
  · show ((s.active.set (s.freshRef hd) f).values.map Flight.slot).Nodup
    rw [s.active.values_set_of_not_mem f hnew, List.map_append]
    exact h.nodup.append (List.nodup_singleton _)
      (List.disjoint_singleton.2 (h.unused slot rfl))
  · show ref ∈ (s.active.set (s.freshRef hd) f).keys
      ↔ ref ∈ (s.refTimeouts.set (s.freshRef hd) time).keys
    rw [Dict.keys_set, Dict.keys_set, if_neg hnew, if_neg (fun hin => hnew ((h.keys _).2 hin)),
      List.mem_append, List.mem_append, h.keys]
  · replace hf' : (s.active.set (s.freshRef hd) f).get? ref = some f' := hf'
    rw [Dict.get?_set] at hf'
    split at hf'
    · next href =>
        cases hf'
        rw [href]
        exact hh
    · exact h.installed ref f' hf'

/-- What the free slot holds does not matter. -/
theorem Tables.Disciplined.setSlot {s : Sys σ} {slot : Nat} (h : s.Disciplined (some slot))
    (x : Option Handle) : (s.setSlot slot x).Disciplined (some slot) := by
  refine ⟨h.nodup, h.keys, fun ref f hf => ?_, h.unused⟩
  have hne : slot ≠ f.slot := fun heq =>
    h.unused slot rfl ((s.mem_busy_iff slot).2 ⟨ref, f, hf, heq.symm⟩)
  show (s.workers.set slot x)[f.slot]? = _
  rw [List.getElem?_set_ne hne]
  exact h.installed ref f hf

theorem Move.disciplined {a b : Point σ} (hr : Reach w a) (h : Move w a b)
    (hI : a.sys.Disciplined a.phase.slot?) : b.sys.Disciplined b.phase.slot? := by
  cases h with
  | harvest s ref f out hf ho => exact hI.dropRef hf
  | evict s ref f now submittedAt hf hage =>
      exact Tables.Disciplined.dropRef (s := s.emit _) hI hf
  | rest s slot => exact hI.forget
  | claim s slot e rest hp hslot hlive =>
      exact ⟨hI.nodup, hI.keys, hI.installed, fun i hi => by cases hi; exact hslot⟩
  | submit s slot e h time hh => exact hI.launch hr.fresh hh
  | bounce s slot e hh => exact ⟨hI.nodup, hI.keys, hI.installed, fun i hi => by cases hi⟩
  | vacate s p slot hslot hwhy =>
      replace hI : s.Disciplined p.slot? := hI
      show (s.vacate slot).Disciplined p.slot?
      rw [hslot] at hI ⊢
      exact hI.setSlot none
  | promote s p slot h s' time hslot hempty hpool hs' =>
      replace hI : s.Disciplined p.slot? := hI
      show s'.Disciplined p.slot?
      rw [hslot] at hI ⊢
      cases hs' <;> exact hI.setSlot (some h)
  | install s p slot healthy hslot hempty =>
      replace hI : s.Disciplined p.slot? := hI
      show (Sys.setSlot _ slot _).Disciplined p.slot?
      rw [hslot] at hI ⊢
      exact Tables.Disciplined.setSlot
        (s := s.construct (s.freshHandle slot)) hI _
  | failRefill s rf rest s' hagain hs' => cases hs' <;> exact hI
  | _ => exact ⟨hI.nodup, hI.keys, hI.installed, hI.unused⟩

theorem Reach.disciplined {pt : Point σ} (h : Reach w pt) :
    pt.sys.Disciplined pt.phase.slot? := by
  refine h.invariant (I := fun pt => pt.sys.Disciplined pt.phase.slot?) (fun s batches hs _ => ?_)
    (fun _ _ hr hm hI => hm.disciplined hr hI)
  show Tables.Disciplined _ none
  have hactive := hs.active
  have htimeouts := hs.refTimeouts
  constructor
  · show (s.active.values.map Flight.slot).Nodup
    rw [hactive]
    exact List.nodup_nil
  · show ∀ ref, ref ∈ s.active.keys ↔ ref ∈ s.refTimeouts.keys
    rw [hactive, htimeouts]
    exact fun ref => Iff.rfl
  · show ∀ ref f, s.active.get? ref = some f → _
    rw [hactive]
    exact fun ref f hf => by cases hf
  · exact fun i hi => by cases hi

/-! ## Submissions -/

theorem Move.submissions_disciplined {a b : Point σ} (hr : Reach w a) (h : Move w a b)
    (hI : ∀ t ∈ submissions a.sys.log, t.Disciplined) :
    ∀ t ∈ submissions b.sys.log, t.Disciplined := by
  cases h with
  | submit s slot e h time hh =>
      have hnow : s.Disciplined := hr.disciplined.forget
      intro t ht
      rcases List.mem_cons.1 ht with rfl | ht'
      · exact hnow
      · exact hI t ht'
  | vacate s p slot hslot hwhy =>
      intro t ht
      rw [submissions, filterMap_vacate (fun _ => rfl)] at ht
      exact hI t ht
  | promote s p slot h s' time hslot hempty hpool hs' => cases hs' <;> exact hI
  | failRefill s rf rest s' hagain hs' => cases hs' <;> exact hI
  | _ => exact hI

theorem Reach.submissions_disciplined {pt : Point σ} (h : Reach w pt) :
    ∀ t ∈ submissions pt.sys.log, t.Disciplined := by
  refine h.invariant (I := fun pt => ∀ t ∈ submissions pt.sys.log, t.Disciplined)
    (fun s batches hs _ => ?_) (fun _ _ hr hm hI => hm.submissions_disciplined hr hI)
  show ∀ t ∈ submissions s.log, t.Disciplined
  rw [submissions, filterMap_start hs (fun _ => rfl) (fun _ _ => rfl)]
  exact fun t ht => absurd ht List.not_mem_nil

/-- Slot discipline: at every loop head and just before every submission every slot has at most one
    ref in flight, a dead slot none, `active` and `ref_timeouts` have the same keys, and every
    active ref was submitted to the handle installed in its slot; where the all-workers-dead test
    succeeds, nothing is in flight. -/
theorem slot_discipline {s₀ : Sys σ} (h : startRun w = .ok s₀) (k : Nat) :
    (∀ s, after w s₀ k = .head s → s.Disciplined) ∧
    (∀ ref f t, Event.dispatched ref f t ∈ (after w s₀ k).sys.log → t.Disciplined) ∧
    (∀ s, after w s₀ k = .head s → (pollStandbyRefills w s).workers.all Option.isNone →
      (pollStandbyRefills w s).active.keys = []) := by
  have hreached := reach_after h k
  refine ⟨fun s hs => ?_, fun ref f t ht => ?_, fun s hs hdead => ?_⟩
  · rw [hs] at hreached
    exact Reach.disciplined hreached
  · obtain ⟨p, hp⟩ := hreached.exists_phase
    exact hp.submissions_disciplined t (mem_submissions.2 ⟨ref, f, ht⟩)
  · rw [hs] at hreached
    have hpoll := Reach.disciplined (Reach.tail hreached (pollStandbyRefills_path s))
    exact hpoll.active_empty hdead

theorem slot_discipline_small : ∃ s₀, startRun smallWorld = .ok s₀ ∧
    (∀ s, after smallWorld s₀ 2 = .head s → s.Disciplined) ∧
    (∀ ref f t, Event.dispatched ref f t ∈ (after smallWorld s₀ 2).sys.log → t.Disciplined) ∧
    (∀ s, after smallWorld s₀ 2 = .head s →
      (pollStandbyRefills smallWorld s).workers.all Option.isNone →
      (pollStandbyRefills smallWorld s).active.keys = []) := by
  obtain ⟨s₀, h⟩ := startRun_small
  exact ⟨s₀, h, slot_discipline h 2⟩

end EvalHarness
