import EvalHarness.Coordinator.Slots

set_option autoImplicit false

/-! # Who owns which actor

Every constructed actor is in exactly one place: in a slot, in the standby pool, in an in-flight
refill, killed, or left behind by an attempt of `_blocking_replace` that raised after its
constructor call. The last place is the leak: nothing refers to such an actor any more and nothing
kills it. -/

namespace EvalHarness

variable {σ : Type} {w : World σ}

/-! ## Actors in the log -/

def constructed (log : List Event) : List Handle :=
  log.filterMap (fun | .constructed h => some h | _ => none)

def killed (log : List Event) : List Handle :=
  log.filterMap (fun | .killed h => some h | _ => none)

/-- The actors of replacement attempts that raised after the constructor call. -/
def abandoned (log : List Event) : List Handle :=
  log.filterMap (fun | .attemptFailed h _ => some h | _ => none)

theorem constructed_vacate (s : Sys σ) (slot : Nat) :
    constructed (s.vacate slot).log = constructed s.log := filterMap_vacate (fun _ => rfl) s slot

theorem mem_constructed {log : List Event} {h : Handle} :
    h ∈ constructed log ↔ Event.constructed h ∈ log :=
  mem_filterMap_event (fun e => by cases e <;> simp)

theorem mem_killed {log : List Event} {h : Handle} : h ∈ killed log ↔ Event.killed h ∈ log :=
  mem_filterMap_event (fun e => by cases e <;> simp)

theorem mem_abandoned {log : List Event} {h : Handle} :
    h ∈ abandoned log ↔ ∃ exc, Event.attemptFailed h exc ∈ log :=
  mem_filterMap_events (fun e => by cases e <;> simp)

/-! ## Places -/

/-- The actors in slots, in the pool and in refills. -/
def places (workers : List (Option Handle)) (pool : List Handle) (refills : List Refill) :
    Multiset Handle :=
  ↑(workers.filterMap id) + ↑pool + ↑(refills.map Refill.handle)

theorem filterMap_id_cons (x : Option Handle) (l : List (Option Handle)) :
    (↑((x :: l).filterMap id) : Multiset Handle) = ↑x.toList + ↑(l.filterMap id) := by
  cases x <;> rfl

/-- Writing a slot exchanges what it held for what it holds now. -/
theorem filterMap_set (x : Option Handle) : ∀ (l : List (Option Handle)) (i : Nat), i < l.length →
    (↑((l.set i x).filterMap id) : Multiset Handle) + ↑((l[i]?).join.toList)
      = ↑(l.filterMap id) + ↑x.toList := by
  intro l
  induction l with
  | nil => intro i hi; simp at hi
  | cons y rest ih =>
      intro i hi
      cases i with
      | zero =>
          rw [List.set_cons_zero, filterMap_id_cons, filterMap_id_cons]
          simp only [List.getElem?_cons_zero, Option.join_some]
          abel
      | succ i =>
          rw [List.set_cons_succ, filterMap_id_cons, filterMap_id_cons, List.getElem?_cons_succ,
            add_assoc, add_assoc, ih i (by simpa using hi)]

theorem places_set {workers : List (Option Handle)} {i : Nat} (hi : i < workers.length)
    (x : Option Handle) (pool : List Handle) (refills : List Refill) :
    places (workers.set i x) pool refills + ↑((workers[i]?).join.toList)
      = places workers pool refills + ↑x.toList := by
  have hset := filterMap_set x workers i hi
  calc places (workers.set i x) pool refills + ↑((workers[i]?).join.toList)
      = (↑((workers.set i x).filterMap id) + ↑((workers[i]?).join.toList)) + ↑pool
          + ↑(refills.map Refill.handle) := by rw [places]; abel
    _ = places workers pool refills + ↑x.toList := by rw [hset, places]; abel

/-- Filling an empty slot adds one actor. -/
theorem places_fill {workers : List (Option Handle)} {i : Nat} (hi : i < workers.length)
    (hempty : (workers[i]?).join = none) (h : Handle) (pool : List Handle)
    (refills : List Refill) :
    places (workers.set i (some h)) pool refills = h ::ₘ places workers pool refills := by
  have hset := places_set hi (some h) pool refills
  rw [hempty] at hset
  rw [← Multiset.singleton_add, add_comm]
  simpa using hset

theorem places_pool (workers : List (Option Handle)) (pool : List Handle) (h : Handle)
    (refills : List Refill) :
    places workers (pool ++ [h]) refills = h ::ₘ places workers pool refills := by
  rw [places, places, ← Multiset.coe_add, Multiset.coe_singleton, ← Multiset.singleton_add]
  abel

theorem places_refills {refills refills' : List Refill} (rf : Refill)
    (h : refills.Perm (rf :: refills')) (workers : List (Option Handle)) (pool : List Handle) :
    places workers pool refills = rf.handle ::ₘ places workers pool refills' := by
  rw [places, places, Multiset.coe_eq_coe.2 (h.map Refill.handle), List.map_cons,
    ← Multiset.cons_coe, Multiset.add_cons]

/-! ## The count -/

/-- Everything the coordinator refers to. -/
def Point.owned (pt : Point σ) : Multiset Handle :=
  places pt.sys.workers pt.sys.standbyPool (pt.sys.standbyRefills ++ pt.phase.refills)

/-- Every constructed actor is in exactly one place, and no place holds too many. -/
structure Point.Counted (w : World σ) (pt : Point σ) : Prop where
  places : (↑(constructed pt.sys.log) : Multiset Handle)
    = pt.owned + ↑(killed pt.sys.log) + ↑(abandoned pt.sys.log)
  fresh : ∀ h ∈ constructed pt.sys.log, h.actor < pt.sys.nextActor
  nodup : (constructed pt.sys.log).Nodup
  pool : pt.sys.standbyPool.length + (pt.sys.standbyRefills ++ pt.phase.refills).length
    ≤ w.cfg.standby
  slot : ∀ i, pt.phase.slot? = some i → i < pt.sys.workers.length

/-- A readiness check moves no actor. -/
theorem Point.Counted.checked {s : Sys σ} {p : Phase} (hC : Point.Counted w ⟨s, p⟩) (h : Handle)
    (call : Option Nat) : Point.Counted w ⟨s.emit (.checked h call), p⟩ :=
  ⟨hC.places, hC.fresh, hC.nodup, hC.pool, hC.slot⟩

/-- A constructor call returns an actor no one has seen. -/
theorem Point.Counted.construct {s : Sys σ} {p : Phase} (hC : Point.Counted w ⟨s, p⟩) (id : Nat) :
    (∀ h ∈ s.freshHandle id :: constructed s.log, h.actor < s.nextActor + 1) ∧
      (s.freshHandle id :: constructed s.log).Nodup := by
  have hnew : s.freshHandle id ∉ constructed s.log := fun hin => lt_irrefl _ (hC.fresh _ hin)
  refine ⟨fun h hin => ?_, List.nodup_cons.2 ⟨hnew, hC.nodup⟩⟩
  rcases List.mem_cons.1 hin with rfl | hin
  · exact Nat.lt_succ_self _
  · exact Nat.lt_succ_of_lt (hC.fresh h hin)

theorem Refilled.counted {attempt : Nat} {s s' : Sys σ} {p : Phase} (h : Refilled attempt s s')
    (hC : Point.Counted w ⟨s, p⟩)
    (hslack : s.standbyPool.length + (s.standbyRefills ++ p.refills).length < w.cfg.standby) :
    Point.Counted w ⟨s', p⟩ := by
  cases h with
  | refused => exact ⟨hC.places, hC.fresh, hC.nodup, hC.pool, hC.slot⟩
  | started time =>
      obtain ⟨hfresh, hnodup⟩ := hC.construct s.nextWorkerId
      let rf : Refill := ⟨s.freshHandle s.nextWorkerId, time, attempt⟩
      -- the new refill stands before those the driver holds
      have hperm : ((s.standbyRefills ++ [rf]) ++ p.refills).Perm
          (rf :: (s.standbyRefills ++ p.refills)) := by
        rw [List.append_assoc]
        exact List.perm_middle
      refine ⟨?_, hfresh, hnodup, ?_, hC.slot⟩
      · show (↑(rf.handle :: constructed s.log) : Multiset Handle)
          = EvalHarness.places s.workers s.standbyPool ((s.standbyRefills ++ [rf]) ++ p.refills)
            + ↑(killed s.log) + ↑(abandoned s.log)
        rw [places_refills rf hperm, ← Multiset.cons_coe, hC.places, Multiset.cons_add,
          Multiset.cons_add]
        rfl
      · show s.standbyPool.length + ((s.standbyRefills ++ [rf]) ++ p.refills).length ≤ _
        rw [hperm.length_eq, List.length_cons]
        omega

/-- Killing the actor of a slot. -/
theorem Point.Counted.vacate {s : Sys σ} {p : Phase} {slot : Nat} (hC : Point.Counted w ⟨s, p⟩)
    (hslot : p.slot? = some slot) : Point.Counted w ⟨s.vacate slot, p⟩ := by
  have hset := places_set (hC.slot slot hslot) none s.standbyPool (s.standbyRefills ++ p.refills)
  have hlog : constructed (s.vacate slot).log = constructed s.log := constructed_vacate s slot
  have hkilled : killed (s.vacate slot).log
      = ((s.workers[slot]?).join).toList ++ killed s.log := by
    show ((((s.workers[slot]?).join).map Event.killed).toList ++ s.log).filterMap _ = _
    cases (s.workers[slot]?).join <;> rfl
  have habandoned : abandoned (s.vacate slot).log = abandoned s.log :=
    filterMap_vacate (fun _ => rfl) s slot
  refine ⟨?_, ?_, ?_, hC.pool, ?_⟩
  · show (↑(constructed (s.vacate slot).log) : Multiset Handle)
      = EvalHarness.places (s.workers.set slot none) s.standbyPool (s.standbyRefills ++ p.refills)
        + ↑(killed (s.vacate slot).log) + ↑(abandoned (s.vacate slot).log)
    rw [hlog, hkilled, habandoned, hC.places, ← Multiset.coe_add, ← add_assoc, hset]
    simp [Point.owned]
  · intro h hin
    exact hC.fresh h (hlog ▸ hin)
  · show (constructed (s.vacate slot).log).Nodup
    rw [hlog]
    exact hC.nodup
  · intro i hi
    show i < (s.workers.set slot none).length
    rw [List.length_set]
    exact hC.slot i hi

/-- Moving the last actor of the pool to an empty slot; there is room for a refill then. -/
theorem Point.Counted.promote {s : Sys σ} {p : Phase} {slot : Nat} {h : Handle} (time : ℚ)
    (hC : Point.Counted w ⟨s, p⟩) (hslot : p.slot? = some slot)
    (hempty : (s.workers[slot]?).join = none) (hpool : s.standbyPool.getLast? = some h) :
    Point.Counted w ⟨(s.promote slot h).samplePool time, p⟩ ∧
      s.standbyPool.dropLast.length + (s.standbyRefills ++ p.refills).length < w.cfg.standby := by
  have hfill := places_fill (hC.slot slot hslot) hempty h s.standbyPool.dropLast
    (s.standbyRefills ++ p.refills)
  have hlast : s.standbyPool.dropLast ++ [h] = s.standbyPool :=
    List.dropLast_append_getLast? h hpool
  have hlen : s.standbyPool.dropLast.length + 1 = s.standbyPool.length := by
    rw [← hlast, List.length_append]
    simp
  have hbound : s.standbyPool.length + (s.standbyRefills ++ p.refills).length
    ≤ w.cfg.standby := hC.pool
  refine ⟨⟨?_, hC.fresh, hC.nodup, ?_, ?_⟩, ?_⟩
  · show (↑(constructed s.log) : Multiset Handle)
      = EvalHarness.places (s.workers.set slot (some h)) s.standbyPool.dropLast
        (s.standbyRefills ++ p.refills) + ↑(killed s.log) + ↑(abandoned s.log)
    rw [hfill, ← places_pool, hlast]
    exact hC.places
  · show s.standbyPool.dropLast.length + (s.standbyRefills ++ p.refills).length ≤ _
    omega
  · intro i hi
    show i < (s.workers.set slot (some h)).length
    rw [List.length_set]
    exact hC.slot i hi
  · omega

/-- Killing the actor of a refill that failed; there is room for another one then. -/
theorem Point.Counted.killRefill {s : Sys σ} {rf : Refill} {rest : List Refill}
    (hC : Point.Counted w ⟨s, .polling (rf :: rest)⟩) :
    Point.Counted w ⟨s.countRefillFailure.emit (.killed rf.handle), .polling rest⟩ ∧
      s.standbyPool.length + (s.standbyRefills ++ rest).length < w.cfg.standby := by
  have hpool : s.standbyPool.length + (s.standbyRefills ++ rf :: rest).length
    ≤ w.cfg.standby := hC.pool
  simp only [List.length_append, List.length_cons] at hpool
  refine ⟨⟨hC.places.trans ?_, hC.fresh, hC.nodup, ?_, fun i hi => by cases hi⟩, ?_⟩
  · show EvalHarness.places s.workers s.standbyPool (s.standbyRefills ++ rf :: rest)
        + ↑(killed s.log) + _
      = EvalHarness.places s.workers s.standbyPool (s.standbyRefills ++ rest)
        + ↑(rf.handle :: killed s.log) + _
    rw [places_refills rf List.perm_middle, ← Multiset.cons_coe, Multiset.cons_add,
      Multiset.add_cons]
    rfl
  · show s.standbyPool.length + (s.standbyRefills ++ rest).length ≤ _
    rw [List.length_append]
    omega
  · rw [List.length_append]
    omega

/-- The slot of a flight exists. -/
theorem Reach.slot_lt {s : Sys σ} {p : Phase} (hr : Reach w ⟨s, p⟩) {ref : ObjectRef} {f : Flight}
    (hf : s.active.get? ref = some f) : f.slot < s.workers.length :=
  (List.getElem?_eq_some_iff.1 (hr.disciplined.installed ref f hf)).1

theorem Move.counted {a b : Point σ} (hr : Reach w a) (h : Move w a b) (hC : a.Counted w) :
    b.Counted w := by
  cases h with
  | harvest s ref f out hf ho =>
      refine ⟨hC.places, hC.fresh, hC.nodup, hC.pool, ?_⟩
      intro i hi
      obtain rfl := Option.some_inj.1 hi
      exact hr.slot_lt hf
  | evict s ref f now submittedAt hf hage =>
      refine ⟨hC.places, hC.fresh, hC.nodup, hC.pool, ?_⟩
      intro i hi
      obtain rfl := Option.some_inj.1 hi
      exact hr.slot_lt hf
  | claim s slot e rest hp hslot hlive =>
      refine ⟨hC.places, hC.fresh, hC.nodup, hC.pool, fun i hi => ?_⟩
      simp only [Phase.slot?, Option.some.injEq] at hi
      subst hi
      obtain ⟨hd, hhd⟩ := Option.ne_none_iff_exists'.1 hlive
      exact (List.getElem?_eq_some_iff.1 (Option.join_eq_some_iff.1 hhd)).1
  | vacate s p slot hslot hwhy => exact hC.vacate hslot
  | promote s p slot h s' time hslot hempty hpool hs' =>
      obtain ⟨hpromoted, hroom⟩ := hC.promote time hslot hempty hpool
      exact hs'.counted hpromoted hroom
  | install s p slot healthy hslot hempty =>
      have hfill := places_fill (hC.slot slot hslot) hempty (s.freshHandle slot) s.standbyPool
        (s.standbyRefills ++ p.refills)
      obtain ⟨hfresh, hnodup⟩ := hC.construct slot
      refine ⟨?_, hfresh, hnodup, hC.pool, fun i hi => ?_⟩
      · show (↑(s.freshHandle slot :: constructed s.log) : Multiset Handle)
          = places (s.workers.set slot (some (s.freshHandle slot))) s.standbyPool
            (s.standbyRefills ++ p.refills) + ↑(killed s.log) + ↑(abandoned s.log)
        rw [hfill, ← Multiset.cons_coe, hC.places, Multiset.cons_add, Multiset.cons_add]
        rfl
      · show i < (s.workers.set slot (some (s.freshHandle slot))).length
        rw [List.length_set]
        exact hC.slot i hi
  | abandon s p slot exc =>
      obtain ⟨hfresh, hnodup⟩ := hC.construct slot
      refine ⟨?_, hfresh, hnodup, hC.pool, hC.slot⟩
      show (↑(s.freshHandle slot :: constructed s.log) : Multiset Handle)
        = (⟨s, p⟩ : Point σ).owned + ↑(killed s.log) + ↑(s.freshHandle slot :: abandoned s.log)
      rw [← Multiset.cons_coe, hC.places, ← Multiset.cons_coe, Multiset.add_cons]
  | poll s =>
      refine ⟨?_, hC.fresh, hC.nodup, ?_, fun i hi => by cases hi⟩
      · have hplaces := hC.places
        simp only [Point.owned, Phase.refills, List.append_nil] at hplaces
        exact hplaces
      · have hpool := hC.pool
        simp only [Phase.refills, List.append_nil] at hpool
        exact hpool
  | keep s rf rest =>
      have hperm : ((s.standbyRefills ++ [rf]) ++ rest).Perm (s.standbyRefills ++ rf :: rest) := by
        simp
      refine ⟨hC.places.trans ?_, hC.fresh, hC.nodup, ?_, fun i hi => by cases hi⟩
      · show places s.workers s.standbyPool (s.standbyRefills ++ rf :: rest) + _ + _
          = places s.workers s.standbyPool ((s.standbyRefills ++ [rf]) ++ rest) + _ + _
        simp
      · show s.standbyPool.length + ((s.standbyRefills ++ [rf]) ++ rest).length ≤ _
        rw [hperm.length_eq]
        exact hC.pool
  | join s rf rest healthy time =>
      refine ⟨hC.places.trans ?_, hC.fresh, hC.nodup, ?_, fun i hi => by cases hi⟩
      · show places s.workers s.standbyPool (s.standbyRefills ++ rf :: rest) + _ + _
          = places s.workers (s.standbyPool ++ [rf.handle]) (s.standbyRefills ++ rest) + _ + _
        rw [places_refills rf List.perm_middle, places_pool]
        rfl
      · have hpool : s.standbyPool.length + (s.standbyRefills ++ rf :: rest).length ≤ _ := hC.pool
        show (s.standbyPool ++ [rf.handle]).length + (s.standbyRefills ++ rest).length ≤ _
        simp only [List.length_append, List.length_cons, List.length_nil] at hpool ⊢
        omega
  | failRefill s rf rest s' hagain hs' =>
      obtain ⟨hkilled, hroom⟩ := (hC.checked _ _).killRefill
      exact hs'.counted hkilled hroom
  | giveUpRefill s rf rest hlast => exact (hC.checked _ _).killRefill.1
  | rest s slot => exact ⟨hC.places, hC.fresh, hC.nodup, hC.pool, fun i hi => by cases hi⟩
  | submit s slot e h time hh =>
      exact ⟨hC.places, hC.fresh, hC.nodup, hC.pool, fun i hi => by cases hi⟩
  | bounce s slot e hh => exact ⟨hC.places, hC.fresh, hC.nodup, hC.pool, fun i hi => by cases hi⟩
  | _ => exact ⟨hC.places, hC.fresh, hC.nodup, hC.pool, hC.slot⟩

/-! ## Startup -/

theorem constructed_start {s : Sys σ} (hs : Started w s) : constructed s.log
    = ((List.range (w.cfg.nWorkers + w.cfg.standby)).map startHandle).reverse := by
  obtain ⟨probes, hlog, hprobes⟩ := hs.log
  have hnone : constructed probes = [] := by
    rw [constructed, List.filterMap_eq_nil_iff]
    intro e he
    rcases hprobes e he with ⟨h, call, rfl⟩ | ⟨h, b, rfl⟩ <;> rfl
  rw [constructed, hlog, List.filterMap_append, ← constructed, hnone, List.nil_append,
    List.filterMap_reverse, List.filterMap_map]
  simp

theorem Reach.counted {pt : Point σ} (h : Reach w pt) : pt.Counted w := by
  refine h.invariant (I := Point.Counted w) (fun s batches hs _ => ?_)
    (fun _ _ hr hm hC => hm.counted hr hC)
  have hconstructed := constructed_start hs
  have hkilled : killed s.log = [] := filterMap_start hs (fun _ => rfl) (fun _ _ => rfl)
  have habandoned : abandoned s.log = [] := filterMap_start hs (fun _ => rfl) (fun _ _ => rfl)
  refine ⟨?_, ?_, ?_, ?_, fun i hi => by cases hi⟩
  · show (↑(constructed s.log) : Multiset Handle)
      = places s.workers s.standbyPool (s.standbyRefills ++ []) + ↑(killed s.log)
        + ↑(abandoned s.log)
    have hslots : s.workers.filterMap id = (List.range w.cfg.nWorkers).map startHandle := by
      rw [hs.workers, List.filterMap_map]
      simp
    rw [hconstructed, hkilled, habandoned, places, hslots, hs.standbyPool, hs.standbyRefills,
      Multiset.coe_reverse, List.range_eq_range', ← List.range'_append_1, List.map_append,
      ← Multiset.coe_add, ← List.range_eq_range', Nat.zero_add]
    simp
  · show ∀ h ∈ constructed s.log, h.actor < s.nextActor
    rw [hconstructed, hs.nextActor]
    intro h hin
    obtain ⟨k, hk, rfl⟩ := List.mem_map.1 (List.mem_reverse.1 hin)
    exact List.mem_range.1 hk
  · show (constructed s.log).Nodup
    rw [hconstructed, List.nodup_reverse]
    refine List.nodup_range.map (fun a b hab => ?_)
    simpa [startHandle] using hab
  · show s.standbyPool.length + (s.standbyRefills ++ []).length ≤ _
    rw [hs.standbyPool, hs.standbyRefills]
    simp

/-! ## No leak -/

/-- The coordinator still refers to the actor, or has killed it. -/
def Sys.Tracks (s : Sys σ) (h : Handle) : Prop :=
  some h ∈ s.workers ∨ h ∈ s.standbyPool ∨ h ∈ s.standbyRefills.map Refill.handle ∨
    Event.killed h ∈ s.log

/-- No actor is leaked: every constructed actor is tracked, and at most `n_workers + standby` of
    them have not been killed. -/
def Sys.NoLeak (w : World σ) (s : Sys σ) : Prop :=
  (∀ h, Event.constructed h ∈ s.log → s.Tracks h) ∧
    ((constructed s.log).filter (fun h => h ∉ killed s.log)).length
      ≤ w.cfg.nWorkers + w.cfg.standby

theorem mem_places {workers : List (Option Handle)} {pool : List Handle} {refills : List Refill}
    {h : Handle} : h ∈ places workers pool refills ↔
      some h ∈ workers ∨ h ∈ pool ∨ h ∈ refills.map Refill.handle := by
  simp only [places, Multiset.mem_add, Multiset.mem_coe, List.mem_filterMap, id]
  constructor
  · rintro ((⟨x, hx, rfl⟩ | hpool) | hrefill)
    · exact Or.inl hx
    · exact Or.inr (Or.inl hpool)
    · exact Or.inr (Or.inr hrefill)
  · rintro (hx | hpool | hrefill)
    · exact Or.inl (Or.inl ⟨_, hx, rfl⟩)
    · exact Or.inl (Or.inr hpool)
    · exact Or.inr hrefill

/-- The places are apart: no actor is in two of them. -/
theorem Point.Counted.apart {pt : Point σ} (hC : pt.Counted w) : pt.owned.Nodup ∧
    ∀ h ∈ pt.owned, h ∈ constructed pt.sys.log ∧ h ∉ killed pt.sys.log ∧
      h ∉ abandoned pt.sys.log := by
  have hnodup : (pt.owned + ↑(killed pt.sys.log) + ↑(abandoned pt.sys.log)).Nodup :=
    hC.places ▸ Multiset.coe_nodup.2 hC.nodup
  have hin : ∀ h ∈ pt.owned, h ∈ constructed pt.sys.log := by
    intro h hown
    rw [← Multiset.mem_coe, hC.places]
    exact Multiset.mem_add.2 (Or.inl (Multiset.mem_add.2 (Or.inl hown)))
  rw [add_assoc, Multiset.nodup_add] at hnodup
  obtain ⟨hown, -, hdisj⟩ := hnodup
  refine ⟨hown, fun h hmem => ⟨hin h hmem, fun hk => ?_, fun ha => ?_⟩⟩
  · exact Multiset.disjoint_left.1 hdisj hmem (Multiset.mem_add.2 (Or.inl hk))
  · exact Multiset.disjoint_left.1 hdisj hmem (Multiset.mem_add.2 (Or.inr ha))

theorem card_places (workers : List (Option Handle)) (pool : List Handle) (refills : List Refill) :
    (places workers pool refills).card ≤ workers.length + (pool.length + refills.length) := by
  simp only [places, Multiset.card_add, Multiset.coe_card, List.length_map]
  have := List.length_filterMap_le id workers
  omega

/-- An abandoned actor is in no other place. -/
theorem Reach.abandoned_leaked {s : Sys σ} (h : Reach w ⟨s, .idle⟩) {hd : Handle}
    (hin : hd ∈ abandoned s.log) : Event.constructed hd ∈ s.log ∧ ¬ s.Tracks hd := by
  have hC := h.counted
  have hplaces : (↑(constructed s.log) : Multiset Handle)
      = places s.workers s.standbyPool (s.standbyRefills ++ []) + ↑(killed s.log)
        + ↑(abandoned s.log) := hC.places
  rw [List.append_nil] at hplaces
  refine ⟨?_, fun htracked => ?_⟩
  · rw [← mem_constructed, ← Multiset.mem_coe, hplaces]
    exact Multiset.mem_add.2 (Or.inr (Multiset.mem_coe.2 hin))
  · have hnodup : (places s.workers s.standbyPool s.standbyRefills + ↑(killed s.log)
        + ↑(abandoned s.log) : Multiset Handle).Nodup := hplaces ▸ Multiset.coe_nodup.2 hC.nodup
    rw [Multiset.nodup_add] at hnodup
    refine Multiset.disjoint_left.1 hnodup.2.2 ?_ (Multiset.mem_coe.2 hin)
    rw [Multiset.mem_add, mem_places, Multiset.mem_coe, mem_killed]
    rcases htracked with hslot | hpool | hrefill | hkilled
    · exact Or.inl (Or.inl hslot)
    · exact Or.inl (Or.inr (Or.inl hpool))
    · exact Or.inl (Or.inr (Or.inr hrefill))
    · exact Or.inr hkilled

/-- No actor is leaked by a loop head if and only if no replacement attempt so far raised after its
    constructor call. -/
theorem no_leak_iff {s₀ s : Sys σ} (h : startRun w = .ok s₀) (k : Nat)
    (hs : after w s₀ k = .head s) :
    s.NoLeak w ↔ ∀ hd exc, Event.attemptFailed hd exc ∉ s.log := by
  have hreached := reach_after h k
  rw [hs] at hreached
  have hr : Reach w ⟨s, .idle⟩ := hreached
  constructor
  · intro hnoleak hd exc hin
    obtain ⟨hconstructed, hleaked⟩ := hr.abandoned_leaked (mem_abandoned.2 ⟨exc, hin⟩)
    exact hleaked (hnoleak.1 hd hconstructed)
  · intro hnone
    have hC := hr.counted
    have habandoned : abandoned s.log = [] := by
      rw [List.eq_nil_iff_forall_not_mem]
      intro hd hin
      obtain ⟨exc, hexc⟩ := mem_abandoned.1 hin
      exact hnone hd exc hexc
    have hplaces : (↑(constructed s.log) : Multiset Handle)
        = places s.workers s.standbyPool (s.standbyRefills ++ []) + ↑(killed s.log)
          + ↑(abandoned s.log) := hC.places
    rw [habandoned, List.append_nil, Multiset.coe_nil, add_zero] at hplaces
    refine ⟨fun hd hin => ?_, ?_⟩
    · have hmem := Multiset.mem_coe.2 (mem_constructed.2 hin)
      rw [hplaces, Multiset.mem_add, mem_places, Multiset.mem_coe, mem_killed] at hmem
      unfold Sys.Tracks
      tauto
    · -- the actors not killed are those in the three places
      have hle : (↑((constructed s.log).filter (fun h => h ∉ killed s.log)) : Multiset Handle)
          ≤ places s.workers s.standbyPool s.standbyRefills := by
        rw [← Multiset.filter_coe, hplaces, Multiset.filter_add]
        have hkilled : (↑(killed s.log) : Multiset Handle).filter (fun h => h ∉ killed s.log) = 0 :=
          Multiset.filter_eq_nil.2 (fun hd hin hout => hout (Multiset.mem_coe.1 hin))
        rw [hkilled, add_zero]
        exact Multiset.filter_le _ _
      have hcard := (Multiset.card_le_card hle).trans (card_places _ _ _)
      have hpool : s.standbyPool.length + (s.standbyRefills ++ []).length ≤ w.cfg.standby := hC.pool
      have hlen : s.workers.length = w.cfg.nWorkers := hr.workers_length
      rw [List.append_nil] at hpool
      rw [Multiset.coe_card] at hcard
      omega

theorem no_leak_iff_small : ∃ s₀ s, startRun smallWorld = .ok s₀ ∧
    after smallWorld s₀ 1 = .head s ∧
    (s.NoLeak smallWorld ↔ ∀ hd exc, Event.attemptFailed hd exc ∉ s.log) := by
  obtain ⟨s₀, s, h, hs, -⟩ := exists_head (w := smallWorld) (k := 1) (P := fun _ => True)
    (by decide +kernel)
  exact ⟨s₀, s, h, hs, no_leak_iff h 1 hs⟩

/-! ## A leak

One worker, whose batch fails and whose health check then fails; the first replacement does not
answer in time, the second does. -/

def leakConfig : Config where
  nWorkers := 1
  batchSize := 1
  tasks := [⟨"a", none⟩]

/-- Call 8 is the health check of the worker, call 11 the wait for its first replacement. -/
def leakReply (step : Nat) : Reply :=
  if step = 8 ∨ step = 11 then
    { promptReply 1 step with health := .error ⟨"GetTimeoutError", "Get timed out"⟩ }
  else promptReply 1 step

def leakWorld : World Unit where
  cfg := leakConfig
  evaluateBatch := failingOn leakConfig (fun _ => true)
  backend := ()
  env := leakReply

/-- The replacement that did not answer in time is neither installed anywhere nor killed. -/
theorem actor_leaked : ∃ s₀ s, startRun leakWorld = .ok s₀ ∧ after leakWorld s₀ 1 = .head s ∧
    ∃ hd, Event.constructed hd ∈ s.log ∧ some hd ∉ s.workers ∧ hd ∉ s.standbyPool ∧
      hd ∉ s.standbyRefills.map Refill.handle ∧ Event.killed hd ∉ s.log := by
  obtain ⟨s₀, s, h, hs, hconstructed, hslot, hpool, hrefill, hkilled⟩ :=
    exists_head (w := leakWorld) (k := 1)
      (P := fun s => ⟨1, 0⟩ ∈ constructed s.log ∧ some ⟨1, 0⟩ ∉ s.workers ∧
        ⟨1, 0⟩ ∉ s.standbyPool ∧ ⟨1, 0⟩ ∉ s.standbyRefills.map Refill.handle ∧
        ⟨1, 0⟩ ∉ killed s.log) (by decide +kernel)
  exact ⟨s₀, s, h, hs, ⟨1, 0⟩, mem_constructed.1 hconstructed, hslot, hpool, hrefill,
    fun hin => hkilled (mem_killed.2 hin)⟩

end EvalHarness
