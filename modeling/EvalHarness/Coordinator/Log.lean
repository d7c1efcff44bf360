import EvalHarness.Coordinator.Loop

set_option autoImplicit false

/-! # Reading the log

Projections of the log to the calls one argument is about. A move that logs other events leaves such
a projection as it is, by computation; `vacate`, which logs a kill or nothing, is the one exception
and has its lemma here. -/

namespace EvalHarness

variable {σ : Type}

/-- The tables just before each submission. -/
def submissions (log : List Event) : List Tables :=
  log.filterMap (fun | .dispatched _ _ t => some t | _ => none)

/-- The tables at each `ray.wait` of the loop. -/
def waits (log : List Event) : List Tables :=
  log.filterMap (fun | .waiting t => some t | _ => none)

/-- The tables at each sleep of the loop, with the clock reading of the promotion scan before it. -/
def sleeps (log : List Event) : List (Tables × ℚ) :=
  log.filterMap (fun | .sleeping t now => some (t, now) | _ => none)

/-- What a projection has seen when it keeps one event only as `b`. -/
theorem mem_filterMap_event {β : Type} {g : Event → Option β} {b : β} {seen : Event}
    (hg : ∀ e, g e = some b ↔ e = seen) {log : List Event} :
    b ∈ log.filterMap g ↔ seen ∈ log := by
  simp [List.mem_filterMap, hg]

/-- What a projection has seen when it keeps several events as `b`. -/
theorem mem_filterMap_events {β ι : Type} {g : Event → Option β} {b : β} {seen : ι → Event}
    (hg : ∀ e, g e = some b ↔ ∃ i, e = seen i) {log : List Event} :
    b ∈ log.filterMap g ↔ ∃ i, seen i ∈ log := by
  simp only [List.mem_filterMap, hg]
  constructor
  · rintro ⟨e, he, i, rfl⟩
    exact ⟨i, he⟩
  · rintro ⟨i, he⟩
    exact ⟨_, he, i, rfl⟩

/-- A projection that ignores kills does not see `vacate`. -/
theorem filterMap_vacate {β : Type} {g : Event → Option β} (hg : ∀ h, g (.killed h) = none)
    (s : Sys σ) (slot : Nat) : (s.vacate slot).log.filterMap g = s.log.filterMap g := by
  show ((((s.workers[slot]?).join).map Event.killed).toList ++ s.log).filterMap g = _
  cases (s.workers[slot]?).join with
  | none => rfl
  | some h => simp [hg]

/-- No event of the startup is seen by a projection that ignores constructions, readiness checks
    and admissions. -/
theorem filterMap_start {β : Type} {g : Event → Option β} {w : World σ} {s : Sys σ}
    (hs : Started w s) (hc : ∀ h, g (.constructed h) = none)
    (hp : ∀ h b, g (.probed h b) = none)
    (hk : ∀ h call, g (.checked h call) = none := by exact fun _ _ => rfl) :
    s.log.filterMap g = [] := by
  obtain ⟨probes, hlog, hprobes⟩ := hs.log
  rw [List.filterMap_eq_nil_iff, hlog]
  intro e he
  rcases List.mem_append.1 he with he | he
  · rcases hprobes e he with ⟨h, call, rfl⟩ | ⟨h, b, rfl⟩
    · exact hk h call
    · exact hp h b
  · obtain ⟨k, -, rfl⟩ := List.mem_map.1 (List.mem_reverse.1 he)
    exact hc _

theorem mem_submissions {log : List Event} {t : Tables} :
    t ∈ submissions log ↔ ∃ ref f, Event.dispatched ref f t ∈ log := by
  have hseen : t ∈ submissions log ↔ ∃ x : ObjectRef × Flight, Event.dispatched x.1 x.2 t ∈ log :=
    mem_filterMap_events (fun e => by cases e <;> simp)
  rw [hseen, Prod.exists]

theorem mem_waits {log : List Event} {t : Tables} : t ∈ waits log ↔ Event.waiting t ∈ log :=
  mem_filterMap_event (fun e => by cases e <;> simp)

theorem mem_sleeps {log : List Event} {t : Tables} {now : ℚ} :
    (t, now) ∈ sleeps log ↔ Event.sleeping t now ∈ log :=
  mem_filterMap_event (fun e => by cases e <;> simp)

/-! ## Events and what came before them -/

/-- The events a projection sees, each with the log before it. -/
def pastOf {β : Type} (g : Event → Option β) : List Event → List (β × List Event)
  | [] => []
  | e :: before => ((g e).map (fun b => (b, before))).toList ++ pastOf g before

theorem mem_pastOf {β : Type} {g : Event → Option β} {log before : List Event} {b : β} :
    (b, before) ∈ pastOf g log ↔ ∃ later e, log = later ++ e :: before ∧ g e = some b := by
  induction log with
  | nil => simp [pastOf]
  | cons e earlier ih =>
      rw [pastOf, List.mem_append, ih]
      constructor
      · rintro (hin | ⟨later, e', rfl, hg⟩)
        · cases hg : g e with
          | none => simp [hg] at hin
          | some b' =>
              simp only [hg, Option.map_some, Option.toList_some, List.mem_singleton,
                Prod.mk.injEq] at hin
              obtain ⟨rfl, rfl⟩ := hin
              exact ⟨[], e, rfl, hg⟩
        · exact ⟨e :: later, e', rfl, hg⟩
      · rintro ⟨later, e', heq, hg⟩
        cases later with
        | nil =>
            cases heq
            simp [hg]
        | cons e'' later =>
            cases heq
            exact Or.inr ⟨later, e', rfl, hg⟩

theorem pastOf_vacate {β : Type} {g : Event → Option β} (hg : ∀ h, g (.killed h) = none)
    (s : Sys σ) (slot : Nat) : pastOf g (s.vacate slot).log = pastOf g s.log := by
  show pastOf g ((((s.workers[slot]?).join).map Event.killed).toList ++ s.log) = _
  cases (s.workers[slot]?).join with
  | none => rfl
  | some h => simp [pastOf, hg]

theorem pastOf_start {β : Type} {g : Event → Option β} {w : World σ} {s : Sys σ}
    (hs : Started w s) (hc : ∀ h, g (.constructed h) = none)
    (hp : ∀ h b, g (.probed h b) = none)
    (hk : ∀ h call, g (.checked h call) = none := by exact fun _ _ => rfl) :
    pastOf g s.log = [] := by
  have hnone := filterMap_start hs hc hp hk
  rw [List.filterMap_eq_nil_iff] at hnone
  rw [List.eq_nil_iff_forall_not_mem]
  rintro ⟨b, before⟩ hin
  obtain ⟨later, e, hlog, hg⟩ := mem_pastOf.1 hin
  rw [hnone e (hlog ▸ List.mem_append_right later List.mem_cons_self)] at hg
  cases hg

end EvalHarness
