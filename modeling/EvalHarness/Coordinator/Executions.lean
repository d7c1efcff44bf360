import EvalHarness.Coordinator.Log

set_option autoImplicit false

/-! # What happens to a submitted call

Every ref in `active` is either in flight with its batch or has resolved, with the outcome the
worker computed for that batch; so a harvested outcome is one of `evaluate_batch` on the harvested
batch. -/

namespace EvalHarness

variable {σ : Type} {w : World σ}

/-- How the refs in `active` stand with the workers. -/
structure Linked (active : Dict ObjectRef Flight) (nextCall : Nat) (r : RayState σ) : Prop where
  inFlight_fresh : ∀ ref batch, r.inFlight.get? ref = some batch → ref.call < nextCall
  resolved_fresh : ∀ ref out, r.resolved.get? ref = some out → ref.call < nextCall
  outstanding : ∀ ref f, active.get? ref = some f →
    (r.inFlight.get? ref = some f.batch ∧ r.resolved.get? ref = none) ∨
    (r.inFlight.get? ref = none ∧
      ∃ out, r.resolved.get? ref = some out ∧ (ref, f.batch, out) ∈ r.executed)

/-- Every outcome so far was computed by `evaluate_batch`. -/
def RayState.Legal (evaluateBatch : EvaluateBatch σ) (r : RayState σ) : Prop :=
  ∀ x ∈ r.executed, ∃ st, x.2.2 = (evaluateBatch st x.1.worker x.2.1).1

theorem Linked.execute {active : Dict ObjectRef Flight} {nextCall : Nat} {r : RayState σ}
    (h : Linked active nextCall r) (evaluateBatch : EvaluateBatch σ) (ref : ObjectRef) :
    Linked active nextCall (r.execute evaluateBatch ref) := by
  unfold RayState.execute
  split
  · exact h
  · next batch hb =>
      refine ⟨fun ref' batch' h' => ?_, fun ref' out h' => ?_, fun ref' f hf => ?_⟩
      · rw [Dict.get?_erase] at h'
        split at h'
        · cases h'
        · exact h.inFlight_fresh ref' batch' h'
      · rw [Dict.get?_set] at h'
        split at h'
        · next heq => exact heq ▸ h.inFlight_fresh ref batch hb
        · exact h.resolved_fresh ref' out h'
      · simp only [Dict.get?_erase, Dict.get?_set]
        by_cases heq : ref' = ref
        · subst heq
          rcases h.outstanding ref' f hf with ⟨hin, -⟩ | ⟨hout, -⟩
          · rw [hb] at hin
            cases hin
            exact Or.inr ⟨if_pos rfl, _, if_pos rfl, List.mem_cons_self⟩
          · rw [hb] at hout
            cases hout
        · simp only [if_neg heq]
          refine (h.outstanding ref' f hf).imp_right (fun hres => ⟨hres.1, ?_⟩)
          obtain ⟨-, out, hout, hin⟩ := hres
          exact ⟨out, hout, List.mem_cons_of_mem _ hin⟩

theorem RayState.Legal.execute {evaluateBatch : EvaluateBatch σ} {r : RayState σ}
    (h : r.Legal evaluateBatch) (ref : ObjectRef) :
    (r.execute evaluateBatch ref).Legal evaluateBatch := by
  unfold RayState.execute
  split
  · exact h
  · intro x hx
    rcases List.mem_cons.1 hx with rfl | hx
    · exact ⟨_, rfl⟩
    · exact h x hx

theorem RayState.executed_execute {evaluateBatch : EvaluateBatch σ} {r : RayState σ}
    {ref : ObjectRef} {x : ObjectRef × Batch × Outcome} (h : x ∈ r.executed) :
    x ∈ (r.execute evaluateBatch ref).executed := by
  unfold RayState.execute
  split
  · exact h
  · exact List.mem_cons_of_mem _ h

/-- Dropping refs from `active` keeps the rest linked. -/
theorem Linked.erase {active : Dict ObjectRef Flight} {nextCall : Nat} {r : RayState σ}
    (h : Linked active nextCall r) (ref : ObjectRef) : Linked (active.erase ref) nextCall r := by
  refine ⟨h.inFlight_fresh, h.resolved_fresh, fun ref' f hf => ?_⟩
  rw [Dict.get?_erase] at hf
  split at hf
  · cases hf
  · exact h.outstanding ref' f hf

theorem Linked.launch {s : Sys σ} (h : Linked s.active s.nextCall s.ray) (slot : Nat) (e : Entry)
    (hd : Handle) : Linked (s.launch slot e hd).active (s.launch slot e hd).nextCall
      (s.launch slot e hd).ray := by
  refine ⟨fun ref batch hin => ?_, fun ref out hres => ?_, fun ref f hf => ?_⟩
  · replace hin : (s.ray.inFlight.set (s.freshRef hd) e.batch).get? ref = some batch := hin
    show ref.call < s.nextCall + 1
    rw [Dict.get?_set] at hin
    split at hin
    · next heq => exact heq ▸ Nat.lt_succ_self _
    · exact Nat.lt_succ_of_lt (h.inFlight_fresh ref batch hin)
  · exact Nat.lt_succ_of_lt (h.resolved_fresh ref out hres)
  · replace hf :
        (s.active.set (s.freshRef hd) ⟨slot, e.batch, e.retryCount⟩).get? ref = some f := hf
    show ((s.ray.inFlight.set (s.freshRef hd) e.batch).get? ref = _ ∧ s.ray.resolved.get? ref = _) ∨
      (s.ray.inFlight.set (s.freshRef hd) e.batch).get? ref = _ ∧ _
    rw [Dict.get?_set] at hf ⊢
    by_cases heq : ref = s.freshRef hd
    · rw [if_pos heq] at hf
      cases hf
      refine Or.inl ⟨if_pos heq, ?_⟩
      by_contra hne
      obtain ⟨out, hout⟩ := Option.ne_none_iff_exists'.1 hne
      exact absurd (h.resolved_fresh ref out hout) (by rw [heq]; exact lt_irrefl _)
    · rw [if_neg heq] at hf ⊢
      exact h.outstanding ref f hf

/-- The link of a point: that of its tables, and the outcome the driver holds. -/
structure Point.Linked (w : World σ) (pt : Point σ) : Prop where
  linked : EvalHarness.Linked pt.sys.active pt.sys.nextCall pt.sys.ray
  legal : pt.sys.ray.Legal w.evaluateBatch
  fetched : ∀ ref f out, pt.phase = .fetched ref f out → (ref, f.batch, out) ∈ pt.sys.ray.executed

theorem Move.linked {a b : Point σ} (h : Move w a b) (hI : a.Linked w) : b.Linked w := by
  cases h with
  | call s p d hd =>
      refine RayState.call_induct (fun r => Point.Linked w ⟨{ s with ray := r }, p⟩)
        ⟨⟨hI.linked.inFlight_fresh, hI.linked.resolved_fresh, hI.linked.outstanding⟩, hI.legal,
          hI.fetched⟩ (fun r ref h => ?_)
      exact ⟨h.linked.execute _ ref, h.legal.execute ref,
        fun ref' f out hp => RayState.executed_execute (h.fetched ref' f out hp)⟩
  | harvest s ref f out hf ho =>
      refine ⟨hI.linked.erase ref, hI.legal, fun ref' f' out' hp => ?_⟩
      cases hp
      rcases hI.linked.outstanding ref f hf with ⟨-, hnone⟩ | ⟨-, out', hout, hin⟩
      · rw [ho] at hnone
        cases hnone
      · rw [ho] at hout
        cases hout
        exact hin
  | evict s ref f now submittedAt hf hage =>
      exact ⟨hI.linked.erase ref, hI.legal, fun ref' f' out' hp => by cases hp⟩
  | submit s slot e h time hh =>
      exact ⟨hI.linked.launch slot e h, hI.legal, fun ref' f' out' hp => by cases hp⟩
  | promote s p slot h s' time hslot hempty hpool hs' =>
      cases hs' <;> exact ⟨hI.linked, hI.legal, hI.fetched⟩
  | failRefill s rf rest s' hagain hs' =>
      cases hs' <;> exact ⟨hI.linked, hI.legal, fun ref' f' out' hp => by cases hp⟩
  | vacate s p slot hslot hwhy => exact ⟨hI.linked, hI.legal, hI.fetched⟩
  | fallback s p => exact ⟨hI.linked, hI.legal, hI.fetched⟩
  | install s p slot healthy hslot hempty => exact ⟨hI.linked, hI.legal, hI.fetched⟩
  | abandon s p slot exc => exact ⟨hI.linked, hI.legal, hI.fetched⟩
  | _ => exact ⟨hI.linked, hI.legal, fun ref' f' out' hp => by cases hp⟩

theorem Reach.linked {pt : Point σ} (h : Reach w pt) : pt.Linked w := by
  refine h.invariant (I := Point.Linked w) (fun s batches hs _ => ⟨⟨?_, ?_, ?_⟩, ?_, ?_⟩)
    (fun _ _ _ hm hI => hm.linked hI)
  · show ∀ ref batch, s.ray.inFlight.get? ref = some batch → _
    rw [hs.inFlight]
    exact fun ref batch h => by cases h
  · show ∀ ref out, s.ray.resolved.get? ref = some out → _
    rw [hs.resolved]
    exact fun ref out h => by cases h
  · show ∀ ref f, s.active.get? ref = some f → _
    rw [hs.active]
    exact fun ref f h => by cases h
  · show ∀ x ∈ s.ray.executed, _
    rw [hs.executed]
    exact fun x hx => absurd hx List.not_mem_nil
  · exact fun ref f out hp => by cases hp

/-- What has been executed stays executed. -/
theorem Move.executed_subset {a b : Point σ} (hm : Move w a b) :
    ∀ x ∈ a.sys.ray.executed, x ∈ b.sys.ray.executed := by
  cases hm with
  | call s p d hd =>
      intro x hx
      exact RayState.call_induct (fun r => x ∈ r.executed) hx
        (fun r ref hin => RayState.executed_execute hin)
  | promote s p slot h s' time hslot hempty hpool hs' => cases hs' <;> exact fun x hx => hx
  | failRefill s rf rest s' hagain hs' => cases hs' <;> exact fun x hx => hx
  | _ => exact fun x hx => hx

end EvalHarness
