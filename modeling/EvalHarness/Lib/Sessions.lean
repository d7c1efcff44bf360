import Mathlib

set_option autoImplicit false

/-! # Sessions that own what they change

Several sessions run over one environment, each at its position in a list. Every session owns some
resources, no two of them the same one. A step changes one session, and of the environment only what
that session owns, so what is known of the others stays known. -/

namespace Sessions

variable {κ ρ ε υ : Type}

theorem map_set_eq {β : Type} (f : κ → β) {l : List κ} {k : Nat} {c c' : κ} (hk : l[k]? = some c)
    (h : f c' = f c) : (l.set k c').map f = l.map f := by
  rw [List.map_set, h]
  apply List.ext_getElem?
  intro j
  rw [List.getElem?_set]
  split
  · next hj =>
      subst hj
      obtain ⟨hlt, rfl⟩ := List.getElem?_eq_some_iff.1 hk
      simp [hlt]
  · rfl

/-- A total over the sessions moves by what the one that steps contributes. -/
theorem sum_map_set (f : κ → ℕ) {l : List κ} {k : Nat} {c : κ} (hk : l[k]? = some c) (c' : κ) :
    ((l.set k c').map f).sum + f c = (l.map f).sum + f c' := by
  induction l generalizing k with
  | nil => simp at hk
  | cons head rest ih => cases k with
    | zero =>
        simp only [List.getElem?_cons_zero, Option.some.injEq] at hk
        subst hk
        simp only [List.set_cons_zero, List.map_cons, List.sum_cons]
        omega
    | succ k =>
        simp only [List.getElem?_cons_succ] at hk
        have := ih hk
        simp only [List.set_cons_succ, List.map_cons, List.sum_cons]
        omega

/-- Two sessions own nothing in common. -/
theorem disjoint_of_nodup {owns : κ → List ρ} {l : List κ} (h : (l.map owns).flatten.Nodup)
    {j k : Nat} {c d : κ} (hj : l[j]? = some c) (hk : l[k]? = some d) (hne : j ≠ k) :
    ∀ r ∈ owns c, r ∉ owns d := by
  have hpairwise := (List.nodup_flatten.1 h).2
  rw [List.pairwise_map, List.pairwise_iff_getElem] at hpairwise
  obtain ⟨hjlt, rfl⟩ := List.getElem?_eq_some_iff.1 hj
  obtain ⟨hklt, rfl⟩ := List.getElem?_eq_some_iff.1 hk
  rcases Nat.lt_or_gt_of_ne hne with hlt | hlt
  · exact fun r hr hr' => hpairwise j k hjlt hklt hlt hr hr'
  · exact fun r hr hr' => hpairwise k j hklt hjlt hlt hr' hr

/-- The frame rule: what depends only on what a session owns survives a step of another one. -/
theorem forall_set (owns : κ → List ρ) (view : ε → ρ → υ) (Sound : ε → κ → Prop)
    (hframe : ∀ e e' c, (∀ r ∈ owns c, view e' r = view e r) → Sound e c → Sound e' c)
    {l : List κ} (hdisjoint : (l.map owns).flatten.Nodup) {e e' : ε} {k : Nat} {c c' : κ}
    (hk : l[k]? = some c) (hother : ∀ r, r ∉ owns c → view e' r = view e r)
    (hsound : ∀ (j : Nat) (d : κ), l[j]? = some d → Sound e d) (hnew : Sound e' c') :
    ∀ (j : Nat) (d : κ), (l.set k c')[j]? = some d → Sound e' d := by
  intro j d hd
  rw [List.getElem?_set] at hd
  split at hd
  · split at hd
    · cases hd
      exact hnew
    · cases hd
  · next hne =>
      refine hframe e e' d (fun r hr => hother r ?_) (hsound j d hd)
      exact disjoint_of_nodup hdisjoint hd hk (Ne.symm hne) r hr

/-- A session that joins, with resources the others do not know. -/
theorem forall_append (owns : κ → List ρ) (view : ε → ρ → υ) (Sound : ε → κ → Prop)
    (hframe : ∀ e e' c, (∀ r ∈ owns c, view e' r = view e r) → Sound e c → Sound e' c)
    {l : List κ} {e e' : ε} {c : κ} (hsame : ∀ r, view e' r = view e r)
    (hsound : ∀ (j : Nat) (d : κ), l[j]? = some d → Sound e d) (hnew : Sound e' c) :
    ∀ (j : Nat) (d : κ), (l ++ [c])[j]? = some d → Sound e' d := by
  intro j d hd
  rcases Nat.lt_or_ge j l.length with hlt | hge
  · rw [List.getElem?_append_left hlt] at hd
    exact hframe e e' d (fun r _ => hsame r) (hsound j d hd)
  · rw [List.getElem?_append_right hge, List.getElem?_singleton] at hd
    split at hd
    · cases hd
      exact hnew
    · cases hd

/-! ## A value that some events set -/

/-- After any events, the value is the one that the latest event to set it has set. -/
theorem foldl_latest {α β : Type} (sets : α → Option β) (init : β) (events : List α) (v : β) :
    events.foldl (fun value event => (sets event).getD value) init = v ↔
      (∃ before event after, events = before ++ event :: after ∧ sets event = some v ∧
        ∀ later ∈ after, sets later = none) ∨
      ((∀ event ∈ events, sets event = none) ∧ v = init) := by
  induction events generalizing init with
  | nil =>
      simp only [List.foldl_nil, List.not_mem_nil, false_imp_iff, implies_true, true_and]
      constructor
      · intro h
        exact .inr h.symm
      · rintro (⟨before, event, after, hsplit, -⟩ | h)
        · simp at hsplit
        · exact h.symm
  | cons first events ih =>
      rw [List.foldl_cons, ih]
      constructor
      · rintro (⟨before, event, after, rfl, hset, hafter⟩ | ⟨hnone, hv⟩)
        · exact .inl ⟨first :: before, event, after, rfl, hset, hafter⟩
        · cases hfirst : sets first with
          | some w =>
              rw [hfirst, Option.getD_some] at hv
              exact .inl ⟨[], first, events, rfl, by rw [hfirst, hv], hnone⟩
          | none =>
              rw [hfirst, Option.getD_none] at hv
              exact .inr ⟨List.forall_mem_cons.2 ⟨hfirst, hnone⟩, hv⟩
      · rintro (⟨before, event, after, hsplit, hset, hafter⟩ | ⟨hnone, hv⟩)
        · cases before with
          | nil =>
              cases hsplit
              exact .inr ⟨hafter, by rw [hset, Option.getD_some]⟩
          | cons b before =>
              cases hsplit
              exact .inl ⟨before, event, after, rfl, hset, hafter⟩
        · obtain ⟨hfirst, hrest⟩ := List.forall_mem_cons.1 hnone
          exact .inr ⟨hrest, by rw [hfirst, Option.getD_none]; exact hv⟩

end Sessions
