import Mathlib

set_option autoImplicit false

/-! # Sessions that resume where earlier ones stopped

Each job has a key, and a store keeps what the attempts at jobs have left under their keys. A
session goes through jobs and attempts those whose key is not in the store. Sessions may end
anywhere, and their jobs may differ: every key is filled at most once, and a session whose attempts
all leave something leaves nothing to do. -/

namespace Resumable

variable {ι κ β : Type}

/-- The store, and the attempts so far with what each has left. -/
structure State (ι κ β : Type) where
  store : κ → Option β
  attempts : List (ι × Option β)

variable [DecidableEq κ] (key : ι → κ) (outcome : ℕ → Option β)

/-- What an attempt leaves goes into the store. -/
def attempt (s : State ι κ β) (job : ι) : State ι κ β where
  store := match outcome s.attempts.length with
    | none => s.store
    | some left => Function.update s.store (key job) (some left)
  attempts := s.attempts ++ [(job, outcome s.attempts.length)]

def step (s : State ι κ β) (job : ι) : State ι κ β :=
  if (s.store (key job)).isSome then s else attempt key outcome s job

def session (s : State ι κ β) (jobs : List ι) : State ι κ β := jobs.foldl (step key outcome) s

variable {key outcome} {s : State ι κ β} {job : ι} {jobs : List ι}

theorem step_of_done (h : (s.store (key job)).isSome) : step key outcome s job = s := if_pos h

theorem step_of_missing (h : s.store (key job) = none) :
    step key outcome s job = attempt key outcome s job := by
  refine if_neg ?_
  rw [h]
  exact Bool.false_ne_true

theorem attempt_of_none (h : outcome s.attempts.length = none) :
    attempt key outcome s job = ⟨s.store, s.attempts ++ [(job, none)]⟩ := by
  rw [attempt, h]

theorem attempt_of_some {left : β} (h : outcome s.attempts.length = some left) :
    attempt key outcome s job
      = ⟨Function.update s.store (key job) (some left), s.attempts ++ [(job, some left)]⟩ := by
  rw [attempt, h]

theorem session_cons (s : State ι κ β) (job : ι) (jobs : List ι) :
    session key outcome s (job :: jobs) = session key outcome (step key outcome s job) jobs := rfl

/-! ## Every key is filled once -/

/-- Where a state with a store to begin with can get to: the attempts are at jobs that had nothing
    in the store, those that another one at the same key follows have left nothing, and the store
    holds what was there and what the attempts have left. -/
structure Sound (key : ι → κ) (initial : κ → Option β) (s : State ι κ β) : Prop where
  fresh : ∀ a ∈ s.attempts, initial (key a.1) = none
  once : s.attempts.Pairwise (fun a a' => key a.1 = key a'.1 → a.2 = none)
  store : ∀ k, s.store k
    = (initial k).or (s.attempts.findSome? (fun a => if key a.1 = k then a.2 else none))

theorem sound_initial (initial : κ → Option β) : Sound key initial ⟨initial, []⟩ :=
  ⟨fun _ ha => absurd ha List.not_mem_nil, List.Pairwise.nil, fun _ => (Option.or_none).symm⟩

theorem Sound.step {initial : κ → Option β} (h : Sound key initial s) (job : ι) :
    Sound key initial (step key outcome s job) := by
  rcases hdone : s.store (key job) with _ | b
  · rw [step_of_missing hdone]
    have hbefore := h.store (key job)
    rw [hdone, eq_comm, Option.or_eq_none_iff, List.findSome?_eq_none_iff] at hbefore
    obtain ⟨hinitial, hnone⟩ := hbefore
    refine ⟨fun a ha => ?_, ?_, fun k => ?_⟩
    · rcases List.mem_append.1 ha with hold | hnew
      · exact h.fresh a hold
      · rw [List.mem_singleton.1 hnew]
        exact hinitial
    · refine List.pairwise_append.2
        ⟨h.once, List.pairwise_singleton _ _, fun a ha a' ha' hkey => ?_⟩
      rw [List.mem_singleton.1 ha'] at hkey
      have hleft := hnone a ha
      rwa [if_pos hkey] at hleft
    · rcases hout : outcome s.attempts.length with _ | left
      · rw [attempt_of_none hout, List.findSome?_append, List.findSome?_singleton, ite_self,
          Option.or_none]
        exact h.store k
      · rw [attempt_of_some hout, List.findSome?_append, List.findSome?_singleton,
          ← Option.or_assoc,
          ← h.store k]
        by_cases hk : key job = k
        · subst hk
          rw [hdone, if_pos rfl, Option.none_or]
          exact Function.update_self _ _ _
        · rw [if_neg hk, Option.or_none]
          exact Function.update_of_ne (fun heq => hk heq.symm) _ _
  · rwa [step_of_done (by rw [hdone]; rfl)]

theorem Sound.session {initial : κ → Option β} (h : Sound key initial s) (jobs : List ι) :
    Sound key initial (session key outcome s jobs) := by
  induction jobs generalizing s with
  | nil => exact h
  | cons job jobs ih => exact ih (h.step job)

/-! ## What a session attempts -/

theorem store_step_of_some {k : κ} {b : β} (h : s.store k = some b) :
    (step key outcome s job).store k = some b := by
  rcases hdone : s.store (key job) with _ | b'
  · rw [step_of_missing hdone]
    rcases hout : outcome s.attempts.length with _ | left
    · rwa [attempt_of_none hout]
    · have hne : k ≠ key job := by
        rintro rfl
        rw [hdone] at h
        cases h
      rw [attempt_of_some hout]
      exact (Function.update_of_ne hne _ _).trans h
  · rwa [step_of_done (by rw [hdone]; rfl)]

/-- Nothing is taken out of the store or replaced. -/
theorem store_session_of_some {k : κ} {b : β} (h : s.store k = some b) :
    (session key outcome s jobs).store k = some b := by
  induction jobs generalizing s with
  | nil => exact h
  | cons job jobs ih => exact ih (store_step_of_some h)

theorem store_step_of_ne {k : κ} (h : key job ≠ k) :
    (step key outcome s job).store k = s.store k := by
  rcases hdone : s.store (key job) with _ | b
  · rw [step_of_missing hdone]
    rcases hout : outcome s.attempts.length with _ | left
    · rw [attempt_of_none hout]
    · rw [attempt_of_some hout]
      exact Function.update_of_ne h.symm _ _
  · rw [step_of_done (by rw [hdone]; rfl)]

/-- A session whose jobs have keys of their own attempts those whose key is not in the store when it
    begins, in order. -/
theorem attempts_session (hnd : (jobs.map key).Nodup) (s : State ι κ β) :
    (session key outcome s jobs).attempts.map Prod.fst = s.attempts.map Prod.fst
      ++ jobs.filter (fun job => (s.store (key job)).isNone) := by
  induction jobs generalizing s with
  | nil => exact (List.append_nil _).symm
  | cons job jobs ih =>
      rw [List.map_cons, List.nodup_cons] at hnd
      have hothers : jobs.filter (fun j => ((step key outcome s job).store (key j)).isNone)
          = jobs.filter (fun j => (s.store (key j)).isNone) := by
        refine List.filter_congr (fun j hj => ?_)
        rw [store_step_of_ne (fun heq => hnd.1 (List.mem_map.2 ⟨j, hj, heq.symm⟩))]
      rw [session_cons, ih hnd.2, hothers]
      rcases hdone : s.store (key job) with _ | b
      · rw [step_of_missing hdone, List.filter_cons_of_pos (by rw [hdone]; rfl), attempt,
          List.map_append, List.append_assoc]
        rfl
      · rw [step_of_done (by rw [hdone]; rfl),
          List.filter_cons_of_neg (by rw [hdone]; exact Bool.false_ne_true)]

/-- Nothing is left to do for jobs that are all in the store. -/
theorem session_of_done (h : ∀ job ∈ jobs, (s.store (key job)).isSome) :
    session key outcome s jobs = s := by
  induction jobs with
  | nil => rfl
  | cons job jobs ih =>
      obtain ⟨hjob, hjobs⟩ := List.forall_mem_cons.1 h
      rw [session_cons, step_of_done hjob]
      exact ih hjobs

theorem attempts_prefix_session (s : State ι κ β) (jobs : List ι) :
    s.attempts <+: (session key outcome s jobs).attempts := by
  induction jobs generalizing s with
  | nil => exact List.prefix_rfl
  | cons job jobs ih =>
      refine List.IsPrefix.trans ?_ (ih (step key outcome s job))
      rcases hdone : s.store (key job) with _ | b
      · rw [step_of_missing hdone]
        exact List.prefix_append _ _
      · rw [step_of_done (by rw [hdone]; rfl)]

/-- Only the jobs of a session are attempted in it. -/
theorem mem_attempts_session {a : ι × Option β}
    (ha : a ∈ (session key outcome s jobs).attempts) : a ∈ s.attempts ∨ a.1 ∈ jobs := by
  induction jobs generalizing s with
  | nil => exact Or.inl ha
  | cons job jobs ih =>
      rcases ih ha with hstep | hlater
      · rcases hdone : s.store (key job) with _ | b
        · rw [step_of_missing hdone] at hstep
          rcases List.mem_append.1 hstep with hold | hnew
          · exact Or.inl hold
          · rw [List.mem_singleton.1 hnew]
            exact Or.inr List.mem_cons_self
        · rw [step_of_done (by rw [hdone]; rfl)] at hstep
          exact Or.inl hstep
      · exact Or.inr (List.mem_cons_of_mem _ hlater)

/-- A job that is not in the store after a session has been attempted in it and has left nothing. -/
theorem mem_attempts_of_missing (hjob : job ∈ jobs)
    (h : (session key outcome s jobs).store (key job) = none) :
    (job, none) ∈ (session key outcome s jobs).attempts.drop s.attempts.length := by
  induction jobs generalizing s with
  | nil => cases hjob
  | cons first jobs ih =>
      rw [session_cons] at h ⊢
      have hprefix : (step key outcome s first).attempts <+:
          (session key outcome (step key outcome s first) jobs).attempts :=
        attempts_prefix_session _ jobs
      have hlonger : s.attempts.length ≤ (step key outcome s first).attempts.length := by
        rcases hdone : s.store (key first) with _ | b
        · rw [step_of_missing hdone, attempt, List.length_append]
          exact Nat.le_add_right _ _
        · rw [step_of_done (by rw [hdone]; rfl)]
      rcases List.mem_cons.1 hjob with rfl | hin
      · rcases hdone : s.store (key job) with _ | b
        · -- what its attempt left would have stayed
          have hleft : outcome s.attempts.length = none := by
            rcases hout : outcome s.attempts.length with _ | left
            · rfl
            · have hstored : (step key outcome s job).store (key job) = some left := by
                rw [step_of_missing hdone, attempt_of_some hout]
                exact Function.update_self _ _ _
              rw [store_session_of_some hstored] at h
              cases h
          rw [step_of_missing hdone, attempt_of_none hleft] at hprefix ⊢
          obtain ⟨rest, hrest⟩ := hprefix
          rw [← hrest, List.append_assoc, List.drop_left]
          exact List.mem_cons_self
        · rw [step_of_done (by rw [hdone]; rfl), store_session_of_some hdone] at h
          cases h
      · exact List.drop_subset_drop_left _ hlonger (ih hin h)

end Resumable
