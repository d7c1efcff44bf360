import Mathlib

set_option autoImplicit false

/-! # A ledger of jobs that are retried in parts

Tasks travel in jobs. A job waits, runs, and either completes or is lost; a lost job goes back to
waiting in parts, or is given up. `Step` is this life cycle for an arbitrary way of splitting a lost
job and an arbitrary gate that decides whether it may go back; the order in which jobs are picked is
open. The rules proved here are what any such scheduler may rely on: tasks are conserved, the loss
count of a job is the number of losses its tasks have seen, and a gate that bounds loss counts
bounds the work. -/

namespace Ledger

variable {τ ρ : Type}

/-- A list of tasks that travel together, and how often they have been lost so far. -/
structure Job (τ : Type) where
  tasks : List τ
  losses : Nat

inductive Verdict where
  | completed
  | condemned
  | aborted
deriving DecidableEq

/-- Where the jobs are, and the history: the jobs handed out, the losses with their reasons, and the
    tasks settled with their verdicts. -/
structure Book (τ ρ : Type) where
  waiting : Multiset (Job τ)
  running : Multiset (Job τ)
  lost : Multiset (Job τ × ρ)
  dispatched : Multiset (Job τ)
  losses : Multiset (Job τ × ρ)
  settled : Multiset (Verdict × τ)

inductive Label (τ ρ : Type) where
  | dispatch (j : Job τ)
  | complete (j : Job τ)
  | lose (j : Job τ) (r : ρ)
  | retry (j : Job τ) (r : ρ)
  | condemn (j : Job τ) (r : ρ)
  | abort

/-- The parts in which a lost job goes back. -/
def Job.parts (split : List τ → List (List τ)) (j : Job τ) : Multiset (Job τ) :=
  ↑((split j.tasks).map (fun tasks => (⟨tasks, j.losses + 1⟩ : Job τ)))

/-- The records that settle the tasks of a job. -/
def Job.settle (v : Verdict) (j : Job τ) : Multiset (Verdict × τ) :=
  (j.tasks : Multiset τ).map (fun t => (v, t))

/-- A way of splitting that keeps the tasks, in order, and makes no empty part. -/
structure Splitting (split : List τ → List (List τ)) : Prop where
  flatten : ∀ tasks, (split tasks).flatten = tasks
  ne_nil : ∀ tasks, tasks ≠ [] → ∀ part ∈ split tasks, part ≠ []

/-- The life cycle of a job. -/
inductive Step (split : List τ → List (List τ)) (gate : Job τ → ρ → Prop) :
    Book τ ρ → Label τ ρ → Book τ ρ → Prop where
  | dispatch (L j W) (h : L.waiting = j ::ₘ W) :
      Step split gate L (.dispatch j)
        { L with waiting := W, running := j ::ₘ L.running, dispatched := j ::ₘ L.dispatched }
  | complete (L j R) (h : L.running = j ::ₘ R) :
      Step split gate L (.complete j)
        { L with running := R, settled := j.settle .completed + L.settled }
  | lose (L j r R) (h : L.running = j ::ₘ R) :
      Step split gate L (.lose j r)
        { L with running := R, lost := (j, r) ::ₘ L.lost, losses := (j, r) ::ₘ L.losses }
  | retry (L j r R) (h : L.lost = (j, r) ::ₘ R) (hgate : gate j r) :
      Step split gate L (.retry j r)
        { L with lost := R, waiting := j.parts split + L.waiting }
  | condemn (L j r R) (h : L.lost = (j, r) ::ₘ R) (hgate : ¬ gate j r) :
      Step split gate L (.condemn j r)
        { L with lost := R, settled := j.settle .condemned + L.settled }
  | abort (L) :
      Step split gate L .abort
        { L with waiting := 0, settled := L.waiting.bind (Job.settle .aborted) + L.settled }

/-- The ledger of a fresh run: every batch waits, nothing has happened. -/
def Book.start (batches : List (List τ)) : Book τ ρ where
  waiting := ↑(batches.map (fun tasks => (⟨tasks, 0⟩ : Job τ)))
  running := 0
  lost := 0
  dispatched := 0
  losses := 0
  settled := 0

abbrev Steps (split : List τ → List (List τ)) (gate : Job τ → ρ → Prop) :
    Book τ ρ → Book τ ρ → Prop :=
  Relation.ReflTransGen (fun L L' => ∃ ℓ, Step split gate L ℓ L')

/-! ## Conservation -/

/-- The tasks of a number of jobs. -/
def tasksOf (J : Multiset (Job τ)) : Multiset τ := J.bind (fun j => ↑j.tasks)

@[simp] theorem tasksOf_zero : tasksOf (0 : Multiset (Job τ)) = 0 := rfl

@[simp] theorem tasksOf_cons (j : Job τ) (J : Multiset (Job τ)) :
    tasksOf (j ::ₘ J) = ↑j.tasks + tasksOf J := Multiset.cons_bind _ _ _

@[simp] theorem tasksOf_add (J K : Multiset (Job τ)) : tasksOf (J + K) = tasksOf J + tasksOf K :=
  Multiset.add_bind _ _ _

theorem mem_tasksOf {J : Multiset (Job τ)} {t : τ} : t ∈ tasksOf J ↔ ∃ j ∈ J, t ∈ j.tasks := by
  simp [tasksOf, Multiset.mem_bind]

@[simp] theorem settle_snd (v : Verdict) (j : Job τ) :
    (j.settle v).map Prod.snd = (j.tasks : Multiset τ) := by
  simp [Job.settle]

/-- Jobs made of lists of tasks have the tasks of these lists. -/
theorem tasksOf_map_mk (n : Nat) (l : List (List τ)) :
    tasksOf (↑(l.map (fun tasks => (⟨tasks, n⟩ : Job τ))) : Multiset (Job τ))
      = (l.flatten : Multiset τ) := by
  induction l with
  | nil => rfl
  | cons tasks rest ih =>
      rw [List.map_cons, ← Multiset.cons_coe, tasksOf_cons, ih, List.flatten_cons,
        ← Multiset.coe_add]

theorem tasksOf_parts {split : List τ → List (List τ)} (hsplit : Splitting split) (j : Job τ) :
    tasksOf (j.parts split) = (j.tasks : Multiset τ) := by
  rw [Job.parts, tasksOf_map_mk, hsplit.flatten]

/-- Every task there is: waiting, running, lost or settled. -/
def Book.total (L : Book τ ρ) : Multiset τ :=
  tasksOf L.waiting + tasksOf L.running + tasksOf (L.lost.map Prod.fst) + L.settled.map Prod.snd

section

variable {split : List τ → List (List τ)} {gate : Job τ → ρ → Prop} {L L' : Book τ ρ}
  {ℓ : Label τ ρ}

/-- No step loses or duplicates a task. -/
theorem Step.total (hsplit : Splitting split) (h : Step split gate L ℓ L') :
    L'.total = L.total := by
  cases h with
  | dispatch j W h => simp only [Book.total, h, tasksOf_cons]; abel
  | complete j R h =>
      simp only [Book.total, h, tasksOf_cons, Multiset.map_add, settle_snd]; abel
  | lose j r R h =>
      simp only [Book.total, h, Multiset.map_cons, tasksOf_cons]; abel
  | retry j r R h hgate =>
      simp only [Book.total, h, Multiset.map_cons, tasksOf_cons, tasksOf_add, tasksOf_parts hsplit]
      abel
  | condemn j r R h hgate =>
      simp only [Book.total, h, Multiset.map_cons, tasksOf_cons, Multiset.map_add, settle_snd]
      abel
  | abort =>
      have hsettle : (L.waiting.bind (Job.settle .aborted)).map Prod.snd = tasksOf L.waiting := by
        rw [Multiset.map_bind, tasksOf]
        simp only [settle_snd]
      simp only [Book.total, tasksOf_zero, Multiset.map_add, hsettle]; abel

/-- The history only grows. -/
theorem Step.losses_subset (h : Step split gate L ℓ L') : ∀ l ∈ L.losses, l ∈ L'.losses := by
  cases h with
  | lose j r R h => exact fun l hl => Multiset.mem_cons_of_mem hl
  | _ => exact fun l hl => hl

/-- Every lost job was made of tasks of the ledger. -/
theorem Step.losses_known (hsplit : Splitting split) (h : Step split gate L ℓ L')
    (hL : ∀ l ∈ L.losses, ∀ t ∈ l.1.tasks, t ∈ L.total) :
    ∀ l ∈ L'.losses, ∀ t ∈ l.1.tasks, t ∈ L'.total := by
  rw [h.total hsplit]
  cases h with
  | lose j r R h =>
      intro l hl t ht
      rcases Multiset.mem_cons.1 hl with rfl | hl
      · rw [Book.total, h, tasksOf_cons]
        simp [ht]
      · exact hL l hl t ht
  | _ => exact hL

theorem Steps.losses_known (hsplit : Splitting split) (h : Steps split gate L L')
    (hL : ∀ l ∈ L.losses, ∀ t ∈ l.1.tasks, t ∈ L.total) :
    ∀ l ∈ L'.losses, ∀ t ∈ l.1.tasks, t ∈ L'.total := by
  induction h with
  | refl => exact hL
  | tail _ hlast ih =>
      obtain ⟨ℓ, hstep⟩ := hlast
      exact hstep.losses_known hsplit ih

theorem Book.start_total (batches : List (List τ)) :
    (Book.start batches : Book τ ρ).total = ↑batches.flatten := by
  simp only [Book.total, Book.start, tasksOf_map_mk, Multiset.map_zero, tasksOf_zero, add_zero]

theorem Steps.total (hsplit : Splitting split) (h : Steps split gate L L') :
    L'.total = L.total := by
  induction h with
  | refl => rfl
  | tail _ hlast ih =>
      obtain ⟨ℓ, hstep⟩ := hlast
      exact (hstep.total hsplit).trans ih

/-! ## What splitting keeps -/

/-- Every job that waits, runs, is lost or was ever handed out has tasks that satisfy `P`. -/
structure Book.All (P : List τ → Prop) (L : Book τ ρ) : Prop where
  waiting : ∀ j ∈ L.waiting, P j.tasks
  running : ∀ j ∈ L.running, P j.tasks
  lost : ∀ l ∈ L.lost, P l.1.tasks
  dispatched : ∀ j ∈ L.dispatched, P j.tasks

theorem Step.all {P : List τ → Prop} (hsplit : ∀ tasks, P tasks → ∀ part ∈ split tasks, P part)
    (h : Step split gate L ℓ L') (hL : L.All P) : L'.All P := by
  obtain ⟨hwaiting, hrunning, hlost, hdispatched⟩ := hL
  cases h with
  | dispatch j W h =>
      rw [h, Multiset.forall_mem_cons] at hwaiting
      exact ⟨hwaiting.2, Multiset.forall_mem_cons.2 ⟨hwaiting.1, hrunning⟩, hlost,
        Multiset.forall_mem_cons.2 ⟨hwaiting.1, hdispatched⟩⟩
  | complete j R h =>
      rw [h, Multiset.forall_mem_cons] at hrunning
      exact ⟨hwaiting, hrunning.2, hlost, hdispatched⟩
  | lose j r R h =>
      rw [h, Multiset.forall_mem_cons] at hrunning
      exact ⟨hwaiting, hrunning.2, Multiset.forall_mem_cons.2 ⟨hrunning.1, hlost⟩, hdispatched⟩
  | retry j r R h hgate =>
      rw [h, Multiset.forall_mem_cons] at hlost
      refine ⟨fun j' hj' => ?_, hrunning, hlost.2, hdispatched⟩
      rcases Multiset.mem_add.1 hj' with hj' | hj'
      · obtain ⟨part, hpart, rfl⟩ := List.mem_map.1 (Multiset.mem_coe.1 hj')
        exact hsplit j.tasks hlost.1 part hpart
      · exact hwaiting j' hj'
  | condemn j r R h hgate =>
      rw [h, Multiset.forall_mem_cons] at hlost
      exact ⟨hwaiting, hrunning, hlost.2, hdispatched⟩
  | abort => exact ⟨fun j hj => absurd hj (Multiset.notMem_zero j), hrunning, hlost, hdispatched⟩

theorem Steps.all {P : List τ → Prop} (hsplit : ∀ tasks, P tasks → ∀ part ∈ split tasks, P part)
    (h : Steps split gate L L') (hL : L.All P) : L'.All P := by
  induction h with
  | refl => exact hL
  | tail _ hlast ih =>
      obtain ⟨ℓ, hstep⟩ := hlast
      exact hstep.all hsplit ih

theorem Book.start_all {P : List τ → Prop} {batches : List (List τ)}
    (h : ∀ batch ∈ batches, P batch) : (Book.start batches : Book τ ρ).All P := by
  refine ⟨fun j hj => ?_, by simp [Book.start], by simp [Book.start], by simp [Book.start]⟩
  obtain ⟨batch, hbatch, rfl⟩ := List.mem_map.1 (Multiset.mem_coe.1 hj)
  exact h batch hbatch

/-! ## What becomes of a loss -/

/-- A loss has been acted upon: a job the gate lets back waits in parts, and each part is handed out
    again unless an abort settles it first; any other job is condemned. -/
def Book.Resolved (split : List τ → List (List τ)) (gate : Job τ → ρ → Prop) (L : Book τ ρ)
    (l : Job τ × ρ) : Prop :=
  (gate l.1 l.2 ∧ ∀ p ∈ l.1.parts split,
      p ∈ L.waiting ∨ p ∈ L.dispatched ∨ ∀ t ∈ p.tasks, (.aborted, t) ∈ L.settled) ∨
    (¬ gate l.1 l.2 ∧ ∀ t ∈ l.1.tasks, (.condemned, t) ∈ L.settled)

theorem mem_settle {v v' : Verdict} {j : Job τ} {t : τ} :
    (v, t) ∈ j.settle v' ↔ v = v' ∧ t ∈ j.tasks := by
  simp only [Job.settle, Multiset.mem_map, Multiset.mem_coe, Prod.mk.injEq]
  constructor
  · rintro ⟨t', ht', rfl, rfl⟩
    exact ⟨rfl, ht'⟩
  · rintro ⟨rfl, ht⟩
    exact ⟨t, ht, rfl, rfl⟩

/-- What is settled stays settled. -/
theorem Step.settled_subset (h : Step split gate L ℓ L') : ∀ x ∈ L.settled, x ∈ L'.settled := by
  cases h with
  | complete j R h => exact fun x hx => Multiset.mem_add.2 (Or.inr hx)
  | condemn j r R h hgate => exact fun x hx => Multiset.mem_add.2 (Or.inr hx)
  | abort => exact fun x hx => Multiset.mem_add.2 (Or.inr hx)
  | _ => exact fun x hx => hx

theorem Step.dispatched_subset (h : Step split gate L ℓ L') :
    ∀ j ∈ L.dispatched, j ∈ L'.dispatched := by
  cases h with
  | dispatch j W h => exact fun j hj => Multiset.mem_cons_of_mem hj
  | _ => exact fun j hj => hj

/-- A waiting job goes on waiting, is handed out, or is settled by an abort. -/
theorem Step.waiting_cases (h : Step split gate L ℓ L') {p : Job τ} (hp : p ∈ L.waiting) :
    p ∈ L'.waiting ∨ p ∈ L'.dispatched ∨ ∀ t ∈ p.tasks, (.aborted, t) ∈ L'.settled := by
  cases h with
  | dispatch j W h =>
      rw [h] at hp
      rcases Multiset.mem_cons.1 hp with rfl | hin
      · exact Or.inr (Or.inl (Multiset.mem_cons_self _ _))
      · exact Or.inl hin
  | retry j r R h hgate => exact Or.inl (Multiset.mem_add.2 (Or.inr hp))
  | abort =>
      refine Or.inr (Or.inr (fun t ht => Multiset.mem_add.2 (Or.inl ?_)))
      exact Multiset.mem_bind.2 ⟨p, hp, mem_settle.2 ⟨rfl, ht⟩⟩
  | _ => exact Or.inl hp

theorem Step.resolved_mono (h : Step split gate L ℓ L') {l : Job τ × ρ}
    (hl : L.Resolved split gate l) : L'.Resolved split gate l := by
  rcases hl with ⟨hgate, hparts⟩ | ⟨hgate, hsettled⟩
  · refine Or.inl ⟨hgate, fun p hp => ?_⟩
    rcases hparts p hp with hin | hin | hin
    · exact h.waiting_cases hin
    · exact Or.inr (Or.inl (h.dispatched_subset p hin))
    · exact Or.inr (Or.inr (fun t ht => h.settled_subset _ (hin t ht)))
  · exact Or.inr ⟨hgate, fun t ht => h.settled_subset _ (hsettled t ht)⟩

/-- Every loss is still to be acted upon or has been. -/
theorem Step.resolved (h : Step split gate L ℓ L')
    (hL : ∀ l ∈ L.losses, l ∈ L.lost ∨ L.Resolved split gate l) :
    ∀ l ∈ L'.losses, l ∈ L'.lost ∨ L'.Resolved split gate l := by
  have hstep := h
  cases h with
  | lose j r R h =>
      intro l hl
      rcases Multiset.mem_cons.1 hl with rfl | hin
      · exact Or.inl (Multiset.mem_cons_self _ _)
      · exact (hL l hin).imp Multiset.mem_cons_of_mem hstep.resolved_mono
  | retry j r R h hgate =>
      intro l hl
      rcases hL l hl with hin | hres
      · rw [h] at hin
        rcases Multiset.mem_cons.1 hin with rfl | hin
        · exact Or.inr (Or.inl ⟨hgate, fun p hp => Or.inl (Multiset.mem_add.2 (Or.inl hp))⟩)
        · exact Or.inl hin
      · exact Or.inr (hstep.resolved_mono hres)
  | condemn j r R h hgate =>
      intro l hl
      rcases hL l hl with hin | hres
      · rw [h] at hin
        rcases Multiset.mem_cons.1 hin with rfl | hin
        · exact Or.inr (Or.inr ⟨hgate, fun t ht =>
            Multiset.mem_add.2 (Or.inl (mem_settle.2 ⟨rfl, ht⟩))⟩)
        · exact Or.inl hin
      · exact Or.inr (hstep.resolved_mono hres)
  | _ => exact fun l hl => (hL l hl).imp_right hstep.resolved_mono

theorem Steps.resolved (h : Steps split gate L L')
    (hL : ∀ l ∈ L.losses, l ∈ L.lost ∨ L.Resolved split gate l) :
    ∀ l ∈ L'.losses, l ∈ L'.lost ∨ L'.Resolved split gate l := by
  induction h with
  | refl => exact hL
  | tail _ hlast ih =>
      obtain ⟨ℓ, hstep⟩ := hlast
      exact hstep.resolved ih

/-! ## Loss counts -/

variable [DecidableEq τ]

/-- How many losses a task has seen. -/
def Book.lossCount (L : Book τ ρ) (t : τ) : Nat := L.losses.countP (fun l => t ∈ l.1.tasks)

/-- How many handed-out jobs a task was part of. -/
def Book.dispatchCount (L : Book τ ρ) (t : τ) : Nat :=
  L.dispatched.countP (fun j => t ∈ j.tasks)

/-- A job in its place, with the losses and dispatches its tasks have seen there. -/
structure Placed (τ : Type) where
  job : Job τ
  losses : Nat
  dispatches : Nat

/-- The jobs that are not settled yet. -/
def Book.placed (L : Book τ ρ) : Multiset (Placed τ) :=
  L.waiting.map (fun j => ⟨j, j.losses, j.losses⟩) +
    L.running.map (fun j => ⟨j, j.losses, j.losses + 1⟩) +
    L.lost.map (fun l => ⟨l.1, l.1.losses + 1, l.1.losses + 1⟩)

omit [DecidableEq τ] in
theorem Book.total_eq (L : Book τ ρ) :
    L.total = tasksOf (L.placed.map Placed.job) + L.settled.map Prod.snd := by
  simp [Book.total, Book.placed, Multiset.map_map]

omit [DecidableEq τ] in
theorem Book.placed_of_waiting {L : Book τ ρ} {j : Job τ} {W : Multiset (Job τ)}
    (h : L.waiting = j ::ₘ W) :
    L.placed = ⟨j, j.losses, j.losses⟩ ::ₘ ({ L with waiting := W } : Book τ ρ).placed := by
  simp only [Book.placed, h, Multiset.map_cons, Multiset.cons_add]

omit [DecidableEq τ] in
theorem Book.placed_of_running {L : Book τ ρ} {j : Job τ} {R : Multiset (Job τ)}
    (h : L.running = j ::ₘ R) :
    L.placed = ⟨j, j.losses, j.losses + 1⟩ ::ₘ ({ L with running := R } : Book τ ρ).placed := by
  simp only [Book.placed, h, Multiset.map_cons, Multiset.cons_add, Multiset.add_cons]

omit [DecidableEq τ] in
theorem Book.placed_of_lost {L : Book τ ρ} {l : Job τ × ρ} {R : Multiset (Job τ × ρ)}
    (h : L.lost = l ::ₘ R) :
    L.placed = ⟨l.1, l.1.losses + 1, l.1.losses + 1⟩ ::ₘ
      ({ L with lost := R } : Book τ ρ).placed := by
  simp only [Book.placed, h, Multiset.map_cons, Multiset.add_cons]

omit [DecidableEq τ] in
theorem Book.placed_add_waiting (L : Book τ ρ) (P : Multiset (Job τ)) :
    ({ L with waiting := P + L.waiting } : Book τ ρ).placed
      = P.map (fun p => ⟨p, p.losses, p.losses⟩) + L.placed := by
  simp only [Book.placed, Multiset.map_add, add_assoc]

/-- What the loss count of a job says: no task is in two places, no job is empty, and the losses and
    dispatches of a task are those its job stands for; a condemned task was in a lost job that the
    gate kept out. -/
structure Consistent (gate : Job τ → ρ → Prop) (L : Book τ ρ) : Prop where
  nodup : L.total.Nodup
  placed : ∀ y ∈ L.placed, y.job.tasks ≠ [] ∧
    ∀ t ∈ y.job.tasks, L.lossCount t = y.losses ∧ L.dispatchCount t = y.dispatches
  lost : ∀ l ∈ L.lost, l ∈ L.losses
  completed : ∀ t, (.completed, t) ∈ L.settled → L.dispatchCount t = L.lossCount t + 1
  condemned : ∀ t, (.condemned, t) ∈ L.settled → ∃ l ∈ L.losses, t ∈ l.1.tasks ∧
    ¬ gate l.1 l.2 ∧ L.lossCount t = l.1.losses + 1 ∧ L.dispatchCount t = l.1.losses + 1

omit [DecidableEq τ] in
theorem mem_parts {j p : Job τ} (hsplit : Splitting split) (hp : p ∈ j.parts split) :
    p.losses = j.losses + 1 ∧ (j.tasks ≠ [] → p.tasks ≠ []) ∧ ∀ t ∈ p.tasks, t ∈ j.tasks := by
  obtain ⟨tasks, hin, rfl⟩ := List.mem_map.1 (Multiset.mem_coe.1 hp)
  refine ⟨rfl, fun hne => hsplit.ne_nil _ hne _ hin, fun t ht => ?_⟩
  rw [← hsplit.flatten j.tasks]
  exact List.mem_flatten.2 ⟨tasks, hin, ht⟩

/-- The tasks of a job are in no other place. -/
theorem Consistent.apart {x : Placed τ} {rest : Multiset (Placed τ)} (hC : Consistent gate L)
    (hold : L.placed = x ::ₘ rest) :
    (∀ y ∈ rest, ∀ t ∈ y.job.tasks, t ∉ x.job.tasks) ∧
      ∀ v t, (v, t) ∈ L.settled → t ∉ x.job.tasks := by
  have hnd := hC.nodup
  rw [L.total_eq, hold, Multiset.map_cons, tasksOf_cons, add_assoc, Multiset.nodup_add] at hnd
  have hdisjoint : ∀ t, t ∈ tasksOf (rest.map Placed.job) ∨ t ∈ L.settled.map Prod.snd →
      t ∉ x.job.tasks := fun t ht hin =>
    Multiset.disjoint_left.1 hnd.2.2 (Multiset.mem_coe.2 hin) (Multiset.mem_add.2 ht)
  refine ⟨fun y hy t ht => hdisjoint t (Or.inl ?_), fun v t ht => hdisjoint t (Or.inr ?_)⟩
  · exact mem_tasksOf.2 ⟨y.job, Multiset.mem_map_of_mem Placed.job hy, ht⟩
  · exact Multiset.mem_map_of_mem Prod.snd ht

/-- A step that works on one job, replacing it by the jobs `N` and the records `A`, leaves what is
    known about the others. -/
theorem Consistent.update {x : Placed τ} {rest N : Multiset (Placed τ)}
    {A : Multiset (Verdict × τ)} (hC : Consistent gate L) (hold : L.placed = x ::ₘ rest)
    (hnew : L'.placed = N + rest) (hsettled : L'.settled = A + L.settled)
    (htotal : L'.total = L.total) (hlosses : ∀ l ∈ L.losses, l ∈ L'.losses)
    (hframe : ∀ t, t ∉ x.job.tasks →
      L'.lossCount t = L.lossCount t ∧ L'.dispatchCount t = L.dispatchCount t)
    (hplaced : ∀ y ∈ N, y.job.tasks ≠ [] ∧
      ∀ t ∈ y.job.tasks, L'.lossCount t = y.losses ∧ L'.dispatchCount t = y.dispatches)
    (hlost : ∀ l ∈ L'.lost, l ∈ L'.losses)
    (hcompleted : ∀ t, (.completed, t) ∈ A → L'.dispatchCount t = L'.lossCount t + 1)
    (hcondemned : ∀ t, (.condemned, t) ∈ A → ∃ l ∈ L'.losses, t ∈ l.1.tasks ∧
      ¬ gate l.1 l.2 ∧ L'.lossCount t = l.1.losses + 1 ∧ L'.dispatchCount t = l.1.losses + 1) :
    Consistent gate L' := by
  obtain ⟨hapart, hapart'⟩ := hC.apart hold
  have hsame : ∀ v t, (v, t) ∈ L.settled →
      L'.lossCount t = L.lossCount t ∧ L'.dispatchCount t = L.dispatchCount t :=
    fun v t ht => hframe t (hapart' v t ht)
  refine ⟨htotal ▸ hC.nodup, fun y hy => ?_, hlost, fun t ht => ?_, fun t ht => ?_⟩
  · rw [hnew, Multiset.mem_add] at hy
    rcases hy with hy | hy
    · exact hplaced y hy
    · have hin : y ∈ L.placed := by
        rw [hold]
        exact Multiset.mem_cons_of_mem hy
      refine (hC.placed y hin).imp_right (fun hseen t ht => ?_)
      obtain ⟨hl, hd⟩ := hframe t (hapart y hy t ht)
      rw [hl, hd]
      exact hseen t ht
  · rw [hsettled, Multiset.mem_add] at ht
    rcases ht with ht | ht
    · exact hcompleted t ht
    · obtain ⟨hl, hd⟩ := hsame _ t ht
      rw [hl, hd]
      exact hC.completed t ht
  · rw [hsettled, Multiset.mem_add] at ht
    rcases ht with ht | ht
    · exact hcondemned t ht
    · obtain ⟨hl, hd⟩ := hsame _ t ht
      obtain ⟨l, hin, htask, hgate, hloss, hdisp⟩ := hC.condemned t ht
      exact ⟨l, hlosses l hin, htask, hgate, hl.trans hloss, hd.trans hdisp⟩

/-- Loss counts stay right. -/
theorem Step.consistent (hsplit : Splitting split) (h : Step split gate L ℓ L')
    (hC : Consistent gate L) : Consistent gate L' := by
  have htotal := h.total hsplit
  cases h with
  | dispatch j W h =>
      have hold := Book.placed_of_waiting h
      obtain ⟨hne, hj⟩ := hC.placed _ (hold ▸ Multiset.mem_cons_self _ _)
      refine hC.update (N := {⟨j, j.losses, j.losses + 1⟩}) (A := 0) hold
        ((Book.placed_of_running rfl).trans (Multiset.singleton_add _ _).symm)
        (zero_add _).symm htotal (fun _ => id) (fun t ht => ?_)
        (fun y hy => ?_) hC.lost (fun t ht => absurd ht (Multiset.notMem_zero _))
        (fun t ht => absurd ht (Multiset.notMem_zero _))
      · exact ⟨rfl, Multiset.countP_cons_of_neg _ ht⟩
      · rw [Multiset.mem_singleton.1 hy]
        refine ⟨hne, fun t ht => ⟨(hj t ht).1, ?_⟩⟩
        have hcons : (j ::ₘ L.dispatched).countP (fun j => t ∈ j.tasks) = L.dispatchCount t + 1 :=
          Multiset.countP_cons_of_pos _ ht
        exact hcons.trans (congrArg (· + 1) (hj t ht).2)
  | complete j R h =>
      have hold := Book.placed_of_running h
      obtain ⟨-, hj⟩ := hC.placed _ (hold ▸ Multiset.mem_cons_self _ _)
      refine hC.update (N := 0) (A := j.settle .completed) hold (zero_add _).symm rfl htotal
        (fun _ => id) (fun t ht => ⟨rfl, rfl⟩) (fun y hy => absurd hy (Multiset.notMem_zero _))
        hC.lost (fun t ht => ?_) (fun t ht => by cases (mem_settle.1 ht).1)
      obtain ⟨hl, hd⟩ := hj t (mem_settle.1 ht).2
      exact hd.trans (congrArg (· + 1) hl.symm)
  | lose j r R h =>
      have hold := Book.placed_of_running h
      obtain ⟨hne, hj⟩ := hC.placed _ (hold ▸ Multiset.mem_cons_self _ _)
      refine hC.update (N := {⟨j, j.losses + 1, j.losses + 1⟩}) (A := 0) hold
        ((Book.placed_of_lost rfl).trans (Multiset.singleton_add _ _).symm)
        (zero_add _).symm htotal (fun _ => Multiset.mem_cons_of_mem)
        (fun t ht => ?_) (fun y hy => ?_) (fun l hl => ?_)
        (fun t ht => absurd ht (Multiset.notMem_zero _))
        (fun t ht => absurd ht (Multiset.notMem_zero _))
      · exact ⟨Multiset.countP_cons_of_neg _ ht, rfl⟩
      · rw [Multiset.mem_singleton.1 hy]
        refine ⟨hne, fun t ht => ⟨?_, (hj t ht).2⟩⟩
        have hcons : ((j, r) ::ₘ L.losses).countP (fun l => t ∈ l.1.tasks) = L.lossCount t + 1 :=
          Multiset.countP_cons_of_pos _ ht
        exact hcons.trans (congrArg (· + 1) (hj t ht).1)
      · rcases Multiset.mem_cons.1 hl with rfl | hl
        · exact Multiset.mem_cons_self _ _
        · exact Multiset.mem_cons_of_mem (hC.lost l hl)
  | retry j r R h hgate =>
      have hold := Book.placed_of_lost h
      obtain ⟨hne, hj⟩ := hC.placed _ (hold ▸ Multiset.mem_cons_self _ _)
      refine hC.update (N := (j.parts split).map (fun p => ⟨p, p.losses, p.losses⟩)) (A := 0)
        hold (Book.placed_add_waiting { L with lost := R } _) (zero_add _).symm htotal
        (fun _ => id) (fun t ht => ⟨rfl, rfl⟩)
        (fun y hy => ?_) (fun l hl => hC.lost l (h ▸ Multiset.mem_cons_of_mem hl))
        (fun t ht => absurd ht (Multiset.notMem_zero _))
        (fun t ht => absurd ht (Multiset.notMem_zero _))
      -- a part has the losses of the whole, and no task of another
      obtain ⟨p, hp, rfl⟩ := Multiset.mem_map.1 hy
      obtain ⟨hcount, hpne, hsub⟩ := mem_parts hsplit hp
      refine ⟨hpne hne, fun t ht => ?_⟩
      rw [hcount]
      exact hj t (hsub t ht)
  | condemn j r R h hgate =>
      have hold := Book.placed_of_lost h
      obtain ⟨-, hj⟩ := hC.placed _ (hold ▸ Multiset.mem_cons_self _ _)
      have hin : (j, r) ∈ L.losses := hC.lost _ (h ▸ Multiset.mem_cons_self _ _)
      refine hC.update (N := 0) (A := j.settle .condemned) hold (zero_add _).symm rfl htotal
        (fun _ => id) (fun t ht => ⟨rfl, rfl⟩) (fun y hy => absurd hy (Multiset.notMem_zero _))
        (fun l hl => hC.lost l (h ▸ Multiset.mem_cons_of_mem hl))
        (fun t ht => by cases (mem_settle.1 ht).1) (fun t ht => ?_)
      have htask := (mem_settle.1 ht).2
      exact ⟨(j, r), hin, htask, hgate, hj t htask⟩
  | abort =>
      -- what an abort settles is neither completed nor condemned
      have hnot : ∀ v t, (v, t) ∈ L.waiting.bind (Job.settle .aborted) → v = .aborted := by
        intro v t ht
        obtain ⟨j, -, hj⟩ := Multiset.mem_bind.1 ht
        exact (mem_settle.1 hj).1
      refine ⟨htotal ▸ hC.nodup, fun y hy => hC.placed y ?_, hC.lost, fun t ht => ?_,
        fun t ht => ?_⟩
      · simp only [Book.placed, Multiset.map_zero, zero_add, Multiset.mem_add] at hy ⊢
        tauto
      · rcases Multiset.mem_add.1 ht with ht | ht
        · cases hnot _ _ ht
        · exact hC.completed t ht
      · rcases Multiset.mem_add.1 ht with ht | ht
        · cases hnot _ _ ht
        · exact hC.condemned t ht

theorem Book.start_consistent {batches : List (List τ)} (hnd : batches.flatten.Nodup)
    (hne : ∀ tasks ∈ batches, tasks ≠ []) :
    Consistent gate (Book.start batches : Book τ ρ) := by
  refine ⟨?_, fun y hy => ?_, by simp [Book.start], by simp [Book.start], by simp [Book.start]⟩
  · rw [Book.start_total]
    exact Multiset.coe_nodup.2 hnd
  · simp only [Book.placed, Book.start, Multiset.map_zero, add_zero, Multiset.mem_map,
      Multiset.mem_coe, List.mem_map] at hy
    obtain ⟨j, ⟨tasks, hin, rfl⟩, rfl⟩ := hy
    exact ⟨hne tasks hin, fun t _ => ⟨rfl, rfl⟩⟩

/-- In every run of a ledger the loss counts are right. -/
theorem Steps.consistent (hsplit : Splitting split) (h : Steps split gate L L')
    (hC : Consistent gate L) : Consistent gate L' := by
  induction h with
  | refl => exact hC
  | tail _ hlast ih =>
      obtain ⟨ℓ, hstep⟩ := hlast
      exact hstep.consistent hsplit ih

/-! ## Bounded work -/

/-- No job has been lost more often than its tasks allow. -/
structure Bounded (limit : τ → Nat) (L : Book τ ρ) : Prop where
  waiting : ∀ j ∈ L.waiting, ∀ t ∈ j.tasks, j.losses ≤ limit t
  running : ∀ j ∈ L.running, ∀ t ∈ j.tasks, j.losses ≤ limit t
  lost : ∀ l ∈ L.lost, ∀ t ∈ l.1.tasks, l.1.losses ≤ limit t
  dispatches : ∀ t, L.dispatchCount t ≤ limit t + 1
  known : ∀ j ∈ L.dispatched, j.tasks ≠ [] ∧ ∀ t ∈ j.tasks, t ∈ L.total

/-- A gate that lets a job back only below the limits of its tasks bounds everything. -/
theorem Step.bounded {limit : τ → Nat} (hsplit : Splitting split) (h : Step split gate L ℓ L')
    (hC : Consistent gate L)
    (hgate : ∀ l ∈ L.losses, gate l.1 l.2 → ∀ t ∈ l.1.tasks, l.1.losses < limit t)
    (hB : Bounded limit L) : Bounded limit L' := by
  have htotal := h.total hsplit
  have hknown : ∀ j ∈ L.dispatched, j.tasks ≠ [] ∧ ∀ t ∈ j.tasks, t ∈ L'.total :=
    fun j hj => htotal ▸ hB.known j hj
  have hC' := h.consistent hsplit hC
  cases h with
  | dispatch j W h =>
      have hin : j ∈ L.waiting := h ▸ Multiset.mem_cons_self j W
      have hplaced := hC'.placed ⟨j, j.losses, j.losses + 1⟩ (by simp [Book.placed])
      refine ⟨fun j' hj' => hB.waiting j' (h ▸ Multiset.mem_cons_of_mem hj'), fun j' hj' => ?_,
        hB.lost, fun t => ?_, fun j' hj' => ?_⟩
      · rcases Multiset.mem_cons.1 hj' with rfl | hj'
        · exact hB.waiting _ hin
        · exact hB.running j' hj'
      · by_cases ht : t ∈ j.tasks
        · rw [(hplaced.2 t ht).2]
          exact Nat.succ_le_succ (hB.waiting j hin t ht)
        · have hcons : (j ::ₘ L.dispatched).countP (fun j => t ∈ j.tasks) = L.dispatchCount t :=
            Multiset.countP_cons_of_neg _ ht
          exact hcons.le.trans (hB.dispatches t)
      · rcases Multiset.mem_cons.1 hj' with rfl | hj'
        · refine ⟨hplaced.1, fun t ht => ?_⟩
          rw [htotal, Book.total, h, tasksOf_cons]
          simp [ht]
        · exact hknown j' hj'
  | complete j R h =>
      exact ⟨hB.waiting, fun j' hj' => hB.running j' (h ▸ Multiset.mem_cons_of_mem hj'), hB.lost,
        hB.dispatches, hknown⟩
  | lose j r R h =>
      refine ⟨hB.waiting, fun j' hj' => hB.running j' (h ▸ Multiset.mem_cons_of_mem hj'),
        fun l hl => ?_, hB.dispatches, hknown⟩
      rcases Multiset.mem_cons.1 hl with rfl | hl
      · exact hB.running j (h ▸ Multiset.mem_cons_self j R)
      · exact hB.lost l hl
  | retry j r R h hg =>
      have hin : (j, r) ∈ L.lost := h ▸ Multiset.mem_cons_self _ R
      refine ⟨fun j' hj' => ?_, hB.running,
        fun l hl => hB.lost l (h ▸ Multiset.mem_cons_of_mem hl), hB.dispatches, hknown⟩
      rcases Multiset.mem_add.1 hj' with hj' | hj'
      · -- the gate lets a job go back only below the limit
        obtain ⟨hcount, -, hsub⟩ := mem_parts hsplit hj'
        intro t ht
        rw [hcount]
        exact hgate (j, r) (hC.lost _ hin) hg t (hsub t ht)
      · exact hB.waiting j' hj'
  | condemn j r R h hg =>
      exact ⟨hB.waiting, hB.running, fun l hl => hB.lost l (h ▸ Multiset.mem_cons_of_mem hl),
        hB.dispatches, hknown⟩
  | abort =>
      exact ⟨fun j hj => absurd hj (Multiset.notMem_zero j), hB.running, hB.lost, hB.dispatches,
        hknown⟩

theorem Book.start_bounded (limit : τ → Nat) (batches : List (List τ)) :
    Bounded limit (Book.start batches : Book τ ρ) := by
  refine ⟨fun j hj t _ => ?_, by simp [Book.start], by simp [Book.start],
    fun t => by simp [Book.dispatchCount, Book.start], by simp [Book.start]⟩
  obtain ⟨tasks, -, rfl⟩ := List.mem_map.1 (Multiset.mem_coe.1 hj)
  exact Nat.zero_le _

/-- Where the gate has let a lost job back only below the limits of its tasks, everything is
    bounded. -/
theorem Steps.bounded {limit : τ → Nat} (hsplit : Splitting split) (h : Steps split gate L L')
    (hC : Consistent gate L) (hB : Bounded limit L)
    (hgate : ∀ l ∈ L'.losses, gate l.1 l.2 → ∀ t ∈ l.1.tasks, l.1.losses < limit t) :
    Bounded limit L' := by
  induction h with
  | refl => exact hB
  | tail hsteps hlast ih =>
      obtain ⟨ℓ, hstep⟩ := hlast
      have hearlier := fun l hl => hgate l (hstep.losses_subset l hl)
      exact hstep.bounded hsplit (Steps.consistent hsplit hsteps hC) hearlier (ih hearlier)

/-- Non-empty jobs over the tasks `S` are at most as many as the dispatches these tasks have
    seen. -/
theorem card_le_sum_countP (S : Finset τ) (D : Multiset (Job τ))
    (hD : ∀ j ∈ D, j.tasks ≠ [] ∧ ∀ t ∈ j.tasks, t ∈ S) :
    D.card ≤ ∑ t ∈ S, D.countP (fun j => t ∈ j.tasks) := by
  induction D using Multiset.induction with
  | empty => simp
  | cons j D ih =>
      obtain ⟨hne, hin⟩ := hD j (Multiset.mem_cons_self j D)
      obtain ⟨t₀, ht₀⟩ := List.exists_mem_of_ne_nil _ hne
      have hrest := ih (fun j' hj' => hD j' (Multiset.mem_cons_of_mem hj'))
      have hone : 1 ≤ ∑ t ∈ S, if t ∈ j.tasks then 1 else 0 := by
        calc 1 = if t₀ ∈ j.tasks then 1 else 0 := (if_pos ht₀).symm
          _ ≤ ∑ t ∈ S, if t ∈ j.tasks then 1 else 0 :=
            Finset.single_le_sum (f := fun t => if t ∈ j.tasks then 1 else 0)
              (fun _ _ => Nat.zero_le _) (hin t₀ ht₀)
      simp only [Multiset.countP_cons, Multiset.card_cons, Finset.sum_add_distrib]
      omega

/-- Bounded loss counts bound the number of jobs handed out. -/
theorem Bounded.dispatched_card_le {limit : τ → Nat} (hB : Bounded limit L) :
    L.dispatched.card ≤ ∑ t ∈ L.total.toFinset, (limit t + 1) :=
  (card_le_sum_countP L.total.toFinset L.dispatched
    (fun j hj => (hB.known j hj).imp_right
      (fun hin t ht => Multiset.mem_toFinset.2 (hin t ht)))).trans
    (Finset.sum_le_sum (fun t _ => hB.dispatches t))

end

end Ledger
