import EvalHarness.Lib.Ledger

set_option autoImplicit false

/-! # The forest of retries

Where it is fixed which attempts fail and which lost jobs go back, the jobs a ledger can ever hold
form a forest: its roots are the batches of the start, and the parts of a lost job that goes back
are its children. A task is in at most one job of each depth, so the jobs it travels in form a path,
and the path ends in one leaf. Every ledger that obeys the rules settles the task there, whatever
the order of its steps: two such ledgers agree on every task both have settled. -/

namespace Ledger

variable {τ ρ : Type}

/-- What decides the fate of every task: the batches of the start, the way a lost job is split,
    which attempt (counted from 0) at a list of tasks fails, and which lost jobs go back. -/
structure Rules (τ : Type) where
  roots : List (List τ)
  split : List τ → List (List τ)
  fails : List τ → Nat → Prop
  again : Job τ → Prop

/-- Every task is in one root, and splitting keeps it in one part. -/
structure Rules.Proper (R : Rules τ) : Prop where
  splitting : Splitting R.split
  nodup : R.roots.flatten.Nodup
  ne_nil : ∀ tasks ∈ R.roots, tasks ≠ []

namespace Rules

variable {R : Rules τ} {t : τ}

theorem eq_of_mem_flatten {l : List (List τ)} (h : l.flatten.Nodup) {a b : List τ} (ha : a ∈ l)
    (hb : b ∈ l) (hta : t ∈ a) (htb : t ∈ b) : a = b := by
  by_contra hne
  have hsymm : Std.Symm (@List.Disjoint τ) := ⟨fun _ _ hd => hd.symm⟩
  exact (List.nodup_flatten.1 h).2.forall ha hb hne hta htb

theorem mem_of_mem_split (hR : R.Proper) {tasks part : List τ} (h : part ∈ R.split tasks)
    (ht : t ∈ part) : t ∈ tasks := by
  rw [← hR.splitting.flatten tasks]
  exact List.mem_flatten.2 ⟨part, h, ht⟩

/-- A part is shorter than the whole, unless it is the whole. -/
theorem length_lt_of_mem_split (hR : R.Proper) {tasks part : List τ} (h : part ∈ R.split tasks)
    (hne : part ≠ tasks) : part.length < tasks.length := by
  have hsub : part.Sublist tasks := by
    have := List.sublist_flatten_of_mem h
    rwa [hR.splitting.flatten] at this
  exact lt_of_le_of_ne hsub.length_le (fun heq => hne (hsub.eq_of_length heq))

variable [DecidableEq τ] {j j' : Job τ} {n n' : Nat}

/-- A job of the forest, and how many attempts at the same list of tasks precede it. -/
inductive Node (R : Rules τ) : Job τ → Nat → Prop where
  | root {tasks : List τ} (h : tasks ∈ R.roots) : Node R ⟨tasks, 0⟩ 0
  | part {j : Job τ} {n : Nat} {tasks : List τ} (hj : Node R j n) (hfails : R.fails j.tasks n)
      (hagain : R.again j) (h : tasks ∈ R.split j.tasks) :
      Node R ⟨tasks, j.losses + 1⟩ (if tasks = j.tasks then n + 1 else 0)

/-- A job that is not retried: its attempt succeeds, or it does not go back. -/
structure Leaf (R : Rules τ) (j : Job τ) (n : Nat) : Prop where
  node : R.Node j n
  last : ¬ (R.fails j.tasks n ∧ R.again j)

theorem Node.proper (h : R.Node j n) (hR : R.Proper) : j.tasks ≠ [] ∧ j.tasks.Nodup := by
  induction h with
  | root h => exact ⟨hR.ne_nil _ h, (List.nodup_flatten.1 hR.nodup).1 _ h⟩
  | @part j n tasks hj hfails hagain h ih =>
      have hnodup : (R.split j.tasks).flatten.Nodup := by
        rw [hR.splitting.flatten]
        exact ih.2
      exact ⟨hR.splitting.ne_nil _ ih.1 _ h, (List.nodup_flatten.1 hnodup).1 _ h⟩

/-- At each depth a task is in at most one job. -/
theorem Node.unique (h : R.Node j n) (h' : R.Node j' n') (hR : R.Proper) (ht : t ∈ j.tasks)
    (ht' : t ∈ j'.tasks) (hdepth : j.losses = j'.losses) : j = j' ∧ n = n' := by
  induction h generalizing j' n' with
  | root hroot =>
      cases h' with
      | root hroot' =>
          have heq := eq_of_mem_flatten hR.nodup hroot hroot' ht ht'
          exact ⟨by rw [heq], rfl⟩
      | part hj' _ _ _ => simp at hdepth
  | @part j n tasks hj hfails hagain hpart ih =>
      cases h' with
      | root hroot' => simp at hdepth
      | @part i m tasks' hi _ _ hpart' =>
          -- the parents are one job, and the task is in one of its parts
          obtain ⟨rfl, rfl⟩ := ih hi (mem_of_mem_split hR hpart ht) (mem_of_mem_split hR hpart' ht')
            (by simpa using hdepth)
          have hnodup : (R.split j.tasks).flatten.Nodup := by
            rw [hR.splitting.flatten]
            exact (hj.proper hR).2
          obtain rfl := eq_of_mem_flatten hnodup hpart hpart' ht ht'
          exact ⟨rfl, rfl⟩

/-- Above a job with a task there is one at every smaller depth, and it is retried. -/
theorem Node.above (h : R.Node j n) (hR : R.Proper) (ht : t ∈ j.tasks) {d : Nat}
    (hd : d < j.losses) : ∃ i m, R.Node i m ∧ i.losses = d ∧ t ∈ i.tasks ∧
      R.fails i.tasks m ∧ R.again i := by
  induction h with
  | root _ => simp at hd
  | part hj hfails hagain hpart ih =>
      have hin := mem_of_mem_split hR hpart ht
      rcases Nat.lt_succ_iff_lt_or_eq.1 hd with hlt | rfl
      · exact ih hin hlt
      · exact ⟨_, _, hj, rfl, hin, hfails, hagain⟩

/-- No job with a task lies below the task's leaf. -/
theorem Leaf.losses_le (h : R.Leaf j n) (h' : R.Node j' n') (hR : R.Proper) (ht : t ∈ j.tasks)
    (ht' : t ∈ j'.tasks) : j'.losses ≤ j.losses := by
  by_contra hlt
  obtain ⟨i, m, hi, hdepth, hin, hfails, hagain⟩ := h'.above hR ht' (not_le.1 hlt)
  obtain ⟨rfl, rfl⟩ := h.node.unique hi hR ht hin hdepth.symm
  exact h.last ⟨hfails, hagain⟩

/-- A task has one leaf. -/
theorem Leaf.unique (h : R.Leaf j n) (h' : R.Leaf j' n') (hR : R.Proper) (ht : t ∈ j.tasks)
    (ht' : t ∈ j'.tasks) : j = j' ∧ n = n' :=
  h.node.unique h'.node hR ht ht'
    (le_antisymm (h'.losses_le h.node hR ht' ht) (h.losses_le h'.node hR ht ht'))

/-- A retried job lies above the leaves of its tasks. -/
theorem Leaf.below (h : R.Leaf j n) (h' : R.Node j' n') (hR : R.Proper)
    (hfails : R.fails j'.tasks n')
    (hagain : R.again j') (ht : t ∈ j.tasks) (ht' : t ∈ j'.tasks) : j'.losses < j.losses := by
  refine lt_of_le_of_ne (h.losses_le h' hR ht ht') (fun heq => ?_)
  obtain ⟨rfl, rfl⟩ := h.node.unique h' hR ht ht' heq.symm
  exact h.last ⟨hfails, hagain⟩

/-- Every job is made of tasks of one root. -/
theorem Node.exists_root (h : R.Node j n) (hR : R.Proper) :
    ∃ root ∈ R.roots, ∀ t ∈ j.tasks, t ∈ root := by
  induction h with
  | root h => exact ⟨_, h, fun t => id⟩
  | part hj hfails hagain h ih =>
      obtain ⟨root, hroot, hsub⟩ := ih
      exact ⟨root, hroot, fun t ht => hsub t (mem_of_mem_split hR h ht)⟩

theorem Node.mem_roots (h : R.Node j n) (hR : R.Proper) (ht : t ∈ j.tasks) :
    t ∈ R.roots.flatten := by
  obtain ⟨root, hroot, hsub⟩ := h.exists_root hR
  exact List.mem_flatten.2 ⟨root, hroot, hsub t ht⟩

omit [DecidableEq τ] in
theorem nodup_of_flatten {bs : List (List τ)} (h : bs.flatten.Nodup) (hne : ∀ b ∈ bs, b ≠ []) :
    bs.Nodup := by
  refine (List.nodup_flatten.1 h).2.imp_of_mem (fun ha _ hdisjoint heq => ?_)
  obtain ⟨t, ht⟩ := List.exists_mem_of_ne_nil _ (hne _ ha)
  exact hdisjoint ht (heq ▸ ht)

/-- The leaves that make up a set of tasks are fixed by it. -/
theorem leaves_perm (hR : R.Proper) {bs bs' : List (List τ)}
    (hleaf : ∀ b ∈ bs, ∃ j n, R.Leaf j n ∧ j.tasks = b)
    (hleaf' : ∀ b ∈ bs', ∃ j n, R.Leaf j n ∧ j.tasks = b) (hnd : bs.flatten.Nodup)
    (htasks : bs.flatten.Perm bs'.flatten) : bs.Perm bs' := by
  have hne : ∀ b, (∃ j n, R.Leaf j n ∧ j.tasks = b) → b ≠ [] := by
    rintro b ⟨j, n, hj, rfl⟩
    exact (hj.node.proper hR).1
  -- a leaf of one list shares its tasks with a leaf of the other, and a task has one leaf
  have hsub : ∀ (as cs : List (List τ)), (∀ b ∈ as, ∃ j n, R.Leaf j n ∧ j.tasks = b) →
      (∀ b ∈ cs, ∃ j n, R.Leaf j n ∧ j.tasks = b) → as.flatten.Perm cs.flatten →
      ∀ b ∈ as, b ∈ cs := by
    intro as cs has hcs hperm b hb
    obtain ⟨t, ht⟩ := List.exists_mem_of_ne_nil _ (hne b (has b hb))
    obtain ⟨c, hc, htc⟩ := List.mem_flatten.1 (hperm.subset (List.mem_flatten.2 ⟨b, hb, ht⟩))
    obtain ⟨j, n, hj, rfl⟩ := has b hb
    obtain ⟨i, m, hi, rfl⟩ := hcs c hc
    obtain ⟨rfl, -⟩ := hj.unique hi hR ht htc
    exact hc
  refine (List.perm_ext_iff_of_nodup (nodup_of_flatten hnd (fun b hb => hne b (hleaf b hb)))
    (nodup_of_flatten (htasks.nodup_iff.1 hnd) (fun b hb => hne b (hleaf' b hb)))).2 (fun b => ?_)
  exact ⟨hsub bs bs' hleaf hleaf' htasks b, hsub bs' bs hleaf' hleaf htasks.symm b⟩

end Rules

/-! ## Ledgers that obey the rules -/

section

variable [DecidableEq τ] {R : Rules τ} {gate : Job τ → ρ → Prop} {L L' : Book τ ρ} {ℓ : Label τ ρ}

/-- How many attempts at a list of tasks were lost. -/
def Book.attempts (L : Book τ ρ) (tasks : List τ) : Nat :=
  L.losses.countP (fun l => l.1.tasks = tasks)

/-- A step in the spirit of the rules: a job completes or is lost as its attempt is meant to, and
    the gate decides about it as the rules do. Nothing is given up wholesale. -/
def Obeys (R : Rules τ) (gate : Job τ → ρ → Prop) (L : Book τ ρ) : Label τ ρ → Prop
  | .complete j => ¬ R.fails j.tasks (L.attempts j.tasks)
  | .lose j r => R.fails j.tasks (L.attempts j.tasks) ∧ (gate j r ↔ R.again j)
  | .abort => False
  | _ => True

/-- What holds of a ledger all of whose steps obeyed the rules.
    * `placed`: its jobs are nodes of the forest, with the right number of attempts behind them;
    * `lost`: the attempt at a lost job was meant to fail, and the gate decides as the rules do;
    * `history`: every job that was ever lost is a node whose attempt was meant to fail;
    * `longer`: what was lost with a task is not shorter than the job the task is in now;
    * `settled`: a settled task was settled in its leaf. -/
structure Grown (R : Rules τ) (gate : Job τ → ρ → Prop) (L : Book τ ρ) : Prop where
  placed : ∀ y ∈ L.placed, ∃ n, R.Node y.job n ∧
    L.attempts y.job.tasks + y.job.losses = n + y.losses
  lost : ∀ l ∈ L.lost, (∀ n, L.attempts l.1.tasks = n + 1 → R.fails l.1.tasks n) ∧
    (gate l.1 l.2 ↔ R.again l.1)
  history : ∀ l ∈ L.losses, ∃ n, R.Node l.1 n ∧ R.fails l.1.tasks n
  longer : ∀ l ∈ L.losses, ∀ y ∈ L.placed, ∀ t ∈ l.1.tasks, t ∈ y.job.tasks →
    y.job.tasks.length ≤ l.1.tasks.length
  settled : ∀ v t, (v, t) ∈ L.settled → ∃ j n, R.Leaf j n ∧ t ∈ j.tasks ∧
    L.dispatchCount t = j.losses + 1 ∧
    (v = .completed ∧ ¬ R.fails j.tasks n ∨ v = .condemned ∧ R.fails j.tasks n)

/-- A step that works on one job, replacing it by the jobs `N` and the records `A`, leaves what is
    known about the others. -/
theorem Grown.update {x : Placed τ} {rest N : Multiset (Placed τ)} {A : Multiset (Verdict × τ)}
    (hG : Grown R gate L) (hC : Consistent gate L) (hold : L.placed = x ::ₘ rest)
    (hnew : L'.placed = N + rest) (hsettled : L'.settled = A + L.settled)
    (hlosses : ∀ l ∈ L'.losses, l ∈ L.losses ∨
      l.1 = x.job ∧ ∃ n, R.Node l.1 n ∧ R.fails l.1.tasks n)
    (hattempts : ∀ tasks, tasks ≠ x.job.tasks → L'.attempts tasks = L.attempts tasks)
    (hdispatches : ∀ t, t ∉ x.job.tasks → L'.dispatchCount t = L.dispatchCount t)
    (hplaced : ∀ y ∈ N, ∃ n, R.Node y.job n ∧
      L'.attempts y.job.tasks + y.job.losses = n + y.losses)
    (hparts : ∀ y ∈ N, y.job.tasks.length ≤ x.job.tasks.length ∧
      ∀ t ∈ y.job.tasks, t ∈ x.job.tasks)
    (hlost : ∀ l ∈ L'.lost, (∀ n, L'.attempts l.1.tasks = n + 1 → R.fails l.1.tasks n) ∧
      (gate l.1 l.2 ↔ R.again l.1))
    (hrecords : ∀ v t, (v, t) ∈ A → ∃ j n, R.Leaf j n ∧ t ∈ j.tasks ∧
      L'.dispatchCount t = j.losses + 1 ∧
      (v = .completed ∧ ¬ R.fails j.tasks n ∨ v = .condemned ∧ R.fails j.tasks n)) :
    Grown R gate L' := by
  obtain ⟨hapart, hapart'⟩ := hC.apart hold
  have hrest : ∀ y ∈ rest, y ∈ L.placed := fun y hy => hold ▸ Multiset.mem_cons_of_mem hy
  have hx : x ∈ L.placed := hold ▸ Multiset.mem_cons_self x rest
  refine ⟨fun y hy => ?_, hlost, fun l hl => ?_, fun l hl y hy t ht hty => ?_, fun v t ht => ?_⟩
  · rw [hnew, Multiset.mem_add] at hy
    rcases hy with hy | hy
    · exact hplaced y hy
    · -- another job has other tasks, so its attempts are what they were
      have hne : y.job.tasks ≠ x.job.tasks := by
        obtain ⟨t, ht⟩ := List.exists_mem_of_ne_nil _ (hC.placed y (hrest y hy)).1
        exact fun heq => hapart y hy t ht (heq ▸ ht)
      rw [hattempts _ hne]
      exact hG.placed y (hrest y hy)
  · rcases hlosses l hl with hl | ⟨-, hl⟩
    · exact hG.history l hl
    · exact hl
  · rw [hnew, Multiset.mem_add] at hy
    rcases hy with hy | hy
    · obtain ⟨hlen, hsub⟩ := hparts y hy
      rcases hlosses l hl with hl | ⟨hl, -⟩
      · exact hlen.trans (hG.longer l hl x hx t ht (hsub t hty))
      · rwa [hl]
    · rcases hlosses l hl with hl | ⟨hl, -⟩
      · exact hG.longer l hl y (hrest y hy) t ht hty
      · exact absurd (hl ▸ ht) (hapart y hy t hty)
  · rw [hsettled, Multiset.mem_add] at ht
    rcases ht with ht | ht
    · exact hrecords v t ht
    · rw [hdispatches t (hapart' v t ht)]
      exact hG.settled v t ht

theorem attempts_cons_of_ne {L : Book τ ρ} {j : Job τ} {r : ρ} {tasks : List τ}
    (h : tasks ≠ j.tasks) :
    ({ L with losses := (j, r) ::ₘ L.losses } : Book τ ρ).attempts tasks = L.attempts tasks :=
  Multiset.countP_cons_of_neg _ (fun heq => h heq.symm)

/-- No attempt has been made at a proper part of a lost job. -/
theorem Grown.attempts_part {j : Job τ} {r : ρ} {part : List τ} (hG : Grown R gate L)
    (hR : R.Proper) (hin : (j, r) ∈ L.lost) (hne : j.tasks ≠ []) (hpart : part ∈ R.split j.tasks)
    (hproper : part ≠ j.tasks) : L.attempts part = 0 := by
  rw [Book.attempts, Multiset.countP_eq_zero]
  rintro l hl rfl
  obtain ⟨t, ht⟩ := List.exists_mem_of_ne_nil _ (hR.splitting.ne_nil _ hne _ hpart)
  have hplaced : (⟨j, j.losses + 1, j.losses + 1⟩ : Placed τ) ∈ L.placed :=
    Multiset.mem_add.2 (Or.inr (Multiset.mem_map_of_mem _ hin))
  have hlong := hG.longer l hl _ hplaced t ht (Rules.mem_of_mem_split hR hpart ht)
  exact absurd hlong (not_le.2 (Rules.length_lt_of_mem_split hR hpart hproper))

theorem Step.grown (hR : R.Proper) (h : Step R.split gate L ℓ L') (hobeys : Obeys R gate L ℓ)
    (hC : Consistent gate L) (hG : Grown R gate L) : Grown R gate L' := by
  cases h with
  | dispatch j W h =>
      have hold := Book.placed_of_waiting h
      obtain ⟨n, hnode, hn⟩ := hG.placed _ (hold ▸ Multiset.mem_cons_self _ _)
      refine hG.update hC (N := {⟨j, j.losses, j.losses + 1⟩}) (A := 0) hold
        ((Book.placed_of_running rfl).trans (Multiset.singleton_add _ _).symm) (zero_add _).symm
        (fun l hl => Or.inl hl) (fun _ _ => rfl) (fun t ht => Multiset.countP_cons_of_neg _ ht)
        (fun y hy => ?_) (fun y hy => ?_) hG.lost
        (fun v t ht => absurd ht (Multiset.notMem_zero _))
      · rw [Multiset.mem_singleton.1 hy]
        exact ⟨n, hnode, hn⟩
      · rw [Multiset.mem_singleton.1 hy]
        exact ⟨le_rfl, fun t => id⟩
  | complete j R' h =>
      have hold := Book.placed_of_running h
      have hx := hold ▸ Multiset.mem_cons_self _ _
      obtain ⟨n, hnode, hn⟩ := hG.placed _ hx
      refine hG.update hC (N := 0) (A := j.settle .completed) hold (zero_add _).symm rfl
        (fun l hl => Or.inl hl) (fun _ _ => rfl) (fun t ht => rfl)
        (fun y hy => absurd hy (Multiset.notMem_zero _))
        (fun y hy => absurd hy (Multiset.notMem_zero _)) hG.lost (fun v t ht => ?_)
      obtain ⟨rfl, htask⟩ := mem_settle.1 ht
      -- its attempt was meant to succeed, so that it is a leaf
      have hfails : ¬ R.fails j.tasks n := by
        rw [← Nat.add_right_cancel hn]
        exact hobeys
      exact ⟨j, n, ⟨hnode, fun hlast => hfails hlast.1⟩, htask, ((hC.placed _ hx).2 t htask).2,
        Or.inl ⟨rfl, hfails⟩⟩
  | lose j r R' h =>
      have hold := Book.placed_of_running h
      obtain ⟨n, hnode, hn⟩ := hG.placed _ (hold ▸ Multiset.mem_cons_self _ _)
      have hattempts : ((j, r) ::ₘ L.losses).countP (fun l => l.1.tasks = j.tasks)
          = L.attempts j.tasks + 1 := Multiset.countP_cons_of_pos _ rfl
      refine hG.update hC (N := {⟨j, j.losses + 1, j.losses + 1⟩}) (A := 0) hold
        ((Book.placed_of_lost rfl).trans (Multiset.singleton_add _ _).symm) (zero_add _).symm
        (fun l hl => ?_) (fun tasks hne => attempts_cons_of_ne hne) (fun t ht => rfl)
        (fun y hy => ?_) (fun y hy => ?_) (fun l hl => ?_)
        (fun v t ht => absurd ht (Multiset.notMem_zero _))
      · rcases Multiset.mem_cons.1 hl with rfl | hl
        · refine Or.inr ⟨rfl, n, hnode, ?_⟩
          rw [← Nat.add_right_cancel hn]
          exact hobeys.1
        · exact Or.inl hl
      · rw [Multiset.mem_singleton.1 hy]
        refine ⟨n, hnode, ?_⟩
        show ((j, r) ::ₘ L.losses).countP (fun l => l.1.tasks = j.tasks) + j.losses
          = n + (j.losses + 1)
        rw [hattempts]
        simp only at hn
        omega
      · rw [Multiset.mem_singleton.1 hy]
        exact ⟨le_rfl, fun t => id⟩
      · rcases Multiset.mem_cons.1 hl with rfl | hl
        · refine ⟨fun m hm => ?_, hobeys.2⟩
          have hm' := Nat.add_right_cancel (hattempts.symm.trans hm)
          rw [← hm']
          exact hobeys.1
        · -- another lost job has other tasks
          have hrest : (⟨l.1, l.1.losses + 1, l.1.losses + 1⟩ : Placed τ)
              ∈ ({ L with running := R' } : Book τ ρ).placed :=
            Multiset.mem_add.2 (Or.inr (Multiset.mem_map_of_mem _ hl))
          have hne : l.1.tasks ≠ j.tasks := by
            obtain ⟨t, ht⟩ := List.exists_mem_of_ne_nil _ (hC.placed _
              (hold ▸ Multiset.mem_cons_of_mem hrest)).1
            exact fun heq => (hC.apart hold).1 _ hrest t ht (heq ▸ ht)
          refine (hG.lost l hl).imp_left (fun hfails m hm => hfails m ?_)
          exact (attempts_cons_of_ne hne).symm.trans hm
  | retry j r R' h hgate =>
      have hold := Book.placed_of_lost h
      have hin : (j, r) ∈ L.lost := h ▸ Multiset.mem_cons_self _ _
      obtain ⟨n, hnode, hn⟩ := hG.placed _ (hold ▸ Multiset.mem_cons_self _ _)
      have hattempts : L.attempts j.tasks = n + 1 := by
        simp only at hn
        omega
      refine hG.update hC (N := (j.parts R.split).map (fun p => ⟨p, p.losses, p.losses⟩)) (A := 0)
        hold (Book.placed_add_waiting { L with lost := R' } _) (zero_add _).symm
        (fun l hl => Or.inl hl) (fun _ _ => rfl) (fun t ht => rfl) (fun y hy => ?_)
        (fun y hy => ?_) (fun l hl => hG.lost l (h ▸ Multiset.mem_cons_of_mem hl))
        (fun v t ht => absurd ht (Multiset.notMem_zero _))
      · obtain ⟨p, hp, rfl⟩ := Multiset.mem_map.1 hy
        obtain ⟨part, hpart, rfl⟩ := List.mem_map.1 (Multiset.mem_coe.1 hp)
        obtain ⟨hfails, hagain⟩ := hG.lost _ hin
        -- the whole goes on with its attempts, and a proper part starts without any
        refine ⟨_, .part hnode (hfails n hattempts) (hagain.1 hgate) hpart, ?_⟩
        split
        · next heq => exact congrArg (· + _) (by rw [← hattempts, ← heq]; rfl)
        · next hne =>
            exact congrArg (· + _) (hG.attempts_part hR hin (hnode.proper hR).1 hpart hne)
      · obtain ⟨p, hp, rfl⟩ := Multiset.mem_map.1 hy
        obtain ⟨part, hpart, rfl⟩ := List.mem_map.1 (Multiset.mem_coe.1 hp)
        refine ⟨?_, fun t ht => Rules.mem_of_mem_split hR hpart ht⟩
        by_cases heq : part = j.tasks
        · exact (congrArg List.length heq).le
        · exact (Rules.length_lt_of_mem_split hR hpart heq).le
  | condemn j r R' h hgate =>
      have hold := Book.placed_of_lost h
      have hx := hold ▸ Multiset.mem_cons_self _ _
      have hin : (j, r) ∈ L.lost := h ▸ Multiset.mem_cons_self _ _
      obtain ⟨n, hnode, hn⟩ := hG.placed _ hx
      obtain ⟨hfails, hagain⟩ := hG.lost _ hin
      refine hG.update hC (N := 0) (A := j.settle .condemned) hold (zero_add _).symm rfl
        (fun l hl => Or.inl hl) (fun _ _ => rfl) (fun t ht => rfl)
        (fun y hy => absurd hy (Multiset.notMem_zero _))
        (fun y hy => absurd hy (Multiset.notMem_zero _))
        (fun l hl => hG.lost l (h ▸ Multiset.mem_cons_of_mem hl)) (fun v t ht => ?_)
      obtain ⟨rfl, htask⟩ := mem_settle.1 ht
      have hattempts : L.attempts j.tasks = n + 1 := by
        simp only at hn
        omega
      exact ⟨j, n, ⟨hnode, fun hlast => hgate (hagain.2 hlast.2)⟩, htask,
        ((hC.placed _ hx).2 t htask).2, Or.inr ⟨rfl, hfails n hattempts⟩⟩
  | abort => exact hobeys.elim

theorem Book.start_grown : Grown R gate (Book.start R.roots : Book τ ρ) := by
  refine ⟨fun y hy => ?_, by simp [Book.start], by simp [Book.start], by simp [Book.start],
    by simp [Book.start]⟩
  simp only [Book.placed, Book.start, Multiset.map_zero, add_zero, Multiset.mem_map,
    Multiset.mem_coe, List.mem_map] at hy
  obtain ⟨j, ⟨tasks, hin, rfl⟩, rfl⟩ := hy
  exact ⟨0, .root hin, rfl⟩

end

end Ledger
