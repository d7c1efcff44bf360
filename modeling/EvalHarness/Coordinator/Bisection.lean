import EvalHarness.Coordinator.Fate
import EvalHarness.Coordinator.Instant

set_option autoImplicit false

/-! # Bisection of a poisoned batch

Where `evaluate_batch` raises exactly on the batches that contain one task, the forest of retries
has one path that is retried: the halves with that task. The path ends where the budget of the tasks
or, for an error that recurs, the splitting ends, and the batch at its end is given up as a
whole. -/

namespace EvalHarness

open Ledger

variable {σ : Type} {w : World σ}

/-! ## Halving a batch around a task -/

/-- The half of a batch that contains `p`. -/
def halfWith (p : TaskRef) (batch : Batch) : Batch :=
  ((halves batch).find? (fun part => p ∈ part)).getD []

/-- The batch with `p` after `k` bisections. -/
def bisected (p : TaskRef) (batch : Batch) : Nat → Batch
  | 0 => batch
  | k + 1 => halfWith p (bisected p batch k)

section

variable {p : TaskRef} {batch : Batch}

theorem halfWith_mem (hp : p ∈ batch) : halfWith p batch ∈ halves batch ∧ p ∈ halfWith p batch := by
  rw [← halves_splitting.flatten batch] at hp
  obtain ⟨part, hin, hpart⟩ := List.mem_flatten.1 hp
  cases hfind : (halves batch).find? (fun part => p ∈ part) with
  | none =>
      have := List.find?_eq_none.1 hfind part hin
      simp [hpart] at this
  | some half =>
      have hhalf := List.find?_some hfind
      simp only [halfWith, hfind, Option.getD_some]
      exact ⟨List.mem_of_find?_eq_some hfind, by simpa using hhalf⟩

theorem mem_bisected (hp : p ∈ batch) (k : Nat) : p ∈ bisected p batch k := by
  induction k with
  | zero => exact hp
  | succ k ih => exact (halfWith_mem ih).2

theorem bisected_subset (hp : p ∈ batch) (k : Nat) : ∀ t ∈ bisected p batch k, t ∈ batch := by
  induction k with
  | zero => exact fun t => id
  | succ k ih =>
      intro t ht
      refine ih t ?_
      rw [← halves_splitting.flatten (bisected p batch k)]
      exact List.mem_flatten.2 ⟨_, (halfWith_mem (mem_bisected hp k)).1, ht⟩

theorem halfWith_length_le (hp : p ∈ batch) :
    (halfWith p batch).length ≤ (batch.length + 1) / 2 := by
  have hin := (halfWith_mem hp).1
  have hpos := List.length_pos_of_mem hp
  simp only [halves, retryEntries] at hin
  split at hin
  · simp only [List.map_cons, List.map_nil, List.mem_singleton] at hin
    rw [hin]
    omega
  · simp only [List.map_cons, List.map_nil, List.mem_cons, List.not_mem_nil, or_false] at hin
    rcases hin with hin | hin <;> rw [hin]
    · rw [List.length_take]
      omega
    · rw [List.length_drop]
      omega

theorem bisected_length_le (hp : p ∈ batch) {k i : Nat} (h : batch.length ≤ 2 ^ (k + i)) :
    (bisected p batch k).length ≤ 2 ^ i := by
  induction k generalizing i with
  | zero => simpa [bisected] using h
  | succ k ih =>
      have hprev := ih (i := i + 1) (by rwa [show k + (i + 1) = k + 1 + i by omega])
      have hhalf := halfWith_length_le (mem_bisected hp k)
      rw [pow_succ] at hprev
      show (halfWith p (bisected p batch k)).length ≤ 2 ^ i
      omega

/-- Once alone, the task stays alone. -/
theorem bisected_of_length_one (hp : p ∈ batch) {K k : Nat}
    (h : (bisected p batch K).length = 1) (hk : K ≤ k) : bisected p batch k = [p] := by
  induction k, hk using Nat.le_induction with
  | base =>
      obtain ⟨q, hq⟩ := List.length_eq_one_iff.1 h
      have hin := mem_bisected hp K
      rw [hq, List.mem_singleton] at hin
      rw [hq, hin]
  | succ k _ ih =>
      show halfWith p (bisected p batch k) = [p]
      simp [ih, halfWith, halves, retryEntries]

/-- A batch of `n` tasks is bisected down to one in at most `⌈log₂ n⌉` steps. -/
theorem exists_isolation (hp : p ∈ batch) :
    ∃ K, IsLeast {k | (bisected p batch k).length = 1} K ∧ K ≤ Nat.clog 2 batch.length := by
  have hlog : (bisected p batch (Nat.clog 2 batch.length)).length = 1 := by
    have hle : (bisected p batch (Nat.clog 2 batch.length)).length ≤ 2 ^ 0 :=
      bisected_length_le hp (Nat.le_pow_clog Nat.one_lt_two _)
    have hpos := List.length_pos_of_mem (mem_bisected hp (Nat.clog 2 batch.length))
    omega
  have hex : ∃ k, (bisected p batch k).length = 1 := ⟨_, hlog⟩
  exact ⟨Nat.find hex, ⟨Nat.find_spec hex, fun k hk => Nat.find_min' hex hk⟩,
    Nat.find_min' hex hlog⟩

theorem one_lt_bisected_length_iff (hp : p ∈ batch) {K : Nat}
    (hK : IsLeast {k | (bisected p batch k).length = 1} K) (k : Nat) :
    1 < (bisected p batch k).length ↔ k < K := by
  have hpos := List.length_pos_of_mem (mem_bisected hp k)
  constructor
  · intro hlen
    by_contra hle
    rw [bisected_of_length_one hp hK.1 (not_lt.1 hle)] at hlen
    simp at hlen
  · intro hlt
    have hne : (bisected p batch k).length ≠ 1 := fun h => absurd (hK.2 h) (not_le.2 hlt)
    omega

theorem bisected_min (hp : p ∈ batch) {K : Nat}
    (hK : IsLeast {k | (bisected p batch k).length = 1} K) (m : Nat) :
    bisected p batch (min m K) = bisected p batch m := by
  rcases le_total m K with hle | hle
  · rw [min_eq_left hle]
  · rw [min_eq_right hle, bisected_of_length_one hp hK.1 le_rfl,
      bisected_of_length_one hp hK.1 hle]

end

/-! ## The path of the poisoned task -/

/-- Workers that raise exactly on the batches with the task `p`, and always an exception of one
    kind. -/
structure Poisoned (w : World σ) (kind : FailureKind) (p : TaskRef) : Prop where
  raises : ∀ st hd batch, Outcome.failed (w.evaluateBatch st hd batch).1 ↔ p ∈ batch
  kind : ∀ st hd batch exc, (w.evaluateBatch st hd batch).1 = .error exc →
    classifyFailure exc = kind

theorem Poisoned.plan {kind : FailureKind} {p : TaskRef} (h : Poisoned w kind p) :
    FaultPlan w kind (fun batch _ => p ∈ batch) (fun _ _ => True) :=
  ⟨trivial, fun st _ hd batch _ _ => h.raises st hd batch, fun _ _ _ _ _ _ => trivial, h.kind⟩

/-- How often the poisoned task is retried with a budget of `m`, if `K` bisections isolate it: an
    error that recurs is not retried once the task is alone. -/
def poisonedRetries (m K : Nat) : FailureKind → Nat
  | .transient => m
  | .deterministic => min m K

theorem taskMaxRetries_eq {cfg : Config} {batch : Batch} {b : Int} (hne : batch ≠ [])
    (hb : ∀ t ∈ batch, cfg.budget t = b) : cfg.taskMaxRetries batch = .ok b := by
  cases batch with
  | nil => exact absurd rfl hne
  | cons t rest => rw [Config.taskMaxRetries, hb t List.mem_cons_self]

section

variable {cfg : Config} {kind : FailureKind} {p : TaskRef} {B : Batch} {m K : Nat}

theorem again_bisected_iff (hp : p ∈ B) (hm : ∀ t ∈ B, cfg.budget t = m)
    (hK : IsLeast {k | (bisected p B k).length = 1} K) (d : Nat) :
    cfg.again kind ⟨bisected p B d, d⟩ ↔ d < poisonedRetries m K kind := by
  have hb : cfg.taskMaxRetries (bisected p B d) = .ok (m : Int) :=
    taskMaxRetries_eq (List.ne_nil_of_mem (mem_bisected hp d))
      (fun t ht => hm t (bisected_subset hp d t ht))
  simp only [Config.again, hb, Except.ok.injEq, exists_eq_left', Nat.cast_lt,
    one_lt_bisected_length_iff hp hK]
  cases kind <;> simp [poisonedRetries]

variable (kind) in
/-- The halves with the poisoned task are the jobs that are retried. -/
theorem bisected_node (hB : B ∈ cfg.batches) (hp : p ∈ B) (hm : ∀ t ∈ B, cfg.budget t = m)
    (hK : IsLeast {k | (bisected p B k).length = 1} K) {d : Nat}
    (hd : d ≤ poisonedRetries m K kind) :
    ∃ n, (cfg.rules kind (fun batch _ => p ∈ batch)).Node ⟨bisected p B d, d⟩ n := by
  induction d with
  | zero => exact ⟨0, .root hB⟩
  | succ d ih =>
      obtain ⟨n, hn⟩ := ih (by omega)
      exact ⟨_, .part hn (mem_bisected hp d) ((again_bisected_iff hp hm hK d).2 hd)
        (halfWith_mem (mem_bisected hp d)).1⟩

variable (kind) in
/-- The path ends where the retries do. -/
theorem bisected_leaf (hB : B ∈ cfg.batches) (hp : p ∈ B) (hm : ∀ t ∈ B, cfg.budget t = m)
    (hK : IsLeast {k | (bisected p B k).length = 1} K) :
    ∃ n, (cfg.rules kind (fun batch _ => p ∈ batch)).Leaf
      ⟨bisected p B (poisonedRetries m K kind), poisonedRetries m K kind⟩ n := by
  obtain ⟨n, hn⟩ := bisected_node kind hB hp hm hK le_rfl
  refine ⟨n, hn, fun hretry => ?_⟩
  exact lt_irrefl _ ((again_bisected_iff hp hm hK _).1 hretry.2)

/-- A job with the poisoned task is a part of its batch. -/
theorem poisoned_subset (hB : B ∈ cfg.batches) (hp : p ∈ B) {j : Job TaskRef} {n : Nat}
    (hj : (cfg.rules kind (fun batch _ => p ∈ batch)).Node j n) (hpj : p ∈ j.tasks) :
    ∀ t ∈ j.tasks, t ∈ B := by
  have hproper := cfg.rules_proper kind (fun batch _ => p ∈ batch)
  obtain ⟨root, hroot, hsub⟩ := hj.exists_root hproper
  obtain rfl := Rules.eq_of_mem_flatten hproper.nodup hroot hB (hsub p hpj) hp
  exact hsub

variable (kind) in
theorem poisoned_backable_iff (hB : B ∈ cfg.batches) (hp : p ∈ B)
    (hm : ∀ t ∈ B, cfg.budget t = m) (hK : IsLeast {k | (bisected p B k).length = 1} K) :
    cfg.Backable kind (fun batch _ => p ∈ batch) ↔ poisonedRetries m K kind ≤ 1024 := by
  have hproper := cfg.rules_proper kind (fun batch _ => p ∈ batch)
  constructor
  · intro hbackable
    have hearly : ∀ d < poisonedRetries m K kind, d < 1024 := by
      intro d hd
      by_contra hlate
      obtain ⟨n, hn⟩ := bisected_node kind hB hp hm hK hd.le
      exact hbackable _ n ⟨hn, mem_bisected hp d, (again_bisected_iff hp hm hK d).2 hd,
        not_lt.1 hlate⟩
    by_contra hlt
    exact lt_irrefl _ (hearly 1024 (not_le.1 hlt))
  · rintro hle j n ⟨hnode, hfails, hagain, hlate⟩
    obtain ⟨n', hleaf⟩ := bisected_leaf kind hB hp hm hK
    have hbelow : j.losses < poisonedRetries m K kind :=
      hleaf.below hnode hproper hfails hagain (mem_bisected hp _) hfails
    omega

end

/-! ## Where the run leaves the batch -/

/-- How many executions on parts of a batch have failed. -/
def RayState.failuresIn (r : RayState σ) (B : Batch) : Nat :=
  r.executed.countP (fun x => Outcome.failed x.2.2 && decide (∀ t ∈ x.2.1, t ∈ B))

/-- The tasks of `B` that are recorded as failed are those of `S`, the others are recorded as
    succeeded, and `n` executions on `B` and its parts have failed. -/
structure Isolated (s : Sys σ) (B S : Batch) (n : Nat) : Prop where
  failed : ∀ t ∈ B, Failed s.log t ↔ t ∈ S
  succeeded : ∀ t ∈ B, Succeeded s.log t ↔ t ∉ S
  failures : s.ray.failuresIn B = n

section

variable {kind : FailureKind} {p : TaskRef} {B : Batch} {m K : Nat}

/-- When nothing is in flight the failed executions are the losses. -/
theorem Reach.failuresIn_eq {fails : Batch → Nat → Prop} {agrees : σ → (Batch → Nat) → Prop}
    (hplan : FaultPlan w kind fails agrees) (hcalm : Calm w) {s : Sys σ} (h : Reach w ⟨s, .idle⟩)
    (hev : evictions s.log = []) (hidle : s.idle) :
    s.ray.failuresIn B = (losses s.log).countP (fun l => ∀ t ∈ l.1.batch, t ∈ B) := by
  have hload := (Tables.idle_iff_load s.toTables).1 hidle
  simp only [Tables.load, Nat.add_eq_zero_iff, List.length_eq_zero_iff] at hload
  have hreturned : returned s.active s.ray.resolved = [] := by
    rw [returned, hload.2, List.filterMap_nil]
  have hbalance :
      s.ray.trials.Perm (settledTrials s.log ++ returned s.active s.ray.resolved ++ []) :=
    (h.tried hplan hcalm hev).balance
  rw [hreturned, List.append_nil, List.append_nil] at hbalance
  have htrials : s.ray.failuresIn B
      = s.ray.trials.countP (fun y => y.2 && decide (∀ t ∈ y.1, t ∈ B)) := by
    rw [RayState.failuresIn, RayState.trials, List.countP_map]
    rfl
  rw [htrials, hbalance.countP_eq, settledTrials, List.countP_append, List.countP_map,
    List.countP_map]
  simp [Function.comp_def]

/-- A calm run that has exited has isolated the poisoned task as deep as the retries go. -/
theorem Reach.isolated (hpoison : Poisoned w kind p) (hcalm : Calm w) (hn : 0 < w.cfg.nWorkers)
    (hB : B ∈ w.cfg.batches) (hp : p ∈ B) (hm : ∀ t ∈ B, w.cfg.budget t = m)
    (hK : IsLeast {k | (bisected p B k).length = 1} K) {s : Sys σ} (h : Reach w ⟨s, .idle⟩)
    (hev : evictions s.log = []) (hidle : s.idle) :
    Isolated s B (bisected p B (poisonedRetries m K kind)) (poisonedRetries m K kind + 1) := by
  have hproper := w.cfg.rules_proper kind (fun batch _ => p ∈ batch)
  have hgrown := h.grown hpoison.plan hcalm hn hev
  obtain ⟨n, hleaf⟩ := bisected_leaf kind hB hp hm hK
  have hsettled : ∀ t ∈ B, ∃ v, (v, t) ∈ (⟨s, .idle⟩ : Point σ).ledger.settled := by
    intro t ht
    have hroot : (w.cfg.rules kind (fun batch _ => p ∈ batch)).Node ⟨B, 0⟩ 0 := .root hB
    exact h.settled_of_idle hidle t (Config.node_known hroot ht)
  -- a task shares its leaf with the poisoned task or is not affected
  have houtcome : ∀ t ∈ B, (Succeeded s.log t ↔ t ∉ bisected p B (poisonedRetries m K kind)) ∧
      (Failed s.log t ↔ t ∈ bisected p B (poisonedRetries m K kind)) := by
    intro t ht
    obtain ⟨v, hv⟩ := hsettled t ht
    obtain ⟨j, n', hj, htj, -⟩ := hgrown.settled v t hv
    obtain ⟨hsucceeded, hfailed, -⟩ := outcome_of_leaf hgrown hj htj ⟨v, hv⟩
    have hiff : p ∈ j.tasks ↔ t ∈ bisected p B (poisonedRetries m K kind) := by
      constructor
      · intro hpj
        obtain ⟨rfl, -⟩ := hj.unique hleaf hproper hpj (mem_bisected hp _)
        exact htj
      · intro htS
        obtain ⟨rfl, -⟩ := hj.unique hleaf hproper htj htS
        exact mem_bisected hp _
    exact ⟨hsucceeded.trans (not_congr hiff), hfailed.trans hiff⟩
  refine ⟨fun t ht => (houtcome t ht).2, fun t ht => (houtcome t ht).1, ?_⟩
  have hcount : (losses s.log).countP (fun l => ∀ t ∈ l.1.batch, t ∈ B) = lossCount s.log p := by
    refine List.countP_congr (fun l hl => ?_)
    obtain ⟨n', hnode, hpl⟩ := hgrown.history (lossJob l)
      (Multiset.mem_coe.2 (List.mem_map_of_mem hl))
    simp only [decide_eq_true_eq]
    exact ⟨fun _ => hpl, fun _ => poisoned_subset hB hp hnode hpl⟩
  -- the poisoned task fails, so it was lost as often as it was dispatched
  obtain ⟨hsucceeded, hfailed, hdispatched⟩ :=
    outcome_of_leaf hgrown hleaf (mem_bisected hp _) (hsettled p hp)
  obtain ⟨v, hne, hv⟩ := failed_iff_settled.1 (hfailed.2 (mem_bisected hp _))
  obtain ⟨j, n', -, -, -, ⟨hcompleted, -⟩ | ⟨rfl, -⟩⟩ := hgrown.settled v p hv
  · exact absurd hcompleted hne
  · obtain ⟨l, -, -, -, hlost, hsent⟩ := h.consistent.condemned p hv
    rw [ledger_lossCount] at hlost
    rw [ledger_dispatchCount] at hsent
    rw [h.failuresIn_eq hpoison.plan hcalm hev hidle, hcount, hlost, ← hsent, hdispatched]

/-- A run that is over has isolated the poisoned task unless a backoff has overflowed. -/
theorem isolated_iff (hpoison : Poisoned w kind p) (hcalm : Calm w) (hB : B ∈ w.cfg.batches)
    (hp : p ∈ B) (hm : ∀ t ∈ B, w.cfg.budget t = m)
    (hK : IsLeast {k | (bisected p B k).length = 1} K) {s₀ : Sys σ} (h : startRun w = .ok s₀)
    {k : Nat} (hover : ∀ s, after w s₀ k ≠ .head s)
    (hev : evictions (after w s₀ k).sys.log = []) :
    Isolated (after w s₀ k).sys B (bisected p B (min m K)) (poisonedRetries m K kind + 1) ↔
      poisonedRetries m K kind ≤ 1024 := by
  rw [← poisoned_backable_iff kind hB hp hm hK]
  rcases ends_cases hpoison.plan hcalm h hover hev with
    ⟨hbackable, s, hs, hr, hidle⟩ | ⟨s, hs, q, j, n, hlate, t, ht, hnone⟩
  · rw [hs] at hev ⊢
    have hisolated := hr.isolated hpoison hcalm (startRun_workers_pos h) hB hp hm hK hev hidle
    have hpath : bisected p B (poisonedRetries m K kind) = bisected p B (min m K) := by
      cases kind with
      | transient => exact (bisected_min hp hK m).symm
      | deterministic => rfl
    rw [hpath] at hisolated
    exact ⟨fun _ => hbackable, fun _ => hisolated⟩
  · -- the batch that could not go back is a part of `B`, and a task of it has no record
    rw [hs]
    have hin : t ∈ B := poisoned_subset hB hp hlate.node hlate.fails t ht
    refine ⟨fun hisolated => ?_, fun hbackable => absurd hlate (hbackable j n)⟩
    by_cases htS : t ∈ bisected p B (min m K)
    · obtain ⟨v, -, hv⟩ : ∃ v, v ≠ .completed ∧ (v, t) ∈ (⟨s, q⟩ : Point σ).ledger.settled :=
        failed_iff_settled.1 ((hisolated.failed t hin).2 htS)
      exact absurd hv (hnone v)
    · have hv : (.completed, t) ∈ (⟨s, q⟩ : Point σ).ledger.settled :=
        succeeded_iff_settled.1 ((hisolated.succeeded t hin).2 htS)
      exact absurd hv (hnone _)

/-- Bisection isolates a poisoned task as deep as its budget allows, in every calm run that is over,
    if and only if no retry comes after the 1024th; and a fair run is over some day. -/
theorem poison_isolated_iff (hpoison : Poisoned w kind p) (hcalm : Calm w)
    (hB : B ∈ w.cfg.batches) (hp : p ∈ B) (hm : ∀ t ∈ B, w.cfg.budget t = m) {s₀ : Sys σ}
    (h : startRun w = .ok s₀) :
    ∃ K, IsLeast {k | (bisected p B k).length = 1} K ∧ K ≤ Nat.clog 2 B.length ∧
      (Nat.clog 2 B.length ≤ m → bisected p B (min m K) = [p]) ∧
      (Fair w s₀ → ∃ k, ∀ s, after w s₀ k ≠ .head s) ∧
      ∀ k, (∀ s, after w s₀ k ≠ .head s) → evictions (after w s₀ k).sys.log = [] →
        (Isolated (after w s₀ k).sys B (bisected p B (min m K)) (poisonedRetries m K kind + 1) ↔
          poisonedRetries m K kind ≤ 1024) := by
  obtain ⟨K, hK, hlog⟩ := exists_isolation hp
  refine ⟨K, hK, hlog, fun hdeep => ?_, fun hfair => hfair.ends h, fun k hover hev => ?_⟩
  · exact bisected_of_length_one hp hK.1 (le_min (hlog.trans hdeep) le_rfl)
  · exact isolated_iff hpoison hcalm hB hp hm hK h hover hev

end

/-! ## A batch of four

One worker, one batch, and the third of its tasks is poisoned: two bisections isolate it. -/

def poisonConfig (maxRetries : Int) : Config where
  nWorkers := 1
  batchSize := 4
  maxRetries := maxRetries
  tasks := [⟨"a", none⟩, ⟨"b", none⟩, ⟨"c", none⟩, ⟨"d", none⟩]

def poisonWorld (maxRetries : Int) : World Unit where
  cfg := poisonConfig maxRetries
  evaluateBatch := failingOn (poisonConfig maxRetries) (fun batch => 2 ∈ batch)
  backend := ()
  env := fun _ => instantReply 1 (poisonConfig maxRetries).maxCalls

theorem poisonWorld_poisoned (maxRetries : Int) :
    Poisoned (poisonWorld maxRetries) .transient 2 := by
  refine ⟨fun st hd batch => ?_, fun st hd batch exc hexc => ?_⟩
  · show Outcome.failed (failingOn (poisonConfig maxRetries) _ st hd batch).1 ↔ _
    by_cases hin : 2 ∈ batch <;> simp [failingOn, hin, Outcome.failed]
  · replace hexc : (failingOn (poisonConfig maxRetries) (fun batch => 2 ∈ batch) st hd batch).1
      = .error exc := hexc
    unfold failingOn at hexc
    split at hexc
    · cases hexc
      decide +kernel
    · cases hexc

theorem poison_isolated_iff_small : ∃ s₀ k K, startRun (poisonWorld 2) = .ok s₀ ∧
    (∀ s, after (poisonWorld 2) s₀ k ≠ .head s) ∧
    evictions (after (poisonWorld 2) s₀ k).sys.log = [] ∧
    IsLeast {k | (bisected 2 [0, 1, 2, 3] k).length = 1} K ∧
    (Isolated (after (poisonWorld 2) s₀ k).sys [0, 1, 2, 3] (bisected 2 [0, 1, 2, 3] (min 2 K))
      (poisonedRetries 2 K .transient + 1) ↔ poisonedRetries 2 K .transient ≤ 1024) := by
  obtain ⟨s₀, h, -⟩ := exists_startRun (w := poisonWorld 2) (P := fun _ => true) (by decide +kernel)
  have hinstant : (poisonWorld 2).Instant := fun _ => rfl
  obtain ⟨-, k, hover, hev⟩ := hinstant.ends h
  obtain ⟨K, hK, -, -, -, hiff⟩ := poison_isolated_iff (B := [0, 1, 2, 3]) (m := 2)
    (poisonWorld_poisoned 2) hinstant.calm (by decide +kernel) (by decide) (by decide +kernel) h
  exact ⟨s₀, k, K, h, hover, hev, hK, hiff k hover hev⟩

theorem isLeast_isolation_of_four : IsLeast {k | (bisected 2 [0, 1, 2, 3] k).length = 1} 2 := by
  refine ⟨by decide, fun k hk => ?_⟩
  by_contra hlt
  have hcases : k = 0 ∨ k = 1 := by omega
  rcases hcases with rfl | rfl <;> revert hk <;> decide

/-- A budget of 1025 lets the poisoned task go back once too often. -/
theorem poisonWorld_not_backable :
    ¬ (poisonWorld 1025).cfg.Backable .transient (fun batch _ => 2 ∈ batch) := by
  have hB : [0, 1, 2, 3] ∈ (poisonWorld 1025).cfg.batches := by decide +kernel
  have hm : ∀ t ∈ [0, 1, 2, 3], (poisonWorld 1025).cfg.budget t = (1025 : Nat) := by decide +kernel
  rw [poisoned_backable_iff _ hB (by decide) hm isLeast_isolation_of_four]
  decide

/-- With a budget of 1025 the run of an obliging cluster ends in an exception, and the task is not
    isolated: `0.5 * 2 ** 1024`, the backoff before its 1025th retry, overflows before it is
    capped. -/
theorem poison_not_isolated : ∃ s₀ k s, startRun (poisonWorld 1025) = .ok s₀ ∧
    Poisoned (poisonWorld 1025) .transient 2 ∧ Calm (poisonWorld 1025) ∧
    [0, 1, 2, 3] ∈ (poisonWorld 1025).cfg.batches ∧
    (∀ t ∈ [0, 1, 2, 3], (poisonWorld 1025).cfg.budget t = (1025 : Nat)) ∧
    Fair (poisonWorld 1025) s₀ ∧ after (poisonWorld 1025) s₀ k = .raised overflowError s ∧
    evictions s.log = [] ∧ IsLeast {k | (bisected 2 [0, 1, 2, 3] k).length = 1} 2 ∧
    ¬ Isolated s [0, 1, 2, 3] (bisected 2 [0, 1, 2, 3] (min 1025 2)) 1026 := by
  obtain ⟨s₀, h, -⟩ := exists_startRun (w := poisonWorld 1025) (P := fun _ => true)
    (by decide +kernel)
  have hinstant : (poisonWorld 1025).Instant := fun _ => rfl
  obtain ⟨hfair, k, hover, hev⟩ := hinstant.ends h
  have hK := isLeast_isolation_of_four
  have hB : [0, 1, 2, 3] ∈ (poisonWorld 1025).cfg.batches := by decide +kernel
  have hm : ∀ t ∈ [0, 1, 2, 3], (poisonWorld 1025).cfg.budget t = (1025 : Nat) := by decide +kernel
  obtain ⟨s, hs, hnone⟩ := overflows (poisonWorld_poisoned 1025).plan hinstant.calm h hover hev
    poisonWorld_not_backable
  have hnot := (isolated_iff (poisonWorld_poisoned 1025) hinstant.calm hB (by decide) hm hK h hover
    hev).not.2 (by decide)
  rw [hs] at hnot
  exact ⟨s₀, k, s, h, poisonWorld_poisoned 1025, hinstant.calm, hB, hm, hfair, hs, hnone, hK, hnot⟩

end EvalHarness
