import EvalHarness.Coordinator.Policy

set_option autoImplicit false

/-! # Routing of result rows to aggregator shards

`ShardedAggregator.record_batch` on the driver's side: which shard actor gets which rows, in which
order of submission. -/

namespace EvalHarness

/-- `groups.setdefault(self.shard_for(result.task_id), []).append(result)` over a batch. -/
def groupRows (shardFor : String → Nat) (rows : List EvalResult) : Dict Nat (List EvalResult) :=
  rows.foldl
    (fun groups row =>
      let shard := shardFor row.taskId
      groups.set shard ((groups.get? shard).getD [] ++ [row]))
    Dict.empty

/-- The shard calls `record_batch` makes, in submission order: none for an empty batch, one with
    the whole batch for a single shard, else one per shard touched, sorted by shard. -/
def Config.shardGroups (cfg : Config) (rows : List EvalResult) : List (Nat × List EvalResult) :=
  if rows.isEmpty then []
  else if cfg.aggregatorShards = 1 then [(0, rows)]
  else (groupRows cfg.shardFor rows).entries.insertionSort (fun a b => a.1 ≤ b.1)

/-! ## What goes where -/

/-- The rows a shard gets, in the order of the batch. -/
def shardRows (shardFor : String → Nat) (shard : Nat) (rows : List EvalResult) : List EvalResult :=
  rows.filter (fun row => shardFor row.taskId = shard)

theorem shardRows_append (shardFor : String → Nat) (shard : Nat) (rows more : List EvalResult) :
    shardRows shardFor shard (rows ++ more)
      = shardRows shardFor shard rows ++ shardRows shardFor shard more :=
  List.filter_append _ _

theorem groupRows_snoc (shardFor : String → Nat) (rows : List EvalResult) (row : EvalResult) :
    groupRows shardFor (rows ++ [row]) = (groupRows shardFor rows).set (shardFor row.taskId)
      (((groupRows shardFor rows).get? (shardFor row.taskId)).getD [] ++ [row]) := by
  simp [groupRows]

/-- There is a group for each shard that gets rows, and it has these rows. -/
theorem groupRows_get? (shardFor : String → Nat) (rows : List EvalResult) (shard : Nat) :
    (groupRows shardFor rows).get? shard
      = if shardRows shardFor shard rows = [] then none
        else some (shardRows shardFor shard rows) := by
  induction rows using List.reverseRecOn with
  | nil => rfl
  | append_singleton rows row ih =>
      rw [groupRows_snoc, Dict.get?_set]
      by_cases h : shard = shardFor row.taskId
      · subst h
        have hgot : ((groupRows shardFor rows).get? (shardFor row.taskId)).getD []
            = shardRows shardFor (shardFor row.taskId) rows := by
          rw [ih]
          split
          · next hnil => rw [hnil, Option.getD_none]
          · rfl
        rw [hgot, if_pos rfl, shardRows_append]
        simp [shardRows]
      · have hne : shardFor row.taskId ≠ shard := fun heq => h heq.symm
        have hnil : shardRows shardFor shard [row] = [] := by simp [shardRows, hne]
        rw [if_neg h, ih, shardRows_append, hnil, List.append_nil]

theorem mem_groupRows {shardFor : String → Nat} {rows : List EvalResult}
    {group : Nat × List EvalResult} :
    group ∈ (groupRows shardFor rows).entries ↔
      group.2 = shardRows shardFor group.1 rows ∧ group.2 ≠ [] := by
  rw [← Prod.mk.eta (p := group), ← Dict.get?_eq_some_iff, groupRows_get?]
  split
  · next hnil => simp_all
  · next hne =>
      simp only [Option.some.injEq]
      constructor
      · rintro heq
        exact ⟨heq.symm, heq ▸ hne⟩
      · exact fun heq => heq.1.symm

/-! ## The groups partition the batch -/

/-- Sorting a list into the values of a function loses and repeats nothing. -/
theorem perm_flatMap_filter {α κ : Type} [DecidableEq κ] (f : α → κ) {keys : List κ}
    (hnd : keys.Nodup) {l : List α} (h : ∀ a ∈ l, f a ∈ keys) :
    (keys.flatMap (fun k => l.filter (fun a => f a = k))).Perm l := by
  induction keys generalizing l with
  | nil => simpa using List.eq_nil_iff_forall_not_mem.2 (fun a ha => List.not_mem_nil (h a ha))
  | cons k keys ih =>
      rw [List.nodup_cons] at hnd
      have hrest : ∀ k' ∈ keys, l.filter (fun a => f a = k')
          = (l.filter (fun a => !decide (f a = k))).filter (fun a => f a = k') := by
        intro k' hk'
        rw [List.filter_filter]
        refine List.filter_congr (fun a _ => ?_)
        have hne : k' ≠ k := fun heq => hnd.1 (heq ▸ hk')
        by_cases ha : f a = k' <;> simp [ha, hne]
      have hin : ∀ a ∈ l.filter (fun a => !decide (f a = k)), f a ∈ keys := by
        intro a ha
        rw [List.mem_filter] at ha
        exact (List.mem_cons.1 (h a ha.1)).resolve_left (by simpa using ha.2)
      rw [List.flatMap_cons, List.flatMap_congr hrest]
      exact ((ih hnd.2 hin).append_left _).trans
        (List.filter_append_perm (fun a => decide (f a = k)) l)

section Routed

variable {cfg : Config} (hrouted : ∀ taskId, cfg.shardFor taskId < cfg.aggregatorShards)
  (rows : List EvalResult)

/-- No shard gets two groups of a batch. -/
theorem shardGroups_keys_nodup : ((cfg.shardGroups rows).map Prod.fst).Nodup := by
  unfold Config.shardGroups
  split
  · exact List.nodup_nil
  · split
    · exact List.nodup_singleton 0
    · have hperm := List.perm_insertionSort (fun a b : Nat × List EvalResult => a.1 ≤ b.1)
        (groupRows cfg.shardFor rows).entries
      exact (hperm.map Prod.fst).nodup_iff.2 (groupRows cfg.shardFor rows).nodup

include hrouted

/-- A single shard gets everything. -/
theorem shardRows_single (hone : cfg.aggregatorShards = 1) :
    shardRows cfg.shardFor 0 rows = rows := by
  refine List.filter_eq_self.2 (fun row _ => ?_)
  have hlt := hrouted row.taskId
  rw [hone, Nat.lt_one_iff] at hlt
  simpa using hlt

/-- A group is all that the batch has for a shard, and no shard gets an empty one. -/
theorem mem_shardGroups {group : Nat × List EvalResult} :
    group ∈ cfg.shardGroups rows ↔
      group.2 = shardRows cfg.shardFor group.1 rows ∧ group.2 ≠ [] := by
  unfold Config.shardGroups
  split
  · next hempty =>
      rw [List.isEmpty_iff.1 hempty]
      simp [shardRows]
  · next hne =>
      split
      · next hone =>
          obtain ⟨shard, group⟩ := group
          rw [List.mem_singleton, Prod.mk.injEq]
          by_cases hshard : shard = 0
          · have hrows : rows ≠ [] := by simpa using hne
            rw [hshard, shardRows_single hrouted rows hone]
            constructor
            · rintro ⟨_, rfl⟩
              exact ⟨rfl, hrows⟩
            · exact fun h => ⟨rfl, h.1⟩
          · -- there is no other shard
            have hnone : shardRows cfg.shardFor shard rows = [] := by
              refine List.filter_eq_nil_iff.2 (fun row _ hrow => hshard ?_)
              have hlt := hrouted row.taskId
              rw [hone, of_decide_eq_true hrow, Nat.lt_one_iff] at hlt
              exact hlt
            simp only [hshard, hnone, false_and, false_iff, not_and, not_not, imp_self]
      · rw [List.mem_insertionSort, mem_groupRows]

/-- The calls to one shard: one if the batch has rows for it, else none. -/
theorem filter_shardGroups (shard : Nat) :
    (cfg.shardGroups rows).filter (fun group => group.1 = shard)
      = if shardRows cfg.shardFor shard rows = [] then []
        else [(shard, shardRows cfg.shardFor shard rows)] := by
  split
  · next hnone =>
      refine List.filter_eq_nil_iff.2 (fun group hgroup hshard => ?_)
      obtain ⟨hrows, hne⟩ := (mem_shardGroups hrouted rows).1 hgroup
      rw [of_decide_eq_true hshard, hnone] at hrows
      exact hne hrows
  · next hne =>
      exact Dict.filter_key_of_mem (shardGroups_keys_nodup rows)
        ((mem_shardGroups hrouted rows).2 ⟨rfl, hne⟩)

/-- The groups have each row of the batch once. -/
theorem shardGroups_perm : ((cfg.shardGroups rows).flatMap Prod.snd).Perm rows := by
  have hgroups : (cfg.shardGroups rows).flatMap Prod.snd
      = ((cfg.shardGroups rows).map Prod.fst).flatMap
          (fun shard => shardRows cfg.shardFor shard rows) := by
    rw [List.flatMap_map]
    exact List.flatMap_congr (fun group hgroup => ((mem_shardGroups hrouted rows).1 hgroup).1)
  rw [hgroups]
  refine perm_flatMap_filter (fun row : EvalResult => cfg.shardFor row.taskId)
    (shardGroups_keys_nodup rows) (fun row hrow => ?_)
  have hmem : row ∈ shardRows cfg.shardFor (cfg.shardFor row.taskId) rows := by
    simpa [shardRows] using hrow
  exact List.mem_map.2 ⟨(cfg.shardFor row.taskId, _),
    (mem_shardGroups hrouted rows).2 ⟨rfl, List.ne_nil_of_mem hmem⟩, rfl⟩

/-- The shares of all shards have each row once. -/
theorem flatMap_shardRows_perm :
    ((List.range cfg.aggregatorShards).flatMap
      (fun shard => shardRows cfg.shardFor shard rows)).Perm rows :=
  perm_flatMap_filter (fun row : EvalResult => cfg.shardFor row.taskId) List.nodup_range
    (fun _ _ => List.mem_range.2 (hrouted _))

end Routed

end EvalHarness
