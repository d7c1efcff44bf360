import EvalHarness.Lib.Dict

set_option autoImplicit false

/-! # Counting dictionaries

What a dictionary knows of a list whose items it has counted: how many different items there are,
which of them occur more than once, and how many items satisfy a predicate. -/

namespace Dict

variable {κ ν : Type}

/-- `{k: v for k, v in d.items() if p(k, v)}`. -/
def filterItems (p : κ → ν → Bool) (d : Dict κ ν) : Dict κ ν where
  entries := d.entries.filter (fun e => p e.1 e.2)
  nodup := d.nodup.sublist (List.filter_sublist.map Prod.fst)

variable [DecidableEq κ]

/-- `d[k] = d.get(k, 0) + 1` for each of the items. -/
def countAll (d : Dict κ Nat) (items : List κ) : Dict κ Nat :=
  items.foldl (fun d k => d.bump k 1) d

/-- The sum of the values under the keys that satisfy a predicate. -/
def sumWhere (p : κ → Bool) (d : Dict κ Nat) : Nat :=
  ((d.entries.filter (fun e => p e.1)).map Prod.snd).sum

theorem countAll_cons (d : Dict κ Nat) (k : κ) (items : List κ) :
    d.countAll (k :: items) = (d.bump k 1).countAll items := rfl

theorem countAll_append (d : Dict κ Nat) (items more : List κ) :
    d.countAll (items ++ more) = (d.countAll items).countAll more := List.foldl_append

theorem get?_countAll (d : Dict κ Nat) (items : List κ) (k : κ) :
    (d.countAll items).get? k
      = if k ∈ items then some ((d.get? k).getD 0 + items.count k) else d.get? k := by
  induction items generalizing d with
  | nil => rfl
  | cons a items ih =>
      rw [countAll_cons, ih, get?_bump]
      by_cases hk : k = a
      · subst hk
        by_cases hmem : k ∈ items
        · simp only [if_pos hmem, if_true, Option.getD_some, List.mem_cons_self,
            List.count_cons_self]
          rw [Nat.add_assoc, Nat.add_comm 1]
        · simp only [if_neg hmem, if_true, List.mem_cons_self, List.count_cons_self,
            List.count_eq_zero_of_not_mem hmem, Nat.zero_add]
      · have hcount : (a :: items).count k = items.count k :=
          List.count_cons_of_ne (fun heq => hk heq.symm)
        simp only [List.mem_cons, hk, if_false, false_or, hcount]

/-- The bindings of a dictionary that has counted a list. -/
theorem mem_entries_countAll {items : List κ} {k : κ} {n : Nat} :
    (k, n) ∈ ((empty : Dict κ Nat).countAll items).entries ↔ k ∈ items ∧ n = items.count k := by
  rw [← get?_eq_some_iff, get?_countAll, get?_empty, Option.getD_none, Nat.zero_add]
  by_cases hk : k ∈ items
  · simp [hk, eq_comm]
  · simp [hk]

/-- Its keys are the different items. -/
theorem keys_countAll_perm (items : List κ) :
    ((empty : Dict κ Nat).countAll items).keys.Perm items.dedup := by
  refine (List.perm_ext_iff_of_nodup (nodup _) (List.nodup_dedup items)).2 (fun k => ?_)
  rw [List.mem_dedup]
  constructor
  · intro hk
    obtain ⟨⟨k', n⟩, hentry, rfl⟩ := List.mem_map.1 hk
    exact (mem_entries_countAll.1 hentry).1
  · intro hk
    exact List.mem_map.2 ⟨(k, items.count k), mem_entries_countAll.2 ⟨hk, rfl⟩, rfl⟩

theorem length_countAll (items : List κ) :
    ((empty : Dict κ Nat).countAll items).entries.length = items.dedup.length := by
  rw [← (keys_countAll_perm items).length_eq, keys, List.length_map]

/-- The items that occur more than once. -/
theorem mem_repeated {items : List κ} {k : κ} :
    k ∈ (((empty : Dict κ Nat).countAll items).filterItems (fun _ n => 1 < n)).keys
      ↔ 1 < items.count k := by
  constructor
  · intro hk
    obtain ⟨⟨k', n⟩, hentry, rfl⟩ := List.mem_map.1 hk
    obtain ⟨hin, hrepeated⟩ := List.mem_filter.1 hentry
    obtain ⟨-, rfl⟩ := mem_entries_countAll.1 hin
    exact of_decide_eq_true hrepeated
  · intro hrepeated
    have hin : k ∈ items := List.count_pos_iff.1 (Nat.zero_lt_one.trans hrepeated)
    exact List.mem_map.2 ⟨(k, items.count k), List.mem_filter.2
      ⟨mem_entries_countAll.2 ⟨hin, rfl⟩, decide_eq_true hrepeated⟩, rfl⟩

/-- There are none if and only if the list has no duplicates. -/
theorem repeated_eq_nil_iff (items : List κ) :
    (((empty : Dict κ Nat).countAll items).filterItems (fun _ n => 1 < n)).entries = []
      ↔ items.Nodup := by
  rw [List.nodup_iff_count_le_one]
  constructor
  · intro hnil k
    by_contra hmany
    have hkey := mem_repeated.2 (not_le.1 hmany)
    rw [keys, hnil] at hkey
    cases hkey
  · intro hall
    refine List.eq_nil_iff_forall_not_mem.2 (fun e he => ?_)
    have hkey := mem_repeated.1 (List.mem_map_of_mem he)
    exact absurd hkey (not_lt.2 (hall e.1))

/-- A count more is one more under the keys of a predicate, if the item satisfies it. -/
theorem sumWhere_bump (p : κ → Bool) (d : Dict κ Nat) (k : κ) :
    (d.bump k 1).sumWhere p = d.sumWhere p + if p k then 1 else 0 := by
  obtain ⟨entries, hnd⟩ := d
  simp only [sumWhere, bump, set, get?]
  clear hnd
  induction entries with
  | nil =>
      by_cases hp : p k
      · simp [setEntries, hp]
      · simp [setEntries, hp]
  | cons e rest ih =>
      by_cases he : e.1 = k
      · by_cases hp : p k
        · simp [setEntries, he, hp, Nat.add_right_comm]
        · simp [setEntries, he, hp]
      · by_cases hp : p e.1
        · simp [setEntries, he, hp, ih, Nat.add_assoc]
        · simp [setEntries, he, hp, ih]

/-- The counts of the items that satisfy a predicate add up to their number. -/
theorem sumWhere_countAll (p : κ → Bool) (d : Dict κ Nat) (items : List κ) :
    (d.countAll items).sumWhere p = d.sumWhere p + items.countP p := by
  induction items generalizing d with
  | nil => rfl
  | cons k items ih =>
      rw [countAll_cons, ih, sumWhere_bump, List.countP_cons]
      omega

end Dict
