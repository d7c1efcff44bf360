import Mathlib

set_option autoImplicit false

/-! # Insertion-ordered dictionaries

`Dict κ ν` is a dictionary that remembers the order in which its keys were first inserted. The
entry list carries its own key-uniqueness proof, so a dictionary with a repeated key cannot be
built and lookups never have to say which of two bindings they mean. -/

/-- A dictionary: its bindings in insertion order, no key bound twice. -/
structure Dict (κ ν : Type) where
  entries : List (κ × ν)
  nodup : (entries.map Prod.fst).Nodup

namespace Dict

variable {κ ν : Type}

def empty : Dict κ ν := ⟨[], List.nodup_nil⟩

def keys (d : Dict κ ν) : List κ := d.entries.map Prod.fst

def values (d : Dict κ ν) : List ν := d.entries.map Prod.snd

@[simp] theorem keys_empty : (empty : Dict κ ν).keys = [] := rfl

variable [DecidableEq κ]

def get? (d : Dict κ ν) (k : κ) : Option ν :=
  (d.entries.find? (fun e => e.1 = k)).map Prod.snd

/-- `pop`: drop the binding of `k`, keep the order of the others. -/
def erase (d : Dict κ ν) (k : κ) : Dict κ ν where
  entries := d.entries.filter (fun e => e.1 ≠ k)
  nodup := d.nodup.sublist (List.filter_sublist.map _)

/-- The entry list after `d[k] = v`: an existing key keeps its place, a new one goes last. -/
def setEntries (k : κ) (v : ν) : List (κ × ν) → List (κ × ν)
  | [] => [(k, v)]
  | e :: rest => if e.1 = k then (k, v) :: rest else e :: setEntries k v rest

theorem setEntries_keys (k : κ) (v : ν) (l : List (κ × ν)) :
    (setEntries k v l).map Prod.fst
      = if k ∈ l.map Prod.fst then l.map Prod.fst else l.map Prod.fst ++ [k] := by
  induction l with
  | nil => simp [setEntries]
  | cons e rest ih =>
      by_cases he : e.1 = k
      · simp [setEntries, he]
      · have hne : ¬ k = e.1 := fun h => he h.symm
        simp only [setEntries, if_neg he, List.map_cons, ih, List.mem_cons, hne, false_or]
        split <;> simp

/-- `d[k] = v`. -/
def set (d : Dict κ ν) (k : κ) (v : ν) : Dict κ ν where
  entries := setEntries k v d.entries
  nodup := by
    rw [setEntries_keys]
    split
    · exact d.nodup
    · next h =>
        exact d.nodup.append (List.nodup_singleton k) (List.disjoint_singleton.2 h)

/-! ## Lookup -/

@[simp] theorem get?_empty (k : κ) : (empty : Dict κ ν).get? k = none := rfl

theorem get?_eq_some_iff (d : Dict κ ν) (k : κ) (v : ν) :
    d.get? k = some v ↔ (k, v) ∈ d.entries := by
  obtain ⟨entries, hnd⟩ := d
  simp only [get?]
  induction entries with
  | nil => simp
  | cons e rest ih =>
      rw [List.map_cons, List.nodup_cons] at hnd
      obtain ⟨k', v'⟩ := e
      by_cases hk : k' = k
      · subst hk
        have habs : (k', v) ∉ rest := fun h => hnd.1 (List.mem_map.2 ⟨(k', v), h, rfl⟩)
        simp [habs, eq_comm]
      · have hne : ¬ k = k' := fun h => hk h.symm
        simp [hk, hne, ih hnd.2]

theorem get?_isSome_iff (d : Dict κ ν) (k : κ) : (d.get? k).isSome ↔ k ∈ d.keys := by
  rw [Option.isSome_iff_exists]
  constructor
  · rintro ⟨v, hv⟩
    exact List.mem_map.2 ⟨(k, v), (d.get?_eq_some_iff k v).1 hv, rfl⟩
  · intro h
    obtain ⟨⟨k', v⟩, hmem, rfl⟩ := List.mem_map.1 h
    exact ⟨v, (d.get?_eq_some_iff k' v).2 hmem⟩

theorem get?_eq_none_iff (d : Dict κ ν) (k : κ) : d.get? k = none ↔ k ∉ d.keys := by
  rw [← d.get?_isSome_iff, Option.not_isSome_iff_eq_none]

theorem mem_values_iff (d : Dict κ ν) (v : ν) : v ∈ d.values ↔ ∃ k, d.get? k = some v := by
  simp only [values, List.mem_map, Prod.exists, exists_eq_right, d.get?_eq_some_iff]

theorem mem_keys_of_get? {d : Dict κ ν} {k : κ} {v : ν} (h : d.get? k = some v) : k ∈ d.keys :=
  (d.get?_isSome_iff k).1 (by simp [h])

theorem mem_values_of_get? {d : Dict κ ν} {k : κ} {v : ν} (h : d.get? k = some v) :
    v ∈ d.values :=
  (d.mem_values_iff v).2 ⟨k, h⟩

/-- The values under the keys are the values. -/
theorem map_getD_keys (d : Dict κ ν) (v : ν) :
    d.keys.map (fun k => (d.get? k).getD v) = d.values := by
  rw [keys, values, List.map_map]
  refine List.map_congr_left (fun e he => ?_)
  rw [Function.comp_apply, (d.get?_eq_some_iff e.1 e.2).2 he, Option.getD_some]

/-- Of a list that has its keys once each, the entries of a key are its entry. -/
theorem filter_key_of_mem {l : List (κ × ν)} (hnd : (l.map Prod.fst).Nodup) {k : κ} {v : ν}
    (h : (k, v) ∈ l) : l.filter (fun e => e.1 = k) = [(k, v)] := by
  induction l with
  | nil => cases h
  | cons e rest ih =>
      rw [List.map_cons, List.nodup_cons] at hnd
      rcases List.mem_cons.1 h with rfl | hmem
      · have hrest : rest.filter (fun e => e.1 = k) = [] := by
          refine List.filter_eq_nil_iff.2 (fun e he hk => hnd.1 ?_)
          exact List.mem_map.2 ⟨e, he, of_decide_eq_true hk⟩
        rw [List.filter_cons_of_pos (by simp), hrest]
      · have hne : e.1 ≠ k := fun hk => hnd.1 (List.mem_map.2 ⟨(k, v), hmem, hk.symm⟩)
        rw [List.filter_cons_of_neg (by simpa using hne), ih hnd.2 hmem]

/-! ## Removing a key -/

@[simp] theorem keys_erase (d : Dict κ ν) (k : κ) :
    (d.erase k).keys = d.keys.filter (fun k' => k' ≠ k) := by
  simp only [keys, erase, List.filter_map, Function.comp_def]

theorem get?_erase (d : Dict κ ν) (k k' : κ) :
    (d.erase k).get? k' = if k' = k then none else d.get? k' := by
  by_cases h : k' = k
  · simp [h, get?_eq_none_iff]
  · rw [if_neg h]
    ext v
    simp [get?_eq_some_iff, erase, h]

/-- Removing a bound key takes exactly its binding out of the entry list. -/
theorem perm_erase (d : Dict κ ν) {k : κ} {v : ν} (h : d.get? k = some v) :
    d.entries.Perm ((k, v) :: (d.erase k).entries) := by
  obtain ⟨entries, hnd⟩ := d
  rw [get?_eq_some_iff] at h
  simp only [erase] at h ⊢
  induction entries with
  | nil => simp at h
  | cons e rest ih =>
      rw [List.map_cons, List.nodup_cons] at hnd
      rcases List.mem_cons.1 h with rfl | hmem
      · have hrest : rest.filter (fun e => e.1 ≠ k) = rest := by
          rw [List.filter_eq_self]
          intro e he
          have : e.1 ≠ k := fun hk => hnd.1 (List.mem_map.2 ⟨e, he, hk⟩)
          simpa using this
        rw [List.filter_cons_of_neg (by simp), hrest]
      · have hne : e.1 ≠ k := fun hk => hnd.1 (List.mem_map.2 ⟨(k, v), hmem, hk.symm⟩)
        rw [List.filter_cons_of_pos (by simpa using hne)]
        exact ((ih hnd.2 hmem).cons e).trans (List.Perm.swap _ _ _)

theorem values_perm_erase (d : Dict κ ν) {k : κ} {v : ν} (h : d.get? k = some v) :
    d.values.Perm (v :: (d.erase k).values) :=
  (d.perm_erase h).map Prod.snd

/-! ## Binding a key -/

theorem get?_set (d : Dict κ ν) (k k' : κ) (v : ν) :
    (d.set k v).get? k' = if k' = k then some v else d.get? k' := by
  obtain ⟨entries, hnd⟩ := d
  simp only [get?, set]
  clear hnd
  induction entries with
  | nil => by_cases h : k' = k <;> simp [setEntries, h, eq_comm]
  | cons e rest ih =>
      by_cases he : e.1 = k
      · by_cases h : k' = k <;> simp [setEntries, he, h, eq_comm]
      · by_cases h : k' = k
        · subst h
          simpa [setEntries, he] using ih
        · rw [if_neg h] at ih ⊢
          simp only [setEntries, if_neg he, List.find?_cons]
          split
          · rfl
          · exact ih

theorem get?_set_self (d : Dict κ ν) (k : κ) (v : ν) : (d.set k v).get? k = some v := by
  rw [get?_set, if_pos rfl]

theorem mem_values_set {d : Dict κ ν} {k : κ} {v v' : ν} (h : v' ∈ (d.set k v).values) :
    v' = v ∨ v' ∈ d.values := by
  obtain ⟨k', hk'⟩ := (mem_values_iff _ _).1 h
  rw [get?_set] at hk'
  split at hk'
  · exact Or.inl (Option.some.inj hk').symm
  · exact Or.inr (mem_values_of_get? hk')

theorem keys_set (d : Dict κ ν) (k : κ) (v : ν) :
    (d.set k v).keys = if k ∈ d.keys then d.keys else d.keys ++ [k] :=
  setEntries_keys k v d.entries

theorem setEntries_of_not_mem (k : κ) (v : ν) (l : List (κ × ν)) (h : k ∉ l.map Prod.fst) :
    setEntries k v l = l ++ [(k, v)] := by
  induction l with
  | nil => rfl
  | cons e rest ih =>
      simp only [List.map_cons, List.mem_cons, not_or] at h
      rw [setEntries, if_neg (fun he => h.1 he.symm), ih h.2, List.cons_append]

/-- A new key is appended. -/
theorem entries_set_of_not_mem (d : Dict κ ν) {k : κ} (v : ν) (h : k ∉ d.keys) :
    (d.set k v).entries = d.entries ++ [(k, v)] :=
  setEntries_of_not_mem k v d.entries h

theorem values_set_of_not_mem (d : Dict κ ν) {k : κ} (v : ν) (h : k ∉ d.keys) :
    (d.set k v).values = d.values ++ [v] := by
  simp only [values, d.entries_set_of_not_mem v h, List.map_append, List.map_cons, List.map_nil]

/-! ## Binding one key after another -/

/-- `d[k] = v` for each entry. -/
def update (d : Dict κ ν) (entries : List (κ × ν)) : Dict κ ν :=
  entries.foldl (fun d e => d.set e.1 e.2) d

/-- The items that no later one has the key of. -/
def lastOfKey {α : Type} (key : α → κ) : List α → List α
  | [] => []
  | a :: rest => if key a ∈ rest.map key then lastOfKey key rest else a :: lastOfKey key rest

/-- The items that a later one has the key of. -/
def earlierOfKey {α : Type} (key : α → κ) : List α → List α
  | [] => []
  | a :: rest => if key a ∈ rest.map key then a :: earlierOfKey key rest else earlierOfKey key rest

theorem perm_lastOfKey {α : Type} (key : α → κ) (l : List α) :
    (lastOfKey key l ++ earlierOfKey key l).Perm l := by
  induction l with
  | nil => exact List.Perm.refl _
  | cons a rest ih =>
      rw [lastOfKey, earlierOfKey]
      split
      · exact List.perm_middle.trans (ih.cons a)
      · exact ih.cons a

theorem lastOfKey_map {α β : Type} (key : β → κ) (f : α → β) (l : List α) :
    lastOfKey key (l.map f) = (lastOfKey (fun a => key (f a)) l).map f := by
  induction l with
  | nil => rfl
  | cons a rest ih =>
      have hmem : key (f a) ∈ (rest.map f).map key
          ↔ key (f a) ∈ rest.map (fun a => key (f a)) := by
        rw [List.map_map, Function.comp_def]
      rw [List.map_cons, lastOfKey, lastOfKey, ih]
      simp only [hmem]
      split
      · rfl
      · rfl

theorem perm_set (d : Dict κ ν) (k : κ) (v : ν) :
    (d.set k v).entries.Perm ((k, v) :: (d.erase k).entries) := by
  have herase : ((d.set k v).erase k).entries = (d.erase k).entries := by
    obtain ⟨entries, hnd⟩ := d
    simp only [erase, set]
    clear hnd
    induction entries with
    | nil => simp [setEntries]
    | cons e rest ih =>
        by_cases he : e.1 = k
        · simp [setEntries, he]
        · simpa [setEntries, he] using ih
  have hperm := (d.set k v).perm_erase (d.get?_set_self k v)
  rwa [herase] at hperm

/-- Of the old bindings those stay whose key is not bound again, and of the new ones the last of
    each key. -/
theorem perm_update (d : Dict κ ν) (entries : List (κ × ν)) :
    (d.update entries).entries.Perm
      (d.entries.filter (fun e => e.1 ∉ entries.map Prod.fst) ++ lastOfKey Prod.fst entries) := by
  induction entries generalizing d with
  | nil => simp [update, lastOfKey]
  | cons e rest ih =>
      have hkept : (d.erase e.1).entries.filter (fun e' => e'.1 ∉ rest.map Prod.fst)
          = d.entries.filter (fun e' => e'.1 ∉ (e :: rest).map Prod.fst) := by
        rw [erase, List.filter_filter]
        refine List.filter_congr (fun e' _ => ?_)
        rw [Bool.eq_iff_iff]
        simp only [Bool.and_eq_true, decide_eq_true_eq, List.map_cons, List.mem_cons, not_or]
        exact and_comm
      have hset := (d.perm_set e.1 e.2).filter (fun e' => e'.1 ∉ rest.map Prod.fst)
      refine (ih (d.set e.1 e.2)).trans ((hset.append_right _).trans ?_)
      rw [lastOfKey]
      by_cases hmem : e.1 ∈ rest.map Prod.fst
      · rw [List.filter_cons_of_neg (by simpa using hmem), hkept, if_pos hmem]
      · rw [List.filter_cons_of_pos (by simpa using hmem), hkept, if_neg hmem]
        exact List.perm_middle.symm

/-- New keys are appended. -/
theorem entries_update_of_nodup (d : Dict κ ν) {entries : List (κ × ν)}
    (hnd : (entries.map Prod.fst).Nodup) (hnew : ∀ k ∈ entries.map Prod.fst, k ∉ d.keys) :
    (d.update entries).entries = d.entries ++ entries := by
  induction entries generalizing d with
  | nil => exact (List.append_nil _).symm
  | cons e rest ih =>
      rw [List.map_cons, List.nodup_cons] at hnd
      have he : e.1 ∉ d.keys := hnew _ List.mem_cons_self
      have hset : (d.set e.1 e.2).entries = d.entries ++ [e] := d.entries_set_of_not_mem e.2 he
      have hrest : ∀ k ∈ rest.map Prod.fst, k ∉ (d.set e.1 e.2).keys := by
        intro k hk hset
        rw [keys_set, if_neg he] at hset
        rcases List.mem_append.1 hset with hold | hlast
        · exact hnew k (List.mem_cons_of_mem _ hk) hold
        · exact hnd.1 (List.mem_singleton.1 hlast ▸ hk)
      have hupdate : d.update (e :: rest) = (d.set e.1 e.2).update rest := rfl
      rw [hupdate, ih _ hnd.2 hrest, hset, List.append_assoc]
      rfl

theorem get?_update_of_not_mem (d : Dict κ ν) {entries : List (κ × ν)} {k : κ}
    (h : k ∉ entries.map Prod.fst) : (d.update entries).get? k = d.get? k := by
  induction entries generalizing d with
  | nil => rfl
  | cons e rest ih =>
      rw [List.map_cons, List.mem_cons, not_or] at h
      have hupdate : d.update (e :: rest) = (d.set e.1 e.2).update rest := rfl
      rw [hupdate, ih _ h.2, get?_set, if_neg h.1]

/-! ## Mapping the values -/

/-- `{k: f(k, v) for k, v in d.items()}`. -/
def mapValues {μ : Type} (f : κ → ν → μ) (d : Dict κ ν) : Dict κ μ where
  entries := d.entries.map (fun e => (e.1, f e.1 e.2))
  nodup := by simpa [Function.comp_def] using d.nodup

theorem get?_mapValues {μ : Type} (f : κ → ν → μ) (d : Dict κ ν) (k : κ) :
    (d.mapValues f).get? k = (d.get? k).map (f k) := by
  ext v
  simp only [get?_eq_some_iff, mapValues, List.mem_map, Option.map_eq_some_iff]
  constructor
  · rintro ⟨⟨k', v'⟩, hmem, heq⟩
    obtain ⟨rfl, rfl⟩ := Prod.ext_iff.1 heq
    exact ⟨v', hmem, rfl⟩
  · rintro ⟨v', hmem, rfl⟩
    exact ⟨(k, v'), hmem, rfl⟩

/-! ## Tallies -/

section Tallies

variable [AddCommMonoid ν]

/-- `d[k] = d.get(k, 0) + v`. -/
def bump (d : Dict κ ν) (k : κ) (v : ν) : Dict κ ν := d.set k ((d.get? k).getD 0 + v)

/-- A `bump` for each entry. -/
def tally (d : Dict κ ν) (entries : List (κ × ν)) : Dict κ ν :=
  entries.foldl (fun d e => d.bump e.1 e.2) d

/-- What the entries add up to under a key. -/
def sumAt (k : κ) (entries : List (κ × ν)) : ν :=
  ((entries.filter (fun e => e.1 = k)).map Prod.snd).sum

theorem get?_bump (d : Dict κ ν) (k k' : κ) (v : ν) :
    (d.bump k v).get? k' = if k' = k then some ((d.get? k).getD 0 + v) else d.get? k' :=
  get?_set d k k' _

/-- A `bump` adds to the sum of the values. -/
theorem sum_values_bump (d : Dict κ ν) (k : κ) (v : ν) :
    (d.bump k v).values.sum = d.values.sum + v := by
  obtain ⟨entries, hnd⟩ := d
  simp only [bump, set, get?, values]
  clear hnd
  induction entries with
  | nil => simp [setEntries]
  | cons e rest ih =>
      by_cases he : e.1 = k
      · simp [setEntries, he, add_assoc, add_comm]
      · simp [setEntries, he, ih, add_assoc]

theorem sumAt_of_not_mem {k : κ} {entries : List (κ × ν)} (h : k ∉ entries.map Prod.fst) :
    sumAt k entries = 0 := by
  have hfilter : entries.filter (fun e => e.1 = k) = [] := by
    refine List.filter_eq_nil_iff.2 (fun e he heq => h ?_)
    exact of_decide_eq_true heq ▸ List.mem_map_of_mem he
  rw [sumAt, hfilter]
  rfl

theorem get?_tally (d : Dict κ ν) (entries : List (κ × ν)) (k : κ) :
    (d.tally entries).get? k
      = if k ∈ entries.map Prod.fst then some ((d.get? k).getD 0 + sumAt k entries)
        else d.get? k := by
  induction entries generalizing d with
  | nil => simp [tally]
  | cons e entries ih =>
      have hcons : d.tally (e :: entries) = (d.bump e.1 e.2).tally entries := rfl
      rw [hcons, ih, get?_bump]
      by_cases hk : k = e.1
      · subst hk
        have hsum : sumAt e.1 (e :: entries) = e.2 + sumAt e.1 entries := by simp [sumAt]
        by_cases hmem : e.1 ∈ entries.map Prod.fst
        · simp [hmem, hsum, add_assoc]
        · simp [hmem, hsum, sumAt_of_not_mem hmem]
      · have hne : ¬ e.1 = k := fun heq => hk heq.symm
        have hsum : sumAt k (e :: entries) = sumAt k entries := by simp [sumAt, hne]
        have hmem : k ∈ (e :: entries).map Prod.fst ↔ k ∈ entries.map Prod.fst := by
          rw [List.map_cons, List.mem_cons, or_iff_right hk]
        simp only [hmem, hsum, if_neg hk]

theorem getD_tally_empty (entries : List (κ × ν)) (k : κ) :
    (((empty : Dict κ ν).tally entries).get? k).getD 0 = sumAt k entries := by
  rw [get?_tally]
  split
  · exact zero_add _
  · next h => exact (sumAt_of_not_mem h).symm

/-- The order of the entries of a tally shows only in the order of its keys. -/
theorem get?_tally_perm (d : Dict κ ν) {entries entries' : List (κ × ν)}
    (h : entries.Perm entries') (k : κ) :
    (d.tally entries).get? k = (d.tally entries').get? k := by
  have hsum : sumAt k entries = sumAt k entries' := ((h.filter _).map _).sum_eq
  simp only [get?_tally, hsum, (h.map Prod.fst).mem_iff]

/-- Entries of ones are counted. -/
theorem sumAt_ones {μ : Type} (k : κ) (entries : List (κ × μ)) :
    sumAt k (entries.map (fun e => (e.1, 1))) = entries.countP (fun e => e.1 = k) := by
  induction entries with
  | nil => rfl
  | cons e entries ih =>
      by_cases he : e.1 = k
      · simp_all [sumAt, add_comm]
      · simp_all [sumAt]

/-- Adding one dictionary to another. -/
theorem get?_tally_entries (d e : Dict κ ν) (k : κ) :
    (d.tally e.entries).get? k
      = match e.get? k with
        | none => d.get? k
        | some v => some ((d.get? k).getD 0 + v) := by
  have hkeys : k ∈ e.entries.map Prod.fst ↔ (e.get? k).isSome := (e.get?_isSome_iff k).symm
  rw [get?_tally]
  cases hk : e.get? k with
  | none => simp [hkeys, hk]
  | some v =>
      -- the key is bound once
      have hsum : sumAt k e.entries = v := by
        simp [sumAt, filter_key_of_mem e.nodup ((e.get?_eq_some_iff k v).1 hk)]
      simp [hkeys, hk, hsum]

end Tallies

end Dict
