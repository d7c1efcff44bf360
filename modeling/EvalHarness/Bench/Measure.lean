import EvalHarness.Bench.SampleProgress

set_option autoImplicit false

/-! # The recovery from a kill (`bench/multinode/measure.py`)

The counts of a progress log are those of the whole run. `find_recovery` takes the first sample
since the kill whose count is not zero, which says nothing of this kill where an earlier replacement
has rows already. -/

namespace EvalHarness.Measure

open SampleProgress

/-- `find_recovery`, from some sample on, given the epoch of the one before. -/
def findRecovery (killEpoch : ℚ) : Option ℚ → List Sample → Option ℚ × Option ℚ
  | _, [] => (none, none)
  | prevE, s :: rest =>
      if s.epoch < killEpoch then findRecovery killEpoch (some s.epoch) rest
      else if 0 < s.replacement then (some s.epoch, prevE)
      else findRecovery killEpoch (some s.epoch) rest

/-- The samples at or after a kill. -/
def since (killEpoch : ℚ) (samples : List Sample) : List Sample :=
  samples.filter (fun s => killEpoch ≤ s.epoch)

/-- The count of the last sample before a kill. -/
def countBefore (killEpoch : ℚ) (samples : List Sample) : Nat :=
  ((samples.filter (fun s => s.epoch < killEpoch)).getLast?.map Sample.replacement).getD 0

/-- The first sample since a kill that shows a row of a replacement since then. -/
def firstRecovered (killEpoch : ℚ) (samples : List Sample) : Option Sample :=
  (since killEpoch samples).find? (fun s => countBefore killEpoch samples < s.replacement)

/-! ## The first sample with a row of a replacement -/

theorem findRecovery_fst (killEpoch : ℚ) (prevE : Option ℚ) (samples : List Sample) :
    (findRecovery killEpoch prevE samples).1
      = ((since killEpoch samples).find? (fun s => 0 < s.replacement)).map Sample.epoch := by
  induction samples generalizing prevE with
  | nil => rfl
  | cons s rest ih =>
      by_cases hbefore : s.epoch < killEpoch
      · have hout : since killEpoch (s :: rest) = since killEpoch rest :=
          List.filter_cons_of_neg (by simpa using hbefore)
        rw [findRecovery, if_pos hbefore, ih, hout]
      · have hin : since killEpoch (s :: rest) = s :: since killEpoch rest :=
          List.filter_cons_of_pos (by simpa using hbefore)
        rw [findRecovery, if_neg hbefore, hin, List.find?_cons]
        by_cases hcount : 0 < s.replacement
        · simp [hcount]
        · simp only [hcount, decide_false]
          exact ih (some s.epoch)

/-- Since a kill the counts are at least the one before it. -/
theorem countBefore_le {killEpoch : ℚ} {samples : List Sample} (h : Ordered samples) {s : Sample}
    (hs : s ∈ since killEpoch samples) : countBefore killEpoch samples ≤ s.replacement := by
  rw [countBefore]
  rcases hlast : (samples.filter (fun s => s.epoch < killEpoch)).getLast? with _ | last
  · rw [hlast]
    exact Nat.zero_le s.replacement
  · obtain ⟨hlastIn, hearlier⟩ := List.mem_filter.1 (List.mem_of_getLast? hlast)
    obtain ⟨hsIn, hlater⟩ := List.mem_filter.1 hs
    rw [hlast]
    exact h.le hlastIn hsIn ((of_decide_eq_true hearlier).trans_le (of_decide_eq_true hlater))

/-- `find_recovery` reports the first sample since the kill that shows a row of a replacement since
    then, or none where there is none, if and only if no replacement had a row before the kill, or
    no sample since the kill is earlier than each one that shows a row since then. -/
theorem findRecovery_eq_iff {killEpoch : ℚ} {samples : List Sample} (h : Ordered samples) :
    (findRecovery killEpoch none samples).1
        = (firstRecovered killEpoch samples).map Sample.epoch
      ↔ countBefore killEpoch samples = 0 ∨
        ∀ first ∈ (since killEpoch samples).head?, ∃ s ∈ since killEpoch samples,
          s.epoch = first.epoch ∧ countBefore killEpoch samples < s.replacement := by
  have hcounts := fun s hs => @countBefore_le killEpoch samples h s hs
  have hordered : Ordered (since killEpoch samples) := h.filter _
  rw [findRecovery_fst, firstRecovered]
  generalize countBefore killEpoch samples = count at *
  generalize since killEpoch samples = later at *
  rcases Nat.eq_zero_or_pos count with rfl | hcount
  · exact iff_of_true rfl (Or.inl rfl)
  · rw [or_iff_right (Nat.pos_iff_ne_zero.1 hcount)]
    rcases later with _ | ⟨first, later⟩
    · exact iff_of_true rfl (fun _ hfirst => absurd hfirst (by simp))
    · have hpos : 0 < first.replacement := hcount.trans_le (hcounts first List.mem_cons_self)
      have hfirst : (first :: later).find? (fun s => 0 < s.replacement) = some first := by
        rw [List.find?_cons_of_pos (by simpa using hpos)]
      have hearliest : ∀ s ∈ first :: later, first.epoch ≤ s.epoch :=
        fun s hs => hordered.find?_le hfirst hs (decide_eq_true (hcount.trans_le (hcounts s hs)))
      rw [hfirst, Option.map_some]
      constructor
      · intro heq first' hfirst'
        rw [List.head?_cons, Option.mem_some_iff] at hfirst'
        obtain ⟨s, hs, hepoch⟩ := Option.map_eq_some_iff.1 heq.symm
        have hshows := List.find?_some hs
        rw [← hfirst']
        exact ⟨s, List.mem_of_find?_eq_some hs, hepoch, of_decide_eq_true hshows⟩
      · intro hall
        obtain ⟨s, hs, hepoch, hshows⟩ := hall first rfl
        rcases hfind : (first :: later).find? (fun s => count < s.replacement) with _ | s'
        · exact absurd (decide_eq_true hshows) (List.find?_eq_none.1 hfind s hs)
        · have hle := hordered.find?_le hfind hs (decide_eq_true hshows)
          have hge := hearliest s' (List.mem_of_find?_eq_some hfind)
          rw [hfind, Option.map_some, Option.some_inj]
          exact le_antisymm hge (hepoch ▸ hle)

/-! ## A kill after a promotion -/

/-- No replacement has a row before the kill at 3, and one has four since then. -/
def firstKillLog : List Sample := [⟨0, 0, 0⟩, ⟨2, 10, 0⟩, ⟨4, 10, 0⟩, ⟨6, 14, 4⟩]

theorem recovery_from_first_kill :
    (findRecovery 3 none firstKillLog).1 = (firstRecovered 3 firstKillLog).map Sample.epoch := by
  have hordered : Ordered firstKillLog := by
    simp only [Ordered, firstKillLog]
    decide +kernel
  exact (findRecovery_eq_iff hordered).2 (Or.inl (by decide +kernel))

/-- A replacement has five rows before the kill at 3, and none is added until the sample at 6: the
    sample at 4 is reported. -/
theorem earlier_replacement_taken_for_recovery :
    Ordered [⟨0, 0, 0⟩, ⟨2, 10, 5⟩, ⟨4, 10, 5⟩, ⟨6, 14, 9⟩]
      ∧ findRecovery 3 none [⟨0, 0, 0⟩, ⟨2, 10, 5⟩, ⟨4, 10, 5⟩, ⟨6, 14, 9⟩] = (some 4, some 2)
      ∧ (firstRecovered 3 [⟨0, 0, 0⟩, ⟨2, 10, 5⟩, ⟨4, 10, 5⟩, ⟨6, 14, 9⟩]).map Sample.epoch
        = some 6 := by
  unfold Ordered
  decide +kernel

end EvalHarness.Measure
