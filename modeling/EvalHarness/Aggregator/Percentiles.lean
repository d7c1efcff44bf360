import EvalHarness.Lib.Ranks
import EvalHarness.Aggregator.Contents

set_option autoImplicit false

/-! # Percentiles

The percentile of sorted values is the one at an index. Of the values themselves, in whatever order,
it is the nearest rank. -/

namespace EvalHarness

open Ranks

/-- A share of the values is a rank, and the index is below it by less than one. -/
theorem isNearestRank_percentile {values : List ℚ} (hne : values ≠ []) {q : ℚ} (hpos : 0 < q)
    (hle : q ≤ 1) :
    IsNearestRank values (q * values.length) (percentile (sorted values) q) := by
  have hlen : (sorted values).length = values.length := List.length_insertionSort _ values
  have hn : 0 < values.length := List.length_pos_of_ne_nil hne
  have hnonempty : (sorted values).isEmpty = false := by
    rw [List.isEmpty_eq_false_iff_exists_mem]
    exact ⟨_, List.getElem_mem (hlen ▸ hn)⟩
  have hnq : (0 : ℚ) < values.length := Nat.cast_pos.2 hn
  -- within the unit interval neither clamp of the index changes it
  have hlow : 0 < ⌈q * values.length⌉ := Int.ceil_pos.2 (mul_pos hpos hnq)
  have hhigh : ⌈q * values.length⌉ ≤ values.length := by
    rw [Int.ceil_le]
    exact_mod_cast mul_le_of_le_one_left hnq.le hle
  obtain ⟨i, hi⟩ : ∃ i : Nat, ⌈q * values.length⌉ = i + 1 :=
    ⟨(⌈q * values.length⌉ - 1).toNat, by omega⟩
  have hlt : i < (sorted values).length := by omega
  have hidx : (min ((values.length : Int) - 1) (max 0 (⌈q * values.length⌉ - 1))).toNat = i := by
    omega
  have hvalue : percentile (sorted values) q = (sorted values)[i] := by
    simp only [percentile, hnonempty, hlen, hidx]
    exact List.getD_eq_getElem _ _ hlt
  obtain ⟨hbelow, habove⟩ := Int.ceil_eq_iff.1 hi
  push_cast at hbelow habove
  rw [hvalue]
  refine (IsNearestRank.getElem (List.pairwise_insertionSort _ values) hlt ?_ habove).perm
    (List.perm_insertionSort _ values)
  linarith

/-- A larger share has no smaller percentile. -/
theorem percentile_mono {values : List ℚ} (hne : values ≠ []) {q q' : ℚ} (hpos : 0 < q)
    (hle : q ≤ q') (hle' : q' ≤ 1) :
    percentile (sorted values) q ≤ percentile (sorted values) q' := by
  have hrank : q * values.length ≤ q' * values.length :=
    mul_le_mul_of_nonneg_right hle (Nat.cast_nonneg _)
  exact (isNearestRank_percentile hne hpos (hle.trans hle')).le
    (isNearestRank_percentile hne (hpos.trans_le hle) hle') hrank

end EvalHarness
