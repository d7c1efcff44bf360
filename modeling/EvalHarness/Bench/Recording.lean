import EvalHarness.Lib.Grid
import EvalHarness.Aggregator.Percentiles

set_option autoImplicit false

/-! # Percentiles and gauges of a benchmark (`bench/recording.py`)

The percentile of the benchmarks is that of the aggregator, the nearest rank of the values. A gauge
is recorded at each pass of the loop and reported on a fixed grid, where each interval shows the
value that the gauge had at its end. -/

namespace EvalHarness.Recording

open Ranks

/-- `percentile`: nearest rank, the convention of the aggregator's. -/
def percentile (sortedValues : List ℚ) (q : ℚ) : ℚ :=
  if sortedValues.isEmpty then 0
  else
    let n := sortedValues.length
    let idx : Int := min (n - 1) (max 0 (⌈q * n⌉ - 1))
    sortedValues.getD idx.toNat 0

/-- `RecordingMetrics`: the samples of the gauges, each with its timestamp. -/
structure RecordingMetrics where
  gauges : Dict String (List (ℚ × ℚ)) := Dict.empty

namespace RecordingMetrics

/-- `gauge`, at a time of the monotonic clock. -/
def gauge (metrics : RecordingMetrics) (now : ℚ) (name : String) (value : ℚ) : RecordingMetrics :=
  { metrics with
    gauges := metrics.gauges.set name ((metrics.gauges.get? name).getD [] ++ [(now, value)]) }

end RecordingMetrics

/-- `int` of a number. -/
def truncate (q : ℚ) : Int := if 0 ≤ q then ⌊q⌋ else ⌈q⌉

/-- The inner loop of `gauge_downsample`: a point for each of `gap` buckets, at the last value. -/
def fill (intervalS lastVal : ℚ) (bucket : Nat) : Nat → List (ℚ × ℚ)
  | 0 => []
  | gap + 1 => (round3 (bucket * intervalS), lastVal) :: fill intervalS lastVal (bucket + 1) gap

/-- The loop of `gauge_downsample` over the samples, and the point of the last bucket. -/
def downsampleFrom (t0 intervalS : ℚ) (bucket : Nat) (lastVal : ℚ) :
    List (ℚ × ℚ) → List (ℚ × ℚ)
  | [] => [(round3 (bucket * intervalS), lastVal)]
  | (ts, val) :: rest =>
      let b := truncate ((ts - t0) / intervalS)
      -- `while b > bucket`, which adds one to the bucket each time
      let gap := (b - bucket).toNat
      fill intervalS lastVal bucket gap ++ downsampleFrom t0 intervalS (bucket + gap) val rest

/-- `gauge_downsample`: none where the interval is zero, and the first division raises. -/
def RecordingMetrics.gaugeDownsample (metrics : RecordingMetrics) (name : String)
    (intervalS : ℚ := 1 / 2) : Option (List (ℚ × ℚ)) :=
  match (metrics.gauges.get? name).getD [] with
  | [] => some []
  | (t0, firstVal) :: rest =>
      if intervalS = 0 then none
      else some (downsampleFrom t0 intervalS 0 firstVal ((t0, firstVal) :: rest))

/-- The bucket of a sample on the grid that starts at `t0`. -/
def bucketOf (t0 intervalS : ℚ) (s : ℚ × ℚ) : Int := ⌊(s.1 - t0) / intervalS⌋

/-- The place of a sample on the grid, and its value. -/
def cellOf (t0 intervalS : ℚ) (s : ℚ × ℚ) : Nat × ℚ := ((bucketOf t0 intervalS s).toNat, s.2)

/-- The value of the last sample up to the end of a bucket. -/
def valueAt (t0 intervalS : ℚ) (samples : List (ℚ × ℚ)) (k : Nat) : Option ℚ :=
  (samples.filter (fun s => bucketOf t0 intervalS s ≤ k)).getLast?.map Prod.snd

/-! ## The nearest rank -/

theorem percentile_eq (values : List ℚ) (q : ℚ) :
    percentile values q = EvalHarness.percentile values q := rfl

/-- The percentile of sorted values is their nearest rank: an element with at least so many at most
    it and fewer below. So it is the same in any order of the values, and no less for a larger
    share; and the benchmarks compute the same value. -/
theorem percentile_nearestRank :
    (∀ values : List ℚ, values ≠ [] →
      (∀ q : ℚ, 0 < q → q ≤ 1 →
        IsNearestRank values (q * values.length) (EvalHarness.percentile (sorted values) q)) ∧
      (∀ values', values.Perm values' → ∀ q : ℚ,
        EvalHarness.percentile (sorted values') q = EvalHarness.percentile (sorted values) q) ∧
      (∀ q q' : ℚ, 0 < q → q ≤ q' → q' ≤ 1 →
        EvalHarness.percentile (sorted values) q ≤ EvalHarness.percentile (sorted values) q')) ∧
    (∀ values q, percentile values q = EvalHarness.percentile values q) := by
  refine ⟨fun values hne => ⟨fun q => isNearestRank_percentile hne, ?_, ?_⟩, percentile_eq⟩
  · intro values' hperm q
    rw [sorted_eq_of_perm hperm]
  · intro q q' hpos hle hle'
    exact percentile_mono hne hpos hle hle'

theorem percentile_of_four :
    IsNearestRank [3, 1, 2, 2] (1 / 2 * 4 : ℚ)
        (EvalHarness.percentile (sorted [3, 1, 2, 2]) (1 / 2)) ∧
      EvalHarness.percentile (sorted [1, 2, 2, 3]) (1 / 2)
        = EvalHarness.percentile (sorted [3, 1, 2, 2]) (1 / 2) ∧
      EvalHarness.percentile (sorted [3, 1, 2, 2]) (1 / 2)
        ≤ EvalHarness.percentile (sorted [3, 1, 2, 2]) (99 / 100) ∧
      percentile [1, 2, 2, 3] 2 = EvalHarness.percentile [1, 2, 2, 3] 2 := by
  obtain ⟨hrank, hperm, hmono⟩ := percentile_nearestRank.1 [3, 1, 2, 2] (List.cons_ne_nil 3 _)
  have hother : ([3, 1, 2, 2] : List ℚ).Perm [1, 2, 2, 3] := by decide +kernel
  refine ⟨hrank (1 / 2) ?_ ?_, hperm _ hother _, hmono _ _ ?_ ?_ ?_, percentile_nearestRank.2 _ _⟩
  all_goals norm_num

/-! ## The grid -/

theorem fill_eq (intervalS lastVal : ℚ) (bucket gap : Nat) :
    fill intervalS lastVal bucket gap
      = (List.range' bucket gap).map (fun k : Nat => (round3 (k * intervalS), lastVal)) := by
  induction gap generalizing bucket with
  | zero => rfl
  | succ gap ih =>
      rw [fill, ih, List.range'_succ]
      rfl

/-- The loop carries the last value along the grid of the buckets. -/
theorem downsampleFrom_eq (t0 intervalS : ℚ) (bucket : Nat) (lastVal : ℚ)
    (samples : List (ℚ × ℚ)) :
    downsampleFrom t0 intervalS bucket lastVal samples
      = (Grid.carry bucket lastVal
          (samples.map (fun s => ((truncate ((s.1 - t0) / intervalS)).toNat, s.2)))).map
        (fun p => (round3 (p.1 * intervalS), p.2)) := by
  induction samples generalizing bucket lastVal with
  | nil => rfl
  | cons s rest ih =>
      have hgap : (truncate ((s.1 - t0) / intervalS) - bucket).toNat
          = (truncate ((s.1 - t0) / intervalS)).toNat - bucket := by omega
      rw [downsampleFrom, List.map_cons, Grid.carry, List.map_append, List.map_map]
      dsimp only
      rw [fill_eq, ih, hgap]
      rfl

/-- From the first sample on the bucket is rounded down. -/
theorem truncate_eq_bucketOf {t0 intervalS : ℚ} (hpos : 0 < intervalS) {s : ℚ × ℚ}
    (hs : t0 ≤ s.1) : truncate ((s.1 - t0) / intervalS) = bucketOf t0 intervalS s :=
  if_pos (div_nonneg (sub_nonneg.2 hs) hpos.le)

theorem bucketOf_mono {t0 intervalS : ℚ} (hpos : 0 < intervalS) {s s' : ℚ × ℚ}
    (h : s.1 ≤ s'.1) : bucketOf t0 intervalS s ≤ bucketOf t0 intervalS s' :=
  Int.floor_mono (div_le_div_of_nonneg_right (sub_le_sub_right h t0) hpos.le)

/-- The value of a bucket is the one held at it. -/
theorem some_held_eq_valueAt {t0 intervalS initial : ℚ} {samples : List (ℚ × ℚ)} {k : Nat}
    (h : ∃ s ∈ samples, bucketOf t0 intervalS s ≤ k) :
    some (Grid.held initial (samples.map (cellOf t0 intervalS)) k)
      = valueAt t0 intervalS samples k := by
  obtain ⟨s, hs, hle⟩ := h
  rw [Grid.some_held ⟨_, List.mem_map_of_mem hs, Int.toNat_le.2 hle⟩, List.filter_map,
    List.getLast?_map, Option.map_map, valueAt]
  have hfilter : samples.filter ((fun e => decide (e.1 ≤ k)) ∘ cellOf t0 intervalS)
      = samples.filter (fun s => bucketOf t0 intervalS s ≤ k) := by
    refine List.filter_congr (fun s _ => ?_)
    exact decide_eq_decide.2 Int.toNat_le
  rw [hfilter]
  rfl

/-- `gauge_downsample` shows one point for each bucket up to that of the last sample, in order, at
    the start of the bucket and with the value of the last sample up to its end. -/
theorem gaugeDownsample_eq {metrics : RecordingMetrics} {name : String} {samples : List (ℚ × ℚ)}
    (hget : metrics.gauges.get? name = some samples) (hne : samples ≠ [])
    (hordered : samples.Pairwise (fun s s' => s.1 ≤ s'.1)) {intervalS : ℚ} (hpos : 0 < intervalS) :
    ∃ series, metrics.gaugeDownsample name intervalS = some series ∧
      series.map (fun point => (point.1, some point.2))
        = (List.range
            ((bucketOf (samples.head hne).1 intervalS (samples.getLast hne)).toNat + 1)).map
          (fun k : Nat =>
            (round3 (k * intervalS), valueAt (samples.head hne).1 intervalS samples k)) := by
  rcases samples with _ | ⟨first, rest⟩
  · exact absurd rfl hne
  · refine ⟨downsampleFrom first.1 intervalS 0 first.2 (first :: rest), ?_, ?_⟩
    · rw [RecordingMetrics.gaugeDownsample, hget]
      exact if_neg hpos.ne'
    · have hfrom : ∀ s ∈ first :: rest, first.1 ≤ s.1 := by
        intro s hs
        rcases List.mem_cons.1 hs with rfl | hin
        · exact le_rfl
        · exact (List.pairwise_cons.1 hordered).1 s hin
      -- no sample is earlier than the first, so that its bucket is rounded down
      have hcells : (first :: rest).map
            (fun s => ((truncate ((s.1 - first.1) / intervalS)).toNat, s.2))
          = (first :: rest).map (cellOf first.1 intervalS) := by
        refine List.map_congr_left (fun s hs => ?_)
        rw [truncate_eq_bucketOf hpos (hfrom s hs)]
        rfl
      have hplaces : ((first :: rest).map (cellOf first.1 intervalS)).Pairwise
          (fun e e' => e.1 ≤ e'.1) := by
        rw [List.pairwise_map]
        exact hordered.imp (fun hle => Int.toNat_le_toNat (bucketOf_mono hpos hle))
      have hlast : Grid.lastPlace 0 ((first :: rest).map (cellOf first.1 intervalS))
          = (bucketOf first.1 intervalS ((first :: rest).getLast hne)).toNat := by
        rw [Grid.lastPlace, List.getLast?_map, List.getLast?_eq_some_getLast hne]
        rfl
      -- the first sample is in the first bucket
      have hstart : ∀ k : Nat, ∃ s ∈ first :: rest, bucketOf first.1 intervalS s ≤ k := by
        intro k
        refine ⟨first, List.mem_cons_self, ?_⟩
        rw [bucketOf, sub_self, zero_div, Int.floor_zero]
        exact Int.natCast_nonneg k
      rw [downsampleFrom_eq, hcells, Grid.carry_eq (fun _ _ => Nat.zero_le _) hplaces, hlast,
        Nat.sub_zero, List.map_map, List.map_map, ← List.range_eq_range']
      refine List.map_congr_left (fun k _ => ?_)
      exact congrArg (Prod.mk _) (some_held_eq_valueAt (hstart k))

/-- Two samples in the first interval, none in the next two, and one in the fourth. -/
def pendingSamples : List (ℚ × ℚ) := [(100, 5), (1001 / 10, 4), (1017 / 10, 3)]

theorem grid_of_pending :
    ∃ series, RecordingMetrics.gaugeDownsample
        { gauges := Dict.empty.set "pending" pendingSamples } "pending" = some series ∧
      series.map (fun point => (point.1, some point.2))
        = [(0, some 4), (1 / 2, some 4), (1, some 4), (3 / 2, some 3)] := by
  have hordered : pendingSamples.Pairwise (fun s s' => s.1 ≤ s'.1) := by decide +kernel
  have hgrid := @gaugeDownsample_eq { gauges := Dict.empty.set "pending" pendingSamples } "pending"
    pendingSamples (Dict.get?_set_self _ _ _) (List.cons_ne_nil _ _) hordered (1 / 2) (by norm_num)
  have hpoints : (List.range ((bucketOf 100 (1 / 2) (1017 / 10, 3)).toNat + 1)).map
        (fun k : Nat => (round3 (k * (1 / 2)), valueAt 100 (1 / 2) pendingSamples k))
      = [(0, some 4), (1 / 2, some 4), (1, some 4), (3 / 2, some 3)] := by decide +kernel
  rw [← hpoints]
  exact hgrid

end EvalHarness.Recording
