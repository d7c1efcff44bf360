import EvalHarness.Bench.Recording
import EvalHarness.Lib.Spans

set_option autoImplicit false

/-! # Where the loop spends its time (`bench/recording.py`, `bench/saturation.py`)

The timers of the coordinator's loop, and the shares of its steady state. The middle of the run is
cut out by the starts of the samples: an iteration in progress at its beginning does not count,
though what is timed in it may. -/

namespace EvalHarness.Saturation

open Recording

/-! ## Timers -/

/-- `RecordingMetrics` as a whole: the samples of the timers and of the counts beside those of the
    gauges. -/
structure Recorder extends RecordingMetrics where
  timers : Dict String (List (ℚ × ℚ)) := Dict.empty
  counts : Dict String (List (ℚ × Int)) := Dict.empty

namespace Recorder

/-- `self.timers.get(name, [])`: starts and durations. -/
def samples (m : Recorder) (name : String) : List (ℚ × ℚ) := (m.timers.get? name).getD []

/-- A `with timer(name)` block that has been left. -/
def timed (m : Recorder) (name : String) (block : Span ℚ) : Recorder :=
  { m with
    timers := m.timers.set name (m.samples name ++ [(block.start, block.stop - block.start)]) }

/-- `count`, at a time of the monotonic clock. -/
def count (m : Recorder) (now : ℚ) (name : String) (n : Int := 1) : Recorder :=
  { m with counts := m.counts.set name ((m.counts.get? name).getD [] ++ [(now, n)]) }

/-- `count_total`. -/
def countTotal (m : Recorder) (name : String) : Int :=
  (((m.counts.get? name).getD []).map Prod.snd).sum

theorem countTotal_count (m : Recorder) (now : ℚ) (name : String) (n : Int) (name' : String) :
    (m.count now name n).countTotal name'
      = m.countTotal name' + (if name' = name then n else 0) := by
  rw [count, countTotal, countTotal, Dict.get?_set]
  split
  · next h =>
      subst h
      simp
  · exact (add_zero _).symm

/-- `timer_span`. -/
def timerSpan (m : Recorder) (name : String) : Option (ℚ × ℚ) :=
  match m.samples name with
  | [] => none
  | first :: rest =>
      some (first.1, rest.foldl (fun last s => max last (s.1 + s.2)) (first.1 + first.2))

/-- `timer_total`. -/
def timerTotal (m : Recorder) (name : String) (tLo tHi : Option ℚ := none) : ℚ :=
  (m.samples name).foldl (fun total s =>
    if tLo.any (fun lo => s.1 < lo) then total
    else if tHi.any (fun hi => hi < s.1) then total
    else total + s.2) 0

/-- `timer_count`. -/
def timerCount (m : Recorder) (name : String) (tLo tHi : Option ℚ := none) : Nat :=
  (m.samples name).countP (fun s => tLo.all (fun lo => lo ≤ s.1) && tHi.all (fun hi => s.1 ≤ hi))

/-- `steady_window`. -/
def steadyWindow (m : Recorder) (name : String := "loop_iter") (trim : ℚ := 1 / 5) :
    Option (ℚ × ℚ) :=
  (m.timerSpan name).map (fun span =>
    let width := span.2 - span.1
    (span.1 + trim * width, span.2 - trim * width))

end Recorder

/-! ## The report -/

/-- The timers in the loop. -/
def innerNames : List String := ["ray_wait", "dispatch", "agg_submit"]

/-- `report["loop"]`. -/
structure Loop where
  iterations : Nat
  spanS : ℚ
  iterationsPerS : ℚ

def loop (recording : Recorder) : Loop :=
  let loopIters := recording.timerCount "loop_iter"
  let loopSpanS := match recording.timerSpan "loop_iter" with
    | some span => span.2 - span.1
    | none => 0
  { iterations := loopIters
    spanS := loopSpanS
    iterationsPerS := if 0 < loopSpanS then loopIters / loopSpanS else 0 }

/-- `report["steady_state"]`. -/
structure SteadyState where
  windowS : ℚ
  loopDutyCycle : ℚ
  timerTotalsS : Dict String ℚ
  shareOfLoopIter : Dict String ℚ

def steadyState (recording : Recorder) : SteadyState :=
  let window := recording.steadyWindow
  let tLo := window.map Prod.fst
  let tHi := window.map Prod.snd
  let loopTotal := recording.timerTotal "loop_iter" tLo tHi
  let inner : Dict String ℚ :=
    Dict.empty.update (innerNames.map (fun name => (name, recording.timerTotal name tLo tHi)))
  let shares := inner.mapValues (fun _ dur => if 0 < loopTotal then dur / loopTotal else 0)
  let windowS := match window with
    | some w => w.2 - w.1
    | none => 0
  { windowS := windowS
    loopDutyCycle := if 0 < windowS then loopTotal / windowS else 0
    timerTotalsS := (Dict.empty.set "loop_iter" loopTotal).update inner.entries
    shareOfLoopIter := shares.set "unaccounted"
      (max 0 (1 - (innerNames.map (fun name => (shares.get? name).getD 0)).sum)) }

/-! ## The loop under the timers -/

/-- One pass through the loop of `run`: the block of `loop_iter`, and the blocks in it with the
    names of their timers. -/
structure Pass where
  span : Span ℚ
  blocks : List (String × Span ℚ)

/-- The blocks are entered and left one after the other, inside the pass. -/
structure Pass.Timed (p : Pass) : Prop where
  within : Span.Within p.span.start p.span.stop (p.blocks.map Prod.snd)
  named : ∀ b ∈ p.blocks, b.1 ∈ innerNames

/-- What a pass records. The outer block is left last. -/
def Recorder.pass (m : Recorder) (p : Pass) : Recorder :=
  (p.blocks.foldl (fun m b => m.timed b.1 b.2) m).timed "loop_iter" p.span

/-- What the loop records. -/
def recordLoop (passes : List Pass) : Recorder := passes.foldl Recorder.pass {}

/-! ## What is recorded -/

/-- A block as a sample. -/
def sample (block : Span ℚ) : ℚ × ℚ := (block.start, block.stop - block.start)

theorem samples_timed (m : Recorder) (name name' : String) (block : Span ℚ) :
    (m.timed name block).samples name'
      = m.samples name' ++ (if name' = name then [sample block] else []) := by
  rw [Recorder.timed, Recorder.samples, Dict.get?_set]
  split
  · next h =>
      subst h
      rfl
  · exact (List.append_nil _).symm

/-- The blocks under a name. -/
def named (name : String) (blocks : List (String × Span ℚ)) : List (Span ℚ) :=
  (blocks.filter (fun b => b.1 = name)).map Prod.snd

theorem named_cons (name : String) (b : String × Span ℚ) (blocks : List (String × Span ℚ)) :
    named name (b :: blocks) = (if b.1 = name then [b.2] else []) ++ named name blocks := by
  by_cases h : b.1 = name <;> simp [named, h]

theorem named_append (name : String) (blocks blocks' : List (String × Span ℚ)) :
    named name (blocks ++ blocks') = named name blocks ++ named name blocks' := by
  rw [named, List.filter_append, List.map_append]
  rfl

theorem named_eq_nil {name : String} {blocks : List (String × Span ℚ)}
    (h : ∀ b ∈ blocks, b.1 ≠ name) : named name blocks = [] := by
  rw [named, List.filter_eq_nil_iff.2 (fun b hb heq => h b hb (of_decide_eq_true heq))]
  rfl

theorem samples_foldl_timed (m : Recorder) (name : String) (blocks : List (String × Span ℚ)) :
    (blocks.foldl (fun m b => m.timed b.1 b.2) m).samples name
      = m.samples name ++ (named name blocks).map sample := by
  induction blocks generalizing m with
  | nil => exact (List.append_nil _).symm
  | cons b blocks ih =>
      rw [List.foldl_cons, ih, samples_timed, List.append_assoc, named_cons, List.map_append]
      by_cases hname : b.1 = name
      · rw [if_pos hname.symm, if_pos hname]
        rfl
      · rw [if_neg (fun h => hname h.symm), if_neg hname]
        rfl

theorem samples_foldl_pass (m : Recorder) (passes : List Pass)
    (hpasses : ∀ p ∈ passes, p.Timed) :
    ((passes.foldl Recorder.pass m).samples "loop_iter"
      = m.samples "loop_iter" ++ (passes.map Pass.span).map sample) ∧
    ∀ name ∈ innerNames, (passes.foldl Recorder.pass m).samples name
      = m.samples name ++ (named name (passes.flatMap Pass.blocks)).map sample := by
  induction passes generalizing m with
  | nil => exact ⟨(List.append_nil _).symm, fun _ _ => (List.append_nil _).symm⟩
  | cons p passes ih =>
      obtain ⟨hp, hrest⟩ := List.forall_mem_cons.1 hpasses
      obtain ⟨hloop, hinner⟩ := ih (m.pass p) hrest
      have hother : ∀ name ∈ innerNames, name ≠ "loop_iter" := by decide
      constructor
      · have hnone : named "loop_iter" p.blocks = [] :=
          named_eq_nil (fun b hb => hother b.1 (hp.named b hb))
        rw [List.foldl_cons, hloop, Recorder.pass, samples_timed, if_pos rfl, samples_foldl_timed,
          hnone, List.map_nil, List.append_nil, List.append_assoc]
        rfl
      · intro name hname
        rw [List.foldl_cons, hinner name hname, Recorder.pass, samples_timed,
          if_neg (hother name hname), samples_foldl_timed, List.flatMap_cons, named_append,
          List.map_append, List.append_nil, List.append_assoc]

theorem samples_recordLoop {passes : List Pass} (hpasses : ∀ p ∈ passes, p.Timed) :
    (recordLoop passes).samples "loop_iter" = (passes.map Pass.span).map sample ∧
      ∀ name ∈ innerNames, (recordLoop passes).samples name
        = (named name (passes.flatMap Pass.blocks)).map sample :=
  samples_foldl_pass {} passes hpasses

/-! ## Totals in a window -/

/-- The duration of the samples that start in a window. -/
theorem timerTotal_window {m : Recorder} {name : String} {blocks : List (Span ℚ)}
    (h : m.samples name = blocks.map sample) (lo hi : ℚ) :
    m.timerTotal name (some lo) (some hi) = Span.total (Span.started lo hi blocks) := by
  have hfold : ∀ (total : ℚ), (blocks.map sample).foldl (fun total s =>
      if (some lo).any (fun lo => s.1 < lo) then total
      else if (some hi).any (fun hi => hi < s.1) then total
      else total + s.2) total = total + Span.total (Span.started lo hi blocks) := by
    clear h
    induction blocks with
    | nil => exact fun total => (add_zero total).symm
    | cons s blocks ih =>
        intro total
        rw [List.map_cons, List.foldl_cons, ih]
        by_cases hin : lo ≤ s.start ∧ s.start ≤ hi
        · have hkept : Span.started lo hi (s :: blocks) = s :: Span.started lo hi blocks :=
            List.filter_cons_of_pos (decide_eq_true hin)
          rw [hkept, Span.total_cons, ← add_assoc]
          simp [sample, Span.length, not_lt.2 hin.1, not_lt.2 hin.2]
        · have hdropped : Span.started lo hi (s :: blocks) = Span.started lo hi blocks :=
            List.filter_cons_of_neg (by simpa using hin)
          rw [hdropped]
          by_cases hlo : s.start < lo
          · simp [sample, hlo]
          · have hhi : hi < s.start := not_le.1 (fun hle => hin ⟨not_lt.1 hlo, hle⟩)
            simp [sample, hlo, hhi]
  rw [Recorder.timerTotal, h, hfold 0, zero_add]

/-- Every block in the loop is timed under one of the three names. -/
theorem total_blocks {lo hi : ℚ} {blocks : List (String × Span ℚ)}
    (hnamed : ∀ b ∈ blocks, b.1 ∈ innerNames) :
    (innerNames.map (fun name => Span.total (Span.started lo hi (named name blocks)))).sum
      = Span.total (Span.started lo hi (blocks.map Prod.snd)) := by
  induction blocks with
  | nil => simp [named, Span.started, Span.total]
  | cons b blocks ih =>
      obtain ⟨hb, hrest⟩ := List.forall_mem_cons.1 hnamed
      have hone (name : String) : Span.total (Span.started lo hi (named name (b :: blocks)))
          = (if b.1 = name then Span.total (Span.started lo hi [b.2]) else 0)
            + Span.total (Span.started lo hi (named name blocks)) := by
        rw [named_cons, Span.started_append, Span.total_append]
        by_cases hname : b.1 = name
        · rw [if_pos hname, if_pos hname]
        · rw [if_neg hname, if_neg hname]
          rfl
      have honce : (innerNames.map (fun name =>
          if b.1 = name then Span.total (Span.started lo hi [b.2]) else 0)).sum
            = Span.total (Span.started lo hi [b.2]) := by
        simp only [innerNames, List.mem_cons, List.not_mem_nil, or_false] at hb
        rcases hb with hb | hb | hb <;> simp [innerNames, hb]
      have hsplit : Span.started lo hi ((b :: blocks).map Prod.snd)
          = Span.started lo hi [b.2] ++ Span.started lo hi (blocks.map Prod.snd) :=
        Span.started_append lo hi [b.2] _
      rw [hsplit, Span.total_append, ← ih hrest, List.map_congr_left (fun name _ => hone name),
        List.sum_map_add, honce]

/-! ## The window -/

theorem foldl_max_stop {b : ℚ} {p : Pass} {passes : List Pass}
    (h : Span.Within p.span.stop b (passes.map Pass.span)) :
    ((passes.map Pass.span).map sample).foldl (fun last s => max last (s.1 + s.2)) p.span.stop
      = ((p :: passes).getLast (List.cons_ne_nil _ _)).span.stop := by
  induction passes generalizing p with
  | nil => rfl
  | cons q passes ih =>
      obtain ⟨hstart, hstop, hrest⟩ := Span.within_cons.1 h
      have hmax : max p.span.stop ((sample q.span).1 + (sample q.span).2) = q.span.stop := by
        rw [sample, add_sub_cancel]
        exact max_eq_right (hstart.trans hstop)
      rw [List.map_cons, List.map_cons, List.foldl_cons, hmax, ih hrest,
        List.getLast_cons (List.cons_ne_nil _ _)]

/-- The span of the timer goes from the start of the first pass to the end of the last one. -/
theorem timerSpan_recordLoop {a b : ℚ} {passes : List Pass} (hne : passes ≠ [])
    (hloop : Span.Within a b (passes.map Pass.span)) (hpasses : ∀ p ∈ passes, p.Timed) :
    (recordLoop passes).timerSpan "loop_iter"
      = some ((passes.head hne).span.start, (passes.getLast hne).span.stop) := by
  rw [Recorder.timerSpan, (samples_recordLoop hpasses).1]
  rcases passes with _ | ⟨p, passes⟩
  · exact absurd rfl hne
  · obtain ⟨-, -, hrest⟩ := Span.within_cons.1 hloop
    have hstop : (sample p.span).1 + (sample p.span).2 = p.span.stop := add_sub_cancel _ _
    show some ((sample p.span).1, _) = _
    rw [hstop, foldl_max_stop hrest]
    rfl

/-! ## The shares -/

theorem total_started_nonneg {a b lo hi : ℚ} {l : List (Span ℚ)} (h : Span.Within a b l) :
    0 ≤ Span.total (Span.started lo hi l) := by
  refine List.sum_nonneg (fun x hx => ?_)
  obtain ⟨s, hs, rfl⟩ := List.mem_map.1 hx
  exact sub_nonneg.2 (h.mem s (List.mem_filter.1 hs).1).2.1

/-- Each block of a timer in the loop ends after it starts. -/
theorem total_named_nonneg {passes : List Pass} (hpasses : ∀ p ∈ passes, p.Timed) (lo hi : ℚ)
    (name : String) :
    0 ≤ Span.total (Span.started lo hi (named name (passes.flatMap Pass.blocks))) := by
  refine List.sum_nonneg (fun x hx => ?_)
  obtain ⟨s, hs, rfl⟩ := List.mem_map.1 hx
  obtain ⟨b, hb, rfl⟩ := List.mem_map.1 (List.mem_filter.1 hs).1
  obtain ⟨p, hp, hin⟩ := List.mem_flatMap.1 (List.mem_filter.1 hb).1
  exact sub_nonneg.2 ((hpasses p hp).within.mem b.2 (List.mem_map_of_mem hin)).2.1

/-- The totals of the timers in the loop. -/
def innerTotals (passes : List Pass) (lo hi : ℚ) : List ℚ :=
  innerNames.map (fun name =>
    Span.total (Span.started lo hi (named name (passes.flatMap Pass.blocks))))

theorem entries_inner (f : String → ℚ) :
    (Dict.empty.update (innerNames.map (fun name => (name, f name)))).entries
      = innerNames.map (fun name => (name, f name)) := by
  have hnodup : innerNames.Nodup := by decide
  exact Dict.entries_update_of_nodup _ hnodup (fun _ _ => List.not_mem_nil)

/-- The shares of the timers, and what is left of the loop's time. -/
theorem values_shareOfLoopIter {passes : List Pass} (hpasses : ∀ p ∈ passes, p.Timed) {lo hi : ℚ}
    (hwindow : (recordLoop passes).steadyWindow = some (lo, hi)) :
    let total := Span.total (Span.started lo hi (passes.map Pass.span))
    let shares := (innerTotals passes lo hi).map (fun dur => if 0 < total then dur / total else 0)
    (steadyState (recordLoop passes)).shareOfLoopIter.values
      = shares ++ [max 0 (1 - shares.sum)] := by
  obtain ⟨hloop, hinner⟩ := samples_recordLoop hpasses
  have hnames : innerNames.map (fun name => (name, (recordLoop passes).timerTotal name (some lo)
        (some hi)))
      = innerNames.map (fun name => (name,
        Span.total (Span.started lo hi (named name (passes.flatMap Pass.blocks))))) := by
    refine List.map_congr_left (fun name hname => ?_)
    rw [timerTotal_window (hinner name hname)]
  intro total shares
  simp only [steadyState, hwindow, Option.map_some, timerTotal_window hloop, hnames]
  -- the names of the timers are the keys of the shares
  have hupdate := entries_inner (fun name =>
    Span.total (Span.started lo hi (named name (passes.flatMap Pass.blocks))))
  generalize Dict.empty.update (innerNames.map (fun name => (name,
    Span.total (Span.started lo hi (named name (passes.flatMap Pass.blocks)))))) = inner
    at hupdate ⊢
  generalize hdict : inner.mapValues (fun _ dur => if 0 < total then dur / total else 0) = d
  have hentries : d.entries = innerNames.map (fun name => (name,
      (fun dur => if 0 < total then dur / total else 0)
        (Span.total (Span.started lo hi (named name (passes.flatMap Pass.blocks)))))) := by
    rw [← hdict]
    show inner.entries.map _ = _
    rw [hupdate, List.map_map]
    rfl
  have hkeys : d.keys = innerNames := by
    rw [Dict.keys, hentries, List.map_map]
    rfl
  have hvalues : d.values = shares := by
    rw [Dict.values, hentries, List.map_map]
    exact (List.map_map).symm
  have hnew : "unaccounted" ∉ d.keys := by
    rw [hkeys]
    decide
  rw [Dict.values_set_of_not_mem _ _ hnew, hvalues, ← hkeys, Dict.map_getD_keys, hvalues]

/-- What is timed in the loop takes no longer than the passes that start in the window, except for
    what is timed in a pass in progress at its beginning. -/
theorem sum_innerTotals_le {a b lo hi rest : ℚ} {passes : List Pass}
    (hloop : Span.Within a b (passes.map Pass.span)) (hpasses : ∀ p ∈ passes, p.Timed)
    (hrest : 0 ≤ rest)
    (hprogress : ∀ p ∈ passes, p.span.start < lo → lo < p.span.stop → p.span.stop - lo ≤ rest) :
    (innerTotals passes lo hi).sum
      ≤ Span.total (Span.started lo hi (passes.map Pass.span)) + rest := by
  have hnamed : ∀ b ∈ passes.flatMap Pass.blocks, b.1 ∈ innerNames := by
    intro b hb
    obtain ⟨p, hp, hin⟩ := List.mem_flatMap.1 hb
    exact (hpasses p hp).named b hin
  have hwithin : ∀ n ∈ passes.map (fun p => (⟨p.span, p.blocks.map Prod.snd⟩ : Span.Nest ℚ)),
      Span.Within n.outer.start n.outer.stop n.inner := by
    intro n hn
    obtain ⟨p, hp, rfl⟩ := List.mem_map.1 hn
    exact (hpasses p hp).within
  have hnested : Span.total (Span.started lo hi _) ≤ _ := Span.total_inner_started_le hwithin
  rw [List.map_map, List.flatMap_map] at hnested
  rw [innerTotals, total_blocks hnamed, List.map_flatMap]
  refine hnested.trans (add_le_add_right ?_ _)
  refine hloop.beyond_filter_le hrest (fun s _ hstart => (of_decide_eq_true hstart).le) ?_
  intro s hs hstart hstop
  obtain ⟨p, hp, rfl⟩ := List.mem_map.1 hs
  exact hprogress p hp (of_decide_eq_true hstart) hstop

/-- What the report says of the window. -/
structure Accounts (passes : List Pass) (lo hi : ℚ) (r : SteadyState) : Prop where
  window : r.windowS = hi - lo
  /-- The shares account for the loop's time: together they are one, or more where what is timed in
      a pass in progress at the beginning of the window counts and the pass does not. -/
  shares : (∀ share ∈ r.shareOfLoopIter.values, 0 ≤ share) ∧ 1 ≤ r.shareOfLoopIter.values.sum
  excess : ∀ rest : ℚ, 0 ≤ rest →
    (∀ p ∈ passes, p.span.start < lo → lo < p.span.stop → p.span.stop - lo ≤ rest) →
    (r.shareOfLoopIter.values.sum - 1) * Span.total (Span.started lo hi (passes.map Pass.span))
      ≤ rest
  exact : (∀ p ∈ passes, p.span.start < lo → p.span.stop ≤ lo) → r.shareOfLoopIter.values.sum = 1
  /-- The passes that start in the window fill it at most, but for what the last one takes beyond
      it. -/
  duty : 0 ≤ r.loopDutyCycle ∧ ∀ rest : ℚ, 0 ≤ rest →
    (∀ p ∈ passes, p.span.start ≤ hi → hi < p.span.stop → p.span.stop - hi ≤ rest) →
    r.loopDutyCycle * r.windowS ≤ r.windowS + rest

/-- Together the shares are those of the timers, and at least one. -/
theorem sum_shareOfLoopIter {passes : List Pass} (hpasses : ∀ p ∈ passes, p.Timed) {lo hi : ℚ}
    (hwindow : (recordLoop passes).steadyWindow = some (lo, hi)) :
    (steadyState (recordLoop passes)).shareOfLoopIter.values.sum
      = max (if 0 < Span.total (Span.started lo hi (passes.map Pass.span))
          then (innerTotals passes lo hi).sum
            / Span.total (Span.started lo hi (passes.map Pass.span)) else 0) 1 := by
  have hshares (total : ℚ) (durs : List ℚ) :
      (durs.map (fun dur => if 0 < total then dur / total else 0)).sum
        = if 0 < total then durs.sum / total else 0 := by
    by_cases hpos : 0 < total
    · simp only [if_pos hpos, div_eq_mul_inv]
      exact (List.sum_map_mul_right durs (fun dur => dur) total⁻¹).trans (by rw [List.map_id'])
    · simp [hpos]
  rw [values_shareOfLoopIter hpasses hwindow, List.sum_append, List.sum_singleton, ← hshares,
    ← max_add_add_left, add_zero, add_sub_cancel]

theorem nonneg_shareOfLoopIter {passes : List Pass} (hpasses : ∀ p ∈ passes, p.Timed) {lo hi : ℚ}
    (hwindow : (recordLoop passes).steadyWindow = some (lo, hi)) :
    ∀ share ∈ (steadyState (recordLoop passes)).shareOfLoopIter.values, 0 ≤ share := by
  intro share hshare
  rw [values_shareOfLoopIter hpasses hwindow] at hshare
  rcases List.mem_append.1 hshare with hin | hlast
  · obtain ⟨dur, hdur, rfl⟩ := List.mem_map.1 hin
    obtain ⟨name, -, rfl⟩ := List.mem_map.1 hdur
    have hnonneg := total_named_nonneg hpasses lo hi name
    split
    · next hpos => exact div_nonneg hnonneg hpos.le
    · exact le_rfl
  · rw [List.mem_singleton.1 hlast]
    exact le_max_left _ _

theorem excess_le {total inner rest : ℚ} (htotal : 0 ≤ total) (hrest : 0 ≤ rest)
    (h : inner ≤ total + rest) :
    (max (if 0 < total then inner / total else 0) 1 - 1) * total ≤ rest := by
  split
  · next hpos =>
      rw [← max_sub_sub_right, sub_self, max_mul_of_nonneg _ _ htotal, zero_mul, sub_mul, one_mul,
        div_mul_cancel₀ _ hpos.ne']
      exact max_le (sub_le_iff_le_add'.2 h) hrest
  · rw [max_eq_right zero_le_one, sub_self, zero_mul]
    exact hrest

theorem Accounts.of_window {a b lo hi : ℚ} {passes : List Pass}
    (hloop : Span.Within a b (passes.map Pass.span)) (hpasses : ∀ p ∈ passes, p.Timed)
    (hwindow : (recordLoop passes).steadyWindow = some (lo, hi)) (hle : lo ≤ hi) :
    Accounts passes lo hi (steadyState (recordLoop passes)) := by
  have hsum := sum_shareOfLoopIter hpasses hwindow
  have hsize : (steadyState (recordLoop passes)).windowS = hi - lo := by
    simp only [steadyState, hwindow]
  have hduty : (steadyState (recordLoop passes)).loopDutyCycle = if 0 < hi - lo
      then Span.total (Span.started lo hi (passes.map Pass.span)) / (hi - lo) else 0 := by
    simp only [steadyState, hwindow, Option.map_some,
      timerTotal_window (samples_recordLoop hpasses).1]
  have hexcess : ∀ rest : ℚ, 0 ≤ rest →
      (∀ p ∈ passes, p.span.start < lo → lo < p.span.stop → p.span.stop - lo ≤ rest) →
      (innerTotals passes lo hi).sum
        ≤ Span.total (Span.started lo hi (passes.map Pass.span)) + rest :=
    fun rest hrest hprogress => sum_innerTotals_le hloop hpasses hrest hprogress
  have htotal : 0 ≤ Span.total (Span.started lo hi (passes.map Pass.span)) :=
    total_started_nonneg hloop
  have hfill := hloop.total_started_le hle
  have hbeyond : ∀ rest : ℚ, 0 ≤ rest →
      (∀ p ∈ passes, p.span.start ≤ hi → hi < p.span.stop → p.span.stop - hi ≤ rest) →
      Span.beyond hi (Span.started lo hi (passes.map Pass.span)) ≤ rest := by
    intro rest hrest hover
    refine hloop.beyond_filter_le hrest (fun s _ hin => (of_decide_eq_true hin).2) ?_
    intro s hs hin hstop
    obtain ⟨p, hp, rfl⟩ := List.mem_map.1 hs
    exact hover p hp (of_decide_eq_true hin).2 hstop
  refine ⟨hsize, ⟨nonneg_shareOfLoopIter hpasses hwindow, hsum ▸ le_max_right _ _⟩, ?_, ?_, ?_, ?_⟩
  · intro rest hrest hprogress
    rw [hsum]
    exact excess_le htotal hrest (hexcess rest hrest hprogress)
  · intro hnone
    have hle := hexcess 0 le_rfl (fun p hp hstart hstop => absurd (hnone p hp hstart)
      (not_le.2 hstop))
    rw [add_zero] at hle
    rw [hsum]
    refine max_eq_right ?_
    split
    · next hpos => exact (div_le_one hpos).2 hle
    · exact zero_le_one
  · rw [hduty]
    split
    · next hpos => exact div_nonneg htotal hpos.le
    · exact le_rfl
  · intro rest hrest hover
    rw [hduty, hsize]
    split
    · next hpos =>
        rw [div_mul_cancel₀ _ hpos.ne']
        exact hfill.trans (add_le_add_right (hbeyond rest hrest hover) _)
    · rw [zero_mul]
      exact add_nonneg (sub_nonneg.2 hle) hrest

theorem timerCount_recordLoop {passes : List Pass} (hpasses : ∀ p ∈ passes, p.Timed) :
    (recordLoop passes).timerCount "loop_iter" = passes.length := by
  rw [Recorder.timerCount, (samples_recordLoop hpasses).1]
  simp

/-- Whatever the loop does in its passes, as long as the clock never goes back: the shares of its
    time are not negative and together at least one, exactly one unless a pass was in progress when
    the window began, and more by what that pass took in the window at most; and the passes fill the
    window at most, but for what the last one takes beyond it. -/
theorem steady_state_accounts {a b : ℚ} {passes : List Pass} (hne : passes ≠ [])
    (hloop : Span.Within a b (passes.map Pass.span)) (hpasses : ∀ p ∈ passes, p.Timed) :
    (loop (recordLoop passes)).iterations = passes.length ∧
      Span.total (passes.map Pass.span) ≤ (loop (recordLoop passes)).spanS ∧
      ∃ lo hi, (recordLoop passes).steadyWindow = some (lo, hi) ∧
        hi - lo = 3 / 5 * (loop (recordLoop passes)).spanS ∧
        Accounts passes lo hi (steadyState (recordLoop passes)) := by
  have hspan := timerSpan_recordLoop hne hloop hpasses
  have hspanS : (loop (recordLoop passes)).spanS
      = (passes.getLast hne).span.stop - (passes.head hne).span.start := by
    simp only [loop, hspan]
  have hwindow : (recordLoop passes).steadyWindow = some
      ((passes.head hne).span.start + 1 / 5 * (loop (recordLoop passes)).spanS,
        (passes.getLast hne).span.stop - 1 / 5 * (loop (recordLoop passes)).spanS) := by
    rw [Recorder.steadyWindow, hspan, hspanS]
    rfl
  have hinside : Span.Within (passes.head hne).span.start (passes.getLast hne).span.stop
      (passes.map Pass.span) := by
    have htight := hloop.tight (fun h => hne (List.map_eq_nil_iff.1 h))
    rwa [List.head_map, List.getLast_map] at htight
  have horder := hinside.le
  refine ⟨timerCount_recordLoop hpasses, hspanS ▸ hinside.total_le, _, _, hwindow, ?_, ?_⟩
  · rw [hspanS]
    ring
  · refine Accounts.of_window hloop hpasses hwindow ?_
    rw [hspanS]
    linarith

/-- The wait of the first pass goes on in the window that the pass began before. -/
def twoPasses : List Pass :=
  [⟨⟨0, 10⟩, [("dispatch", ⟨0, 1⟩), ("ray_wait", ⟨5, 9⟩)]⟩,
    ⟨⟨10, 20⟩, [("ray_wait", ⟨11, 17⟩), ("agg_submit", ⟨17, 19⟩)]⟩]

theorem steady_state_accounts_two : ∃ lo hi, hi - lo = 12 ∧
    1 ≤ (steadyState (recordLoop twoPasses)).shareOfLoopIter.values.sum ∧
    ((steadyState (recordLoop twoPasses)).shareOfLoopIter.values.sum - 1)
      * Span.total (Span.started lo hi (twoPasses.map Pass.span)) ≤ 6 := by
  have hpasses : ∀ p ∈ twoPasses, p.Timed := by
    intro p hp
    rcases List.mem_cons.1 hp with rfl | hp
    · exact ⟨by norm_num [Span.Within, Span.readings], by decide⟩
    · rw [List.mem_singleton.1 hp]
      exact ⟨by norm_num [Span.Within, Span.readings], by decide⟩
  obtain ⟨-, -, lo, hi, hwindow, -, haccounts⟩ := steady_state_accounts (a := 0) (b := 20)
    (List.cons_ne_nil _ _) (by norm_num [twoPasses, Span.Within, Span.readings]) hpasses
  have hlo : (recordLoop twoPasses).steadyWindow = some (4, 16) := by decide +kernel
  obtain ⟨rfl, rfl⟩ : (4 : ℚ) = lo ∧ (16 : ℚ) = hi := by
    exact Prod.ext_iff.1 (Option.some.inj (hlo.symm.trans hwindow))
  refine ⟨4, 16, by norm_num, haccounts.shares.2, haccounts.excess 6 (by norm_num) ?_⟩
  intro p hp hstart hstop
  rcases List.mem_cons.1 hp with rfl | hp
  · norm_num
  · rw [List.mem_singleton.1 hp] at hstart
    norm_num at hstart

end EvalHarness.Saturation
