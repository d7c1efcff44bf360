import EvalHarness.Aggregator.State
import EvalHarness.Lib.Reservoir

set_option autoImplicit false

/-! # The latency samples of an aggregator

`_reservoir_append` keeps a uniform sample of the values it is fed, and the two lists of samples of
an aggregator are what it keeps of the latencies of the succeeded results. -/

namespace EvalHarness

variable {α : Type}

theorem reservoirAppend_fst (draws : Nat → Nat → Nat) (cap : Nat) (samples : List α)
    (seenBefore : Nat) (value : α) (drawn : Nat) :
    (reservoirAppend draws cap samples seenBefore value drawn).1
      = Reservoir.step cap samples (draws drawn seenBefore) value := by
  unfold reservoirAppend Reservoir.step
  split <;> rfl

/-! ## A stream of values -/

/-- The samples of a stream: `seen` values have been observed, `drawn` numbers drawn for them. -/
structure Samples (α : Type) where
  samples : List α := []
  seen : Nat := 0
  drawn : Nat := 0

/-- What `_ingest` does with a value: append it to the reservoir, then count it as seen. -/
def Samples.observe (draws : Nat → Nat → Nat) (cap : Nat) (r : Samples α) (value : α) : Samples α :=
  let (samples, drawn) := reservoirAppend draws cap r.samples r.seen value r.drawn
  { samples, seen := r.seen + 1, drawn }

/-- The values of a stream, fed one by one. -/
def observeAll (draws : Nat → Nat → Nat) (cap : Nat) (stream : List α) : Samples α :=
  stream.foldl (Samples.observe draws cap) {}

/-- The positions of the stream that the samples come from: each value is followed along with its
    position. -/
def sampledPositions (draws : Nat → Nat → Nat) (cap : Nat) (stream : List α) : List Nat :=
  (observeAll draws cap stream.zipIdx).samples.map Prod.snd

/-- The `k`-th value draws the `(k - cap)`-th number, which is from `0..k`. -/
theorem observeAll_eq (draws : Nat → Nat → Nat) (cap : Nat) (stream : List α) :
    observeAll draws cap stream
      = { samples := Reservoir.feed cap (fun k => draws (k - cap) k) stream
          seen := stream.length
          drawn := stream.length - cap } := by
  induction stream using List.reverseRecOn with
  | nil => simp [observeAll]
  | append_singleton stream value ih =>
      rw [observeAll, List.foldl_append, List.foldl_cons, List.foldl_nil, ← observeAll, ih]
      have hlength : (Reservoir.feed cap (fun k => draws (k - cap) k) stream).length
          = min stream.length cap := Reservoir.length_feed stream
      unfold Samples.observe reservoirAppend
      rw [Reservoir.feed_snoc, Reservoir.step]
      by_cases hfull : stream.length < cap
      · simp [hlength, hfull]
        omega
      · simp [hlength, hfull]
        omega

theorem samples_observeAll (draws : Nat → Nat → Nat) (cap : Nat) (stream : List α) :
    (observeAll draws cap stream).samples
      = Reservoir.feed cap (fun k => draws (k - cap) k) stream :=
  congrArg Samples.samples (observeAll_eq draws cap stream)

theorem sampledPositions_eq (draws : Nat → Nat → Nat) (cap : Nat) (stream : List α) :
    sampledPositions draws cap stream
      = Reservoir.positions cap (fun k => draws (k - cap) k) stream.length := by
  rw [sampledPositions, samples_observeAll, ← Reservoir.feed_map, List.zipIdx_map_snd,
    Reservoir.positions, List.range_eq_range']

/-- The numbers drawn for a stream: the `i`-th is from `0..(cap + i)`. -/
def numbersOf {cap m : Nat} (t : Reservoir.Draws cap m) (i _bound : Nat) : Nat :=
  if h : i < m then t ⟨i, h⟩ else 0

theorem sampledPositions_numbersOf {cap : Nat} {stream : List α} (h : cap ≤ stream.length)
    (t : Reservoir.Draws cap (stream.length - cap)) :
    sampledPositions (numbersOf t) cap stream
      = Reservoir.positions cap (Reservoir.placeOf t) (cap + (stream.length - cap)) := by
  rw [sampledPositions_eq, Nat.add_sub_cancel' h]
  rfl

/-- The reservoir is a uniform sample of the stream. -/
theorem reservoir_uniform (cap : Nat) (stream : List α) :
    (∀ draws, (observeAll draws cap stream).samples.map some
          = (sampledPositions draws cap stream).map (fun k => stream[k]?)
        ∧ (sampledPositions draws cap stream).Nodup
        ∧ (∀ k ∈ sampledPositions draws cap stream, k < stream.length)
        ∧ (observeAll draws cap stream).samples.length = min stream.length cap)
      ∧ (cap < stream.length → ∀ k < stream.length,
          ((Finset.univ.filter (fun t : Reservoir.Draws cap (stream.length - cap) =>
              k ∈ sampledPositions (numbersOf t) cap stream)).card : ℚ)
            / Fintype.card (Reservoir.Draws cap (stream.length - cap)) = cap / stream.length) := by
  refine ⟨fun draws => ?_, fun hcap k hk => ?_⟩
  · rw [sampledPositions_eq, samples_observeAll]
    exact ⟨Reservoir.feed_eq_positions stream, Reservoir.nodup_positions _,
      fun k hk => Reservoir.lt_of_mem_positions hk, Reservoir.length_feed stream⟩
  · have hsplit : cap + (stream.length - cap) = stream.length := Nat.add_sub_cancel' hcap.le
    have hcount := Reservoir.card_keeping cap (stream.length - cap) (p := k) (by omega)
    rw [hsplit] at hcount
    have hkeeping : Finset.univ.filter (fun t : Reservoir.Draws cap (stream.length - cap) =>
        k ∈ sampledPositions (numbersOf t) cap stream)
          = Reservoir.keeping cap (stream.length - cap) k := by
      ext t
      rw [Reservoir.keeping, Finset.mem_filter, Finset.mem_filter,
        sampledPositions_numbersOf hcap.le]
    have hdraws : (Fintype.card (Reservoir.Draws cap (stream.length - cap)) : ℚ) ≠ 0 :=
      Nat.cast_ne_zero.2 Fintype.card_ne_zero
    have hlength : (stream.length : ℚ) ≠ 0 := Nat.cast_ne_zero.2 (by omega)
    rw [hkeeping, div_eq_div_iff hdraws hlength, mul_comm]
    exact_mod_cast hcount

/-- A reservoir of one value, and a stream of three. -/
theorem reservoir_uniform_three :
    ((Finset.univ.filter (fun t : Reservoir.Draws 1 2 =>
        0 ∈ sampledPositions (numbersOf t) 1 [5, 7, 9])).card : ℚ)
      / Fintype.card (Reservoir.Draws 1 2) = (1 : Nat) / (3 : Nat) :=
  (reservoir_uniform 1 [5, 7, 9]).2 (by decide) 0 (by decide)

/-! ## The reservoirs of an aggregator -/

/-- The latencies that are sampled. -/
def latencies (rows : List EvalResult) : List ℚ :=
  (rows.filter EvalResult.succeeded).map EvalResult.latencySeconds

/-- The batch latencies that are sampled: of the succeeded results, those that have one. -/
def batchLatencies (rows : List EvalResult) : List ℚ :=
  (rows.filter EvalResult.succeeded).filterMap EvalResult.batchLatencySeconds

/-- The samples are what is kept of a stream with some of the numbers drawn, each from its range. -/
structure SampledFrom (draws : Nat → Nat → Nat) (stream samples : List ℚ) (seen : Nat) : Prop where
  seen_eq : seen = stream.length
  picked : ∃ pick : Nat → Nat, (∀ k, ∃ n, pick k = draws n k)
    ∧ samples = Reservoir.feed reservoirCap pick stream

variable {draws : Nat → Nat → Nat}

theorem sampledFrom_nil : SampledFrom draws [] [] 0 := ⟨rfl, draws 0, fun _ => ⟨0, rfl⟩, rfl⟩

theorem SampledFrom.append {stream samples : List ℚ} {seen : Nat}
    (h : SampledFrom draws stream samples seen) (value : ℚ) (drawn : Nat) :
    SampledFrom draws (stream ++ [value])
      (reservoirAppend draws reservoirCap samples seen value drawn).1 (seen + 1) := by
  obtain ⟨rfl, pick, hpick, rfl⟩ := h
  refine ⟨by simp, Function.update pick stream.length (draws drawn stream.length), ?_, ?_⟩
  · intro k
    by_cases hk : k = stream.length
    · exact ⟨drawn, by rw [hk, Function.update_self]⟩
    · rw [Function.update_of_ne hk]
      exact hpick k
  · have hbefore : ∀ k < stream.length, reservoirCap ≤ k → pick k
        = Function.update pick stream.length (draws drawn stream.length) k :=
      fun k hk _ => (Function.update_of_ne hk.ne _ _).symm
    rw [reservoirAppend_fst, Reservoir.feed_snoc, Function.update_self,
      Reservoir.feed_congr hbefore]

/-- What an aggregator has sampled of the results it has counted. -/
structure Sampled (draws : Nat → Nat → Nat) (rows : List EvalResult) (s : ShardState) : Prop where
  latency : SampledFrom draws (latencies rows) s.latencySamples s.latencySeen
  batchLatency : SampledFrom draws (batchLatencies rows) s.batchLatencySamples s.batchLatencySeen

theorem sampled_countResult {rows : List EvalResult} {s : ResultsAggregatorImpl}
    (h : Sampled draws rows s.toShardState) (row : EvalResult) :
    Sampled draws (rows ++ [row]) (s.countResult draws row).toShardState := by
  unfold ResultsAggregatorImpl.countResult
  by_cases hrow : row.succeeded
  · have hlatencies : latencies (rows ++ [row]) = latencies rows ++ [row.latencySeconds] := by
      simp [latencies, hrow]
    cases hb : row.batchLatencySeconds with
    | none =>
        have hbatch : batchLatencies (rows ++ [row]) = batchLatencies rows := by
          simp [batchLatencies, hrow, hb]
        rw [if_pos hrow]
        exact ⟨hlatencies ▸ h.latency.append row.latencySeconds s.drawn, hbatch ▸ h.batchLatency⟩
    | some value =>
        have hbatch : batchLatencies (rows ++ [row]) = batchLatencies rows ++ [value] := by
          simp [batchLatencies, hrow, hb]
        rw [if_pos hrow]
        exact ⟨hlatencies ▸ h.latency.append row.latencySeconds s.drawn,
          hbatch ▸ h.batchLatency.append value _⟩
  · have hlatencies : latencies (rows ++ [row]) = latencies rows := by simp [latencies, hrow]
    have hbatch : batchLatencies (rows ++ [row]) = batchLatencies rows := by
      simp [batchLatencies, hrow]
    rw [if_neg hrow]
    exact ⟨hlatencies ▸ h.latency, hbatch ▸ h.batchLatency⟩

/-- Whatever an aggregator is fed, its samples are a reservoir each. -/
theorem sampled_foldl_ingested {jsonLine : EvalResult → String} (totalTasks : Nat)
    (path : PurePath) (files : Files) (rows : List EvalResult) :
    Sampled draws rows (rows.foldl (ResultsAggregatorImpl.ingested draws jsonLine)
      (.init totalTasks path files)).toShardState := by
  induction rows using List.reverseRecOn with
  | nil => exact ⟨sampledFrom_nil, sampledFrom_nil⟩
  | append_singleton rows row ih =>
      rw [List.foldl_append, List.foldl_cons, List.foldl_nil]
      exact sampled_countResult ih row

end EvalHarness
