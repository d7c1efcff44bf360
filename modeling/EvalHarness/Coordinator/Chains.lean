import EvalHarness.Coordinator.Submissions

set_option autoImplicit false

/-! # Refill chains

A promotion opens a chain of refill attempts, which ends when one of them restocks the pool or when
no further attempt follows. The README has every chain try three times: a chain whose constructor
call raises ends there and then, however few its attempts were. -/

namespace EvalHarness

variable {σ : Type} {w : World σ}

/-- How a chain ended: with so many failed attempts, in the pool or not. -/
structure ChainEnd where
  failures : Nat
  restocked : Bool
deriving DecidableEq

/-- The chains of a run: the failed attempts of each that has a refill in flight, in the order of
    `_standby_refills`, and those that have ended. -/
structure RefillChains where
  loading : List Nat := []
  ended : List ChainEnd := []

/-- All attempts are used up. -/
def ChainEnd.exhausted (e : ChainEnd) : Bool :=
  !e.restocked && e.failures = standbyRefillMaxAttempts

namespace RefillChains

/-- A refill is polled. Its chain has ended in the pool if the pool has grown, it goes on if a
    refill is in flight again, and `refill_failures` has counted its failures. -/
def polled (before after : Sys σ) (failures : Nat) (c : RefillChains) : RefillChains :=
  let failures := failures + (after.stats.refillFailures - before.stats.refillFailures)
  if before.standbyPool.length < after.standbyPool.length then
    { c with ended := c.ended ++ [⟨failures, true⟩] }
  else if before.standbyRefills.length < after.standbyRefills.length then
    { c with loading := c.loading ++ [failures] }
  else
    { c with ended := c.ended ++ [⟨failures, false⟩] }

/-- Refills are polled, each with the failures of its chain. -/
def pollAll (w : World σ) : List (Refill × Nat) → Sys σ → RefillChains → RefillChains
  | [], _, c => c
  | (rf, failures) :: refills, s, c =>
      pollAll w refills (pollRefill w s rf) (c.polled s (pollRefill w s rf) failures)

/-- Promotions open chains: the first attempt is in flight, or it has failed. -/
def opened (w : World σ) (subs : List (Submission σ)) (c : RefillChains) : RefillChains where
  loading := c.loading ++ List.replicate (subs.countP (fun sub => !sub.refused w)) 0
  ended := c.ended ++ List.replicate (subs.countP (fun sub => sub.refused w)) ⟨1, false⟩

/-- An iteration of the loop. -/
def iterated (w : World σ) (s : Sys σ) (c : RefillChains) : RefillChains :=
  (pollAll w (s.standbyRefills.zip c.loading) { s with standbyRefills := [] }
    { c with loading := [] }).opened w (promotedSubmissions w s)

end RefillChains

/-- The chains after some iterations. -/
def chainsAfter (w : World σ) (s₀ : Sys σ) : Nat → RefillChains
  | 0 => {}
  | k + 1 =>
      match after w s₀ k with
      | .head s => if s.idle then chainsAfter w s₀ k else (chainsAfter w s₀ k).iterated w s
      | _ => chainsAfter w s₀ k

/-- The calls of `_start_standby_refill` in some iterations. -/
def submissionsAfter (w : World σ) (s₀ : Sys σ) : Nat → List (Submission σ)
  | 0 => []
  | k + 1 =>
      match after w s₀ k with
      | .head s =>
          if s.idle then submissionsAfter w s₀ k
          else submissionsAfter w s₀ k ++ (polledSubmissions w s ++ promotedSubmissions w s)
      | _ => submissionsAfter w s₀ k

/-! ## The books of the chains -/

/-- A constructor call raised though an attempt was left. -/
def Submission.cutsShort (w : World σ) (sub : Submission σ) : Bool :=
  sub.attempt + 1 < standbyRefillMaxAttempts && sub.refused w

/-- A chain has ended though an attempt was left. -/
def ChainEnd.cutShort (e : ChainEnd) : Bool :=
  !e.restocked && e.failures < standbyRefillMaxAttempts

/-- Pool and chains, while some refills are still to be polled. -/
structure ChainBooks (w : World σ) (s : Sys σ) (left : List Refill) (c : RefillChains)
    (subs : List (Submission σ)) : Prop where
  loading : c.loading = s.standbyRefills.map Refill.attempt
  attempts : ∀ rf ∈ s.standbyRefills ++ left, rf.attempt < standbyRefillMaxAttempts
  promotions : c.loading.length + left.length + c.ended.length = s.stats.promotions
  pool : s.standbyPool.length + c.loading.length + left.length
    + c.ended.countP (fun e => !e.restocked) = w.cfg.standby
  failures : ∀ e ∈ c.ended, e.restocked = false → e.failures ≤ standbyRefillMaxAttempts
  cutShort : c.ended.countP ChainEnd.cutShort = subs.countP (Submission.cutsShort w)

section Poll

variable {s s' : Sys σ} {rf : Refill} {left : List Refill} {c : RefillChains} {n : Nat}
  {subs more : List (Submission σ)} (h : ChainBooks w s (rf :: left) c subs)
  (hpromotions : s'.stats.promotions = s.stats.promotions)
  (hfailures : s'.stats.refillFailures = s.stats.refillFailures + n)

include h hpromotions

/-- The chain of the refill has ended. -/
theorem ChainBooks.close {e : ChainEnd} (hrefills : s'.standbyRefills = s.standbyRefills)
    (hpool : s'.standbyPool.length = s.standbyPool.length + if e.restocked then 1 else 0)
    (hmax : e.restocked = false → e.failures ≤ standbyRefillMaxAttempts)
    (hmore : more.countP (Submission.cutsShort w) = if e.cutShort then 1 else 0) :
    ChainBooks w s' left { c with ended := c.ended ++ [e] } (subs ++ more) := by
  have hlength := h.promotions
  have hbalance := h.pool
  rw [List.length_cons] at hlength hbalance
  refine
    { loading := by rw [hrefills]; exact h.loading
      attempts := fun rf' hin => h.attempts rf' ?_
      promotions := ?_
      pool := ?_
      failures := ?_
      cutShort := ?_ }
  · rw [hrefills] at hin
    simp only [List.mem_append, List.mem_cons] at hin ⊢
    tauto
  · rw [hpromotions, ← hlength, List.length_append, List.length_singleton]
    dsimp only
    omega
  · rw [hpool, ← hbalance, List.countP_append, List.countP_singleton]
    cases e.restocked
    · simp
      omega
    · simp
      omega
  · intro e' he'
    rcases List.mem_append.1 he' with hin | hin
    · exact h.failures e' hin
    · rw [List.mem_singleton.1 hin]
      exact hmax
  · rw [List.countP_append, List.countP_append, List.countP_singleton, h.cutShort, hmore]

include hfailures

/-- The refill has joined the pool. -/
theorem ChainBooks.joined (hpool : s'.standbyPool = s.standbyPool ++ [rf.handle])
    (hrefills : s'.standbyRefills = s.standbyRefills)
    (hmore : more.countP (Submission.cutsShort w) = 0) :
    ChainBooks w s' left (c.polled s s' rf.attempt) (subs ++ more) := by
  have hgrown : s.standbyPool.length < s'.standbyPool.length := by simp [hpool]
  have hended : c.polled s s' rf.attempt
      = { c with ended := c.ended ++ [⟨rf.attempt + n, true⟩] } := by
    unfold RefillChains.polled
    dsimp only
    rw [if_pos hgrown, hfailures, Nat.add_sub_cancel_left]
  rw [hended]
  exact h.close hpromotions hrefills (by simp [hpool]) (fun hno => by cases hno) hmore

/-- The chain of the refill is over. -/
theorem ChainBooks.over (hpool : s'.standbyPool = s.standbyPool)
    (hrefills : s'.standbyRefills = s.standbyRefills)
    (hmax : rf.attempt + n ≤ standbyRefillMaxAttempts)
    (hmore : more.countP (Submission.cutsShort w)
      = if rf.attempt + n < standbyRefillMaxAttempts then 1 else 0) :
    ChainBooks w s' left (c.polled s s' rf.attempt) (subs ++ more) := by
  have hended : c.polled s s' rf.attempt
      = { c with ended := c.ended ++ [⟨rf.attempt + n, false⟩] } := by
    unfold RefillChains.polled
    dsimp only
    rw [if_neg (by rw [hpool]; exact lt_irrefl _), if_neg (by rw [hrefills]; exact lt_irrefl _),
      hfailures, Nat.add_sub_cancel_left]
  rw [hended]
  exact h.close hpromotions hrefills (by rw [hpool]; rfl) (fun _ => hmax)
    (by simpa [ChainEnd.cutShort] using hmore)

/-- The chain of the refill goes on, with a refill in flight. -/
theorem ChainBooks.goOn {rf' : Refill} (hpool : s'.standbyPool = s.standbyPool)
    (hrefills : s'.standbyRefills = s.standbyRefills ++ [rf'])
    (hattempt : rf'.attempt = rf.attempt + n) (hmax : rf'.attempt < standbyRefillMaxAttempts)
    (hmore : more.countP (Submission.cutsShort w) = 0) :
    ChainBooks w s' left (c.polled s s' rf.attempt) (subs ++ more) := by
  have hgrown : s.standbyRefills.length < s'.standbyRefills.length := by simp [hrefills]
  have hloading : c.polled s s' rf.attempt
      = { c with loading := c.loading ++ [rf'.attempt] } := by
    unfold RefillChains.polled
    dsimp only
    rw [if_neg (by rw [hpool]; exact lt_irrefl _), if_pos hgrown, hfailures,
      Nat.add_sub_cancel_left, hattempt]
  have hlength := h.promotions
  have hbalance := h.pool
  rw [List.length_cons] at hlength hbalance
  rw [hloading]
  refine
    { loading := by rw [hrefills, List.map_append, ← h.loading]; rfl
      attempts := fun rf'' hin => ?_
      promotions := ?_
      pool := ?_
      failures := h.failures
      cutShort := ?_ }
  · rw [hrefills] at hin
    simp only [List.mem_append, List.mem_singleton] at hin
    rcases hin with (hin | rfl) | hin
    · exact h.attempts rf'' (List.mem_append_left _ hin)
    · exact hmax
    · exact h.attempts rf'' (List.mem_append_right _ (List.mem_cons_of_mem _ hin))
  · rw [hpromotions, ← hlength, List.length_append, List.length_singleton]
    dsimp only
    omega
  · rw [hpool, ← hbalance, List.length_append, List.length_singleton]
    dsimp only
    omega
  · rw [h.cutShort, List.countP_append, hmore]
    rfl

end Poll

/-! ## Polling a refill -/

theorem pollRefill_of_fails {s : Sys σ} {rf : Refill} (h : refillFails w s rf = true) :
    pollRefill w s rf = failRefill w rf.handle rf.attempt (refillChecked w s rf) := by
  unfold refillFails at h
  unfold pollRefill refillChecked
  dsimp only at h ⊢
  split at h
  · next hready =>
      rw [if_pos hready, if_pos hready]
      cases hhealth : ((s.call w).reply w).health with
      | error exc => rfl
      | ok healthy =>
          cases hvalidate : ((s.call w).reply w).validate with
          | some exc => rfl
          | none =>
              rw [hhealth, hvalidate] at h
              cases h
  · next hwaiting =>
      rw [if_neg hwaiting, if_neg hwaiting, if_pos (by simpa using h)]

theorem pollRefill_of_not_fails {s : Sys σ} {rf : Refill} (h : refillFails w s rf = false) :
    (∃ healthy, pollRefill w s rf
        = sampleStandbyPool w ((((s.call w).call w).emit
            (.checked rf.handle (some (s.call w).ray.step))).joinPool rf.handle healthy))
      ∨ pollRefill w s rf
        = { (s.call w).call w with standbyRefills := s.standbyRefills ++ [rf] } := by
  unfold refillFails at h
  unfold pollRefill
  dsimp only at h ⊢
  split at h
  · next hready =>
      rw [if_pos hready]
      cases hhealth : ((s.call w).reply w).health with
      | error exc =>
          rw [hhealth] at h
          cases h
      | ok healthy =>
          cases hvalidate : ((s.call w).reply w).validate with
          | some exc =>
              rw [hhealth, hvalidate] at h
              cases h
          | none => exact .inl ⟨healthy, rfl⟩
  · next hwaiting =>
      rw [if_neg hwaiting, if_neg (by simpa using h)]
      exact .inr rfl

theorem startStandbyRefill_of_refused {attempt : Nat} {s : Sys σ}
    (h : (⟨attempt, s⟩ : Submission σ).refused w = true) :
    startStandbyRefill w attempt s = (s.call w).countRefillFailure := by
  obtain ⟨exc, hexc⟩ := Option.isSome_iff_exists.1 h
  have hreply : (s.reply w).construct = some exc := hexc
  unfold startStandbyRefill
  rw [hreply]

theorem startStandbyRefill_of_accepted {attempt : Nat} {s : Sys σ}
    (h : (⟨attempt, s⟩ : Submission σ).refused w = false) :
    ∃ time, startStandbyRefill w attempt s = ((s.call w).constructRefill.call w).addRefill
      ((s.call w).freshHandle (s.call w).nextWorkerId) time attempt := by
  have hreply : (s.reply w).construct = none :=
    Option.not_isSome_iff_eq_none.1 (Bool.not_eq_true _ ▸ h)
  unfold startStandbyRefill
  rw [hreply]
  exact ⟨_, rfl⟩

theorem ChainBooks.poll {s : Sys σ} {rf : Refill} {left : List Refill} {c : RefillChains}
    {subs : List (Submission σ)} (h : ChainBooks w s (rf :: left) c subs) :
    ChainBooks w (pollRefill w s rf) left (c.polled s (pollRefill w s rf) rf.attempt)
      (subs ++ pollSubmissions w s rf) := by
  have hattempt : rf.attempt < standbyRefillMaxAttempts := h.attempts rf (by simp)
  cases hfails : refillFails w s rf with
  | false =>
      have hnone : pollSubmissions w s rf = [] := if_neg (by simp [hfails])
      rw [hnone]
      rcases pollRefill_of_not_fails hfails with ⟨healthy, heq⟩ | heq
      · rw [heq]
        exact h.joined (n := 0) rfl rfl rfl rfl rfl
      · rw [heq]
        exact h.goOn (n := 0) rfl rfl rfl rfl rfl hattempt rfl
  | true =>
      rw [pollRefill_of_fails hfails]
      unfold failRefill pollSubmissions
      dsimp only
      generalize hkilled : killActor w (refillChecked w s rf).countRefillFailure rf.handle = killed
      have hchecked : (refillChecked w s rf).standbyPool = s.standbyPool ∧
          (refillChecked w s rf).standbyRefills = s.standbyRefills ∧
          (refillChecked w s rf).stats = s.stats := by
        simp only [refillChecked, Sys.emit, Sys.call, and_self]
      obtain ⟨hpool, hrefills, hstats⟩ := hchecked
      replace hpool : killed.standbyPool = s.standbyPool := by rw [← hkilled, ← hpool]; rfl
      replace hrefills : killed.standbyRefills = s.standbyRefills := by
        rw [← hkilled, ← hrefills]; rfl
      have hfailures : killed.stats.refillFailures = s.stats.refillFailures + 1 := by
        rw [← hkilled, ← hstats]; rfl
      have hpromotions : killed.stats.promotions = s.stats.promotions := by
        rw [← hkilled, ← hstats]; rfl
      by_cases hagain : rf.attempt + 1 < standbyRefillMaxAttempts
      · rw [if_pos hagain, if_pos ⟨hfails, hagain⟩]
        cases hrefused : (⟨rf.attempt + 1, killed⟩ : Submission σ).refused w with
        | false =>
            obtain ⟨time, heq⟩ := startStandbyRefill_of_accepted hrefused
            rw [heq]
            refine h.goOn hpromotions hfailures hpool (congrArg (· ++ [_]) hrefills) rfl hagain ?_
            rw [List.countP_singleton, Submission.cutsShort, hrefused, Bool.and_false]
            rfl
        | true =>
            rw [startStandbyRefill_of_refused hrefused]
            refine h.over (n := 2) hpromotions (congrArg (· + 1) hfailures) hpool hrefills hagain ?_
            rw [List.countP_singleton, Submission.cutsShort, hrefused, Bool.and_true]
            simp
      · rw [if_neg hagain, if_neg (fun hboth => hagain hboth.2)]
        exact h.over hpromotions hfailures hpool hrefills hattempt (by rw [if_neg hagain]; rfl)

theorem ChainBooks.pollAll : ∀ {refills : List Refill} {s : Sys σ} {c : RefillChains}
    {subs : List (Submission σ)}, ChainBooks w s refills c subs →
      ChainBooks w (refills.foldl (pollRefill w) s) []
        (RefillChains.pollAll w (refills.zip (refills.map Refill.attempt)) s c)
        (subs ++ pollAllSubmissions w refills s) := by
  intro refills
  induction refills with
  | nil =>
      intro s c subs h
      rw [pollAllSubmissions, List.append_nil]
      exact h
  | cons rf refills ih =>
      intro s c subs h
      rw [pollAllSubmissions, ← List.append_assoc]
      exact ih h.poll

/-! ## Promotions -/

theorem ChainBooks.promoted {s s' : Sys σ} {c : RefillChains} {subs more : List (Submission σ)}
    (h : ChainBooks w s [] c subs) (hp : Promoted w s s' more) :
    ChainBooks w s' [] (c.opened w more) (subs ++ more) := by
  have hsplit : more.length = more.countP (fun sub => sub.refused w)
      + more.countP (fun sub => !sub.refused w) := by
    rw [List.length_eq_countP_add_countP (fun sub => sub.refused w)]
    simp
  have hlength := h.promotions
  have hbalance := h.pool
  have hpool := hp.pool
  have hcount := hp.promotions
  rw [List.length_nil, Nat.add_zero] at hlength hbalance
  unfold RefillChains.opened
  refine
    { loading := by rw [hp.refills, ← h.loading]
      attempts := ?_
      promotions := ?_
      pool := ?_
      failures := ?_
      cutShort := ?_ }
  · intro rf hin
    rw [List.append_nil] at hin
    have hattempt := List.mem_map_of_mem (f := Refill.attempt) hin
    rw [hp.refills] at hattempt
    rcases List.mem_append.1 hattempt with hold | hnew
    · obtain ⟨rf', hin', heq⟩ := List.mem_map.1 hold
      rw [← heq]
      exact h.attempts rf' (List.mem_append_left _ hin')
    · rw [List.eq_of_mem_replicate hnew]
      decide
  · simp only [List.length_append, List.length_replicate, List.length_nil]
    omega
  · simp only [List.length_append, List.length_replicate, List.length_nil, List.countP_append,
      List.countP_replicate]
    simp
    omega
  · intro e he hlost
    rcases List.mem_append.1 he with hold | hnew
    · exact h.failures e hold hlost
    · rw [List.eq_of_mem_replicate hnew]
      decide
  · -- the constructor calls that raised were those of first attempts
    have hfirst : more.countP (Submission.cutsShort w)
        = more.countP (fun sub => sub.refused w) := by
      refine List.countP_congr (fun sub hsub => ?_)
      rw [Submission.cutsShort, hp.first sub hsub]
      simp [standbyRefillMaxAttempts]
    rw [List.countP_append, List.countP_append, h.cutShort, hfirst, List.countP_replicate]
    rfl

/-! ## At a loop head -/

theorem chainBooks_start {s : Sys σ} (h : startRun w = .ok s) : ChainBooks w s [] {} [] := by
  obtain ⟨s₁, batches, hcreate, -, h⟩ := startRun_phases h
  have hstarted := createWorkers_started hcreate
  obtain ⟨time, hstats⟩ := hstarted.stats
  generalize (List.range w.cfg.nWorkers).filter _ = available at h
  have hfill := fillPipeline_promoted (w := w) available
    { s₁ with pending := batches.map (fun batch => ⟨batch, 0⟩) }
  rw [← h] at hfill
  have hpool := hfill.pool
  have hpromotions := hfill.promotions
  have hrefills := hfill.refills
  simp only [hstarted.standbyRefills, hstarted.standbyPool, hstats, List.map_nil,
    List.nil_append, List.countP_nil, List.replicate_zero, List.length_nil, List.length_map,
    List.length_range', List.map_eq_nil_iff, Nat.add_zero] at hpool hpromotions hrefills
  refine ⟨?_, ?_, ?_, ?_, ?_, rfl⟩
  · rw [hrefills]
    rfl
  · rw [hrefills]
    exact fun rf hin => absurd hin List.not_mem_nil
  · rw [hpromotions]
    rfl
  · exact hpool
  · exact fun e he => absurd he List.not_mem_nil

/-- The iteration a loop head was reached by. -/
theorem after_succ_eq_head {s₀ s' : Sys σ} {k : Nat} (h : after w s₀ (k + 1) = .head s') :
    ∃ s, after w s₀ k = .head s ∧ ¬ s.idle ∧ iteration w s = .head s' := by
  rw [after, Function.iterate_succ_apply'] at h
  change advance w (after w s₀ k) = .head s' at h
  cases hk : after w s₀ k with
  | head s =>
      rw [hk, advance] at h
      split at h
      · cases h
      · next hidle => exact ⟨s, rfl, hidle, h⟩
  | exited s | aborted s | raised exc s =>
      rw [hk] at h
      cases h

theorem chainBooks_after {s₀ : Sys σ} (h : startRun w = .ok s₀) (k : Nat) :
    ∀ s, after w s₀ k = .head s →
      ChainBooks w s [] (chainsAfter w s₀ k) (submissionsAfter w s₀ k) := by
  induction k with
  | zero =>
      intro s hs
      cases hs
      exact chainBooks_start h
  | succ k ih =>
      intro s' hs'
      obtain ⟨s, hs, hidle, hiter⟩ := after_succ_eq_head hs'
      have hbooks := ih s hs
      rw [chainsAfter, submissionsAfter, hs]
      dsimp only
      rw [if_neg hidle, if_neg hidle, ← List.append_assoc]
      have hpolled : ChainBooks w { s with standbyRefills := [] } s.standbyRefills
          { (chainsAfter w s₀ k) with loading := [] } (submissionsAfter w s₀ k) := by
        have hlength := congrArg List.length hbooks.loading
        have hopened := hbooks.promotions
        have hpool := hbooks.pool
        rw [List.length_map] at hlength
        rw [List.length_nil, hlength] at hopened hpool
        refine ⟨rfl, ?_, ?_, ?_, hbooks.failures, hbooks.cutShort⟩
        · intro rf hin
          exact hbooks.attempts rf (by simpa using hin)
        · rw [← hopened, List.length_nil]
          dsimp only
          omega
        · rw [← hpool, List.length_nil]
          dsimp only
          omega
      unfold RefillChains.iterated
      rw [hbooks.loading]
      exact (hpolled.pollAll).promoted (iteration_promoted hiter)

/-- A chain that has not restocked the pool has used up its attempts, or was cut short. -/
theorem countP_lost {ended : List ChainEnd}
    (h : ∀ e ∈ ended, e.restocked = false → e.failures ≤ standbyRefillMaxAttempts) :
    ended.countP (fun e => !e.restocked)
      = ended.countP ChainEnd.exhausted + ended.countP ChainEnd.cutShort := by
  induction ended with
  | nil => rfl
  | cons e ended ih =>
      have hrest := ih (fun e' he' => h e' (List.mem_cons_of_mem _ he'))
      have hmax := h e List.mem_cons_self
      rw [List.countP_cons, List.countP_cons, List.countP_cons, hrest]
      cases hlost : e.restocked with
      | true => simp [ChainEnd.exhausted, ChainEnd.cutShort, hlost]
      | false =>
          rcases Nat.lt_or_eq_of_le (hmax hlost) with hlt | heq
          · simp [ChainEnd.exhausted, ChainEnd.cutShort, hlost, hlt, hlt.ne]
            omega
          · simp [ChainEnd.exhausted, ChainEnd.cutShort, hlost, heq]
            omega

/-- Where the pool is smaller than configured, chains have used up all their attempts. -/
structure ShrinksAfterThree (w : World σ) (s : Sys σ) (c : RefillChains) : Prop where
  opened : c.loading.length + c.ended.length = s.stats.promotions
  loading : c.loading.length = s.standbyRefills.length
  three : ∀ e ∈ c.ended, e.restocked = false → e.failures = standbyRefillMaxAttempts
  pool : s.standbyPool.length + s.standbyRefills.length
    = (w.cfg.standby : ℤ) - c.ended.countP ChainEnd.exhausted

/-- At every loop head, the chains account for the pool if and only if no constructor call of a
    first or second attempt has raised. -/
theorem shrinks_after_three_iff {s₀ s : Sys σ} (h : startRun w = .ok s₀) (k : Nat)
    (hs : after w s₀ k = .head s) :
    ShrinksAfterThree w s (chainsAfter w s₀ k)
      ↔ ∀ sub ∈ submissionsAfter w s₀ k, sub.attempt + 1 < standbyRefillMaxAttempts →
          sub.refused w = false := by
  have hbooks := chainBooks_after h k s hs
  generalize chainsAfter w s₀ k = c at hbooks ⊢
  generalize submissionsAfter w s₀ k = subs at hbooks ⊢
  have hopened := hbooks.promotions
  have hpool := hbooks.pool
  have hloading := congrArg List.length hbooks.loading
  rw [List.length_map] at hloading
  rw [List.length_nil] at hopened hpool
  have hlost := countP_lost hbooks.failures
  have hnone : (∀ sub ∈ subs, sub.attempt + 1 < standbyRefillMaxAttempts → sub.refused w = false)
      ↔ c.ended.countP ChainEnd.cutShort = 0 := by
    rw [hbooks.cutShort, List.countP_eq_zero]
    simp [Submission.cutsShort]
  rw [hnone]
  constructor
  · intro hall
    have hexact := hall.pool
    omega
  · intro hzero
    refine ⟨by omega, hloading, fun e he hlostE => ?_, by omega⟩
    have hmax := hbooks.failures e he hlostE
    have hnot := List.countP_eq_zero.1 hzero e he
    simp only [ChainEnd.cutShort, hlostE, Bool.not_false, Bool.true_and, decide_eq_true_eq] at hnot
    omega

theorem shrinks_after_three_iff_small : ∃ s₀ s, startRun smallWorld = .ok s₀ ∧
    after smallWorld s₀ 2 = .head s ∧
    (ShrinksAfterThree smallWorld s (chainsAfter smallWorld s₀ 2)
      ↔ ∀ sub ∈ submissionsAfter smallWorld s₀ 2, sub.attempt + 1 < standbyRefillMaxAttempts →
          sub.refused smallWorld = false) := by
  obtain ⟨s₀, s, h, hs, -⟩ := exists_head (w := smallWorld) (k := 2) (P := fun _ => True)
    (by decide +kernel)
  exact ⟨s₀, s, h, hs, shrinks_after_three_iff h 2 hs⟩

/-! ## A first attempt that is refused -/

def refusingConfig : Config where
  nWorkers := 1
  batchSize := 1
  standby := 1
  tasks := [⟨"a", none⟩]

/-- Once the run has started, no worker answers a health check and no constructor call goes
    through. -/
def refusingReply (step : Nat) : Reply :=
  if step < 8 then promptReply 1 step
  else
    { promptReply 1 step with
      health := .error ⟨"GetTimeoutError", "Get timed out"⟩
      construct := some ⟨"RuntimeError", "no more actors"⟩ }

def refusingWorld : World Unit where
  cfg := refusingConfig
  evaluateBatch := failingOn refusingConfig (fun _ => true)
  backend := ()
  env := refusingReply

/-- The one chain of the run has ended after one failure, and the pool stays empty. -/
theorem chain_cut_short : ∃ s₀ s, startRun refusingWorld = .ok s₀ ∧
    after refusingWorld s₀ 1 = .head s ∧
    (chainsAfter refusingWorld s₀ 1).loading = [] ∧
    (chainsAfter refusingWorld s₀ 1).ended = [⟨1, false⟩] ∧
    s.stats.promotions = 1 ∧ s.standbyPool = [] ∧ s.standbyRefills = [] ∧
    refusingWorld.cfg.standby = 1 ∧
    ¬ ShrinksAfterThree refusingWorld s (chainsAfter refusingWorld s₀ 1) := by
  obtain ⟨s₀, h, hrun⟩ := exists_startRun (w := refusingWorld)
    (P := fun s₀ => (after refusingWorld s₀ 1).head?.any (fun s =>
      (chainsAfter refusingWorld s₀ 1).loading = [] ∧
      (chainsAfter refusingWorld s₀ 1).ended = [⟨1, false⟩] ∧
      s.stats.promotions = 1 ∧ s.standbyPool = [] ∧ s.standbyRefills = [])) (by decide +kernel)
  obtain ⟨s, hs, hP⟩ := (Option.any_eq_true _ _).1 hrun
  obtain ⟨hloading, hended, hpromotions, hpool, hrefills⟩ := of_decide_eq_true hP
  refine ⟨s₀, s, h, Status.head?_eq_some.1 hs, hloading, hended, hpromotions, hpool, hrefills, rfl,
    fun hall => ?_⟩
  have hthree := hall.three ⟨1, false⟩ (by rw [hended]; exact List.mem_singleton_self _) rfl
  exact absurd hthree (by decide)

end EvalHarness
