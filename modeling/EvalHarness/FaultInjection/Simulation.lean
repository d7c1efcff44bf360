import EvalHarness.FaultInjection
import EvalHarness.Lib.Mailbox

set_option autoImplicit false

/-! # Sharding the decider changes no answer

The shards of `ShardedFailureDecider` are actors: whoever asks sends the query to the shard of its
key, and each shard answers its own queries in the order in which they were sent. The answer to a
query depends on how often its key has been asked about before; all queries for a key go to one
shard, so the shard has counted them as a single decider would have. -/

namespace EvalHarness

open Mailbox

/-- What `should_fail` is called with. -/
abbrev Query := BatchKey × ℚ

/-! ## One decider -/

namespace FailureDecider

variable (decision : Decision)

/-- One decider executes one query. -/
def exec (d : FailureDecider) (query : Query) : Bool × FailureDecider :=
  d.shouldFail decision query.1 query.2

@[simp] theorem exec_seed (d : FailureDecider) (query : Query) :
    (d.exec decision query).2.seed = d.seed := rfl

@[simp] theorem runCalls_seed (d : FailureDecider) (queries : List Query) :
    (runCalls (exec decision) d queries).seed = d.seed := by
  induction queries generalizing d with
  | nil => rfl
  | cons query queries ih => simpa [runCalls] using ih (d.exec decision query).2

/-- The attempt map counts the queries of each key, and has no other keys. -/
theorem runCalls_attempts (seed : Int) (queries : List Query) (key : BatchKey) :
    (runCalls (exec decision) ⟨seed, Dict.empty⟩ queries).attempts.get? key
      = if key ∈ queries.map Prod.fst then some ((queries.map Prod.fst).count key) else none := by
  induction queries using List.reverseRecOn with
  | nil => rfl
  | append_singleton queries query ih =>
      have hset : (runCalls (exec decision) ⟨seed, Dict.empty⟩ (queries ++ [query])).attempts
          = (runCalls (exec decision) ⟨seed, Dict.empty⟩ queries).attempts.set query.1
            ((runCalls (exec decision) ⟨seed, Dict.empty⟩ queries).attempt query.1 + 1) := by
        simp [runCalls, exec, shouldFail]
      rw [hset, Dict.get?_set, ih]
      by_cases hkey : key = query.1
      · subst hkey
        simp only [attempt, ih]
        by_cases hmem : query.1 ∈ queries.map Prod.fst
        · simp [hmem]
        · simp [hmem, List.count_eq_zero_of_not_mem hmem]
      · have hmem : key ∈ (queries ++ [query]).map Prod.fst ↔ key ∈ queries.map Prod.fst := by
          simp [hkey]
        simp only [if_neg hkey, hmem]
        simp [Ne.symm hkey]

theorem runCalls_attempt (seed : Int) (queries : List Query) (key : BatchKey) :
    (runCalls (exec decision) ⟨seed, Dict.empty⟩ queries).attempt key
      = (queries.map Prod.fst).count key := by
  rw [attempt, runCalls_attempts]
  by_cases hmem : key ∈ queries.map Prod.fst
  · simp [hmem]
  · simp [hmem, List.count_eq_zero_of_not_mem hmem]

/-- The answer to a query, from the number of earlier queries for its key. -/
theorem exec_runCalls (seed : Int) (queries : List Query) (query : Query) :
    (exec decision (runCalls (exec decision) ⟨seed, Dict.empty⟩ queries) query).1
      = decision seed query.1 ((queries.map Prod.fst).count query.1) query.2 := by
  show decision _ _ (attempt _ _) _ = _
  rw [runCalls_seed, runCalls_attempt]

end FailureDecider

/-! ## Many deciders -/

namespace ShardedFailureDecider

variable (stableSeed : BatchKey → Nat) (decision : Decision)

/-- The callers send each query to the shard of its key, `_ShardRouterMethod.remote`, and the shards
    answer. -/
abbrev Run (d : ShardedFailureDecider) :
    Actors (Fin d.nShards) FailureDecider Query Bool →
      Actors (Fin d.nShards) FailureDecider Query Bool → Prop :=
  Mailbox.Run (FailureDecider.exec decision) (fun c => c.1 = d.shardFor stableSeed c.2.1)

variable {stableSeed decision}

/-- Among the queries sent to a shard are all those for its keys. -/
theorem count_callsTo {d : ShardedFailureDecider} {sent : List (Fin d.nShards × Query)}
    (hsent : ∀ c ∈ sent, c.1 = d.shardFor stableSeed c.2.1) (key : BatchKey) (i : Fin d.nShards) :
    ((callsTo i sent).map Prod.fst).count key
      = if d.shardFor stableSeed key = i then ((sent.map Prod.snd).map Prod.fst).count key
        else 0 := by
  induction sent with
  | nil => simp [callsTo]
  | cons c sent ih =>
      have hc : c.1 = d.shardFor stableSeed c.2.1 := hsent c List.mem_cons_self
      have ih' := ih (fun c' hc' => hsent c' (List.mem_cons_of_mem _ hc'))
      by_cases hi : c.1 = i
      · by_cases hkey : c.2.1 = key
        · subst hkey
          have hshard : d.shardFor stableSeed c.2.1 = i := hc ▸ hi
          simp_all [callsTo]
        · simp_all [callsTo]
      · by_cases hkey : c.2.1 = key
        · subst hkey
          have hshard : d.shardFor stableSeed c.2.1 ≠ i := hc ▸ hi
          simp_all [callsTo]
        · simp_all [callsTo]

/-- A query is answered as one decider answers it. -/
theorem replyOf_eq {d : ShardedFailureDecider} {seed : Int}
    (hd : ∀ i, d.shards i = ⟨seed, Dict.empty⟩) {sent : List (Fin d.nShards × Query)}
    (hsent : ∀ c ∈ sent, c.1 = d.shardFor stableSeed c.2.1) (n : Nat) :
    replyOf (FailureDecider.exec decision) d.shards sent n
      = (repliesTo (FailureDecider.exec decision) ⟨seed, Dict.empty⟩ (sent.map Prod.snd))[n]? := by
  rw [repliesTo_getElem?, replyOf, List.getElem?_map, Option.map_map]
  cases hc : sent[n]? with
  | none => rfl
  | some c =>
      have hbefore : ∀ c' ∈ sent.take n, c'.1 = d.shardFor stableSeed c'.2.1 :=
        fun c' hc' => hsent c' (List.mem_of_mem_take hc')
      have hcount := count_callsTo hbefore c.2.1 c.1
      rw [if_pos (hsent c (List.mem_of_getElem? hc)).symm] at hcount
      refine congrArg some ?_
      simp only [Function.comp_apply, hd, FailureDecider.exec_runCalls, ← List.map_take, hcount]

/-- Whoever waits for the answer to a query before anything else is sent, as `ray.get` around
    `should_fail.remote` does, gets what `shouldFail` says, and leaves the deciders it says. -/
theorem send_execute (d : ShardedFailureDecider)
    {s : Actors (Fin d.nShards) FailureDecider Query Bool}
    (hs : s.state = d.shards) (hquiet : s.Quiet) (key : BatchKey) (rate : ℚ) :
    let asked := (s.send (d.shardFor stableSeed key) (key, rate)).execute
      (FailureDecider.exec decision) (d.shardFor stableSeed key)
    asked.answers s.sent.length = some (d.shouldFail stableSeed decision key rate).1
      ∧ asked.state = (d.shouldFail stableSeed decision key rate).2.shards ∧ asked.Quiet := by
  have hmail : (s.send (d.shardFor stableSeed key) (key, rate)).mailbox (d.shardFor stableSeed key)
      = [(s.sent.length, (key, rate))] := by
    simp [Actors.send, hquiet _]
  simp only [Actors.execute, hmail]
  refine ⟨?_, ?_, fun i => ?_⟩
  · simp [Actors.send, hs, FailureDecider.exec, shouldFail]
  · simp [Actors.send, hs, FailureDecider.exec, shouldFail]
  · by_cases hi : i = d.shardFor stableSeed key
    · simp [hi]
    · simp [Actors.send, hi, hquiet i]

/-- The shards answer, and count, as one decider with the seed that is asked the same queries in the
    order of sending. -/
structure SimulatesSingle (decision : Decision) (seed : Int) {nShards : Nat}
    (s : Actors (Fin nShards) FailureDecider Query Bool) : Prop where
  answer : ∀ n answer, s.answers n = some answer →
    (repliesTo (FailureDecider.exec decision) ⟨seed, Dict.empty⟩ (s.sent.map Prod.snd))[n]?
      = some answer
  complete : s.Quiet → ∀ n, s.answers n
    = (repliesTo (FailureDecider.exec decision) ⟨seed, Dict.empty⟩ (s.sent.map Prod.snd))[n]?
  counted : s.Quiet → ∀ key, key ∈ (s.sent.map Prod.snd).map Prod.fst →
    ∃ i, (s.state i).attempts.get? key = some (((s.sent.map Prod.snd).map Prod.fst).count key)
      ∧ ∀ j, key ∈ (s.state j).attempts.keys → j = i

/-- Whatever is asked, by whomever and in whatever order, and however the shards take turns: each
    answer is the one a single decider gives, and in the end the queries of each key are counted in
    one shard. -/
theorem simulates_single (stableSeed : BatchKey → Nat) (decision : Decision) (seed : Int)
    {nShards : Nat} (hpos : 1 ≤ nShards) :
    ∃ d, init seed nShards = .ok d ∧ ∀ s, d.Run stableSeed decision (Actors.start d.shards) s →
      SimulatesSingle decision seed s := by
  refine ⟨fresh seed nShards hpos, by simp [init, Nat.not_lt.2 hpos], fun s hrun => ?_⟩
  have hsent := hrun.sent_allowed
  have hreply : ∀ n,
      replyOf (FailureDecider.exec decision) (fresh seed nShards hpos).shards s.sent n
      = (repliesTo (FailureDecider.exec decision) ⟨seed, Dict.empty⟩ (s.sent.map Prod.snd))[n]? :=
    replyOf_eq (fun _ => rfl) hsent
  refine ⟨fun n answer hanswer => ?_, fun hquiet n => ?_, fun hquiet key hkey => ?_⟩
  · rw [← hreply]
    exact hrun.answer_eq hanswer
  · rw [← hreply]
    exact hrun.answers_of_quiet hquiet n
  · have hstate : ∀ i, (s.state i).attempts.get? key
        = if (fresh seed nShards hpos).shardFor stableSeed key = i
          then some (((s.sent.map Prod.snd).map Prod.fst).count key) else none := by
      intro i
      have hcount := count_callsTo hsent key i
      rw [hrun.state_of_done (hquiet i)]
      refine (FailureDecider.runCalls_attempts decision seed _ key).trans ?_
      by_cases hi : (fresh seed nShards hpos).shardFor stableSeed key = i
      · rw [if_pos hi] at hcount ⊢
        rw [hcount, if_pos (List.count_pos_iff.1 (hcount ▸ List.count_pos_iff.2 hkey))]
      · rw [if_neg hi] at hcount ⊢
        rw [if_neg (List.count_eq_zero.1 hcount)]
    refine ⟨(fresh seed nShards hpos).shardFor stableSeed key, by rw [hstate, if_pos rfl], ?_⟩
    intro j hj
    rw [← Dict.get?_isSome_iff, hstate] at hj
    by_contra hne
    rw [if_neg (Ne.symm hne)] at hj
    cases hj

/-- Two shards, a key asked about twice, and the shard of the other key answering first. -/
theorem simulates_single_two :
    ∃ d s, init 7 2 = .ok d
      ∧ d.Run List.length (fun _ _ attempt _ => attempt == 0) (Actors.start d.shards) s
      ∧ s.Quiet ∧ s.answers 0 = some true ∧ s.answers 2 = some false
      ∧ SimulatesSingle (fun _ _ attempt _ => attempt == 0) 7 s := by
  obtain ⟨d, hd, hsim⟩ :=
    simulates_single List.length (fun _ _ attempt _ => attempt == 0) 7 (show 1 ≤ 2 by decide)
  cases hd
  let d := fresh 7 2 two_pos
  let a := d.shardFor List.length ["a"]
  let ab := d.shardFor List.length ["a", "b"]
  let exec := FailureDecider.exec (fun _ _ attempt _ => attempt == 0)
  let s := (((((Actors.start d.shards).send a (["a"], 1)).send ab (["a", "b"], 1)).execute exec
    ab).send a (["a"], 1 / 2)).execute exec a |>.execute exec a
  have hrun : d.Run List.length (fun _ _ attempt _ => attempt == 0) (Actors.start d.shards) s :=
    .tail (.tail (.tail (.tail (.tail (.single (.send _ a _ rfl)) (.send _ ab _ rfl))
      (.execute _ ab)) (.send _ a _ rfl)) (.execute _ a)) (.execute _ a)
  have hquiet : s.Quiet := Fin.forall_fin_two.2
    ⟨List.isEmpty_iff.1 (by decide +kernel), List.isEmpty_iff.1 (by decide +kernel)⟩
  exact ⟨d, s, rfl, hrun, hquiet, by decide +kernel, by decide +kernel, hsim s hrun⟩

end ShardedFailureDecider

end EvalHarness
