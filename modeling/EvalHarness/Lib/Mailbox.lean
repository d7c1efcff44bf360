import Mathlib

set_option autoImplicit false

/-! # Actors with mailboxes

Several actors, each with a state of its own, execute the calls sent to them: one call at a time,
and each actor its own calls in the order in which they were sent. Which actor executes next is
open, and so is how long a call waits. What comes out does not depend on it: a call is answered as
if every earlier call to the same actor, and no other, had been executed before it. -/

namespace Mailbox

variable {ι σ κ ρ : Type}

/-! ## Calls in the order of sending -/

/-- The state after executing calls one after the other. -/
def runCalls (exec : σ → κ → ρ × σ) (state : σ) (calls : List κ) : σ :=
  calls.foldl (fun state call => (exec state call).2) state

/-- The replies to calls executed one after the other. -/
def repliesTo (exec : σ → κ → ρ × σ) : σ → List κ → List ρ
  | _, [] => []
  | state, call :: calls => (exec state call).1 :: repliesTo exec (exec state call).2 calls

@[simp] theorem runCalls_append (exec : σ → κ → ρ × σ) (state : σ) (calls more : List κ) :
    runCalls exec state (calls ++ more) = runCalls exec (runCalls exec state calls) more :=
  List.foldl_append

theorem repliesTo_getElem? (exec : σ → κ → ρ × σ) (state : σ) (calls : List κ) (n : ℕ) :
    (repliesTo exec state calls)[n]?
      = calls[n]?.map (fun call => (exec (runCalls exec state (calls.take n)) call).1) := by
  induction calls generalizing state n with
  | nil => rfl
  | cons call calls ih =>
      cases n with
      | zero => rfl
      | succ n => simpa [repliesTo, runCalls] using ih (exec state call).2 n

variable [DecidableEq ι]

/-- The calls sent to one actor. -/
def callsTo (i : ι) (sent : List (ι × κ)) : List κ :=
  (sent.filter (fun c => c.1 = i)).map Prod.snd

/-- The calls sent to one actor, each with its number among all the calls sent. -/
def numbered (i : ι) (sent : List (ι × κ)) : List (ℕ × κ) :=
  sent.zipIdx.filterMap (fun c => if c.1.1 = i then some (c.2, c.1.2) else none)

@[simp] theorem callsTo_append (i : ι) (sent more : List (ι × κ)) :
    callsTo i (sent ++ more) = callsTo i sent ++ callsTo i more := by
  simp [callsTo]

@[simp] theorem numbered_nil (i : ι) : numbered i ([] : List (ι × κ)) = [] := rfl

theorem numbered_snoc (i : ι) (sent : List (ι × κ)) (c : ι × κ) :
    numbered i (sent ++ [c])
      = numbered i sent ++ if c.1 = i then [(sent.length, c.2)] else [] := by
  by_cases h : c.1 = i <;> simp [numbered, List.zipIdx_append, h]

theorem numbered_snd (i : ι) (sent : List (ι × κ)) :
    (numbered i sent).map Prod.snd = callsTo i sent := by
  induction sent using List.reverseRecOn with
  | nil => rfl
  | append_singleton sent c ih =>
      rw [numbered_snoc, List.map_append, ih, callsTo_append]
      by_cases h : c.1 = i <;> simp [callsTo, h]

/-- The calls in front of a call are the earlier calls to the same actor. -/
theorem numbered_split {i : ι} {sent : List (ι × κ)} {before after : List (ℕ × κ)} {n : ℕ}
    {call : κ} (h : numbered i sent = before ++ (n, call) :: after) :
    sent[n]? = some (i, call) ∧ before.map Prod.snd = callsTo i (sent.take n) := by
  induction sent using List.reverseRecOn generalizing after with
  | nil => simp at h
  | append_singleton sent c ih =>
      have hearlier : ∀ after, numbered i sent = before ++ (n, call) :: after →
          (sent ++ [c])[n]? = some (i, call)
            ∧ before.map Prod.snd = callsTo i ((sent ++ [c]).take n) := by
        intro after hsent
        obtain ⟨hget, hbefore⟩ := ih hsent
        have hlt : n < sent.length := (List.getElem?_eq_some_iff.1 hget).1
        rw [List.getElem?_append_left hlt, List.take_append_of_le_length hlt.le]
        exact ⟨hget, hbefore⟩
      rw [numbered_snoc] at h
      by_cases hc : c.1 = i
      · rw [if_pos hc] at h
        rcases List.eq_nil_or_concat after with rfl | ⟨front, last, rfl⟩
        · -- it is the call sent last
          obtain ⟨hbefore, hlast⟩ := List.append_inj' h rfl
          obtain ⟨rfl, rfl⟩ := Prod.ext_iff.1 (List.singleton_inj.1 hlast)
          subst hc
          refine ⟨by simp, ?_⟩
          rw [← hbefore, numbered_snd, List.take_left]
        · refine hearlier front ?_
          rw [List.concat_eq_append, ← List.cons_append, ← List.append_assoc] at h
          exact (List.append_inj' h rfl).1
      · rw [if_neg hc, List.append_nil] at h
        exact hearlier after h

theorem mem_numbered {i : ι} {sent : List (ι × κ)} {n : ℕ} {call : κ} :
    (n, call) ∈ numbered i sent ↔ sent[n]? = some (i, call) := by
  constructor
  · intro h
    obtain ⟨before, after, hsplit⟩ := List.append_of_mem h
    exact (numbered_split hsplit).1
  · intro h
    refine List.mem_filterMap.2 ⟨((i, call), n), ?_, by simp⟩
    simpa [List.mem_zipIdx_iff_getElem?] using h

/-- The numbers of the calls to one actor increase. -/
theorem numbered_pairwise (i : ι) (sent : List (ι × κ)) :
    (numbered i sent).Pairwise (fun a b => a.1 < b.1) := by
  induction sent using List.reverseRecOn with
  | nil => exact List.Pairwise.nil
  | append_singleton sent c ih =>
      rw [numbered_snoc]
      by_cases hc : c.1 = i
      · rw [if_pos hc]
        refine List.pairwise_append.2 ⟨ih, List.pairwise_singleton _ _, fun a ha b hb => ?_⟩
        rw [List.mem_singleton.1 hb]
        exact (List.getElem?_eq_some_iff.1 (mem_numbered.1 ha)).1
      · simpa [if_neg hc] using ih

/-! ## The actors -/

/-- The actors: their states, the calls that wait at each, every call sent so far, and the answers
    there are by now, by the number of the call. -/
structure Actors (ι σ κ ρ : Type) where
  state : ι → σ
  mailbox : ι → List (ℕ × κ)
  sent : List (ι × κ)
  answers : ℕ → Option ρ

namespace Actors

/-- Nothing has been sent. -/
def start (init : ι → σ) : Actors ι σ κ ρ := ⟨init, fun _ => [], [], fun _ => none⟩

/-- Send a call. -/
def send (s : Actors ι σ κ ρ) (i : ι) (call : κ) : Actors ι σ κ ρ :=
  { s with
    mailbox := Function.update s.mailbox i (s.mailbox i ++ [(s.sent.length, call)])
    sent := s.sent ++ [(i, call)] }

/-- Let an actor execute the call that waits at the front of its mailbox. -/
def execute (exec : σ → κ → ρ × σ) (s : Actors ι σ κ ρ) (i : ι) : Actors ι σ κ ρ :=
  match s.mailbox i with
  | [] => s
  | (n, call) :: rest =>
      { s with
        state := Function.update s.state i (exec (s.state i) call).2
        mailbox := Function.update s.mailbox i rest
        answers := Function.update s.answers n (some (exec (s.state i) call).1) }

/-- Send several calls. -/
def sendAll (s : Actors ι σ κ ρ) (calls : List (ι × κ)) : Actors ι σ κ ρ :=
  calls.foldl (fun s c => s.send c.1 c.2) s

/-- Let actors execute in turn. -/
def executeAll (exec : σ → κ → ρ × σ) (s : Actors ι σ κ ρ) (turns : List ι) : Actors ι σ κ ρ :=
  turns.foldl (fun s i => s.execute exec i) s

@[simp] theorem sent_execute (exec : σ → κ → ρ × σ) (s : Actors ι σ κ ρ) (i : ι) :
    (s.execute exec i).sent = s.sent := by
  unfold execute
  split <;> rfl

/-- No call waits anywhere. -/
def Quiet (s : Actors ι σ κ ρ) : Prop := ∀ i, s.mailbox i = []

end Actors

open Actors

/-- A caller sends a call, which only some calls are `allowed` for, or an actor executes one. -/
inductive Step (exec : σ → κ → ρ × σ) (allowed : ι × κ → Prop) :
    Actors ι σ κ ρ → Actors ι σ κ ρ → Prop
  | send (s : Actors ι σ κ ρ) (i : ι) (call : κ) (h : allowed (i, call)) :
      Step exec allowed s (s.send i call)
  | execute (s : Actors ι σ κ ρ) (i : ι) : Step exec allowed s (s.execute exec i)

abbrev Run (exec : σ → κ → ρ × σ) (allowed : ι × κ → Prop) :
    Actors ι σ κ ρ → Actors ι σ κ ρ → Prop :=
  Relation.ReflTransGen (Step exec allowed)

/-- What a call is answered by an actor that has executed the earlier calls to it. -/
def replyOf (exec : σ → κ → ρ × σ) (init : ι → σ) (sent : List (ι × κ)) (n : ℕ) : Option ρ :=
  sent[n]?.map (fun c => (exec (runCalls exec (init c.1) (callsTo c.1 (sent.take n))) c.2).1)

theorem replyOf_snoc (exec : σ → κ → ρ × σ) (init : ι → σ) {sent : List (ι × κ)} (c : ι × κ)
    {n : ℕ} (h : n < sent.length) :
    replyOf exec init (sent ++ [c]) n = replyOf exec init sent n := by
  rw [replyOf, List.getElem?_append_left h, List.take_append_of_le_length h.le, replyOf]

theorem replyOf_eq_none {exec : σ → κ → ρ × σ} {init : ι → σ} {sent : List (ι × κ)} {n : ℕ}
    (h : sent.length ≤ n) : replyOf exec init sent n = none := by
  rw [replyOf, List.getElem?_eq_none h, Option.map_none]

/-- What holds in every run: each actor has executed its calls up to those in its mailbox, and a
    call is answered as soon as it does not wait any more. -/
structure Orderly (exec : σ → κ → ρ × σ) (init : ι → σ) (s : Actors ι σ κ ρ) : Prop where
  executed : ∀ i, ∃ done, numbered i s.sent = done ++ s.mailbox i
    ∧ s.state i = runCalls exec (init i) (done.map Prod.snd)
  waiting : ∀ i n call, (n, call) ∈ s.mailbox i → s.answers n = none
  answered : ∀ n, (∀ i call, (n, call) ∉ s.mailbox i) → s.answers n = replyOf exec init s.sent n

variable {exec : σ → κ → ρ × σ} {init : ι → σ} {allowed : ι × κ → Prop} {s s' : Actors ι σ κ ρ}

namespace Orderly

theorem start : Orderly exec init (start init) where
  executed := fun _ => ⟨[], rfl, rfl⟩
  waiting := fun _ _ _ h => absurd h List.not_mem_nil
  answered := fun _ _ => rfl

theorem sent_of_mem (h : Orderly exec init s) {i : ι} {n : ℕ} {call : κ}
    (hmem : (n, call) ∈ s.mailbox i) : s.sent[n]? = some (i, call) := by
  obtain ⟨done, hdone, _⟩ := h.executed i
  refine mem_numbered.1 ?_
  rw [hdone]
  exact List.mem_append_right done hmem

theorem lt_of_mem (h : Orderly exec init s) {i : ι} {n : ℕ} {call : κ}
    (hmem : (n, call) ∈ s.mailbox i) : n < s.sent.length :=
  (List.getElem?_eq_some_iff.1 (h.sent_of_mem hmem)).1

theorem send (h : Orderly exec init s) (i : ι) (call : κ) : Orderly exec init (s.send i call) := by
  have hmem : ∀ j n call', (n, call') ∈ (s.send i call).mailbox j ↔
      (n, call') ∈ s.mailbox j ∨ j = i ∧ n = s.sent.length ∧ call' = call := by
    intro j n call'
    by_cases hj : j = i
    · subst hj
      simp [Actors.send]
    · simp [Actors.send, hj]
  refine ⟨fun j => ?_, fun j n call' hin => ?_, fun n hnot => ?_⟩
  · obtain ⟨done, hdone, hstate⟩ := h.executed j
    refine ⟨done, ?_, hstate⟩
    by_cases hj : j = i
    · subst hj
      simp [Actors.send, numbered_snoc, hdone]
    · simp [Actors.send, numbered_snoc, hdone, hj, Ne.symm hj]
  · rcases (hmem j n call').1 hin with hold | ⟨rfl, rfl, rfl⟩
    · exact h.waiting j n call' hold
    · -- no call has had the number before
      refine (h.answered _ (fun k c hk => ?_)).trans (replyOf_eq_none le_rfl)
      exact absurd (h.lt_of_mem hk) (lt_irrefl _)
  · have hne : n ≠ s.sent.length :=
      fun heq => hnot i call ((hmem i n call).2 (Or.inr ⟨rfl, heq, rfl⟩))
    have hold : s.answers n = replyOf exec init s.sent n :=
      h.answered n (fun j c hin => hnot j c ((hmem j n c).2 (Or.inl hin)))
    refine hold.trans ?_
    rcases lt_or_gt_of_ne hne with hlt | hgt
    · exact (replyOf_snoc exec init (i, call) hlt).symm
    · rw [replyOf_eq_none hgt.le, replyOf_eq_none (by simpa [Actors.send] using hgt)]

theorem execute (h : Orderly exec init s) (i : ι) : Orderly exec init (s.execute exec i) := by
  unfold Actors.execute
  split
  · exact h
  · next n₀ call₀ rest hmail =>
    obtain ⟨done, hdone, hstate⟩ := h.executed i
    rw [hmail] at hdone
    obtain ⟨hsent, hbefore⟩ := numbered_split hdone
    have hmem : ∀ j n call, (n, call) ∈ Function.update s.mailbox i rest j →
        (n, call) ∈ s.mailbox j ∧ n ≠ n₀ := by
      intro j n call hin
      have hold : (n, call) ∈ s.mailbox j := by
        by_cases hj : j = i
        · subst hj
          rw [Function.update_self] at hin
          exact hmail ▸ List.mem_cons_of_mem _ hin
        · rwa [Function.update_of_ne hj] at hin
      refine ⟨hold, fun heq => ?_⟩
      subst heq
      -- a call has its number alone, and it has left the mailbox
      obtain ⟨rfl, rfl⟩ := Prod.ext_iff.1 (Option.some.inj ((h.sent_of_mem hold).symm.trans hsent))
      rw [Function.update_self] at hin
      obtain ⟨between, after, rfl⟩ := List.append_of_mem hin
      rw [← List.cons_append, ← List.append_assoc] at hdone
      have hlen := congrArg List.length (hbefore.trans (numbered_split hdone).2.symm)
      simp at hlen
    refine ⟨fun j => ?_, fun j n call hin => ?_, fun n hnot => ?_⟩
    · by_cases hj : j = i
      · subst hj
        refine ⟨done ++ [(n₀, call₀)], ?_, ?_⟩
        · simp [hdone]
        · simp [hstate, runCalls]
      · obtain ⟨done', hdone', hstate'⟩ := h.executed j
        exact ⟨done', by simpa [hj] using hdone', by simpa [hj] using hstate'⟩
    · obtain ⟨hold, hne⟩ := hmem j n call hin
      exact (Function.update_of_ne hne _ _).trans (h.waiting j n call hold)
    · by_cases hn : n = n₀
      · subst hn
        refine (Function.update_self _ _ _).trans ?_
        rw [replyOf, hsent, Option.map_some, hstate, hbefore]
      · refine (Function.update_of_ne hn _ _).trans ?_
        refine h.answered n (fun j call hin => hnot j call ?_)
        by_cases hj : j = i
        · subst hj
          rw [hmail] at hin
          rcases List.mem_cons.1 hin with heq | hin
          · exact absurd (Prod.ext_iff.1 heq).1 hn
          · simpa using hin
        · simpa [hj] using hin

end Orderly

theorem Run.orderly (h : Run exec allowed (Actors.start init) s) : Orderly exec init s := by
  induction h with
  | refl => exact Orderly.start
  | tail _ hstep ih =>
      cases hstep with
      | send i call _ => exact ih.send i call
      | execute i => exact ih.execute i

/-! ## What comes out -/

theorem Run.sent_allowed (h : Run exec allowed (Actors.start init) s) :
    ∀ c ∈ s.sent, allowed c := by
  induction h with
  | refl => exact fun c hc => absurd hc List.not_mem_nil
  | tail _ hstep ih =>
      cases hstep with
      | send i call hallowed =>
          intro c hc
          rcases List.mem_append.1 hc with hc | hc
          · exact ih c hc
          · rwa [List.mem_singleton.1 hc]
      | execute i => rwa [Actors.sent_execute]

theorem Run.sendAll {s₀ : Actors ι σ κ ρ} (h : Run exec allowed s₀ s) {calls : List (ι × κ)}
    (hallowed : ∀ c ∈ calls, allowed c) : Run exec allowed s₀ (s.sendAll calls) := by
  induction calls generalizing s with
  | nil => exact h
  | cons c calls ih =>
      exact ih (h.tail (.send s c.1 c.2 (hallowed c List.mem_cons_self)))
        (fun c' hc' => hallowed c' (List.mem_cons_of_mem _ hc'))

theorem Run.executeAll {s₀ : Actors ι σ κ ρ} (h : Run exec allowed s₀ s) (turns : List ι) :
    Run exec allowed s₀ (s.executeAll exec turns) := by
  induction turns generalizing s with
  | nil => exact h
  | cons i turns ih => exact ih (h.tail (.execute s i))

/-- An answer is the one in the order of sending, however the actors have taken turns. -/
theorem Run.answer_eq (h : Run exec allowed (Actors.start init) s) {n : ℕ} {answer : ρ}
    (ha : s.answers n = some answer) : replyOf exec init s.sent n = some answer := by
  rw [← ha]
  refine (h.orderly.answered n (fun i call hin => ?_)).symm
  rw [h.orderly.waiting i n call hin] at ha
  cases ha

/-- Once no call waits, every call is answered. -/
theorem Run.answers_of_quiet (h : Run exec allowed (Actors.start init) s) (hq : s.Quiet) (n : ℕ) :
    s.answers n = replyOf exec init s.sent n :=
  h.orderly.answered n (fun i call hin => by
    rw [hq i] at hin
    exact List.not_mem_nil hin)

/-- Once the last call to an actor is answered, no call waits there. -/
theorem Run.done_of_answered (h : Run exec allowed (Actors.start init) s) {i : ι} {n : ℕ} {call : κ}
    (hcall : s.sent[n]? = some (i, call)) (hlast : ∀ m c, s.sent[m]? = some (i, c) → m ≤ n)
    (ha : (s.answers n).isSome) : s.mailbox i = [] := by
  obtain ⟨done, hdone, _⟩ := h.orderly.executed i
  have hmem : (n, call) ∈ done ++ s.mailbox i := hdone ▸ mem_numbered.2 hcall
  rcases List.mem_append.1 hmem with hexecuted | hwaits
  · refine List.eq_nil_iff_forall_not_mem.2 (fun later hlater => ?_)
    have hpairwise := numbered_pairwise i s.sent
    rw [hdone] at hpairwise
    have hlt := (List.pairwise_append.1 hpairwise).2.2 _ hexecuted later hlater
    exact absurd (hlast _ _ (h.orderly.sent_of_mem hlater)) (not_le.2 hlt)
  · rw [h.orderly.waiting i n call hwaits] at ha
    cases ha

/-! ## Everything can be executed -/

variable (exec) in
theorem mailbox_execute (s : Actors ι σ κ ρ) (i j : ι) :
    (s.execute exec i).mailbox j = if j = i then (s.mailbox j).tail else s.mailbox j := by
  unfold Actors.execute
  split
  · next hmail =>
      split
      · next heq => rw [heq, hmail, List.tail_nil]
      · rfl
  · next hmail =>
      split
      · next heq => simp [heq, hmail]
      · next hne => simp [hne]

variable (exec) in
theorem mailbox_executeAll (s : Actors ι σ κ ρ) (turns : List ι) (j : ι) :
    (s.executeAll exec turns).mailbox j = (s.mailbox j).drop (turns.count j) := by
  induction turns generalizing s with
  | nil => rfl
  | cons i turns ih =>
      rw [Actors.executeAll, List.foldl_cons, ← Actors.executeAll, ih, mailbox_execute]
      by_cases h : j = i
      · rw [if_pos h, h, List.count_cons_self, List.drop_tail]
      · rw [if_neg h, List.count_cons_of_ne (fun heq => h heq.symm)]

@[simp] theorem sent_executeAll (s : Actors ι σ κ ρ) (turns : List ι) :
    (s.executeAll exec turns).sent = s.sent := by
  induction turns generalizing s with
  | nil => rfl
  | cons i turns ih => exact (ih (s.execute exec i)).trans (sent_execute exec s i)

/-- The calls sent to actors at the start wait in the order of sending. -/
theorem sendAll_start (calls : List (ι × κ)) :
    ((start init : Actors ι σ κ ρ).sendAll calls).sent = calls
      ∧ ∀ j, ((start init : Actors ι σ κ ρ).sendAll calls).mailbox j = numbered j calls := by
  induction calls using List.reverseRecOn with
  | nil => exact ⟨rfl, fun _ => rfl⟩
  | append_singleton calls c ih =>
      obtain ⟨hsent, hmail⟩ := ih
      rw [Actors.sendAll, List.foldl_append, List.foldl_cons, List.foldl_nil, ← Actors.sendAll]
      refine ⟨by simp [Actors.send, hsent], fun j => ?_⟩
      rw [numbered_snoc]
      by_cases h : j = c.1
      · simp [Actors.send, hsent, hmail, h]
      · simp [Actors.send, hmail, h, Ne.symm h]

variable (exec) in
/-- Once each actor has had a turn for every call to it, no call waits. -/
theorem quiet_executeAll (calls : List (ι × κ)) :
    (((start init).sendAll calls).executeAll exec (calls.map Prod.fst)).Quiet := by
  intro j
  rw [mailbox_executeAll, (sendAll_start calls).2]
  refine List.drop_eq_nil_of_le (le_of_eq ?_)
  rw [← List.length_map Prod.snd, numbered_snd, callsTo, List.length_map, List.count,
    List.countP_map, List.countP_eq_length_filter]
  rfl

/-- Once no call waits at an actor, it has executed the calls sent to it. -/
theorem Run.state_of_done (h : Run exec allowed (Actors.start init) s) {i : ι}
    (hi : s.mailbox i = []) : s.state i = runCalls exec (init i) (callsTo i s.sent) := by
  obtain ⟨done, hdone, hstate⟩ := h.orderly.executed i
  rw [hi, List.append_nil] at hdone
  rw [hstate, ← hdone, numbered_snd]

end Mailbox
