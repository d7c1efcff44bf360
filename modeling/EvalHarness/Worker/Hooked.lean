import EvalHarness.Hooks
import EvalHarness.Lib.Until
import EvalHarness.Worker.Actor

set_option autoImplicit false

/-! # Hooked generation on the two backends

On the HF path the hooks are called by a stopping criterion, after each token and only when its text
is longer than the last one; on the vLLM path by the loop that reads the stream, which asks after
every output. Over texts that grow, both deliver the same deltas and stop at the same text. -/

namespace EvalHarness

open Text

/-! ## The hooks of `hooks.py` -/

/-- `LoggingHook`, with the previews it has logged. The `%` in `on_delta` needs a modulus. -/
structure LoggingHook where
  taskId : String
  logEveryN : Nat := 5
  logEveryN_pos : 0 < logEveryN
  tokenCount : Nat := 0
  logged : List (Nat × Str) := []

/-- `accumulated[-40:].replace("\n", " ")`. -/
def LoggingHook.preview (accumulated : Str) : Str :=
  (accumulated.drop (accumulated.length - 40)).map (fun c => if c = '\n' then ' ' else c)

/-- `on_delta`. -/
def LoggingHook.onDelta (hook : LoggingHook) (accumulated : Str) : LoggingHook :=
  let tokenCount := hook.tokenCount + 1
  { hook with
    tokenCount := tokenCount
    logged := if tokenCount % hook.logEveryN = 0 then
      hook.logged ++ [(tokenCount, LoggingHook.preview accumulated)] else hook.logged }

/-- The hooks there are. -/
inductive StockHook where
  | logging (hook : LoggingHook)
  | earlyStopping (hook : EarlyStoppingHook)

/-- A hook as its caller sees it. -/
def StockHook.asHook (t : CaseTable) (hook : StockHook) : InterventionHook StockHook where
  state := hook
  onDelta := fun hook _ accumulated => match hook with
    | .logging hook => .logging (hook.onDelta accumulated)
    | .earlyStopping hook => .earlyStopping hook
  shouldStop := fun hook accumulated => match hook with
    | .logging hook => (false, .logging hook)
    | .earlyStopping hook =>
        ((hook.shouldStop t accumulated).1, .earlyStopping (hook.shouldStop t accumulated).2)

/-! ## What a hook watches for -/

section

variable {σ : Type} {ok : Str → Prop}

/-- A hook that has been asked about texts up to `prev`, each an extension of the one before, and
    that answers from now on whether the text has the property `wanted`, as long as it does not.
    Only texts that are `ok` are considered. -/
def Watching (ok : Str → Prop) (wanted : Str → Bool) (prev : Str) (hook : InterventionHook σ) :
    Prop :=
  ∃ Inv : σ → Str → Prop, Inv hook.state prev ∧
    (∀ s prev delta text, Inv s prev → Inv (hook.onDelta s delta text) prev) ∧
    ∀ s prev text, prev <+: text → ok text → Inv s prev → (hook.shouldStop s text).1 = wanted text ∧
      (wanted text = false → Inv (hook.shouldStop s text).2 text)

theorem Watching.onDelta {wanted : Str → Bool} {prev : Str} {hook : InterventionHook σ}
    (h : Watching ok wanted prev hook) (delta text : Str) :
    Watching ok wanted prev { hook with state := hook.onDelta hook.state delta text } := by
  obtain ⟨Inv, hinv, hdelta, hstop⟩ := h
  exact ⟨Inv, hdelta _ _ _ _ hinv, hdelta, hstop⟩

theorem Watching.shouldStop {wanted : Str → Bool} {prev text : Str} {hook : InterventionHook σ}
    (h : Watching ok wanted prev hook) (hgrows : prev <+: text) (hok : ok text) :
    (hook.shouldStop hook.state text).1 = wanted text ∧ (wanted text = false →
      Watching ok wanted text { hook with state := (hook.shouldStop hook.state text).2 }) := by
  obtain ⟨Inv, hinv, hdelta, hstop⟩ := h
  obtain ⟨hanswer, hkeeps⟩ := hstop _ _ text hgrows hok hinv
  exact ⟨hanswer, fun hno => ⟨Inv, hkeeps hno, hdelta, hstop⟩⟩

/-- Several hooks, each watching for its own property. -/
def AllWatching (ok : Str → Prop) (wanted : List (Str → Bool)) (prev : Str)
    (hooks : List (InterventionHook σ)) : Prop :=
  List.Forall₂ (fun w hook => Watching ok w prev hook) wanted hooks

/-- The hooks after each has got a delta. -/
def tellAll (hooks : List (InterventionHook σ)) (delta text : Str) : List (InterventionHook σ) :=
  hooks.map (fun hook => { hook with state := hook.onDelta hook.state delta text })

theorem AllWatching.tellAll {wanted : List (Str → Bool)} {prev : Str}
    {hooks : List (InterventionHook σ)} (h : AllWatching ok wanted prev hooks) (delta text : Str) :
    AllWatching ok wanted prev (tellAll hooks delta text) := by
  rw [AllWatching, EvalHarness.tellAll, List.forall₂_map_right_iff]
  exact h.imp (fun _ _ hw => hw.onDelta delta text)

/-- Some hook wants to stop exactly if the text has one of the properties. -/
theorem AllWatching.anyShouldStop {wanted : List (Str → Bool)} {prev text : Str}
    {hooks : List (InterventionHook σ)} (h : AllWatching ok wanted prev hooks)
    (hgrows : prev <+: text) (hok : ok text) :
    (HookCriterion.anyShouldStop text hooks).1 = wanted.any (fun w => w text) ∧
      (wanted.any (fun w => w text) = false →
        AllWatching ok wanted text (HookCriterion.anyShouldStop text hooks).2) := by
  induction h with
  | nil => exact ⟨rfl, fun _ => .nil⟩
  | cons hfirst _ ih =>
      obtain ⟨hanswer, hkeeps⟩ := hfirst.shouldStop hgrows hok
      obtain ⟨hrest, hrestKeeps⟩ := ih
      rename_i w hook wanted hooks _
      rw [List.any_cons, HookCriterion.anyShouldStop]
      dsimp only
      rw [hanswer]
      cases hw : w text with
      | true => exact ⟨rfl, fun hno => by cases hno⟩
      | false =>
          refine ⟨?_, fun hno => ?_⟩
          · rw [Bool.false_or]
            exact hrest
          · rw [Bool.false_or] at hno
            exact .cons (hkeeps hw) (hrestKeeps hno)

/-! ## The reader -/

/-- What both backends are to do: read texts one by one, pass on what is new, and stop at the first
    text with one of the properties. -/
def read (wanted : List (Str → Bool)) (s : Str × List (Str × Str)) (text : Str) :
    Bool × (Str × List (Str × Str)) :=
  (wanted.any (fun w => w text), Deltas.deliver s text)

/-- Where the reader stands: each text still to come extends the one before, and is one the hooks
    can be asked about; the pieces passed on so far are the text, which no hook wants to stop at. -/
structure Reading (ok : Str → Prop) (wanted : List (Str → Bool)) (s : Str × List (Str × Str))
    (texts : List Str) : Prop where
  grows : Growing (s.1 :: texts)
  allOk : ∀ text ∈ texts, ok text
  unwanted : wanted.any (fun w => w s.1) = false

theorem Reading.extends {wanted : List (Str → Bool)} {s : Str × List (Str × Str)} {text : Str}
    {texts : List Str} (h : Reading ok wanted s (text :: texts)) : s.1 <+: text :=
  (List.isChain_cons_cons.1 h.grows).1

/-- Over texts that grow, the text delivered last is the text read last. -/
theorem deliver_of_extends {s : Str × List (Str × Str)} {text : Str} (h : s.1 <+: text) :
    Deltas.deliver s text = (text, if (text.drop s.1.length).isEmpty then s.2
      else s.2 ++ [(text.drop s.1.length, text)]) := by
  unfold Deltas.deliver
  split
  · next hlt =>
      have hnew : (text.drop s.1.length).isEmpty = false := by simpa using hlt
      rw [hnew]
      rfl
  · next hge =>
      have hsame : s.1 = text := h.eq_of_length_le (not_lt.1 hge)
      have hnone : (text.drop s.1.length).isEmpty = true := by simpa using hge
      rw [hnone, if_pos rfl]
      exact Prod.ext hsame rfl

/-- The pieces put together stay the text. -/
theorem flatten_deliver {s : Str × List (Str × Str)} {text : Str} (h : s.1 <+: text)
    (hwhole : (s.2.map Prod.fst).flatten = s.1) :
    ((Deltas.deliver s text).2.map Prod.fst).flatten = (Deltas.deliver s text).1 := by
  rw [deliver_of_extends h]
  dsimp only
  split
  · next hnone => rw [hwhole, h.eq_of_length_le (by simpa using hnone)]
  · rw [List.map_append, List.flatten_append, hwhole]
    simpa using (List.prefix_iff_eq_append.1 h)

theorem Reading.next {wanted : List (Str → Bool)} {s : Str × List (Str × Str)} {text : Str}
    {texts : List Str} (h : Reading ok wanted s (text :: texts))
    (hno : wanted.any (fun w => w text) = false) :
    Reading ok wanted (Deltas.deliver s text) texts := by
  have htext : (Deltas.deliver s text).1 = text := by rw [deliver_of_extends h.extends]
  refine ⟨?_, fun later hlater => h.allOk later (List.mem_cons_of_mem _ hlater), ?_⟩
  · rw [htext]
    exact (List.isChain_cons_cons.1 h.grows).2
  · rw [htext]
    exact hno

/-! ## The vLLM loop reads -/

/-- The loop over the stream agrees with the reader. -/
structure HookLoop.Reads (ok : Str → Prop) (wanted : List (Str → Bool)) (l : HookLoop σ)
    (s : Str × List (Str × Str)) (texts : List Str) : Prop where
  reading : Reading ok wanted s texts
  same : (l.accumulated, l.delivered) = s
  watching : AllWatching ok wanted s.1 l.hooks

theorem HookLoop.Reads.output {wanted : List (Str → Bool)} {l : HookLoop σ}
    {s : Str × List (Str × Str)} (completion : Completion) {texts : List Str}
    (h : l.Reads ok wanted s (completion.text :: texts)) :
    (l.output completion).1 = wanted.any (fun w => w completion.text) ∧
    ((l.output completion).2.accumulated, (l.output completion).2.delivered)
      = Deltas.deliver s completion.text ∧
    (wanted.any (fun w => w completion.text) = false →
      (l.output completion).2.Reads ok wanted (Deltas.deliver s completion.text) texts) := by
  obtain ⟨hreading, rfl, hwatching⟩ := h
  have hextends := hreading.extends
  have hok := hreading.allOk completion.text (List.mem_cons_self ..)
  have hheard : AllWatching ok wanted l.accumulated
      (if (completion.text.drop l.accumulated.length).isEmpty then l.hooks
        else tellAll l.hooks (completion.text.drop l.accumulated.length) completion.text) := by
    split
    · exact hwatching
    · exact hwatching.tellAll _ _
  obtain ⟨hanswer, hkeeps⟩ := hheard.anyShouldStop hextends hok
  have hdeliver := deliver_of_extends hextends
  refine ⟨hanswer, hdeliver.symm, fun hno => ⟨hreading.next hno, hdeliver.symm, ?_⟩⟩
  rw [hdeliver]
  exact hkeeps hno

/-! ## The HF criterion reads -/

/-- The criterion agrees with the reader, and knows where the prompt ends by the next call. -/
structure HookCriterion.Reads (ok : Str → Prop) (wanted : List (Str → Bool))
    (decode : List Nat → Str) (prompt : List Nat) (c : HookCriterion σ)
    (s : Str × List (Str × Str)) (generated : List (List Nat)) : Prop where
  reading : Reading ok wanted s (generated.map decode)
  same : (c.accumulated, c.delivered) = s
  watching : AllWatching ok wanted s.1 c.hooks
  going : c.stoppedEarly = false
  nonempty : ∀ ids ∈ generated, ids ≠ []
  prompt : ∀ ids ∈ generated.head?,
    c.promptLength.getD (((prompt ++ ids).length : Int) - 1) = prompt.length

theorem HookCriterion.Reads.call {wanted : List (Str → Bool)} {decode : List Nat → Str}
    {prompt ids : List Nat} {c : HookCriterion σ} {s : Str × List (Str × Str)}
    {generated : List (List Nat)} (h : c.Reads ok wanted decode prompt s (ids :: generated)) :
    (c.call decode (prompt ++ ids)).1 = wanted.any (fun w => w (decode ids)) ∧
    ((c.call decode (prompt ++ ids)).2.accumulated, (c.call decode (prompt ++ ids)).2.delivered)
      = Deltas.deliver s (decode ids) ∧
    (c.call decode (prompt ++ ids)).2.stoppedEarly = wanted.any (fun w => w (decode ids)) ∧
    (wanted.any (fun w => w (decode ids)) = false →
      (c.call decode (prompt ++ ids)).2.Reads ok wanted decode prompt
        (Deltas.deliver s (decode ids)) generated) := by
  obtain ⟨hreading, rfl, hwatching, hgoing, hsome, hprompt⟩ := h
  have hextends := hreading.extends
  have hok := hreading.allOk (decode ids) (List.mem_cons_self ..)
  have hdeliver := deliver_of_extends hextends
  have hnext := hsome ids (List.mem_cons_self ..)
  have hslice : HookCriterion.sliceFrom (prompt ++ ids) prompt.length = ids := by
    rw [HookCriterion.sliceFrom, if_neg (by omega), Int.toNat_natCast, List.drop_left]
  have hempty : ids.isEmpty = false := by simpa using hnext
  have hlater : ∀ ids ∈ generated, ids ≠ [] :=
    fun later hin => hsome later (List.mem_cons_of_mem _ hin)
  dsimp only at hextends hdeliver hwatching
  have hcall : c.call decode (prompt ++ ids)
      = let delta := (decode ids).drop c.accumulated.length
        if delta.isEmpty then (false, { c with promptLength := some (prompt.length : Int) })
        else
          let answer :=
            HookCriterion.anyShouldStop (decode ids) (tellAll c.hooks delta (decode ids))
          (answer.1, { c with
            promptLength := some (prompt.length : Int)
            hooks := answer.2
            accumulated := decode ids
            stoppedEarly := c.stoppedEarly || answer.1
            tokenCount := ids.length
            delivered := c.delivered ++ [(delta, decode ids)] }) := by
    unfold HookCriterion.call
    simp only [hprompt ids rfl, hslice, hempty, Bool.false_eq_true, if_false]
    rfl
  dsimp only at hcall
  rw [hcall, hdeliver]
  split
  · -- no new text: it is the one that the hooks have let pass
    next hnone =>
      have hsame : c.accumulated = decode ids :=
        hextends.eq_of_length_le (by simpa using hnone)
      have hunwanted : wanted.any (fun w => w (decode ids)) = false := by
        rw [← hsame]
        exact hreading.unwanted
      refine ⟨hunwanted.symm, by rw [← hsame], by rw [hunwanted]; exact hgoing, fun hno => ?_⟩
      have hafter := hreading.next hno
      rw [hdeliver, if_pos hnone] at hafter
      exact ⟨hafter, by rw [← hsame], by rw [← hsame]; exact hwatching, hgoing, hlater,
        fun _ _ => rfl⟩
  · next hnew =>
      obtain ⟨hanswer, hkeeps⟩ := (hwatching.tellAll ((decode ids).drop c.accumulated.length)
        (decode ids)).anyShouldStop hextends hok
      refine ⟨hanswer, rfl, by rw [← hanswer, hgoing, Bool.false_or], fun hno => ?_⟩
      have hafter := hreading.next hno
      rw [hdeliver, if_neg hnew] at hafter
      exact ⟨hafter, rfl, hkeeps hno, by rw [hanswer, hgoing, hno]; rfl, hlater, fun _ _ => rfl⟩

end

/-! ## The stock hooks watch -/

section

open EarlyStoppingHook

variable {t : CaseTable} {triggers : List Str} {caseSensitive : Bool} {ok : Str → Prop}

/-- What an early-stopping hook can be asked about: anything, with case; without it, triggers that
    fit, and texts without a capital sigma. -/
def Searchable (t : CaseTable) (triggers : List Str) (caseSensitive : Bool) (ok : Str → Prop) :
    Prop :=
  caseSensitive = false → Fits t triggers ∧ ∀ text, ok text → 'Σ' ∉ text

/-- A question to a hook that has found nothing so far. -/
theorem shouldStop_ready_eq (hne : triggers ≠ []) (hsearch : Searchable t triggers caseSensitive ok)
    {prev text : Str} (hgrows : prev <+: text) (hok : ok text)
    (hnone : found t triggers caseSensitive prev = none) :
    ((ready triggers caseSensitive prev.length).shouldStop t text).1
      = (found t triggers caseSensitive text).isSome ∧
    (found t triggers caseSensitive text = none →
      ((ready triggers caseSensitive prev.length).shouldStop t text).2
        = ready triggers caseSensitive text.length) := by
  have hsteady : Steady t triggers caseSensitive prev text := by
    cases caseSensitive with
    | true => exact steady_of_sensitive hgrows
    | false => exact steady_of_sigma_free hgrows ((hsearch rfl).2 text hok)
  have hsearched : Searched t triggers caseSensitive prev text :=
    ⟨hgrows, hsteady.before, fun _ => hsteady.behind,
      fun trigger hin h => absurd h (found_eq_none.1 hnone trigger hin)⟩
  cases hfound : found t triggers caseSensitive text with
  | none =>
      rw [shouldStop_of_not_found hne (hsearched.found_window hfound)]
      exact ⟨rfl, fun _ => rfl⟩
  | some trigger =>
      refine ⟨?_, fun h => by cases h⟩
      cases caseSensitive with
      | true =>
          rw [← found_window_eq hsearched] at hfound
          rw [shouldStop_of_found hne hfound]
          rfl
      | false =>
          cases hwindow : found t triggers false (window triggers prev.length text) with
          | none => cases (hsearched.found_text (hsearch rfl).1 hwindow).symm.trans hfound
          | some first =>
              rw [shouldStop_of_found hne hwindow]
              rfl

/-- What a hook stops at. -/
def StockHook.wanted (t : CaseTable) : StockHook → Str → Bool
  | .logging _, _ => false
  | .earlyStopping hook, text => (found t hook.triggers hook.caseSensitive text).isSome

/-- A hook as it is constructed, that can be asked about the texts. -/
def StockHook.Fresh (t : CaseTable) (ok : Str → Prop) : StockHook → Prop
  | .logging _ => True
  | .earlyStopping hook => hook = init hook.triggers hook.caseSensitive ∧
      Searchable t hook.triggers hook.caseSensitive ok

theorem StockHook.Fresh.watching {hook : StockHook} (h : hook.Fresh t ok)
    (hempty : hook.wanted t [] = false) : Watching ok (hook.wanted t) [] (hook.asHook t) := by
  match hook with
  | .logging hook =>
      refine ⟨fun s _ => ∃ h, s = .logging h, ⟨hook, rfl⟩, ?_, ?_⟩
      · rintro _ _ _ text ⟨h, rfl⟩
        exact ⟨h.onDelta text, rfl⟩
      · rintro _ _ text _ _ ⟨h, rfl⟩
        exact ⟨rfl, fun _ => ⟨h, rfl⟩⟩
  | .earlyStopping hook =>
      obtain ⟨hinit, hsearch⟩ := h
      generalize hook.triggers = triggers at hinit hsearch
      generalize hook.caseSensitive = caseSensitive at hinit hsearch
      subst hinit
      by_cases hne : triggers = []
      · subst hne
        refine ⟨fun s _ => s = .earlyStopping (init [] caseSensitive), rfl, ?_, ?_⟩
        · rintro _ _ _ _ rfl
          rfl
        · rintro _ _ text _ _ rfl
          exact ⟨rfl, fun _ => rfl⟩
      · refine ⟨fun s prev => s = .earlyStopping (ready triggers caseSensitive prev.length) ∧
          found t triggers caseSensitive prev = none, ⟨rfl, ?_⟩, ?_, ?_⟩
        · simpa [StockHook.wanted, init] using hempty
        · rintro _ prev _ _ ⟨rfl, hnone⟩
          exact ⟨rfl, hnone⟩
        · rintro _ prev text hgrows hok ⟨rfl, hnone⟩
          obtain ⟨hanswer, hkeeps⟩ := shouldStop_ready_eq hne hsearch hgrows hok hnone
          refine ⟨hanswer, fun hno => ?_⟩
          have hfound : found t triggers caseSensitive text = none := by
            simpa [StockHook.wanted, init] using hno
          exact ⟨congrArg StockHook.earlyStopping (hkeeps hfound), hfound⟩

end

/-! ## Both backends -/

section

variable {t : CaseTable} {ok : Str → Prop}

/-- The hooks of a call, each fresh, none of which wants to stop before there is any text. -/
structure FreshHooks (t : CaseTable) (ok : Str → Prop) (hooks : List StockHook) : Prop where
  fresh : ∀ hook ∈ hooks, hook.Fresh t ok
  unwanted : ∀ hook ∈ hooks, hook.wanted t [] = false

theorem FreshHooks.watching {hooks : List StockHook} (h : FreshHooks t ok hooks) :
    AllWatching ok (hooks.map (StockHook.wanted t)) [] (hooks.map (StockHook.asHook t)) := by
  rw [AllWatching, List.forall₂_map_left_iff, List.forall₂_map_right_iff]
  exact List.forall₂_same.2 (fun hook hin => (h.fresh hook hin).watching (h.unwanted hook hin))

theorem FreshHooks.reading {hooks : List StockHook} (h : FreshHooks t ok hooks) {texts : List Str}
    (hgrow : Growing texts) (hok : ∀ text ∈ texts, ok text) :
    Reading ok (hooks.map (StockHook.wanted t)) ([], []) texts := by
  refine ⟨?_, hok, ?_⟩
  · cases texts with
    | nil => exact List.isChain_singleton _
    | cons text texts => exact List.isChain_cons_cons.2 ⟨List.nil_prefix, hgrow⟩
  · simpa using h.unwanted

/-- The pieces a reader has passed on are the text it has read, and it stops at the first text a
    hook wants to stop at. -/
theorem read_spec {hooks : List StockHook} (h : FreshHooks t ok hooks) {texts : List Str}
    (hgrow : Growing texts) (hok : ∀ text ∈ texts, ok text) :
    (Until.loop (read (hooks.map (StockHook.wanted t))) ([], []) texts).1
      = texts.any (fun text => hooks.any (fun hook => hook.wanted t text)) ∧
    (Until.loop (read (hooks.map (StockHook.wanted t))) ([], []) texts).2.1
      = ((texts.find? (fun text => hooks.any (fun hook => hook.wanted t text))).or
          texts.getLast?).getD [] ∧
    ((Until.loop (read (hooks.map (StockHook.wanted t))) ([], []) texts).2.2.map Prod.fst).flatten
      = (Until.loop (read (hooks.map (StockHook.wanted t))) ([], []) texts).2.1 := by
  have hany : ∀ text, (hooks.map (StockHook.wanted t)).any (fun w => w text)
      = hooks.any (fun hook => hook.wanted t text) := by
    intro text
    rw [List.any_map]
    rfl
  obtain ⟨hstop, htext, hwhole⟩ := Until.loop_related
    (f := read (hooks.map (StockHook.wanted t)))
    (g := fun _ text => (hooks.any (fun hook => hook.wanted t text), text))
    (R := fun s prev texts => Reading ok (hooks.map (StockHook.wanted t)) s texts ∧ s.1 = prev ∧
      (s.2.map Prod.fst).flatten = s.1)
    (D := fun _ s prev => s.1 = prev ∧ (s.2.map Prod.fst).flatten = s.1)
    (fun s prev text texts hR => by
      obtain ⟨hreading, -, hwhole⟩ := hR
      have htext : (Deltas.deliver s text).1 = text := by rw [deliver_of_extends hreading.extends]
      have hnext := flatten_deliver hreading.extends hwhole
      exact ⟨hany text, fun _ => ⟨htext, hnext⟩,
        fun hno => ⟨hreading.next ((hany text).trans hno), htext, hnext⟩⟩)
    (fun s prev hR => hR.2) ⟨h.reading hgrow hok, rfl, rfl⟩
  rw [Until.loop_find] at hstop htext
  exact ⟨hstop, htext, hwhole⟩

/-- Over texts that grow, both backends deliver the same deltas to the hooks, stop at the same text,
    and return the same response: the first text that some hook wants to stop at, or else the last.
    The deltas put together are that response. -/
theorem backends_stop_alike (decode : List Nat → Str) (prompt : List Nat) {hooks : List StockHook}
    {generated : List (List Nat)} (hhooks : FreshHooks t ok hooks)
    (hgen : HookCriterion.Generation generated) (hgrow : Growing (generated.map decode))
    (hok : ∀ text ∈ generated.map decode, ok text) :
    let hf := Until.loop (fun c ids => HookCriterion.call decode c (prompt ++ ids))
      { hooks := hooks.map (StockHook.asHook t) } generated
    let vllm := Until.loop (fun l ids => HookLoop.output l ⟨decode ids, ids⟩)
      { hooks := hooks.map (StockHook.asHook t) } generated
    hf.1 = vllm.1 ∧ hf.2.stoppedEarly = hf.1 ∧ hf.2.accumulated = vllm.2.accumulated ∧
    hf.2.delivered = vllm.2.delivered ∧
    hf.1 = generated.any (fun ids => hooks.any (fun hook => hook.wanted t (decode ids))) ∧
    hf.2.accumulated = (((generated.map decode).find? (fun text =>
      hooks.any (fun hook => hook.wanted t text))).or (generated.map decode).getLast?).getD [] ∧
    (hf.2.delivered.map Prod.fst).flatten = hf.2.accumulated := by
  intro hf vllm
  obtain ⟨hspecStop, hspecText, hspecWhole⟩ := read_spec hhooks hgrow hok
  rw [Until.loop_map] at hspecStop hspecText hspecWhole
  rw [List.any_map] at hspecStop
  have hstart := hhooks.reading hgrow hok
  obtain ⟨hhfStop, hhfSame, hhfEarly⟩ := Until.loop_related
    (f := fun c ids => HookCriterion.call decode c (prompt ++ ids))
    (g := fun s ids => read (hooks.map (StockHook.wanted t)) s (decode ids))
    (R := fun c s generated =>
      c.Reads ok (hooks.map (StockHook.wanted t)) decode prompt s generated)
    (D := fun stopped c s => (c.accumulated, c.delivered) = s ∧ c.stoppedEarly = stopped)
    (fun c s ids generated hR => by
      obtain ⟨hanswer, hsame, hearly, hkeeps⟩ := hR.call
      exact ⟨hanswer, fun hstop => ⟨hsame, hearly.trans hstop⟩, hkeeps⟩)
    (fun c s hR => ⟨hR.same, hR.going⟩)
    (s := { hooks := hooks.map (StockHook.asHook t) }) (t := ([], []))
    ⟨hstart, rfl, hhooks.watching, rfl, hgen.ne_nil, fun ids hids => by
      have hone := hgen.first ids hids
      rw [Option.getD_none, List.length_append, hone]
      omega⟩
  obtain ⟨hvllmStop, hvllmSame⟩ := Until.loop_related
    (f := fun l ids => HookLoop.output l ⟨decode ids, ids⟩)
    (g := fun s ids => read (hooks.map (StockHook.wanted t)) s (decode ids))
    (R := fun l s generated =>
      l.Reads ok (hooks.map (StockHook.wanted t)) s (generated.map decode))
    (D := fun _ l s => (l.accumulated, l.delivered) = s)
    (fun l s ids generated hR => by
      obtain ⟨hanswer, hsame, hkeeps⟩ := HookLoop.Reads.output ⟨decode ids, ids⟩ hR
      exact ⟨hanswer, fun _ => hsame, hkeeps⟩)
    (fun l s hR => hR.same)
    (s := { hooks := hooks.map (StockHook.asHook t) }) (t := ([], []))
    ⟨hstart, rfl, hhooks.watching⟩
  have hhfText := congrArg Prod.fst hhfSame
  have hhfPieces := congrArg Prod.snd hhfSame
  dsimp only at hhfText hhfPieces
  refine ⟨hhfStop.trans hvllmStop.symm, hhfEarly.trans hhfStop.symm, ?_, ?_,
    hhfStop.trans hspecStop, hhfText.trans hspecText, ?_⟩
  · exact hhfText.trans (congrArg Prod.fst hvllmSame).symm
  · exact hhfPieces.trans (congrArg Prod.snd hvllmSame).symm
  · rw [hhfPieces, hhfText]
    exact hspecWhole

/-- A trigger in two tokens, with another case. -/
def capitalDecode (ids : List Nat) : Str :=
  if ids = [1] then "par".toList else "paris".toList

def capitalHooks : List StockHook :=
  [.logging { taskId := "a", logEveryN_pos := Nat.succ_pos 4 },
    .earlyStopping (EarlyStoppingHook.init ["Paris".toList])]

theorem backends_stop_alike_capital :
    let hf := Until.loop (fun c ids => HookCriterion.call capitalDecode c ([7, 8] ++ ids))
      { hooks := capitalHooks.map (StockHook.asHook basicTable) } [[1], [1, 2]]
    let vllm := Until.loop (fun l ids => HookLoop.output l ⟨capitalDecode ids, ids⟩)
      { hooks := capitalHooks.map (StockHook.asHook basicTable) } [[1], [1, 2]]
    hf.1 = vllm.1 ∧ hf.2.accumulated = vllm.2.accumulated ∧
      hf.2.delivered = vllm.2.delivered := by
  have hfits : EarlyStoppingHook.Fits basicTable ["Paris".toList] := by
    intro trigger hin hlong
    rw [List.mem_singleton.1 hin] at hlong
    exact absurd hlong (by decide)
  have hhooks : FreshHooks basicTable (fun text => 'Σ' ∉ text) capitalHooks := by
    constructor
    · intro hook hin
      rcases List.mem_cons.1 hin with rfl | hin
      · trivial
      · rw [List.mem_singleton.1 hin]
        exact ⟨rfl, fun _ => ⟨hfits, fun _ h => h⟩⟩
    · decide
  have hgen : HookCriterion.Generation [[1], [1, 2]] :=
    ⟨by simp, List.isChain_pair.2 ⟨[2], rfl⟩⟩
  have hboth := backends_stop_alike capitalDecode [7, 8] hhooks hgen
    (List.isChain_pair.2 (by decide)) (by decide)
  exact ⟨hboth.1, hboth.2.2.1, hboth.2.2.2.1⟩

end

end EvalHarness
