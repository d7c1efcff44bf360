import EvalHarness.Lib.Text
import EvalHarness.Lib.Deltas

set_option autoImplicit false

/-! # Hooks on the HF path (`_make_hook_criterion` of `worker.py`)

The stopping criterion decodes all generated ids after each step, and passes on to the hooks what is
behind the length of the text it passed on last. The tokenizer's `decode` is a parameter: it may
rewrite the end of an earlier output. -/

namespace EvalHarness

open Text

/-- A hook (`InterventionHook`), by what its callbacks make of its state. -/
structure InterventionHook (σ : Type) where
  state : σ
  onDelta : σ → Str → Str → σ
  shouldStop : σ → Str → Bool × σ

/-- `_HookCriterion`, with the callbacks that its hooks have got: each a delta and a text. -/
structure HookCriterion (σ : Type) where
  hooks : List (InterventionHook σ)
  promptLength : Option Int := none
  accumulated : Str := []
  stoppedEarly : Bool := false
  tokenCount : Nat := 0
  delivered : List (Str × Str) := []

namespace HookCriterion

variable {σ : Type}

/-- `ids[n:]`: a negative `n` counts from the end. -/
def sliceFrom (ids : List Nat) (n : Int) : List Nat :=
  if n < 0 then ids.drop (ids.length - n.natAbs) else ids.drop n.toNat

/-- `any(hook.should_stop(accumulated) for hook in self.hooks)`: the hooks are asked in turn, up to
    the first that wants to stop. -/
def anyShouldStop (accumulated : Str) : List (InterventionHook σ) → Bool × List (InterventionHook σ)
  | [] => (false, [])
  | hook :: hooks =>
      let (stop, state) := hook.shouldStop hook.state accumulated
      let hook := { hook with state }
      if stop then (true, hook :: hooks)
      else
        let (stop, hooks) := anyShouldStop accumulated hooks
        (stop, hook :: hooks)

/-- `__call__`. -/
def call (decode : List Nat → Str) (c : HookCriterion σ) (inputIds : List Nat) :
    Bool × HookCriterion σ :=
  let promptLength := c.promptLength.getD ((inputIds.length : Int) - 1)
  let c := { c with promptLength := some promptLength }
  let generatedIds := sliceFrom inputIds promptLength
  if generatedIds.isEmpty then (false, c)
  else
    let fullText := decode generatedIds
    let delta := fullText.drop c.accumulated.length
    if delta.isEmpty then (false, c)
    else
      let hooks := c.hooks.map (fun hook => { hook with
        state := hook.onDelta hook.state delta fullText })
      let (stop, hooks) := anyShouldStop fullText hooks
      (stop, { c with
        hooks
        accumulated := fullText
        stoppedEarly := c.stoppedEarly || stop
        tokenCount := generatedIds.length
        delivered := c.delivered ++ [(delta, fullText)] })

/-- The criterion after some steps. -/
def called (decode : List Nat → Str) (c : HookCriterion σ) (steps : List (List Nat)) :
    HookCriterion σ :=
  steps.foldl (fun c inputIds => (c.call decode inputIds).2) c

/-! ## What the hooks get -/

/-- The generated ids of each step: one at the first, and more from step to step. -/
structure Generation (generated : List (List Nat)) : Prop where
  first : ∀ ids ∈ generated.head?, ids.length = 1
  grows : generated.IsChain (fun ids next => ids <+: next)

/-- The deltas put together are the text that comes with them, and the last text is the one that
    all ids are decoded to. -/
structure HearsAll (decode : List Nat → Str) (generated : List (List Nat))
    (delivered : List (Str × Str)) : Prop where
  whole : ∀ before delivery after, delivered = before ++ delivery :: after →
    ((before ++ [delivery]).map Prod.fst).flatten = delivery.2
  last : (delivered.getLast?.map Prod.snd).getD [] = (generated.getLast?.map decode).getD []

theorem called_snoc (decode : List Nat → Str) (c : HookCriterion σ) (steps : List (List Nat))
    (inputIds : List Nat) :
    c.called decode (steps ++ [inputIds]) = ((c.called decode steps).call decode inputIds).2 := by
  simp [called]

theorem Generation.ne_nil {generated : List (List Nat)} (h : Generation generated) :
    ∀ ids ∈ generated, ids ≠ [] := by
  intro ids hids hnil
  cases generated with
  | nil => cases hids
  | cons first rest =>
      have hfirst : first.length = 1 := h.first first rfl
      have hpairwise := List.isChain_iff_pairwise.1 h.grows
      rcases List.mem_cons.1 hids with rfl | hrest
      · rw [hnil] at hfirst
        cases hfirst
      · have hextends := (List.pairwise_cons.1 hpairwise).1 ids hrest
        rw [hnil, List.prefix_nil] at hextends
        rw [hextends] at hfirst
        cases hfirst

/-- A step with some generated ids behind the prompt. -/
theorem call_delivered (decode : List Nat → Str) (c : HookCriterion σ) {prompt ids : List Nat}
    (hids : ids ≠ [])
    (hprompt : c.promptLength.getD (((prompt ++ ids).length : Int) - 1) = prompt.length) :
    (c.call decode (prompt ++ ids)).2.promptLength = some (prompt.length : Int)
      ∧ ((c.call decode (prompt ++ ids)).2.accumulated, (c.call decode (prompt ++ ids)).2.delivered)
        = Deltas.deliver (c.accumulated, c.delivered) (decode ids) := by
  have hslice : sliceFrom (prompt ++ ids) prompt.length = ids := by
    rw [sliceFrom, if_neg (by omega), Int.toNat_natCast, List.drop_left]
  have hempty : ids.isEmpty = false := by simpa using hids
  unfold call Deltas.deliver
  simp only [hprompt, hslice, hempty, Bool.false_eq_true, if_false]
  by_cases hlt : c.accumulated.length < (decode ids).length
  · have hdelta : ((decode ids).drop c.accumulated.length).isEmpty = false := by
      simpa using hlt
    simp [hdelta, hlt]
  · have hdelta : ((decode ids).drop c.accumulated.length).isEmpty = true := by
      simpa using hlt
    simp [hdelta, hlt]

theorem Generation.before {generated : List (List Nat)} {ids : List Nat}
    (h : Generation (generated ++ [ids])) : Generation generated := by
  refine ⟨fun first hfirst => h.first first ?_, (List.isChain_append.1 h.grows).1⟩
  rw [List.head?_append, Option.mem_def.1 hfirst, Option.some_or, Option.mem_def]

/-- The prompt is everything but the first generated id, and the deliveries are the pieces of the
    decoded texts. -/
theorem called_delivered (decode : List Nat → Str) (hooks : List (InterventionHook σ))
    (prompt : List Nat) {generated : List (List Nat)} (h : Generation generated) :
    (({ hooks } : HookCriterion σ).called decode (generated.map (prompt ++ ·))).promptLength
        = (if generated = [] then none else some (prompt.length : Int))
      ∧ ((({ hooks } : HookCriterion σ).called decode (generated.map (prompt ++ ·))).accumulated,
          (({ hooks } : HookCriterion σ).called decode (generated.map (prompt ++ ·))).delivered)
        = (generated.map decode).foldl Deltas.deliver ([], []) := by
  induction generated using List.reverseRecOn with
  | nil => exact ⟨rfl, rfl⟩
  | append_singleton generated ids ih =>
      obtain ⟨hprompt, hpieces⟩ := ih h.before
      have hids : ids ≠ [] := h.ne_nil ids (by simp)
      rw [List.map_append, List.map_singleton, called_snoc, List.map_append, List.map_singleton,
        List.foldl_append, List.foldl_cons, List.foldl_nil, ← hpieces]
      have hlength : (({ hooks } : HookCriterion σ).called decode
          (generated.map (prompt ++ ·))).promptLength.getD (((prompt ++ ids).length : Int) - 1)
            = prompt.length := by
        rw [hprompt]
        split
        · next hnil =>
            have hone : ids.length = 1 := h.first ids (by simp [hnil])
            rw [Option.getD_none, List.length_append, hone]
            omega
        · rfl
      obtain ⟨hset, hdelivered⟩ := call_delivered decode _ hids hlength
      exact ⟨by simpa using hset, hdelivered⟩

/-- Whatever the hooks do, they get the whole text if and only if a text that is longer than all
    before it extends the longest of them, and the last one is the longest. -/
theorem hears_all_iff (hooks : List (InterventionHook σ)) (decode : List Nat → Str)
    (prompt : List Nat) {generated : List (List Nat)} (h : Generation generated) :
    HearsAll decode generated
        (({ hooks } : HookCriterion σ).called decode (generated.map (prompt ++ ·))).delivered
      ↔ Deltas.Unrevised (generated.map decode)
        ∧ Deltas.longest (generated.map decode) = (generated.getLast?.map decode).getD [] := by
  have hpieces := congrArg Prod.snd (called_delivered decode hooks prompt h).2
  dsimp only at hpieces
  rw [hpieces, ← Deltas.pieces, ← Deltas.whole_pieces_iff, ← Deltas.getLast?_pieces]
  exact ⟨fun hall => ⟨hall.whole, hall.last⟩, fun hall => ⟨hall.1, hall.2⟩⟩

/-! ## A character of two tokens -/

/-- Two tokens that make up an accented letter: the first one alone is decoded to a replacement
    character. -/
def accentDecode (ids : List Nat) : Str :=
  if ids = [127, 102] then ['é'] else if ids = [127] then ['\uFFFD'] else []

def accentTokens : List (List Nat) := [[127], [127, 102]]

/-- Two tokens with a letter each. -/
def letterDecode (ids : List Nat) : Str := ids.map (fun id => if id = 64 then 'a' else 'b')

theorem hears_all_iff_letters :
    HearsAll letterDecode [[64], [64, 65]]
        (({ hooks := [] } : HookCriterion Unit).called letterDecode
          ([[64], [64, 65]].map ([1, 2] ++ ·))).delivered
      ↔ Deltas.Unrevised ([[64], [64, 65]].map letterDecode)
        ∧ Deltas.longest ([[64], [64, 65]].map letterDecode)
          = ([[64], [64, 65]].getLast?.map letterDecode).getD [] :=
  hears_all_iff [] letterDecode [1, 2] ⟨by simp, List.isChain_pair.2 ⟨[65], rfl⟩⟩

/-- The text with the whole letter is not longer than the one before, and is not delivered. -/
theorem accent_not_heard :
    Generation accentTokens
      ∧ ¬ HearsAll accentDecode accentTokens
        (({ hooks := [] } : HookCriterion Unit).called accentDecode
          (accentTokens.map ([1, 2] ++ ·))).delivered := by
  refine ⟨⟨by simp [accentTokens], List.isChain_pair.2 ⟨[102], rfl⟩⟩, fun h => ?_⟩
  exact absurd h.last (by decide)

end HookCriterion

end EvalHarness
