import EvalHarness.Lib.CutText
import EvalHarness.Lib.Scan

set_option autoImplicit false

/-! # Early stopping (`hooks.py`)

`EarlyStoppingHook` is asked again and again whether to stop, with a text that grows, and searches
it for its triggers. It does not search the whole text each time, only what is new and an
overlap. -/

namespace EvalHarness

open Text

/-- `EarlyStoppingHook`. -/
structure EarlyStoppingHook where
  triggers : List Str
  caseSensitive : Bool
  triggeredBy : Option Str := none
  scannedUpto : Nat := 0
  maxTriggerLen : Nat

/-- The texts of a generation: each extends the one before. -/
def Growing (texts : List Str) : Prop := texts.IsChain (fun text next => text <+: next)

namespace EarlyStoppingHook

/-- `__init__`. -/
def init (triggers : List Str) (caseSensitive : Bool := false) : EarlyStoppingHook where
  triggers
  caseSensitive
  maxTriggerLen := (triggers.map List.length).foldr max 0

/-- What is compared: the text itself, or what `lower` makes of it. -/
def norm (t : CaseTable) (hook : EarlyStoppingHook) (s : Str) : Str :=
  if hook.caseSensitive then s else t.lower s

/-- `should_stop`. -/
def shouldStop (t : CaseTable) (hook : EarlyStoppingHook) (accumulated : Str) :
    Bool × EarlyStoppingHook :=
  if hook.triggeredBy.isSome then (true, hook)
  else if hook.triggers.isEmpty then (false, hook)
  else
    let start := (max 0 ((hook.scannedUpto : Int) - hook.maxTriggerLen + 1)).toNat
    let haystack := hook.norm t (accumulated.drop start)
    match hook.triggers.find? (fun trigger => hook.norm t trigger <:+: haystack) with
    | some trigger => (true, { hook with triggeredBy := some trigger })
    | none => (false, { hook with scannedUpto := accumulated.length })

/-- The hook after it has been asked about some texts, one after the other. -/
def asked (t : CaseTable) (hook : EarlyStoppingHook) (texts : List Str) : EarlyStoppingHook :=
  texts.foldl (fun hook text => (hook.shouldStop t text).2) hook

/-! ## One question -/

variable {t : CaseTable} {triggers : List Str} {caseSensitive : Bool}

/-- A hook that has searched a text of the given length, and found nothing. -/
def ready (triggers : List Str) (caseSensitive : Bool) (scanned : Nat) : EarlyStoppingHook :=
  { init triggers caseSensitive with scannedUpto := scanned }

/-- The length of the longest trigger. -/
def longest (triggers : List Str) : Nat := (triggers.map List.length).foldr max 0

theorem length_le_longest {trigger : Str} (h : trigger ∈ triggers) :
    trigger.length ≤ longest triggers := by
  unfold longest
  induction triggers with
  | nil => cases h
  | cons other triggers ih =>
      rw [List.map_cons, List.foldr_cons]
      rcases List.mem_cons.1 h with rfl | hrest
      · exact le_max_left _ _
      · exact (ih hrest).trans (le_max_right _ _)

theorem measured_norm (t : CaseTable) (hook : EarlyStoppingHook) : Scan.Measured (hook.norm t) := by
  unfold norm
  cases hook.caseSensitive
  · exact ⟨t.length_lower_append, t.length_le_lower⟩
  · exact Scan.measured_id

/-- What is searched, the longest trigger being known. -/
def window (triggers : List Str) (scanned : Nat) (text : Str) : Str :=
  text.drop (Scan.start scanned (longest triggers))

/-- The trigger that is found in a text. -/
def found (t : CaseTable) (triggers : List Str) (caseSensitive : Bool) (text : Str) : Option Str :=
  triggers.find? (fun trigger =>
    (init triggers caseSensitive).norm t trigger <:+: (init triggers caseSensitive).norm t text)

section Ready

variable {scanned : Nat} {text : Str} (hne : triggers ≠ [])

include hne

theorem shouldStop_ready :
    (ready triggers caseSensitive scanned).shouldStop t text
      = (found t triggers caseSensitive (window triggers scanned text)).elim
          (false, ready triggers caseSensitive text.length)
          (fun trigger => (true,
            { ready triggers caseSensitive scanned with triggeredBy := some trigger })) := by
  have hstart : Scan.start scanned (longest triggers)
      = (max 0 ((scanned : Int) - (longest triggers : Int) + 1)).toNat := by
    unfold Scan.start
    omega
  have hsearch : found t triggers caseSensitive (window triggers scanned text)
      = (ready triggers caseSensitive scanned).triggers.find? (fun trigger =>
          (ready triggers caseSensitive scanned).norm t trigger <:+:
            (ready triggers caseSensitive scanned).norm t (text.drop
              (max 0 (((ready triggers caseSensitive scanned).scannedUpto : Int)
                - (ready triggers caseSensitive scanned).maxTriggerLen + 1)).toNat)) := by
    rw [found, window, hstart]
    rfl
  unfold shouldStop
  rw [if_neg (by simp [ready, init]), if_neg (by simpa [ready, init] using hne)]
  dsimp only
  rw [← hsearch]
  cases found t triggers caseSensitive (window triggers scanned text) with
  | none => rfl
  | some trigger => rfl

theorem shouldStop_of_found {trigger : Str}
    (h : found t triggers caseSensitive (window triggers scanned text) = some trigger) :
    (ready triggers caseSensitive scanned).shouldStop t text
      = (true, { ready triggers caseSensitive scanned with triggeredBy := some trigger }) := by
  rw [shouldStop_ready hne, h, Option.elim_some]

theorem shouldStop_of_not_found
    (h : found t triggers caseSensitive (window triggers scanned text) = none) :
    (ready triggers caseSensitive scanned).shouldStop t text
      = (false, ready triggers caseSensitive text.length) := by
  rw [shouldStop_ready hne, h, Option.elim_none]

end Ready

theorem found_eq_none {text : Str} : found t triggers caseSensitive text = none ↔
    ∀ trigger ∈ triggers, ¬ (init triggers caseSensitive).norm t trigger
      <:+: (init triggers caseSensitive).norm t text := by
  simp [found]

theorem shouldStop_of_triggered {hook : EarlyStoppingHook} (h : hook.triggeredBy.isSome)
    (text : Str) : hook.shouldStop t text = (true, hook) := if_pos h

/-! ## The window -/

/-- What the translation makes of a text agrees with what it made of the text before, and with what
    it makes of the part that is searched. -/
structure Steady (t : CaseTable) (triggers : List Str) (caseSensitive : Bool) (prev text : Str) :
    Prop where
  before : (init triggers caseSensitive).norm t prev <+: (init triggers caseSensitive).norm t text
  behind : (init triggers caseSensitive).norm t (window triggers prev.length text)
    <:+ (init triggers caseSensitive).norm t text

/-- With case, the text itself is searched. -/
theorem steady_of_sensitive {prev text : Str} (h : prev <+: text) :
    Steady t triggers true prev text :=
  ⟨h, List.drop_suffix _ _⟩

/-- Without a capital sigma there is nothing that depends on what is around it. -/
theorem steady_of_sigma_free {prev text : Str} (h : prev <+: text) (hsigma : 'Σ' ∉ text) :
    Steady t triggers false prev text := by
  constructor
  · obtain ⟨more, rfl⟩ := h
    show t.lower prev <+: t.lower (prev ++ more)
    rw [CaseTable.lower_append hsigma]
    exact List.prefix_append _ _
  · show t.lower (window triggers prev.length text) <:+ t.lower text
    have hcut : text.take (Scan.start prev.length (longest triggers))
        ++ window triggers prev.length text = text := List.take_append_drop _ _
    rw [← hcut] at hsigma
    have hlower := CaseTable.lower_append (t := t) hsigma
    rw [hcut] at hlower
    rw [hlower]
    exact List.suffix_append _ _

/-- The text before, or none: nothing has been found in it. -/
structure Searched (t : CaseTable) (triggers : List Str) (caseSensitive : Bool)
    (prev text : Str) : Prop where
  grows : prev <+: text
  before : (init triggers caseSensitive).norm t prev <+: (init triggers caseSensitive).norm t text
  behind : 0 < longest triggers →
    (init triggers caseSensitive).norm t (window triggers prev.length text)
      <:+ (init triggers caseSensitive).norm t text
  new : ∀ trigger ∈ triggers, (init triggers caseSensitive).norm t trigger
    <:+: (init triggers caseSensitive).norm t prev →
      (init triggers caseSensitive).norm t trigger = []

/-- A trigger that is not translated into something longer than the longest one is found in the
    window if it is in the text. -/
theorem Searched.infix_window {prev text : Str} (h : Searched t triggers caseSensitive prev text)
    {trigger : Str} (hin : trigger ∈ triggers)
    (hfits : ((init triggers caseSensitive).norm t trigger).length ≤ longest triggers)
    (hwhole : (init triggers caseSensitive).norm t trigger
      <:+: (init triggers caseSensitive).norm t text) :
    (init triggers caseSensitive).norm t trigger
      <:+: (init triggers caseSensitive).norm t (window triggers prev.length text) :=
  Scan.infix_window (measured_norm t _) h.grows h.before h.behind hfits (h.new trigger hin) hwhole

/-! ## Many questions -/

/-- What a search of the whole of each text finds first. -/
def fullScan (t : CaseTable) (triggers : List Str) (caseSensitive : Bool) (texts : List Str) :
    Option Str :=
  texts.findSome? (found t triggers caseSensitive)

theorem asked_snoc (hook : EarlyStoppingHook) (texts : List Str) (text : Str) :
    hook.asked t (texts ++ [text]) = ((hook.asked t texts).shouldStop t text).2 := by
  simp [asked]

theorem fullScan_snoc (texts : List Str) (text : Str) :
    fullScan t triggers caseSensitive (texts ++ [text])
      = (fullScan t triggers caseSensitive texts).or (found t triggers caseSensitive text) := by
  simp [fullScan]

theorem norm_nil (hook : EarlyStoppingHook) : hook.norm t [] = [] := by
  unfold norm
  split <;> rfl

/-- The text that was asked about last. -/
def lastText (texts : List Str) : Str := texts.getLast?.getD []

theorem searched_lastText {texts : List Str} {text : Str} (hgrow : Growing (texts ++ [text]))
    (hsteady : (texts ++ [text]).IsChain (Steady t triggers caseSensitive))
    (hnone : fullScan t triggers caseSensitive texts = none) :
    Searched t triggers caseSensitive (lastText texts) text := by
  rw [Growing, List.isChain_append] at hgrow
  rw [List.isChain_append] at hsteady
  unfold lastText
  cases hlast : texts.getLast? with
  | none =>
      rw [Option.getD_none]
      refine ⟨List.nil_prefix, ?_, fun hpos => ?_, fun trigger _ h => ?_⟩
      · rw [norm_nil]
        exact List.nil_prefix
      · have hstart : Scan.start ([] : Str).length (longest triggers) = 0 := by
          rw [Scan.start, List.length_nil]
          omega
        rw [window, hstart, List.drop_zero]
      · rw [norm_nil] at h
        exact List.infix_nil.1 h
  | some prev =>
      rw [Option.getD_some]
      have hextends := hgrow.2.2 prev hlast text rfl
      have hprev := hsteady.2.2 prev hlast text rfl
      have hfound : found t triggers caseSensitive prev = none :=
        List.findSome?_eq_none_iff.1 hnone prev (List.mem_of_getLast? hlast)
      exact ⟨hextends, hprev.before, fun _ => hprev.behind,
        fun trigger hin h => absurd h (found_eq_none.1 hfound trigger hin)⟩

/-- What is in the window is in the text. -/
theorem Searched.found_window {prev text : Str} (h : Searched t triggers caseSensitive prev text)
    (hnone : found t triggers caseSensitive text = none) :
    found t triggers caseSensitive (window triggers prev.length text) = none := by
  rw [found_eq_none] at hnone ⊢
  intro trigger hin hwindow
  refine hnone trigger hin ?_
  rcases Nat.eq_zero_or_pos (longest triggers) with hzero | hpos
  · have hlength := length_le_longest hin
    obtain rfl : trigger = [] := List.eq_nil_of_length_eq_zero (by omega)
    rw [norm_nil]
    exact List.nil_infix
  · exact hwindow.trans (h.behind hpos).isInfix

section Runs

variable (hne : triggers ≠ []) {texts : List Str}

include hne

/-- A hook that has not been triggered remembers the length of the last text. -/
theorem asked_of_untriggered
    (h : ((init triggers caseSensitive).asked t texts).triggeredBy = none) :
    (init triggers caseSensitive).asked t texts
      = ready triggers caseSensitive (lastText texts).length := by
  induction texts using List.reverseRecOn with
  | nil => rfl
  | append_singleton texts text ih =>
      rw [asked_snoc] at h ⊢
      have hbefore : ((init triggers caseSensitive).asked t texts).triggeredBy = none := by
        by_contra hsome
        rw [shouldStop_of_triggered (Option.isSome_iff_ne_none.2 hsome)] at h
        exact hsome h
      rw [ih hbefore] at h ⊢
      cases hfound : found t triggers caseSensitive
          (window triggers (lastText texts).length text) with
      | some trigger =>
          rw [shouldStop_of_found hne hfound] at h
          cases h
      | none =>
          rw [shouldStop_of_not_found hne hfound]
          simp [lastText]

theorem triggeredBy_ready (scanned : Nat) (text : Str) :
    ((ready triggers caseSensitive scanned).shouldStop t text).2.triggeredBy
      = found t triggers caseSensitive (window triggers scanned text) := by
  cases h : found t triggers caseSensitive (window triggers scanned text) with
  | none => rw [shouldStop_of_not_found hne h]; rfl
  | some trigger => rw [shouldStop_of_found hne h]

/-- If nothing that is in a text is missed in the window, the hook is triggered as soon as there is
    something to be found. -/
theorem triggered_asked
    (hwindow : ∀ prev text, Searched t triggers caseSensitive prev text →
      found t triggers caseSensitive (window triggers prev.length text) = none →
        found t triggers caseSensitive text = none)
    (hgrow : Growing texts) (hsteady : texts.IsChain (Steady t triggers caseSensitive)) :
    ((init triggers caseSensitive).asked t texts).triggeredBy.isSome
      = (fullScan t triggers caseSensitive texts).isSome := by
  induction texts using List.reverseRecOn with
  | nil => rfl
  | append_singleton texts text ih =>
      have hbefore := ih (List.isChain_append.1 hgrow).1 (List.isChain_append.1 hsteady).1
      rw [asked_snoc, fullScan_snoc]
      cases hfull : fullScan t triggers caseSensitive texts with
      | some trigger =>
          rw [hfull, Option.isSome_some] at hbefore
          rw [shouldStop_of_triggered hbefore, hbefore, Option.some_or, Option.isSome_some]
      | none =>
          have hsearched := searched_lastText hgrow hsteady hfull
          rw [hfull, Option.isSome_none, Option.isSome_eq_false_iff, Option.isNone_iff_eq_none]
            at hbefore
          rw [asked_of_untriggered hne hbefore, triggeredBy_ready hne, Option.none_or,
            Bool.eq_iff_iff, ← not_iff_not, Option.not_isSome_iff_eq_none,
            Option.not_isSome_iff_eq_none]
          exact ⟨hwindow _ _ hsearched, hsearched.found_window⟩

/-- If the window and the text have the same trigger to be found first, the hook is triggered by the
    first one of the first text that has one. -/
theorem triggeredBy_asked
    (hwindow : ∀ prev text, Searched t triggers caseSensitive prev text →
      found t triggers caseSensitive (window triggers prev.length text)
        = found t triggers caseSensitive text)
    (hgrow : Growing texts) (hsteady : texts.IsChain (Steady t triggers caseSensitive)) :
    ((init triggers caseSensitive).asked t texts).triggeredBy
      = fullScan t triggers caseSensitive texts := by
  induction texts using List.reverseRecOn with
  | nil => rfl
  | append_singleton texts text ih =>
      have hbefore := ih (List.isChain_append.1 hgrow).1 (List.isChain_append.1 hsteady).1
      rw [asked_snoc, fullScan_snoc]
      cases hfull : fullScan t triggers caseSensitive texts with
      | some trigger =>
          rw [hfull] at hbefore
          rw [shouldStop_of_triggered (by rw [hbefore]; rfl), hbefore, Option.some_or]
      | none =>
          rw [hfull] at hbefore
          rw [asked_of_untriggered hne hbefore, triggeredBy_ready hne, Option.none_or]
          exact hwindow _ _ (searched_lastText hgrow hsteady hfull)

end Runs

/-- The answer says whether the hook has been triggered. -/
theorem shouldStop_fst (hook : EarlyStoppingHook) (text : Str) :
    (hook.shouldStop t text).1 = (hook.shouldStop t text).2.triggeredBy.isSome := by
  unfold shouldStop
  split
  · next h => exact h.symm
  · next h =>
      have hnone : hook.triggeredBy = none := by simpa using h
      split
      · rw [hnone]
        rfl
      · dsimp only
        split
        · rfl
        · rw [hnone]
          rfl

/-! ## With case -/

/-- What a search of the whole of each text finds: the first trigger that is in the first text that
    has one. -/
def firstTrigger (triggers texts : List Str) : Option Str :=
  texts.findSome? (fun text => triggers.find? (fun trigger => trigger <:+: text))

theorem found_window_eq {prev text : Str} (h : Searched t triggers true prev text) :
    found t triggers true (window triggers prev.length text) = found t triggers true text := by
  have hsame : ∀ trigger ∈ triggers,
      trigger <:+: window triggers prev.length text ↔ trigger <:+: text := by
    intro trigger hin
    constructor
    · exact fun hwindow => hwindow.trans (List.drop_suffix _ _).isInfix
    · exact h.infix_window hin (length_le_longest hin)
  refine List.find?_congr (fun trigger hin => ?_)
  exact decide_eq_decide.2 (hsame trigger hin)

/-- Without triggers there is nothing to do. -/
theorem asked_nil (texts : List Str) :
    (init [] caseSensitive).asked t texts = init [] caseSensitive := by
  induction texts with
  | nil => rfl
  | cons text texts ih => exact ih

/-- With case, the hook answers as if it had searched the whole text each time: it stops from the
    first text on that has a trigger, and it is and stays triggered by the first trigger there. -/
theorem incremental_eq_full_scan (t : CaseTable) (triggers : List Str) {texts : List Str}
    (hgrow : Growing texts) (before : List Str) (text : Str) (after : List Str)
    (hsplit : texts = before ++ text :: after) :
    (((init triggers true).asked t before).shouldStop t text).1
        = (firstTrigger triggers (before ++ [text])).isSome
      ∧ (((init triggers true).asked t before).shouldStop t text).2.triggeredBy
        = firstTrigger triggers (before ++ [text]) := by
  have hparts : texts = (before ++ [text]) ++ after := by simp [hsplit]
  have hgrow' : Growing (before ++ [text]) := (List.isChain_append.1 (hparts ▸ hgrow)).1
  have htriggered : ((init triggers true).asked t (before ++ [text])).triggeredBy
      = firstTrigger triggers (before ++ [text]) := by
    by_cases hne : triggers = []
    · rw [hne, asked_nil]
      exact (List.findSome?_eq_none_iff.2 (fun _ _ => rfl)).symm
    · exact triggeredBy_asked hne (fun prev text h => found_window_eq h) hgrow'
        (List.IsChain.imp (fun _ _ => steady_of_sensitive) hgrow')
  rw [shouldStop_fst, ← asked_snoc, htriggered]
  exact ⟨rfl, rfl⟩

/-- A trigger that comes in two parts. -/
theorem incremental_eq_full_scan_split :
    (((init ["Paris".toList] true).asked basicTable ["is Par".toList]).shouldStop basicTable
        "is Paris".toList).1
        = (firstTrigger ["Paris".toList] (["is Par".toList] ++ ["is Paris".toList])).isSome
      ∧ (((init ["Paris".toList] true).asked basicTable ["is Par".toList]).shouldStop basicTable
        "is Paris".toList).2.triggeredBy
        = firstTrigger ["Paris".toList] (["is Par".toList] ++ ["is Paris".toList]) :=
  incremental_eq_full_scan basicTable ["Paris".toList]
    (List.isChain_pair.2 ⟨"is".toList, by decide⟩) ["is Par".toList] "is Paris".toList [] rfl

/-! ## Without case -/

/-- A trigger whose lowercase form is longer than the longest trigger has in it the form of one that
    is not. -/
def Fits (t : CaseTable) (triggers : List Str) : Prop :=
  ∀ trigger ∈ triggers, longest triggers < (t.lower trigger).length →
    ∃ other ∈ triggers, (t.lower other).length ≤ longest triggers
      ∧ t.lower other <:+: t.lower trigger

/-- Whenever the lowercase form of a text has that of a trigger in it, the hook stops. -/
def MissesNothing (t : CaseTable) (triggers texts : List Str) : Prop :=
  ∀ before text after, texts = before ++ text :: after →
    (∃ trigger ∈ triggers, t.lower trigger <:+: t.lower text) →
      (((init triggers).asked t before).shouldStop t text).1 = true

/-- What is in the text is in the window, if the triggers fit. -/
theorem Searched.found_text {prev text : Str} (h : Searched t triggers false prev text)
    (hfits : Fits t triggers)
    (hnone : found t triggers false (window triggers prev.length text) = none) :
    found t triggers false text = none := by
  rw [found_eq_none] at hnone ⊢
  intro other hother hwhole
  by_cases hlong : (t.lower other).length ≤ longest triggers
  · exact hnone other hother (h.infix_window hother hlong hwhole)
  · -- a trigger that is too long has one in it that is not
    obtain ⟨shorter, hshorter, hlength, hpart⟩ := hfits other hother (not_le.1 hlong)
    exact hnone shorter hshorter (h.infix_window hshorter hlength (hpart.trans hwhole))

theorem missesNothing_of_fits {texts : List Str} (hfits : Fits t triggers) (hgrow : Growing texts)
    (hsteady : texts.IsChain (Steady t triggers false)) : MissesNothing t triggers texts := by
  rintro before text after hsplit ⟨trigger, hin, hmatch⟩
  have hparts : texts = (before ++ [text]) ++ after := by simp [hsplit]
  have hne : triggers ≠ [] := List.ne_nil_of_mem hin
  rw [shouldStop_fst, ← asked_snoc, triggered_asked hne (fun _ _ h => h.found_text hfits)
    (List.isChain_append.1 (hparts ▸ hgrow)).1 (List.isChain_append.1 (hparts ▸ hsteady)).1,
    fullScan_snoc, Option.isSome_or]
  have hfound : found t triggers false text ≠ none :=
    fun hnone => found_eq_none.1 hnone trigger hin hmatch
  rw [Option.isSome_iff_ne_none.2 hfound, Bool.or_true]

/-- A trigger that does not fit, with the shortest form of all of these: nothing is to be found in
    a part of its form. -/
theorem exists_shortest (h : ¬ Fits t triggers) :
    ∃ trigger ∈ triggers, longest triggers < (t.lower trigger).length
      ∧ ∀ part, part <:+: t.lower trigger → part.length < (t.lower trigger).length →
        ∀ other ∈ triggers, ¬ t.lower other <:+: part := by
  let Misfit : Str → Prop := fun trigger => trigger ∈ triggers
    ∧ longest triggers < (t.lower trigger).length
    ∧ ∀ other ∈ triggers, (t.lower other).length ≤ longest triggers →
      ¬ t.lower other <:+: t.lower trigger
  have hsome : ∃ trigger, Misfit trigger := by
    simp only [Fits, not_forall, not_exists, not_and] at h
    obtain ⟨trigger, hin, hlong, hnone⟩ := h
    exact ⟨trigger, hin, hlong, hnone⟩
  obtain ⟨trigger, ⟨hin, hlong, hnone⟩, hmin⟩ :=
    (measure (fun trigger : Str => (t.lower trigger).length)).wf.has_min {trigger | Misfit trigger}
      hsome
  refine ⟨trigger, hin, hlong, fun part hpart hlength other hother hmatch => ?_⟩
  by_cases hfit : (t.lower other).length ≤ longest triggers
  · exact hnone other hother hfit (hmatch.trans hpart)
  · have hmisfit : Misfit other := ⟨hother, not_le.1 hfit,
      fun third hthird hshort hin => hnone third hthird hshort (hin.trans (hmatch.trans hpart))⟩
    have hshorter : (t.lower other).length < (t.lower trigger).length :=
      hmatch.length_le.trans_lt hlength
    exact hmin other hmisfit hshorter

/-- If a trigger does not fit, a text that is its lowercase form and comes in two steps is
    missed. -/
theorem not_missesNothing (h : ¬ Fits t triggers) :
    ∃ texts, Growing texts ∧ (∀ text ∈ texts, 'Σ' ∉ text) ∧ ¬ MissesNothing t triggers texts := by
  obtain ⟨trigger, hin, hlong, hnone⟩ := exists_shortest h
  have hne : triggers ≠ [] := List.ne_nil_of_mem hin
  let whole := t.lower trigger
  have hpartLowered : ∀ part, part <:+: whole → t.Lowered part :=
    fun part hpart => (CaseTable.lowered_lower trigger).part hpart
  have hlowered : ∀ part, part <:+: whole → t.lower part = part :=
    fun part hpart => (hpartLowered part hpart).lower_eq
  have hfound : ∀ part, part <:+: whole → part.length < whole.length →
      found t triggers false part = none := by
    intro part hpart hlength
    refine found_eq_none.2 (fun other hother hmatch => hnone part hpart hlength other hother ?_)
    have hsame : (init triggers).norm t part = part := hlowered part hpart
    rwa [hsame] at hmatch
  have hwhole : longest triggers < whole.length := hlong
  have hpart : (whole.dropLast).length + 1 = whole.length := by
    rw [List.length_dropLast]
    omega
  have hwindow : (window triggers (whole.dropLast).length whole).length < whole.length := by
    rw [window, Scan.start, List.length_drop]
    omega
  have hinfix : window triggers (whole.dropLast).length whole <:+: whole :=
    (List.drop_suffix _ _).isInfix
  have hdropLast : whole.dropLast <:+: whole := (List.dropLast_prefix whole).isInfix
  -- a shortest such trigger arrives in two texts, its last character in the second
  refine ⟨[whole.dropLast, whole], List.isChain_pair.2 (List.dropLast_prefix whole), ?_,
    fun hmisses => ?_⟩
  · intro text htext hsigma
    have hin : text <:+: whole := by
      rcases List.mem_pair.1 htext with rfl | rfl
      · exact hdropLast
      · exact List.infix_refl _
    exact (hpartLowered text hin 'Σ' hsigma).2 rfl
  · have hstop := hmisses [whole.dropLast] whole [] rfl
      ⟨trigger, hin, by rw [hlowered _ (List.infix_refl whole)]⟩
    -- the first text is too short, and so is the window on the second
    have hdrop : window triggers 0 whole.dropLast <:+: whole :=
      (List.drop_suffix _ _).isInfix.trans hdropLast
    have hdropped : (window triggers 0 whole.dropLast).length < whole.length := by
      rw [window, List.length_drop]
      omega
    have hready : (init triggers).asked t [whole.dropLast]
        = ready triggers false (whole.dropLast).length :=
      congrArg Prod.snd (shouldStop_of_not_found hne (hfound _ hdrop hdropped))
    rw [hready, shouldStop_of_not_found hne (hfound _ hinfix hwindow)] at hstop
    cases hstop

/-! ## What is in reach -/

/-- A trigger begins, in the lowercase text, fewer characters of the text before the end of the
    previous one than the longest trigger has. A capital sigma that is final only because of what
    is further back counts as one that is not. -/
def InReach (t : CaseTable) (triggers : List Str) (prev text : Str) : Prop :=
  ∃ trigger ∈ triggers, t.OccursBehind text (prev.length + 1 - longest triggers) (t.lower trigger)

/-- One of the texts has a trigger in reach. -/
def Reached (t : CaseTable) (triggers texts : List Str) : Prop :=
  ∃ before text after, texts = before ++ text :: after ∧ InReach t triggers (lastText before) text

theorem reached_snoc {texts : List Str} {text : Str} : Reached t triggers (texts ++ [text])
    ↔ Reached t triggers texts ∨ InReach t triggers (lastText texts) text := by
  constructor
  · rintro ⟨before, reached, after, hsplit, hreach⟩
    rcases List.eq_nil_or_concat after with rfl | ⟨after, last, rfl⟩
    · obtain ⟨rfl, hlast⟩ := List.append_inj' hsplit rfl
      obtain rfl : text = reached := by simpa using hlast
      exact .inr hreach
    · rw [List.concat_eq_append, ← List.cons_append, ← List.append_assoc] at hsplit
      exact .inl ⟨before, reached, after, (List.append_inj' hsplit rfl).1, hreach⟩
  · rintro (⟨before, reached, after, rfl, hreach⟩ | hreach)
    · exact ⟨before, reached, after ++ [text], by simp, hreach⟩
    · exact ⟨texts, text, [], rfl, hreach⟩

theorem found_window_isSome_iff {prev text : Str} :
    (found t triggers false (window triggers prev.length text)).isSome = true
      ↔ InReach t triggers prev text := by
  rw [Option.isSome_iff_ne_none, Ne, found_eq_none, not_forall]
  simp only [not_forall, not_not, exists_prop]
  exact exists_congr fun trigger => and_congr_right fun _ => CaseTable.infix_lower_drop_iff _

/-- The hook is triggered by the texts that have a trigger in reach. -/
theorem asked_isSome_iff (texts : List Str) :
    ((init triggers).asked t texts).triggeredBy.isSome = true ↔ Reached t triggers texts := by
  by_cases hne : triggers = []
  · subst hne
    rw [asked_nil]
    exact iff_of_false (by simp [init])
      (fun ⟨_, _, _, _, _, hin, _⟩ => List.not_mem_nil hin)
  induction texts using List.reverseRecOn with
  | nil => exact iff_of_false (by simp [asked, init]) (fun ⟨_, _, _, h, _⟩ => by simp at h)
  | append_singleton texts text ih =>
      rw [asked_snoc, reached_snoc, ← ih]
      cases hbefore : ((init triggers).asked t texts).triggeredBy with
      | some trigger =>
          rw [shouldStop_of_triggered (by rw [hbefore]; rfl), hbefore]
          exact (or_iff_left_of_imp (fun _ => rfl)).symm
      | none =>
          rw [asked_of_untriggered hne hbefore, triggeredBy_ready hne, found_window_isSome_iff]
          simp

/-- Without case, nothing is missed if and only if, whenever a text has a trigger in it, this text
    or one before it has one in reach. Over all texts without a capital sigma that is so if and only
    if the triggers fit. -/
theorem misses_nothing_iff (t : CaseTable) (triggers : List Str) :
    (∀ texts, MissesNothing t triggers texts ↔ ∀ before text after,
        texts = before ++ text :: after →
          (∃ trigger ∈ triggers, t.lower trigger <:+: t.lower text) →
          Reached t triggers (before ++ [text]))
      ∧ ((∀ texts, Growing texts → (∀ text ∈ texts, 'Σ' ∉ text) → MissesNothing t triggers texts)
        ↔ Fits t triggers) := by
  refine ⟨fun texts => ?_, fun h => ?_, fun hfits texts hgrow hsigma => ?_⟩
  · have hanswer : ∀ before text, (((init triggers).asked t before).shouldStop t text).1 = true
        ↔ Reached t triggers (before ++ [text]) := by
      intro before text
      rw [shouldStop_fst, ← asked_snoc, asked_isSome_iff]
    simp only [MissesNothing, hanswer]
  · by_contra hfits
    obtain ⟨texts, hgrow, hsigma, hmisses⟩ := not_missesNothing hfits
    exact hmisses (h texts hgrow hsigma)
  · exact missesNothing_of_fits hfits hgrow (hgrow.imp_of_mem_imp
      (fun _ text _ hin hextends => steady_of_sigma_free hextends (hsigma text hin)))

/-- The trigger is one character, but two when it is lowercased, and these two come one by one. A
    final sigma stops being final, and the search does not go back to what is in front of it. -/
theorem capitals_missed :
    (Growing [['i'], ['i', '\u0307']]
        ∧ ¬ MissesNothing basicTable [['İ']] [['i'], ['i', '\u0307']])
      ∧ Growing [['A', 'Σ'], ['A', 'Σ', 'A']]
        ∧ ¬ MissesNothing basicTable [['a', 'σ']] [['A', 'Σ'], ['A', 'Σ', 'A']] := by
  refine ⟨⟨List.isChain_pair.2 ⟨['\u0307'], rfl⟩, fun h => ?_⟩,
    List.isChain_pair.2 ⟨['A'], rfl⟩, fun h => ?_⟩
  · have hstop := h [['i']] ['i', '\u0307'] [] rfl ⟨['İ'], List.mem_singleton.2 rfl, by decide⟩
    exact absurd hstop (by decide)
  · have hstop := h [['A', 'Σ']] ['A', 'Σ', 'A'] [] rfl
      ⟨['a', 'σ'], List.mem_singleton.2 rfl, by decide⟩
    exact absurd hstop (by decide)

end EarlyStoppingHook

end EvalHarness
