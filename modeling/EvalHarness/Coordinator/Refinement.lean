import EvalHarness.Coordinator.Protocol
import EvalHarness.Lib.Transition

set_option autoImplicit false

/-! # Every function of the coordinator is a path of moves

One lemma per function, in the order of the source, and from them `reach_after`: wherever the loop
stands, the protocol can be there. -/

namespace EvalHarness

variable {σ : Type} {w : World σ}

theorem Path.call {pt : Point σ} {s : Sys σ} {p : Phase} (h : Path w pt ⟨s, p⟩) :
    Path w pt ⟨s.call w, p⟩ :=
  h.tail (.call s p 0 le_rfl (Or.inl rfl))

theorem Move.log_suffix {a b : Point σ} (h : Move w a b) : a.sys.log <:+ b.sys.log := by
  cases h with
  | vacate s p slot hslot hwhy => exact List.suffix_append _ _
  | promote s p slot h s' time hslot hempty hpool hs' =>
      cases hs' with
      | started time' => exact List.suffix_cons _ _
      | refused => exact List.suffix_refl _
  | failRefill s rf rest s' hagain hs' =>
      cases hs' with
      | started time' => exact List.suffix_append [_, _, _] _
      | refused => exact List.suffix_append [_, _] _
  | evict s ref f now submittedAt hf hage => exact List.suffix_append [_, _] _
  | completeFailed s ref f rows i k exc hr hk => exact List.suffix_append [_, _] _
  | submit s slot e h time hh => exact List.suffix_append [_, _] _
  | install s p slot healthy hslot hempty => exact List.suffix_append [_, _, _] _
  | abandon s p slot exc => exact List.suffix_append [_, _, _] _
  | join s rf rest healthy time => exact List.suffix_append [_, _] _
  | giveUpRefill s rf rest hlast => exact List.suffix_append [_, _] _
  | _ => first | exact List.suffix_refl _ | exact List.suffix_cons _ _

theorem Path.log_suffix {a b : Point σ} (h : Path w a b) : a.sys.log <:+ b.sys.log :=
  Transition.invariant_of_step (I := fun pt => a.sys.log <:+ pt.sys.log)
    (fun _ _ hm hI => hI.trans hm.log_suffix) h (List.suffix_refl _)

theorem Sys.Troubled.mono {s s' : Sys σ} (h : s.Troubled w) (hlog : s.log <:+ s'.log) :
    s'.Troubled w :=
  h.imp_right (fun ⟨ref, f, r, hin⟩ => ⟨ref, f, r, hlog.subset hin⟩)

theorem Move.later {a b : Point σ} (h : Move w a b) : RayState.Later a.sys.ray b.sys.ray := by
  cases h with
  | call s p d hd => exact RayState.later_call _ _ _ hd
  | promote s p slot h s' time hslot hempty hpool hs' => cases hs' <;> exact .refl _
  | failRefill s rf rest s' hagain hs' => cases hs' <;> exact .refl _
  | _ => exact ⟨le_refl _, fun _ => id⟩

theorem Path.later {a b : Point σ} (h : Path w a b) : RayState.Later a.sys.ray b.sys.ray :=
  Transition.invariant_of_step (I := fun pt => RayState.Later a.sys.ray pt.sys.ray)
    (fun _ _ hm hI => hI.trans hm.later) h (.refl _)

/-! ## Refills and replacement -/

/-- A refill attempt is calls followed by one `Refilled` step. -/
theorem startStandbyRefill_refilled (attempt : Nat) (s : Sys σ) :
    Refilled attempt (s.call w) (startStandbyRefill w attempt s) ∨
      Refilled attempt ((s.call w).call w) (startStandbyRefill w attempt s) := by
  unfold startStandbyRefill
  cases (s.reply w).construct with
  | some exc => exact Or.inl .refused
  | none => exact Or.inr (.started _)

/-- A call makes no difference to what giving up on a refill notes. -/
theorem call_countRefillFailure (s : Sys σ) (h : Handle) (call : Option Nat) :
    ((s.emit (.checked h call)).countRefillFailure.emit (.killed h)).call w
      = ((s.call w).emit (.checked h call)).countRefillFailure.emit (.killed h) := rfl

theorem failRefill_path (s : Sys σ) (rf : Refill) (rest : List Refill) {call : Option Nat}
    (hcall : ∀ i ∈ call, (w.env i).Refuses) :
    Path w ⟨s, .polling (rf :: rest)⟩
      ⟨failRefill w rf.handle rf.attempt (s.emit (.checked rf.handle call)), .polling rest⟩ := by
  have hkill : Path w ⟨s, .polling (rf :: rest)⟩ ⟨s.call w, .polling (rf :: rest)⟩ :=
    Path.call .refl
  have hkilled : killActor w (s.emit (.checked rf.handle call)).countRefillFailure rf.handle
      = ((s.call w).emit (.checked rf.handle call)).countRefillFailure.emit (.killed rf.handle) :=
    rfl
  unfold failRefill
  rw [hkilled]
  split
  · next hagain =>
      rcases startStandbyRefill_refilled (w := w) (rf.attempt + 1)
        (((s.call w).emit (.checked rf.handle call)).countRefillFailure.emit
          (.killed rf.handle)) with h | h
      · rw [call_countRefillFailure] at h
        exact hkill.call.tail (.failRefill _ rf rest _ hagain h hcall)
      · rw [call_countRefillFailure, call_countRefillFailure] at h
        exact hkill.call.call.tail (.failRefill _ rf rest _ hagain h hcall)
  · next hlast => exact hkill.tail (.giveUpRefill _ rf rest hlast call hcall)

/-- A reply to a readiness check lets the actor in or turns it away. -/
theorem Reply.refuses_of_not_admits {r : Reply} (h : ∀ healthy, ¬ r.Admits healthy) :
    r.Refuses := by
  rcases hhealth : r.health with exc | healthy
  · exact Or.inl ⟨exc, hhealth⟩
  · exact Or.inr (Option.ne_none_iff_exists'.1 (fun hnone => h healthy ⟨hhealth, hnone⟩))

theorem pollRefill_path (s : Sys σ) (rf : Refill) (rest : List Refill) :
    Path w ⟨s, .polling (rf :: rest)⟩ ⟨pollRefill w s rf, .polling rest⟩ := by
  have hcall : Path w ⟨s, .polling (rf :: rest)⟩ ⟨(s.call w).call w, .polling (rf :: rest)⟩ :=
    Path.call (Path.call .refl)
  unfold pollRefill
  dsimp only
  split
  · split
    · next healthy hhealth hvalidate =>
        exact hcall.call.tail (.join (((s.call w).call w).call w) rf rest healthy _
          (s.call w).ray.step ⟨hhealth, hvalidate⟩)
    · next hrefused =>
        refine hcall.trans (failRefill_path _ rf rest (fun i hi => ?_))
        obtain rfl := Option.some.inj hi
        exact Reply.refuses_of_not_admits (fun healthy h => hrefused healthy h.1 h.2)
  · split
    · exact hcall.trans (failRefill_path _ rf rest (fun i hi => by cases hi))
    · exact hcall.tail (.keep _ rf rest)

theorem pollStandbyRefills_path (s : Sys σ) :
    Path w ⟨s, .idle⟩ ⟨pollStandbyRefills w s, .idle⟩ := by
  have hfold : ∀ (refills : List Refill) (s : Sys σ),
      Path w ⟨s, .polling refills⟩ ⟨refills.foldl (pollRefill w) s, .polling []⟩ := by
    intro refills
    induction refills with
    | nil => intro s; exact .refl
    | cons rf rest ih => intro s; exact (pollRefill_path s rf rest).trans (ih _)
  exact (Relation.ReflTransGen.single (.poll s)).trans ((hfold _ _).tail (.polled _))

theorem attemptReplace_path (slot : Nat) (s : Sys σ) (p : Phase) (hslot : p.slot? = some slot)
    (hempty : (s.workers[slot]?).join = none) :
    Path w ⟨s, p⟩ ⟨(attemptReplace w slot s).2, p⟩ := by
  have hcall : Path w ⟨s, p⟩ ⟨s.call w, p⟩ := Path.call .refl
  unfold attemptReplace
  dsimp only
  split
  · exact hcall
  · split
    · next exc hhealth =>
        exact hcall.call.tail
          (.abandon ((s.call w).call w) p slot _ (s.call w).ray.step (Or.inl ⟨exc, hhealth⟩))
    · next exc hhealth hvalidate =>
        exact hcall.call.tail
          (.abandon ((s.call w).call w) p slot _ (s.call w).ray.step (Or.inr ⟨exc, hvalidate⟩))
    · next healthy hhealth hvalidate =>
        exact hcall.call.tail (.install ((s.call w).call w) p slot healthy hslot hempty
          (s.call w).ray.step ⟨hhealth, hvalidate⟩)

/-- A failed attempt leaves the slots as they are. -/
theorem attemptReplace_workers {slot : Nat} {s s' : Sys σ}
    (h : attemptReplace w slot s = (false, s')) : s'.workers = s.workers := by
  unfold attemptReplace at h
  dsimp only at h
  split at h
  · rw [← (Prod.mk.inj h).2]; rfl
  · split at h
    · rw [← (Prod.mk.inj h).2]; rfl
    · rw [← (Prod.mk.inj h).2]; rfl
    · cases (Prod.mk.inj h).1

theorem blockingReplace_path (slot maxAttempts : Nat) (p : Phase) (hslot : p.slot? = some slot) :
    ∀ (left : Nat) (s : Sys σ), (s.workers[slot]?).join = none → s.Troubled w →
      Path w ⟨s, p⟩ ⟨(blockingReplace w slot maxAttempts left s).2, p⟩ := by
  intro left
  induction left with
  | zero => intro s _ _; exact .refl
  | succ left ih =>
      intro s hempty hwhy
      have hatt := attemptReplace_path (w := w) slot s p hslot hempty
      unfold blockingReplace
      split
      · next s' heq => rw [heq] at hatt; exact hatt
      · next s' heq =>
          rw [heq] at hatt
          have hwhy' : s'.Troubled w := hwhy.mono (Path.log_suffix hatt)
          refine (hatt.tail (.call _ p _ ?_ (Or.inr (Or.inr hwhy')))).trans (ih _ ?_ hwhy')
          · positivity
          · show (s'.workers[slot]?).join = none
            rw [attemptReplace_workers heq]
            exact hempty

theorem vacate_empty (slot : Nat) (s : Sys σ) : (((s.vacate slot).workers)[slot]?).join = none := by
  show ((s.workers.set slot none)[slot]?).join = none
  rw [List.getElem?_set_self']
  cases s.workers[slot]? <;> rfl

theorem replaceWorker_path (slot : Nat) (s : Sys σ) (p : Phase) (hslot : p.slot? = some slot)
    (hwhy : s.Troubled w) :
    Path w ⟨s, p⟩ ⟨(replaceWorker w slot s).2, p⟩ := by
  have hvac : Path w ⟨s, p⟩ ⟨(s.vacate slot).call w, p⟩ :=
    Path.call (.single (.vacate s p slot hslot hwhy))
  have hempty := vacate_empty slot s
  have hwhy' : ((s.vacate slot).call w).Troubled w := hwhy.mono (Path.log_suffix hvac)
  unfold replaceWorker
  dsimp only
  split
  · next h hpool =>
      rcases startStandbyRefill_refilled (w := w) 0
        (sampleStandbyPool w (((s.vacate slot).call w).promote slot h)) with hr | hr
      · exact hvac.call.call.tail (.promote _ p slot h _ _ hslot hempty hpool hr)
      · exact hvac.call.call.call.tail (.promote _ p slot h _ _ hslot hempty hpool hr)
  · split
    · exact (hvac.tail (.fallback _ p)).trans (blockingReplace_path slot _ p hslot _ _ hempty hwhy')
    · exact hvac.trans (blockingReplace_path slot _ p hslot _ _ hempty hwhy')

theorem checkAndReplaceIfPoisoned_path (slot : Nat) (s : Sys σ) (p : Phase)
    (hslot : p.slot? = some slot) :
    Path w ⟨s, p⟩ ⟨checkAndReplaceIfPoisoned w slot s, p⟩ := by
  unfold checkAndReplaceIfPoisoned
  dsimp only
  split
  · exact .refl
  · split
    · exact Path.call .refl
    · next hne =>
        refine (Path.call .refl).trans (replaceWorker_path slot _ p hslot (Or.inl ⟨s.ray.step, ?_⟩))
        exact fun h => hne h

/-! ## Submission and dispatch -/

theorem submit_path (slot : Nat) (e : Entry) (s : Sys σ) :
    Path w ⟨s, .taken slot e⟩ ⟨submit w slot e s, .idle⟩ := by
  unfold submit
  split
  · next hdead => exact .single (.bounce s slot e hdead)
  · next h hh =>
      have hslot : s.workers[slot]? = some (some h) := Option.join_eq_some_iff.1 hh
      have htime : s.ray.clock ≤ ((s.launch slot e h).call w).ray.clock :=
        (RayState.later_call w.evaluateBatch (s.launch slot e h).ray _ le_rfl).clock
      exact Path.call (.single (.submit s slot e h _ hslot htime))

theorem assignNext_path (slot : Nat) (s : Sys σ) :
    Path w ⟨s, .free slot⟩ ⟨assignNext w slot s, .idle⟩ := by
  unfold assignNext
  split
  · exact .single (.rest s slot)
  · next e rest hp => exact .head (.take s slot e rest hp) (submit_path slot e _)

theorem promoteReadyRetries_path (s : Sys σ) :
    Path w ⟨s, .idle⟩ ⟨promoteReadyRetries w s, .idle⟩ :=
  Relation.ReflTransGen.tail (Path.call .refl) (.wakeUp _ _)

/-- A submission adds no flight but the new one. -/
theorem submit_busy {slot i : Nat} {e : Entry} {s : Sys σ} (h : i ∈ (submit w slot e s).busy) :
    i = slot ∨ i ∈ s.busy := by
  unfold submit at h
  split at h
  · exact Or.inr h
  · obtain ⟨f, hf, rfl⟩ := List.mem_map.1 h
    rcases Dict.mem_values_set hf with rfl | hf
    · exact Or.inl rfl
    · exact Or.inr (List.mem_map.2 ⟨f, hf, rfl⟩)

/-- The slots still to be looked at have no flight unless they had one when `busy` was read. -/
theorem dispatchToSlots_path (busy : List Nat) :
    ∀ (slots : List Nat) (s : Sys σ), slots.Nodup → (∀ i ∈ slots, i ∈ s.busy → i ∈ busy) →
      Path w ⟨s, .idle⟩ ⟨dispatchToSlots w busy slots s, .idle⟩ := by
  intro slots
  induction slots with
  | nil => intro s _ _; exact .refl
  | cons i slots ih =>
      intro s hnd hbusy
      obtain ⟨hi, hnd'⟩ := List.nodup_cons.1 hnd
      unfold dispatchToSlots
      split
      · exact .refl
      · next e rest hp =>
          split
          · exact ih s hnd' (fun j hj => hbusy j (List.mem_cons_of_mem i hj))
          · next hgo =>
              rw [not_or] at hgo
              have hidle : i ∉ s.busy := fun hib => hgo.2 (hbusy i List.mem_cons_self hib)
              refine .head (.claim s i e rest hp hidle hgo.1)
                ((submit_path i e _).trans (ih _ hnd' ?_))
              intro j hj hjb
              rcases submit_busy hjb with rfl | hjb'
              · exact absurd hj hi
              · exact hbusy j (List.mem_cons_of_mem i hj) hjb'

theorem dispatchPendingToIdle_path (s : Sys σ) :
    Path w ⟨s, .idle⟩ ⟨dispatchPendingToIdle w s, .idle⟩ := by
  unfold dispatchPendingToIdle
  split
  · exact .refl
  · exact dispatchToSlots_path _ _ s List.nodup_range (fun i _ hi => hi)

/-- A submission leaves the slots as they are. -/
theorem submit_workers (slot : Nat) (e : Entry) (s : Sys σ) :
    (submit w slot e s).workers = s.workers := by
  unfold submit
  split <;> rfl

theorem fillPipeline_path : ∀ (available : List Nat) (s : Sys σ), available.Nodup →
    (∀ i ∈ available, i ∉ s.busy) → (∀ i ∈ available, (s.workers[i]?).join ≠ none) →
    Path w ⟨s, .idle⟩ ⟨(fillPipeline w available s).2, .idle⟩ := by
  intro available
  induction available with
  | nil => intro s _ _ _; exact .refl
  | cons i available ih =>
      intro s hnd hbusy hlive
      obtain ⟨hi, hnd'⟩ := List.nodup_cons.1 hnd
      unfold fillPipeline
      split
      · exact .refl
      · next e rest hp =>
          refine .head (.claim s i e rest hp (hbusy i List.mem_cons_self)
            (hlive i List.mem_cons_self)) ((submit_path i e _).trans (ih _ hnd' ?_ ?_))
          · intro j hj hjb
            rcases submit_busy hjb with rfl | hjb'
            · exact absurd hj hi
            · exact hbusy j (List.mem_cons_of_mem i hj) hjb'
          · intro j hj
            rw [submit_workers]
            exact hlive j (List.mem_cons_of_mem i hj)

/-! ## Harvest

A function that may raise leads either to its result in the expected phase, or to the state of the
exception in a phase that explains it. -/

theorem Act.bind_ok {α β : Type} {x : Act σ α} {f : α → Act σ β} {b : β} :
    x >>= f = .ok b ↔ ∃ a, x = .ok a ∧ f a = .ok b := by
  cases x with
  | error raised => simp [bind, Except.bind]
  | ok a => simp [bind, Except.bind]

def Leads (w : World σ) (pt : Point σ) (p : Phase) : Act σ (Sys σ) → Prop
  | .ok s => Path w pt ⟨s, p⟩
  | .error raised => ∃ p', Path w pt ⟨raised.sys, p'⟩ ∧ Culprit w p' raised.exc

theorem Leads.trans {pt pt' : Point σ} {p : Phase} {r : Act σ (Sys σ)} (h : Path w pt pt')
    (hr : Leads w pt' p r) : Leads w pt p r := by
  cases r with
  | ok s => exact h.trans hr
  | error raised => exact hr.imp (fun _ => And.imp_left h.trans)

theorem Leads.bind {pt : Point σ} {p p' : Phase} {r : Act σ (Sys σ)}
    {f : Sys σ → Act σ (Sys σ)} (h : Leads w pt p r) (hf : ∀ s, Leads w ⟨s, p⟩ p' (f s)) :
    Leads w pt p' (r >>= f) := by
  cases r with
  | ok s => exact Leads.trans h (hf s)
  | error raised => exact h

theorem deferEntries_leads (f : Flight) : ∀ (entries : List Entry) (s : Sys σ),
    Leads w ⟨s, .spread f false entries⟩ (.free f.slot)
      (deferEntries w f.retryCount entries s) := by
  intro entries
  induction entries with
  | nil => intro s; exact .single (.settled s f)
  | cons e rest ih =>
      intro s
      unfold deferEntries
      dsimp only
      split
      · next exc hdelay =>
          exact ⟨_, Path.call .refl, Or.inr (Or.inl ⟨f, e, rest, _, rfl, hdelay⟩)⟩
      · next delay hdelay =>
          refine Leads.trans (Path.call .refl) ?_
          exact Leads.trans (.single (.defer _ f e rest delay _ hdelay)) (ih _)

/-- `record` on a state that counts the rows, as the give-up branches call it. -/
theorem record_cases (cause : Cause) (batch : Batch) (rows : List EvalResult) (s : Sys σ) :
    record w cause batch rows s = .ok ((s.call w).handOver w cause batch rows) ∨
      ∃ k exc, (w.env s.ray.step).recordFault = some (k, exc) ∧
        k < (w.cfg.shardGroups rows).length ∧
        record w cause batch rows s
          = .error ⟨exc, (s.call w).handOverFailed w cause batch rows k exc⟩ := by
  unfold record
  cases hfault : (s.reply w).recordFault with
  | none => exact Or.inl rfl
  | some fault =>
      obtain ⟨k, exc⟩ := fault
      by_cases hk : k < (w.cfg.shardGroups rows).length
      · exact Or.inr ⟨k, exc, hfault, hk, by simp [Option.filter, hk]⟩
      · exact Or.inl (by simp [Option.filter, hk])

theorem condemn_leads (s : Sys σ) (f : Flight) (reason : Option Exc) (b : Int)
    (hb : w.cfg.taskMaxRetries f.batch = .ok b)
    (hgate : ¬ RetryGate b f.batch f.retryCount reason) :
    Leads w ⟨s, .lost f reason⟩ (.free f.slot)
      (record w (causeOf reason) f.batch (w.cfg.condemnedRows f reason)
        (s.countFailed f.batch.length)) := by
  rcases record_cases (w := w) (causeOf reason) f.batch (w.cfg.condemnedRows f reason)
    (s.countFailed f.batch.length) with h | ⟨k, exc, hr, hk, h⟩
  · rw [h]
    exact Relation.ReflTransGen.tail (Path.call .refl) (.condemn _ f reason b hb hgate)
  · rw [h]
    exact ⟨_, Relation.ReflTransGen.tail (Path.call .refl)
      (.condemnFailed _ f reason b hb hgate _ k exc hr), Or.inl ⟨_, k, hr⟩⟩

theorem recoverBatch_leads (f : Flight) (exc : Exc) (s s' : Sys σ)
    (hs : s' = s.emit (.failed f exc)) :
    Leads w ⟨s', .lost f (some exc)⟩ (.free f.slot) (recoverBatch w f exc s) := by
  have hcheck := checkAndReplaceIfPoisoned_path (w := w) f.slot (s.emit (.failed f exc))
    (.lost f (some exc)) rfl
  subst hs
  unfold recoverBatch handleFailure budgetOf
  refine Leads.trans hcheck ?_
  generalize checkAndReplaceIfPoisoned w f.slot (s.emit (.failed f exc)) = s'
  cases hb : w.cfg.taskMaxRetries f.batch with
  | error e => exact ⟨_, .refl, Or.inr (Or.inr ⟨f, some exc, rfl, hb⟩)⟩
  | ok b =>
      by_cases hgate : f.retryCount < b ∧
          (classifyFailure exc = .transient ∨ 1 < f.batch.length)
      · simp only [Except.mapError, bind, Except.bind, pure, Except.pure, if_pos hgate]
        exact Leads.trans (.single (.retry s' f (some exc) b hb hgate)) (deferEntries_leads f _ _)
      · have hcond := condemn_leads s' f (some exc) b hb hgate
        simp only [Except.mapError, bind, Except.bind, pure, Except.pure, if_neg hgate]
        simp only [causeOf, Config.condemnedRows] at hcond
        revert hcond
        cases record w (.exception (classifyFailure exc)) f.batch
          (f.batch.map (w.cfg.failedRow f.slot exc.text (classifyFailure exc)))
          (s'.countFailed f.batch.length) with
        | ok s'' => exact id
        | error raised => exact id

/-- A harvest takes the ref out of the tables and goes on from there. -/
theorem harvest_leads_from (s : Sys σ) (ref : ObjectRef) (f : Flight) (out : Outcome)
    (hf : s.active.get? ref = some f) :
    Leads w ⟨(s.dropRef ref).emit (.harvested ref f), .fetched ref f out⟩ .idle
      (harvest w ref out s) := by
  simp only [harvest, hf]
  refine Leads.trans (Path.call .refl) ?_
  generalize ((s.dropRef ref).emit (.harvested ref f)).call w = s'
  have hassign : ∀ s' : Sys σ, Leads w ⟨s', .free f.slot⟩ .idle
      (pure (assignNext w f.slot s')) := fun s' => assignNext_path f.slot s'
  have hrecover : ∀ (exc : Exc) (s' : Sys σ), Leads w ⟨s'.emit (.failed f exc),
      .lost f (some exc)⟩ .idle (recoverBatch w f exc s' >>= fun s =>
        pure (assignNext w f.slot s)) :=
    fun exc s' => Leads.bind (recoverBatch_leads f exc s' _ rfl) hassign
  cases out with
  | error exc => exact Leads.trans (.single (.fail s' ref f exc)) (hrecover exc s')
  | ok rows =>
      rcases record_cases (w := w) .completed f.batch rows (s'.countCompleted rows.length)
        with h | ⟨k, exc, hr, hk, h⟩
      · simp only [settleBatch, handleSuccess, h]
        have hdone : Path w ⟨s', .fetched ref f (.ok rows)⟩ ⟨_, .free f.slot⟩ :=
          Relation.ReflTransGen.tail (Path.call .refl) (.complete (s'.call w) ref f rows)
        exact Leads.trans hdone (hassign _)
      · simp only [settleBatch, handleSuccess, h]
        have hfailed : Path w ⟨s', .fetched ref f (.ok rows)⟩ ⟨_, .lost f (some exc)⟩ :=
          Relation.ReflTransGen.tail (Path.call .refl)
            (.completeFailed (s'.call w) ref f rows _ k exc hr hk)
        exact Leads.trans hfailed (hrecover exc _)

theorem harvest_leads (s : Sys σ) (ref : ObjectRef) (out : Outcome) (hin : ref ∈ s.active.keys)
    (ho : s.ray.resolved.get? ref = some out) :
    Leads w ⟨s, .idle⟩ .idle (harvest w ref out s) := by
  obtain ⟨f, hf⟩ := Option.isSome_iff_exists.1 ((s.active.get?_isSome_iff ref).2 hin)
  exact Leads.trans (.single (.harvest s ref f out hf ho)) (harvest_leads_from s ref f out hf)

/-! ## Timeout scan -/

theorem requeueOrCondemn_leads (s : Sys σ) (f : Flight) :
    Leads w ⟨s, .lost f none⟩ (.free f.slot) (requeueOrCondemn w f s) := by
  unfold requeueOrCondemn budgetOf
  cases hb : w.cfg.taskMaxRetries f.batch with
  | error e => exact ⟨_, .refl, Or.inr (Or.inr ⟨f, none, rfl, hb⟩)⟩
  | ok b =>
      by_cases hgate : f.retryCount < b
      · simp only [Except.mapError, bind, Except.bind, pure, Except.pure, if_pos hgate]
        exact Relation.ReflTransGen.tail (.single (.retry s f none b hb hgate)) (.requeue _ f _)
      · simp only [Except.mapError, bind, Except.bind, if_neg hgate]
        exact condemn_leads s f none b hb hgate

/-- What follows an eviction: the batch goes back or is given up, the worker is replaced. -/
theorem evicted_leads {s : Sys σ} {ref : ObjectRef} {f : Flight} {resolved : Bool}
    (hlog : Event.evicted ref f resolved ∈ s.log) :
    Leads w ⟨s, .lost f none⟩ .idle (requeueOrCondemn w f s >>= fun s =>
      pure (assignNext w f.slot (replaceWorker w f.slot s).2)) := by
  have hreq := requeueOrCondemn_leads (w := w) s f
  cases hr : requeueOrCondemn w f s with
  | error raised => rw [hr] at hreq; exact hreq
  | ok s' =>
      rw [hr] at hreq
      have hev : Event.evicted ref f resolved ∈ s'.log :=
        (Path.log_suffix hreq).subset hlog
      exact Relation.ReflTransGen.trans hreq
        ((replaceWorker_path f.slot s' _ rfl (Or.inr ⟨_, _, _, hev⟩)).trans
          (assignNext_path f.slot _))

theorem scanRef_leads {now : ℚ} {s : Sys σ} (ref : ObjectRef) (hnow : now ≤ s.ray.clock) :
    Leads w ⟨s, .idle⟩ .idle (scanRef w now s ref) := by
  unfold scanRef
  split
  · exact .refl
  · next f hf =>
      dsimp only
      split
      · next hage => exact .single (.pass s ref f now _ hf hage)
      · next hage =>
          exact Leads.trans (.single (.evict s ref f now _ hf hage hnow rfl))
            (evicted_leads List.mem_cons_self)

theorem scan_leads {now : ℚ} {s : Sys σ} (refs : List ObjectRef) (hnow : now ≤ s.ray.clock) :
    Leads w ⟨s, .idle⟩ .idle (refs.foldlM (scanRef w now) s) := by
  induction refs generalizing s with
  | nil => exact .refl
  | cons ref rest ih =>
      have hone := scanRef_leads (w := w) ref hnow
      rw [List.foldlM_cons]
      cases hs : scanRef w now s ref with
      | error raised =>
          rw [hs] at hone
          exact hone
      | ok s' =>
          rw [hs] at hone
          exact Leads.trans hone (ih (hnow.trans (Path.later hone).clock))

theorem handleTimeouts_leads (s : Sys σ) : Leads w ⟨s, .idle⟩ .idle (handleTimeouts w s) :=
  Leads.trans (Path.call .refl) (scan_leads _ le_rfl)

/-! ## Fresh refs

Refs are numbered by submission, so the next one is not in `active` yet and its submission cannot
overwrite a flight. -/

def Sys.Fresh (s : Sys σ) : Prop := ∀ ref ∈ s.active.keys, ref.call < s.nextCall

theorem Sys.Fresh.dropRef {s : Sys σ} (h : s.Fresh) (ref : ObjectRef) : (s.dropRef ref).Fresh := by
  intro ref' href'
  rw [show (s.dropRef ref).active.keys = _ from Dict.keys_erase s.active ref] at href'
  exact h ref' (List.mem_filter.1 href').1

theorem Sys.Fresh.launch {s : Sys σ} (h : s.Fresh) (slot : Nat) (e : Entry) (hd : Handle) :
    (s.launch slot e hd).Fresh := by
  intro ref href
  have hmem : ref ∈ s.active.keys ∨ ref = s.freshRef hd := by
    rw [show (s.launch slot e hd).active.keys = _ from Dict.keys_set s.active _ _] at href
    split at href
    · exact Or.inl href
    · simpa using href
  show ref.call < s.nextCall + 1
  rcases hmem with hin | rfl
  · exact Nat.lt_succ_of_lt (h ref hin)
  · exact Nat.lt_succ_self _

theorem Sys.Fresh.freshRef_notMem {s : Sys σ} (h : s.Fresh) (hd : Handle) :
    s.freshRef hd ∉ s.active.keys :=
  fun hin => absurd (h _ hin) (lt_irrefl _)

theorem Move.fresh {a b : Point σ} (h : Move w a b) (hI : a.sys.Fresh) : b.sys.Fresh := by
  cases h with
  | harvest s ref f out hf ho => exact Sys.Fresh.dropRef hI ref
  | evict s ref f now submittedAt hf hage => exact Sys.Fresh.dropRef (s := s.emit _) hI ref
  | submit s slot e h time hh => exact Sys.Fresh.launch hI slot e h
  | promote s p slot h s' time hslot hempty hpool hs' => cases hs' <;> exact hI
  | failRefill s rf rest s' hagain hs' => cases hs' <;> exact hI
  | _ => exact hI

theorem Path.fresh {a b : Point σ} (h : Path w a b) (hI : a.sys.Fresh) : b.sys.Fresh :=
  Transition.invariant_of_step (I := fun pt => pt.sys.Fresh) (fun _ _ hm => hm.fresh) h hI

end EvalHarness
