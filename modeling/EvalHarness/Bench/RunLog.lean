import EvalHarness.Lib.Digits
import EvalHarness.Types

set_option autoImplicit false

/-! # The log of a run (`bench/multinode/measure.py`)

The logger of the harness stamps a line with the time of day, and `parse_log` puts the day back.
What it makes of a log is compared with the records that were written, and the retries it counts
with those that the coordinator announced. -/

namespace EvalHarness.Measure

open Text

/-! ## `parse_log` -/

/-- What `parse_log` keeps of a line. -/
structure LogEvent where
  epoch : ℚ
  level : Str
  message : Str

/-- `INFO|WARNING|ERROR`. -/
def levels : List Str := ["INFO".toList, "WARNING".toList, "ERROR".toList]

/-- `(\d{2})` at the start of a text. -/
def twoDigits (d : Digits) : Str → Option (Nat × Str)
  | a :: b :: rest => do
      let tens ← d.value a
      let units ← d.value b
      return (10 * tens + units, rest)
  | _ => none

/-- `LOG_LINE.match`: the three numbers, the level and the message. -/
def matchLine (d : Digits) (line : Str) : Option (Nat × Nat × Nat × Str × Str) := do
  let (hh, rest) ← twoDigits d line
  let rest ← literal ":".toList rest
  let (mm, rest) ← twoDigits d rest
  let rest ← literal ":".toList rest
  let (ss, rest) ← twoDigits d rest
  let rest ← literal " ".toList rest
  let level ← levels.find? (fun level => level ++ " ".toList <+: rest)
  return (hh, mm, ss, level, rest.drop (level ++ " ".toList).length)

/-- The midnight before the start of the run. -/
def midnight (t0 : ℚ) : ℚ := 86400 * ⌊t0 / 86400⌋

/-- `base.replace(..)`, as an epoch. -/
def stamp (t0 : ℚ) (hh mm ss : Nat) : Except Exc ℚ :=
  if 23 < hh then .error ⟨"ValueError", "hour must be in 0..23"⟩
  else if 59 < mm then .error ⟨"ValueError", "minute must be in 0..59"⟩
  else if 59 < ss then .error ⟨"ValueError", "second must be in 0..59"⟩
  else .ok (midnight t0 + (3600 * hh + 60 * mm + ss : Nat))

/-- A time well before the start belongs to the next day. -/
def rollForward (t0 epoch : ℚ) : ℚ := if epoch < t0 - 300 then epoch + 86400 else epoch

/-- The loop over the lines. -/
def parseLines (d : Digits) (t0 : ℚ) : List Str → Except Exc (List LogEvent)
  | [] => .ok []
  | line :: lines =>
      match matchLine d line with
      | none => parseLines d t0 lines
      | some (hh, mm, ss, level, message) => do
          let epoch ← stamp t0 hh mm ss
          let events ← parseLines d t0 lines
          return ⟨rollForward t0 epoch, level, message⟩ :: events

/-- `parse_log`, of the text of the log. -/
def parseLog (d : Digits) (t0 : ℚ) (text : Str) : Except Exc (List LogEvent) :=
  parseLines d t0 (fileLines text)

/-! ## What is written -/

/-- A record of the logger. -/
structure LogRecord where
  created : ℚ
  level : Str
  message : Str

/-- `%H:%M:%S` of a second, on a clock that shows UTC. -/
def timeOfDay (second : Int) : Str :=
  let n := (second % 86400).toNat
  padded 2 (n / 3600) ++ ":".toList ++ padded 2 (n / 60 % 60) ++ ":".toList ++ padded 2 (n % 60)

/-- `%(asctime)s %(levelname)s %(message)s`. -/
def LogRecord.format (r : LogRecord) : Str :=
  timeOfDay ⌊r.created⌋ ++ " ".toList ++ r.level ++ " ".toList ++ r.message

/-- The record with its time in seconds, as an event. -/
def LogRecord.event (r : LogRecord) : LogEvent := ⟨⌊r.created⌋, r.level, r.message⟩

/-- What a run prints: records of the logger, and other lines. -/
inductive Printed where
  | record (r : LogRecord)
  | other (line : Str)

def Printed.line : Printed → Str
  | .record r => r.format
  | .other line => line

def Printed.record? : Printed → Option LogRecord
  | .record r => some r
  | .other _ => none

/-- The text of the log. -/
def logText (printed : List Printed) : Str :=
  (printed.map Printed.line).flatMap (fun line => line ++ ['\n'])

/-- A record of one of the three levels with a message of one line, or a line that no one takes for
    a record. -/
def Printed.Plain (d : Digits) : Printed → Prop
  | .record r => r.level ∈ levels ∧ '\n' ∉ r.message ∧ '\r' ∉ r.message
  | .other line => matchLine d line = none ∧ '\n' ∉ line ∧ '\r' ∉ line

/-- The earliest time that `parse_log` can give. -/
def windowStart (t0 : ℚ) : ℚ := max (midnight t0) (t0 - 300)

/-- Where `parse_log` places a second. -/
def placed (t0 : ℚ) (second : Int) : ℚ := rollForward t0 (midnight t0 + (second % 86400 : Int))

/-! ## One line -/

variable {d : Digits}

theorem twoDigits_padded {n : Nat} (h : n < 100) (rest : Str) :
    twoDigits d (padded 2 n ++ rest) = some (n, rest) := by
  have hlen : (padded 2 n).length = 2 := length_padded (by norm_num) (by simpa using h)
  obtain ⟨a, b, hpair⟩ := List.length_eq_two.1 hlen
  have hdigit : ∀ c ∈ [a, b], c.isDigit = true := fun c hc => isDigit_of_mem_padded (hpair ▸ hc)
  have hvalue := toNat_padded d 2 n
  have ha := d.value_of_isDigit (hdigit a (by simp))
  have hb := d.value_of_isDigit (hdigit b (by simp))
  rw [hpair] at hvalue ⊢
  simp only [Digits.toNat, List.foldl_cons, List.foldl_nil, ha, hb, Option.getD_some,
    Nat.mul_zero, Nat.zero_add] at hvalue
  simpa [twoDigits, ha, hb] using hvalue

/-- No level is the start of another. -/
theorem find?_level {level : Str} (h : level ∈ levels) (rest : Str) :
    levels.find? (fun other => other ++ " ".toList <+: level ++ " ".toList ++ rest)
      = some level := by
  have hself : decide (level ++ " ".toList <+: level ++ " ".toList ++ rest) = true :=
    decide_eq_true (List.prefix_append _ rest)
  have hother : ∀ other : Str, other ≠ [] → level ≠ [] → other.head? ≠ level.head? →
      decide (other ++ " ".toList <+: level ++ " ".toList ++ rest) = false := by
    intro other hne hlevel hhead
    refine decide_eq_false (not_prefix_of_head (List.append_ne_nil_of_left_ne_nil hne _) ?_)
    rw [List.append_assoc, List.head?_append_of_ne_nil level hlevel,
      List.head?_append_of_ne_nil other hne]
    exact hhead.symm
  simp only [levels, List.mem_cons, List.not_mem_nil, or_false] at h
  rcases h with rfl | rfl | rfl
  · simp only [levels, List.find?_cons, hself]
  · have hinfo := hother "INFO".toList (by decide) (by decide) (by decide)
    simp only [levels, List.find?_cons, hinfo, hself]
  · have hinfo := hother "INFO".toList (by decide) (by decide) (by decide)
    have hwarning := hother "WARNING".toList (by decide) (by decide) (by decide)
    simp only [levels, List.find?_cons, hinfo, hwarning, hself]

/-- The parts of a time of day. -/
theorem seconds_split {n : Nat} (h : n < 86400) : n / 3600 ≤ 23 ∧ n / 60 % 60 ≤ 59 ∧ n % 60 ≤ 59 ∧
    3600 * (n / 3600) + 60 * (n / 60 % 60) + n % 60 = n := by
  omega

theorem matchLine_format {r : LogRecord} (h : r.level ∈ levels) :
    matchLine d r.format = some ((⌊r.created⌋ % 86400).toNat / 3600,
      (⌊r.created⌋ % 86400).toNat / 60 % 60, (⌊r.created⌋ % 86400).toNat % 60, r.level,
      r.message) := by
  have hlt : (⌊r.created⌋ % 86400).toNat < 86400 := by omega
  obtain ⟨hh, hm, hs, -⟩ := seconds_split hlt
  simp only [matchLine, LogRecord.format, timeOfDay, List.append_assoc]
  rw [twoDigits_padded (by omega)]
  simp only [Option.bind_eq_bind, Option.bind_some, literal_append]
  rw [twoDigits_padded (by omega)]
  simp only [Option.bind_some, literal_append]
  rw [twoDigits_padded (by omega)]
  simp only [Option.bind_some, literal_append]
  rw [← List.append_assoc r.level, find?_level h]
  simp

/-- The line of a record comes back with the record's second, on a day of `parse_log`'s choice. -/
theorem parseLines_record (t0 : ℚ) {r : LogRecord} (h : r.level ∈ levels) (lines : List Str) :
    parseLines d t0 (r.format :: lines)
      = (parseLines d t0 lines).map (fun events =>
          ⟨placed t0 ⌊r.created⌋, r.level, r.message⟩ :: events) := by
  have hlt : (⌊r.created⌋ % 86400).toNat < 86400 := by omega
  obtain ⟨hh, hm, hs, hsum⟩ := seconds_split hlt
  have hcast : (((⌊r.created⌋ % 86400).toNat : Nat) : ℚ) = ((⌊r.created⌋ % 86400 : Int) : ℚ) := by
    have hnonneg : 0 ≤ ⌊r.created⌋ % 86400 := by omega
    exact_mod_cast Int.toNat_of_nonneg hnonneg
  have hstamp : stamp t0 ((⌊r.created⌋ % 86400).toNat / 3600)
      ((⌊r.created⌋ % 86400).toNat / 60 % 60) ((⌊r.created⌋ % 86400).toNat % 60)
        = .ok (midnight t0 + (⌊r.created⌋ % 86400 : Int)) := by
    rw [stamp, if_neg (by omega), if_neg (by omega), if_neg (by omega), hsum, hcast]
  rw [parseLines, matchLine_format h]
  simp only [hstamp]
  rcases parseLines d t0 lines with exc | events
  · rfl
  · rfl

/-! ## The day -/

theorem lt_midnight (t0 : ℚ) : t0 < midnight t0 + 86400 := by
  have hfloor := Int.lt_floor_add_one (t0 / 86400)
  rw [midnight]
  linarith

/-- A second is placed on a day that starts or ends the window. -/
theorem placed_mem (t0 : ℚ) (second : Int) :
    windowStart t0 ≤ placed t0 second ∧ placed t0 second < windowStart t0 + 86400 := by
  have hnonneg : (0 : ℚ) ≤ ((second % 86400 : Int) : ℚ) := by
    exact_mod_cast Int.emod_nonneg second (by norm_num)
  have hlt : ((second % 86400 : Int) : ℚ) < 86400 := by
    exact_mod_cast Int.emod_lt_of_pos second (by norm_num)
  have hstart := lt_midnight t0
  unfold placed rollForward windowStart
  split
  · next hbefore =>
      rw [max_eq_right (by linarith)]
      constructor <;> linarith
  · next hnot =>
      exact ⟨max_le (by linarith) (by linarith),
        by linarith [le_max_left (midnight t0) (t0 - 300)]⟩

/-- Times of one window with the same time of day are the same. -/
theorem eq_of_window {start : ℚ} {m n : Int} (hmod : m % 86400 = n % 86400)
    (hm : start ≤ m ∧ (m : ℚ) < start + 86400) (hn : start ≤ n ∧ (n : ℚ) < start + 86400) :
    m = n := by
  have hlt : ((m - n : Int) : ℚ) < (86400 : Int) := by
    push_cast
    linarith [hm.2, hn.1]
  have hgt : ((n - m : Int) : ℚ) < (86400 : Int) := by
    push_cast
    linarith [hn.2, hm.1]
  have hlt' := Int.cast_lt.1 hlt
  have hgt' := Int.cast_lt.1 hgt
  omega

/-- The place of a second, as a number of seconds. -/
theorem placed_eq_cast (t0 : ℚ) (second : Int) :
    ∃ n : Int, placed t0 second = n ∧ n % 86400 = second % 86400 := by
  unfold placed rollForward midnight
  split
  · refine ⟨86400 * ⌊t0 / 86400⌋ + second % 86400 + 86400, by push_cast; ring, by omega⟩
  · exact ⟨86400 * ⌊t0 / 86400⌋ + second % 86400, by push_cast; ring, by omega⟩

theorem placed_eq_iff (t0 : ℚ) (second : Int) : placed t0 second = second ↔
    windowStart t0 ≤ second ∧ (second : ℚ) < windowStart t0 + 86400 := by
  have hmem := placed_mem t0 second
  obtain ⟨n, hn, hmod⟩ := placed_eq_cast t0 second
  constructor
  · intro heq
    rwa [heq] at hmem
  · intro hwindow
    rw [hn] at hmem ⊢
    exact congrArg Int.cast (eq_of_window hmod hmem hwindow)

/-! ## The log -/

theorem not_mem_format {c : Char} (hc : c = '\n' ∨ c = '\r') {r : LogRecord}
    (hlevel : r.level ∈ levels) (hmessage : c ∉ r.message) : c ∉ r.format := by
  have hdigits : ∀ n, c ∉ padded 2 n := by
    intro n hin
    have hdigit := isDigit_of_mem_padded hin
    rcases hc with rfl | rfl <;> exact absurd hdigit (by decide)
  have hcolon : c ∉ ":".toList := by rcases hc with rfl | rfl <;> decide
  have hspace : c ∉ " ".toList := by rcases hc with rfl | rfl <;> decide
  have hin : c ∉ r.level := by
    simp only [levels, List.mem_cons, List.not_mem_nil, or_false] at hlevel
    rcases hc with rfl | rfl <;> rcases hlevel with hl | hl | hl <;> rw [hl] <;> decide
  simp only [LogRecord.format, timeOfDay, List.mem_append, not_or]
  exact ⟨⟨⟨⟨⟨⟨⟨⟨hdigits _, hcolon⟩, hdigits _⟩, hcolon⟩, hdigits _⟩, hspace⟩, hin⟩, hspace⟩,
    hmessage⟩

/-- A log is parsed to its records, each on the day that `parse_log` places it. -/
theorem parseLog_logText (t0 : ℚ) {printed : List Printed} (h : ∀ p ∈ printed, p.Plain d) :
    parseLog d t0 (logText printed) = .ok ((printed.filterMap Printed.record?).map (fun r =>
      ⟨placed t0 ⌊r.created⌋, r.level, r.message⟩)) := by
  have hlines : fileLines (logText printed) = printed.map Printed.line := by
    refine fileLines_flatMap (fun line hline => ?_)
    obtain ⟨p, hp, rfl⟩ := List.mem_map.1 hline
    have hplain := h p hp
    rcases p with r | other
    · exact ⟨not_mem_format (.inl rfl) hplain.1 hplain.2.1,
        not_mem_format (.inr rfl) hplain.1 hplain.2.2⟩
    · exact hplain.2
  rw [parseLog, hlines]
  clear hlines
  induction printed with
  | nil => rfl
  | cons p printed ih =>
      have hplain := h p List.mem_cons_self
      have hrest := ih (fun q hq => h q (List.mem_cons_of_mem _ hq))
      rcases p with r | other
      · rw [List.map_cons, Printed.line, parseLines_record t0 hplain.1, hrest]
        rfl
      · have hnone : matchLine d other = none := hplain.1
        rw [List.map_cons, Printed.line, parseLines, hnone]
        exact hrest

/-- A log comes back as it was written if and only if each record was created within the day that
    starts at the midnight before the start of the run, or five minutes before the start where
    that is later. -/
theorem parseLog_exact_iff (t0 : ℚ) {printed : List Printed} (h : ∀ p ∈ printed, p.Plain d) :
    parseLog d t0 (logText printed)
        = .ok ((printed.filterMap Printed.record?).map LogRecord.event)
      ↔ ∀ r ∈ printed.filterMap Printed.record?, windowStart t0 ≤ ⌊r.created⌋ ∧
        (⌊r.created⌋ : ℚ) < windowStart t0 + 86400 := by
  rw [parseLog_logText t0 h, Except.ok.injEq, List.map_inj_left]
  refine forall₂_congr (fun r _ => ?_)
  rw [← placed_eq_iff, LogRecord.event, LogEvent.mk.injEq]
  exact and_iff_left ⟨rfl, rfl⟩

/-! ## Retries and failures -/

/-- `RETRY_EXC` at the start of a text: the number of tasks. -/
def matchRetryExc (d : Digits) (s : Str) : Option Nat := do
  let rest ← literal "Scheduling retry ".toList s
  let (_, rest) ← d.number rest
  let rest ← literal "/".toList rest
  let (_, rest) ← d.number rest
  let rest ← literal " for ".toList rest
  let (n, rest) ← d.number rest
  let _ ← literal " tasks".toList rest
  return n

/-- `RETRY_HANG` at the start of a text. -/
def matchRetryHang (d : Digits) (s : Str) : Option Nat := do
  let rest ← literal "Re-queued ".toList s
  let (n, rest) ← d.number rest
  let _ ← literal " tasks as".toList rest
  return n

/-- `search`: the first place where a pattern matches. -/
def search (pattern : Str → Option Nat) (message : Str) : Option Nat :=
  message.tails.findSome? pattern

/-- The number of tasks, by the first of the patterns that is found in a message. -/
def retryCountIn (d : Digits) (message : Str) : Option Nat :=
  (search (matchRetryExc d) message).or (search (matchRetryHang d) message)

/-- The loop of `retried_tasks_in_window`, for one event. -/
def addRetry (d : Digits) (start stop : ℚ) (acc : Nat × Nat) (e : LogEvent) : Nat × Nat :=
  if start ≤ e.epoch ∧ e.epoch ≤ stop then
    match retryCountIn d e.message with
    | some n => (acc.1 + n, acc.2 + 1)
    | none => acc
  else acc

/-- `retried_tasks_in_window`: the tasks, and the events. -/
def retriedTasksInWindow (d : Digits) (events : List LogEvent) (start stop : ℚ) : Nat × Nat :=
  events.foldl (addRetry d start stop) (0, 0)

/-- `FAILURE_MARKS`. -/
def failureMarks : List Str := ["Batch failed on worker".toList, "ref outstanding for".toList]

/-- An error with one of the marks. -/
def showsFailure (level message : Str) : Bool :=
  level = "ERROR".toList && failureMarks.any (fun mark => mark <:+: message)

/-- A message of the coordinator's logger. Ages are rounded to seconds. -/
inductive Notice where
  | failed (workerIdx : Nat) (kind : FailureKind) (exc : Str)
  | outstanding (workerIdx age threshold : Nat)
  | scheduled (retryCount taskMaxRetries size : Nat)
  | requeued (size entries retryCount taskMaxRetries : Nat)
  | other (level message : Str)

namespace Notice

def level : Notice → Str
  | failed .. => "ERROR".toList
  | outstanding .. => "ERROR".toList
  | scheduled .. => "INFO".toList
  | requeued .. => "INFO".toList
  | other level _ => level

/-- `kind.name`. -/
def kindName : FailureKind → Str
  | .transient => "TRANSIENT".toList
  | .deterministic => "DETERMINISTIC".toList

def message : Notice → Str
  | failed workerIdx kind exc =>
      "Batch failed on worker".toList ++ (" ".toList ++ decimal workerIdx ++ " (".toList
        ++ kindName kind ++ "): ".toList ++ exc)
  | outstanding workerIdx age threshold =>
      "Worker ".toList ++ decimal workerIdx ++ ": ".toList ++ ("ref outstanding for".toList
        ++ (" ".toList ++ decimal age ++ "s (threshold ".toList ++ decimal threshold
        ++ "s); replacing worker".toList))
  | scheduled retryCount taskMaxRetries size =>
      "Scheduling retry ".toList ++ (decimal (retryCount + 1) ++ ("/".toList
        ++ (decimal taskMaxRetries ++ (" for ".toList ++ (decimal size ++ (" tasks".toList
        ++ ((if 1 < size then " as two halves".toList else [])
          ++ " (backoff: full jitter per enqueued half)".toList)))))))
  | requeued size entries retryCount taskMaxRetries =>
      "Re-queued ".toList ++ (decimal size ++ (" tasks as".toList ++ (" ".toList ++ decimal entries
        ++ " entr".toList ++ (if 1 < entries then "ies".toList else "y".toList)
        ++ " (retry_count now ".toList ++ decimal (retryCount + 1) ++ ", max ".toList
        ++ decimal taskMaxRetries ++ ")".toList)))
  | other _ message => message

/-- The text of an exception, and the message of another notice, do not look like a retry, and the
    notice does not look like a failure. -/
def Distinct (d : Digits) : Notice → Prop
  | failed workerIdx kind exc => retryCountIn d (failed workerIdx kind exc).message = none
  | other level message => retryCountIn d message = none ∧ showsFailure level message = false
  | _ => True

end Notice

/-! ## Notices that are read -/

/-- A notice as a record of the logger. -/
def noticeRecord (n : ℚ × Notice) : LogRecord := ⟨n.1, n.2.level, n.2.message⟩

/-- A run that starts half a minute before midnight: a batch fails after it and is retried, and
    another one is retried minutes later. -/
def midnightNotices : List (ℚ × Notice) :=
  [(172743 / 2, .other "INFO".toList "All 2 workers ready and validated".toList),
   (86410, .failed 1 .transient "actor died".toList),
   (86411, .scheduled 0 2 64),
   (86700, .scheduled 0 2 7)]

def midnightLog : List Printed :=
  .other "====".toList :: midnightNotices.map (fun n => .record (noticeRecord n))

theorem midnightLog_plain : ∀ p ∈ midnightLog, p.Plain asciiDigits := by
  intro p hp
  rcases List.mem_cons.1 hp with rfl | hp
  · exact ⟨by decide +kernel, by decide, by decide⟩
  · obtain ⟨n, hn, rfl⟩ := List.mem_map.1 hp
    simp only [midnightNotices, List.mem_cons, List.not_mem_nil, or_false] at hn
    rcases hn with rfl | rfl | rfl | rfl <;>
      exact ⟨by decide +kernel, by decide +kernel, by decide +kernel⟩

theorem midnight_window : ∀ n ∈ midnightNotices,
    windowStart 86370 ≤ ⌊n.1⌋ ∧ (⌊n.1⌋ : ℚ) < windowStart 86370 + 86400 := by
  have hstart : windowStart 86370 = 86070 := by
    norm_num [windowStart, midnight]
  intro n hn
  rw [hstart]
  simp only [midnightNotices, List.mem_cons, List.not_mem_nil, or_false] at hn
  rcases hn with rfl | rfl | rfl | rfl <;> norm_num

theorem midnight_records :
    midnightLog.filterMap Printed.record? = midnightNotices.map noticeRecord := by
  rw [midnightLog, List.filterMap_cons_none rfl, List.filterMap_map, ← List.filterMap_eq_map]
  rfl

theorem parseLog_exact_iff_midnight :
    parseLog asciiDigits 86370 (logText midnightLog)
      = .ok ((midnightNotices.map noticeRecord).map LogRecord.event) := by
  rw [← midnight_records]
  refine (parseLog_exact_iff 86370 midnightLog_plain).2 (fun r hr => ?_)
  rw [midnight_records] at hr
  obtain ⟨n, hn, rfl⟩ := List.mem_map.1 hr
  exact midnight_window n hn

end EvalHarness.Measure
