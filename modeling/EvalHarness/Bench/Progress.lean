import EvalHarness.Bench.Report

set_option autoImplicit false

/-! # The progress log (`bench/multinode/sample_progress.py`, `bench/multinode/measure.py`)

The sampler writes its counts to a CSV file that `parse_progress` reads. What is read is what was
written, and the last counts are those that the report makes of the results file. -/

namespace EvalHarness.Measure

open Text Lines SampleProgress

/-! ## The CSV file -/

/-- The format `.3f`. -/
def fixed3 (q : ℚ) : Str :=
  let n := roundHalfEven (q * 1000)
  (if n < 0 then "-".toList else []) ++ decimal (n.natAbs / 1000)
    ++ '.' :: padded 3 (n.natAbs % 1000)

def csvHeader : Str := "epoch,total,replacement".toList

/-- A row of the CSV. -/
def csvLine (time : ℚ) (st : Totals) : Str :=
  fixed3 time ++ ',' :: (decimal st.total ++ ',' :: decimal st.repl)

/-- What the sampler has written after some scans. -/
def csvText (times : List ℚ) (states : List Totals) : Str :=
  (csvHeader :: (times.zip states).map (fun scan => csvLine scan.1 scan.2)).flatMap
    (fun line => line ++ ['\n'])

/-! ## `parse_progress` -/

section Parse

variable (d : Digits)

/-- `int`, of digits. -/
def int (s : Str) : Except Exc Nat :=
  if s ≠ [] ∧ s.all d.isDecimal then .ok (d.toNat s)
  else .error ⟨"ValueError", s!"invalid literal for int() with base 10: '{String.ofList s}'"⟩

/-- `float`, of digits with at most one point among them. -/
def float (s : Str) : Except Exc ℚ :=
  match s.splitOn '.' with
  | [whole] =>
      if whole ≠ [] ∧ whole.all d.isDecimal then .ok (d.toNat whole)
      else .error ⟨"ValueError", s!"could not convert string to float: '{String.ofList s}'"⟩
  | [whole, part] =>
      if whole ++ part ≠ [] ∧ (whole ++ part).all d.isDecimal then
        .ok (d.toNat whole + d.toNat part / 10 ^ part.length)
      else .error ⟨"ValueError", s!"could not convert string to float: '{String.ofList s}'"⟩
  | _ => .error ⟨"ValueError", s!"could not convert string to float: '{String.ofList s}'"⟩

/-- `e, t, r = line.split(",")`, and the sample. -/
def parseSample (line : Str) : Except Exc Sample :=
  match line.splitOn ',' with
  | [e, t, r] => do
      let epoch ← float d e
      let total ← int d t
      let replacement ← int d r
      return ⟨epoch, total, replacement⟩
  | parts =>
      if parts.length < 3 then
        .error ⟨"ValueError", s!"not enough values to unpack (expected 3, got {parts.length})"⟩
      else .error ⟨"ValueError", "too many values to unpack (expected 3)"⟩

/-- The loop, from line `i` on. -/
def parseProgressFrom : Nat → List Str → Except Exc (List Sample)
  | _, [] => .ok []
  | i, line :: lines =>
      let line := strip line
      if line = [] ∨ (i = 0 ∧ "epoch".toList <+: line) then parseProgressFrom (i + 1) lines
      else do
        let sample ← parseSample d line
        let samples ← parseProgressFrom (i + 1) lines
        return sample :: samples

/-- `parse_progress`, of the text of the file. -/
def parseProgress (text : Str) : Except Exc (List Sample) := parseProgressFrom d 0 (fileLines text)

end Parse

/-! ## The samples come back -/

variable {d : Digits}

theorem int_decimal (n : Nat) : int d (decimal n) = .ok n := by
  have hall : (decimal n).all d.isDecimal = true :=
    List.all_eq_true.2 (fun c hc => d.isDecimal_of_isDigit (isDigit_of_mem_decimal hc))
  rw [int, if_pos ⟨Nat.toDigits_ne_nil, hall⟩, toNat_decimal]

/-- A time since the epoch is written with three digits behind the point. -/
theorem fixed3_eq {q : ℚ} (h : 0 ≤ q) : ∃ n : Nat, round3 q = (n : ℚ) / 1000 ∧
    fixed3 q = decimal (n / 1000) ++ '.' :: padded 3 (n % 1000) := by
  have hnonneg : 0 ≤ roundHalfEven (q * 1000) := by
    have hfloor : 0 ≤ ⌊q * 1000⌋ := Int.floor_nonneg.2 (mul_nonneg h (by norm_num))
    exact hfloor.trans (roundHalfEven_bounds _).1
  refine ⟨(roundHalfEven (q * 1000)).natAbs, ?_, ?_⟩
  · rw [round3, Nat.cast_natAbs, abs_of_nonneg hnonneg]
  · rw [fixed3]
    simp only [if_neg (not_lt.2 hnonneg), List.nil_append]

theorem float_fixed3 {q : ℚ} (h : 0 ≤ q) : float d (fixed3 q) = .ok (round3 q) := by
  obtain ⟨n, hround, hfixed⟩ := fixed3_eq h
  have hnot : ∀ {s : Str}, (∀ c ∈ s, c.isDigit = true) → '.' ∉ s :=
    fun hs hin => absurd (hs '.' hin) (by decide)
  have hwhole : ∀ c ∈ decimal (n / 1000), c.isDigit = true := fun c hc => isDigit_of_mem_decimal hc
  have hpart : ∀ c ∈ padded 3 (n % 1000), c.isDigit = true := fun c hc => isDigit_of_mem_padded hc
  have hsplit : (fixed3 q).splitOn '.' = [decimal (n / 1000), padded 3 (n % 1000)] := by
    rw [hfixed, List.splitOn_append_cons_self, List.splitOn_eq_singleton (hnot hwhole),
      List.splitOn_eq_singleton (hnot hpart)]
    rfl
  have hall : (decimal (n / 1000) ++ padded 3 (n % 1000)).all d.isDecimal = true := by
    refine List.all_eq_true.2 (fun c hc => d.isDecimal_of_isDigit ?_)
    exact (List.mem_append.1 hc).elim (hwhole c) (hpart c)
  have hlen : (padded 3 (n % 1000)).length = 3 :=
    length_padded (by norm_num) (Nat.mod_lt n (by norm_num))
  have hne : decimal (n / 1000) ++ padded 3 (n % 1000) ≠ [] :=
    List.append_ne_nil_of_left_ne_nil Nat.toDigits_ne_nil _
  have hsum : ((n / 1000 : Nat) : ℚ) + ((n % 1000 : Nat) : ℚ) / 10 ^ 3 = (n : ℚ) / 1000 := by
    have hdiv : (1000 * (n / 1000) + n % 1000 : Nat) = n := Nat.div_add_mod n 1000
    have hcast : (1000 : ℚ) * ((n / 1000 : Nat) : ℚ) + ((n % 1000 : Nat) : ℚ) = n := by
      exact_mod_cast hdiv
    linarith
  simp only [float, hsplit, if_pos (And.intro hne hall), toNat_decimal, toNat_padded, hlen, hsum,
    hround]

/-- No character of a row but the point and the commas is anything but a digit. -/
theorem mem_csvLine {time : ℚ} (h : 0 ≤ time) {st : Totals} {c : Char} (hc : c ∈ csvLine time st) :
    c.isDigit = true ∨ c = '.' ∨ c = ',' := by
  obtain ⟨n, -, hfixed⟩ := fixed3_eq h
  simp only [csvLine, hfixed, List.mem_append, List.mem_cons] at hc
  rcases hc with (hwhole | rfl | hpart) | rfl | htotal | rfl | hrepl
  · exact Or.inl (isDigit_of_mem_decimal hwhole)
  · exact Or.inr (Or.inl rfl)
  · exact Or.inl (isDigit_of_mem_padded hpart)
  · exact Or.inr (Or.inr rfl)
  · exact Or.inl (isDigit_of_mem_decimal htotal)
  · exact Or.inr (Or.inr rfl)
  · exact Or.inl (isDigit_of_mem_decimal hrepl)

theorem parseSample_csvLine {time : ℚ} (h : 0 ≤ time) (st : Totals) :
    parseSample d (csvLine time st) = .ok ⟨round3 time, st.total, st.repl⟩ := by
  have hnot : ∀ n, ',' ∉ decimal n :=
    fun n hin => absurd (isDigit_of_mem_decimal hin) (by decide)
  have htime : ',' ∉ fixed3 time := by
    obtain ⟨n, -, hfixed⟩ := fixed3_eq h
    rw [hfixed, List.mem_append, List.mem_cons, not_or, not_or]
    exact ⟨hnot _, by decide, fun hin => absurd (isDigit_of_mem_padded hin) (by decide)⟩
  have hsplit : (csvLine time st).splitOn ','
      = [fixed3 time, decimal st.total, decimal st.repl] := by
    rw [csvLine, List.splitOn_append_cons_self, List.splitOn_append_cons_self,
      List.splitOn_eq_singleton htime, List.splitOn_eq_singleton (hnot _),
      List.splitOn_eq_singleton (hnot _)]
    rfl
  simp only [parseSample, hsplit, float_fixed3 h, int_decimal]
  rfl

/-- A row of the CSV is taken as it is. -/
theorem strip_csvLine {time : ℚ} (h : 0 ≤ time) (st : Totals) :
    strip (csvLine time st) = csvLine time st := by
  have hspace : ∀ c ∈ csvLine time st, isSpace c = false := by
    intro c hc
    rcases mem_csvLine h hc with hdigit | rfl | rfl
    · simp only [Char.isDigit, Bool.and_eq_true, decide_eq_true_eq,
        UInt32.le_iff_toNat_le] at hdigit
      have hbounds : 48 ≤ c.toNat ∧ c.toNat ≤ 57 := hdigit
      simp only [isSpace, Bool.or_eq_false_iff, Bool.and_eq_false_iff, decide_eq_false_iff_not]
      omega
    · decide
    · decide
  exact stripIf_eq_self (fun c hc => hspace c (List.mem_of_mem_head? hc))
    (fun c hc => hspace c (List.mem_of_getLast? hc))

theorem parseProgressFrom_rows {scans : List (ℚ × Totals)} (h : ∀ scan ∈ scans, 0 ≤ scan.1)
    (i : Nat) (hi : 0 < i) :
    parseProgressFrom d i (scans.map (fun scan => csvLine scan.1 scan.2))
      = .ok (scans.map (fun scan => ⟨round3 scan.1, scan.2.total, scan.2.repl⟩)) := by
  induction scans generalizing i with
  | nil => rfl
  | cons scan scans ih =>
      have hscan := h scan List.mem_cons_self
      have hrest := ih (fun other hother => h other (List.mem_cons_of_mem _ hother)) (i + 1)
        (Nat.succ_pos i)
      have hne : csvLine scan.1 scan.2 ≠ [] := List.append_ne_nil_of_right_ne_nil _ (by simp)
      have hcond : ¬ (csvLine scan.1 scan.2 = []
          ∨ (i = 0 ∧ "epoch".toList <+: csvLine scan.1 scan.2))
          := by
        rintro (hnil | ⟨hzero, -⟩)
        · exact hne hnil
        · omega
      simp only [List.map_cons, parseProgressFrom, strip_csvLine hscan, if_neg hcond,
        parseSample_csvLine hscan, hrest]
      rfl

/-- The first line is skipped. -/
theorem parseProgressFrom_header (lines : List Str) :
    parseProgressFrom d 0 (csvHeader :: lines) = parseProgressFrom d 1 lines := by
  have hheader : strip csvHeader = csvHeader := by decide
  rw [parseProgressFrom]
  refine if_pos (Or.inr ⟨rfl, ?_⟩)
  rw [hheader]
  decide

/-- What is read of the CSV file are the rows that were written. -/
theorem parseProgress_csvText {times : List ℚ} (h : ∀ time ∈ times, 0 ≤ time)
    (states : List Totals) : parseProgress d (csvText times states) = .ok (rows times states) := by
  have hscans : ∀ scan ∈ times.zip states, 0 ≤ scan.1 :=
    fun scan hscan => h scan.1 (List.of_mem_zip hscan).1
  have hlines : fileLines (csvText times states)
      = csvHeader :: (times.zip states).map (fun scan => csvLine scan.1 scan.2) := by
    refine fileLines_flatMap (fun line hline => ?_)
    rcases List.mem_cons.1 hline with rfl | hrow
    · exact ⟨by decide, by decide⟩
    · obtain ⟨scan, hscan, rfl⟩ := List.mem_map.1 hrow
      constructor
      · intro hin
        rcases mem_csvLine (hscans scan hscan) hin with hc | hc | hc <;> exact absurd hc (by decide)
      · intro hin
        rcases mem_csvLine (hscans scan hscan) hin with hc | hc | hc <;> exact absurd hc (by decide)
  rw [parseProgress, hlines, parseProgressFrom_header]
  exact parseProgressFrom_rows hscans 1 Nat.one_pos

/-! ## The samples and the report -/

/-- The bytes of a text. -/
def utf8 (s : Str) : Bytes := s.flatMap String.utf8EncodeChar

/-- Only the line feed has its byte. -/
theorem newline_not_mem_encode {c : Char} (h : c ≠ '\n') :
    newline ∉ String.utf8EncodeChar c := by
  have hval : c.val.toNat ≠ 10 := fun heq => h (Char.ext (UInt32.toNat_inj.1 heq))
  have hbyte : ∀ n : Nat, newline = UInt8.ofNat n → n % 256 = 10 := by
    intro n heq
    simpa [newline] using (congrArg UInt8.toNat heq).symm
  intro hin
  unfold String.utf8EncodeChar at hin
  dsimp only at hin
  split_ifs at hin
  · have hone := hbyte _ (List.mem_singleton.1 hin)
    omega
  · simp only [List.mem_cons, List.not_mem_nil, or_false] at hin
    rcases hin with hb | hb <;> have hone := hbyte _ hb <;> omega
  · simp only [List.mem_cons, List.not_mem_nil, or_false] at hin
    rcases hin with hb | hb | hb <;> have hone := hbyte _ hb <;> omega
  · simp only [List.mem_cons, List.not_mem_nil, or_false] at hin
    rcases hin with hb | hb | hb | hb <;> have hone := hbyte _ hb <;> omega

theorem newline_not_mem_utf8 {s : Str} (h : '\n' ∉ s) : newline ∉ utf8 s := by
  intro hin
  obtain ⟨c, hc, hbyte⟩ := List.mem_flatMap.1 hin
  exact newline_not_mem_encode (fun heq => h (heq ▸ hc)) hbyte

/-- The bytes of a file have its lines. -/
theorem terminated_utf8 {lines : List String} (h : ∀ line ∈ lines, '\n' ∉ line.toList) :
    terminated newline (utf8 (fileText lines).toList)
      = lines.map (fun line => utf8 line.toList) := by
  have hfeed : utf8 ['\n'] = [newline] := by decide
  have hbytes : utf8 (fileText lines).toList
      = (lines.map (fun line => utf8 line.toList)).flatMap (fun line => line ++ [newline]) := by
    rw [toList_fileText, List.flatMap_map, List.flatMap_map, utf8, List.flatMap_assoc]
    refine List.flatMap_congr (fun line _ => ?_)
    rw [← hfeed, utf8, utf8, List.flatMap_append]
  rw [hbytes, terminated_flatMap]
  intro line hline
  obtain ⟨text, htext, rfl⟩ := List.mem_map.1 hline
  exact newline_not_mem_utf8 (h text htext)

variable {loads : String → Except Exc Record} {jsonLine : EvalResult → String}
  {loadsBytes : Bytes → Except Exc JsonValue}

/-- The two readers see the same worker in the line of a result. -/
def SameWorker (loadsBytes : Bytes → Except Exc JsonValue) (jsonLine : EvalResult → String)
    (row : EvalResult) : Prop :=
  ∃ items, loadsBytes (utf8 (jsonLine row).toList) = .ok (.dict items) ∧
    items.lookup "worker_id" = some (.int row.workerId)

theorem ofReplacement_utf8 {workers : Int} {row : EvalResult}
    (h : SameWorker loadsBytes jsonLine row) :
    ofReplacement loadsBytes workers (utf8 (jsonLine row).toList)
      = decide (workers ≤ row.workerId) := by
  obtain ⟨items, hline, hworker⟩ := h
  simp only [ofReplacement, hline, hworker]

/-- When the sampler has seen the whole results file, the counts in the last row of its CSV file are
    those of the report: all rows, and the rows of replacements. -/
theorem progress_agrees_with_report (d : Digits) (info : RunMeta) (events : List LogEvent)
    (killEpoch : Option ℚ) (killSource : String) (grace : ℚ) {files : List (Option Bytes)}
    {rows : List EvalResult} {times : List ℚ} (hgrows : files.IsChain Grows)
    (hlines : ∀ file ∈ files, ∀ line ∈ terminated newline (contents file),
      SampleProgress.Readable loadsBytes line)
    (hlast : files.getLast? = some (some (utf8 (fileText (rows.map jsonLine)).toList)))
    (hrows : ∀ row ∈ rows, Readable loads jsonLine row ∧ SameWorker loadsBytes jsonLine row)
    (hlen : times.length = files.length) (htimes : ∀ time ∈ times, 0 ≤ time) :
    ∃ states samples results last,
      SampleProgress.run loadsBytes info.workers ⟨0, 0, 0⟩ files = .ok states ∧
      parseProgress d (csvText times states) = .ok samples ∧
      parseResults loads (fileText (rows.map jsonLine)).toList = .ok results ∧
      samples.getLast? = some last ∧
      let report := buildReport d info events samples results killEpoch killSource grace
      last.total = report.accounting.rows ∧
        last.replacement = report.accounting.rowsOnReplacementWorkers := by
  have hchain : (none :: files).IsChain Grows := by
    rcases files with _ | ⟨file, files⟩
    · exact List.isChain_singleton _
    · exact List.isChain_cons_cons.2 ⟨.absent file, hgrows⟩
  have hnothing : Caught loadsBytes info.workers none ⟨0, 0, 0⟩ := caught_nothing
  obtain ⟨states, hrun, hcaught⟩ := hnothing.run hchain hlines
  have hsame : files.length = states.length := hcaught.length_eq
  obtain ⟨before, hfiles⟩ := List.getLast?_eq_some_iff.1 hlast
  have hpos : 0 < files.length := by
    rw [hfiles, List.length_append]
    exact Nat.succ_pos _
  -- the last scan is of the whole file
  have hst : states.length - 1 < states.length := by omega
  have htime : states.length - 1 < times.length := by omega
  have hfile : files.get ⟨states.length - 1, by omega⟩
      = some (utf8 (fileText (rows.map jsonLine)).toList) := by
    rw [List.getLast?_eq_getElem?, hsame] at hlast
    exact (List.getElem?_eq_some_iff.1 hlast).2
  have hlastCaught := (List.forall₂_iff_get.1 hcaught).2 (states.length - 1) (by omega) hst
  rw [hfile] at hlastCaught
  have hbytes : terminated newline (utf8 (fileText (rows.map jsonLine)).toList)
      = rows.map (fun row => utf8 (jsonLine row).toList) := by
    rw [terminated_utf8, List.map_map]
    · rfl
    · intro line hline
      obtain ⟨row, hrow, rfl⟩ := List.mem_map.1 hline
      exact (hrows row hrow).1.newline
  refine ⟨states, _, _, ⟨round3 times[states.length - 1], states[states.length - 1].total,
    states[states.length - 1].repl⟩, hrun, parseProgress_csvText htimes states,
    parseResults_fileText (fun row hrow => (hrows row hrow).1), ?_, ?_, ?_⟩
  · have hzip : (times.zip states)[states.length - 1]?
        = some (times[states.length - 1], states[states.length - 1]) :=
      List.getElem?_zip_eq_some.2
        ⟨List.getElem?_eq_getElem htime, List.getElem?_eq_getElem hst⟩
    have hlength : (SampleProgress.rows times states).length = states.length := by
      rw [SampleProgress.rows, List.length_map, List.length_zip]
      omega
    rw [List.getLast?_eq_getElem?, hlength, SampleProgress.rows, List.getElem?_map, hzip]
    rfl
  · refine hlastCaught.total.trans ?_
    rw [contents, Option.getD_some, hbytes, List.length_map]
    rfl
  · refine hlastCaught.repl.trans ?_
    rw [contents, Option.getD_some, hbytes, List.countP_map]
    refine (List.countP_congr (fun row hrow => ?_)).trans
      (rowsOnReplacementWorkers_countsOf info rows).symm
    rw [Function.comp_apply, ofReplacement_utf8 (hrows row hrow).2]

/-! ## Three scans -/

open ShardedAggregator in
/-- `json.loads` for the bytes of the two sample lines. -/
def sampleLoadsBytes (raw : Bytes) : Except Exc JsonValue :=
  if raw = utf8 (sampleLine (sampleRow "a")).toList ∨ raw = utf8 (sampleLine (sampleRow "b")).toList
  then .ok (.dict [("worker_id", .int 0)])
  else .error ⟨"JSONDecodeError", "Expecting value: line 1 column 1 (char 0)"⟩

theorem sampleLoadsBytes_readable (line : Bytes) :
    SampleProgress.Readable sampleLoadsBytes line := by
  unfold SampleProgress.Readable sampleLoadsBytes
  split
  · exact Or.inr ⟨_, rfl, fun value h => ⟨0, (Option.some.inj h).symm⟩⟩
  · exact Or.inl ⟨_, rfl, rfl⟩

open ShardedAggregator in
/-- The file of the two sample results is not there, ends inside its first line, and is complete. -/
theorem progress_agrees_with_report_sample : ∃ states samples results last,
    SampleProgress.run sampleLoadsBytes 0 ⟨0, 0, 0⟩
        [none, some ((utf8 (fileText (sampleBatch.map sampleLine)).toList).take 20),
          some (utf8 (fileText (sampleBatch.map sampleLine)).toList)] = .ok states ∧
      parseProgress asciiDigits (csvText [1, 3, 5] states) = .ok samples ∧
      parseResults sampleLoads (fileText (sampleBatch.map sampleLine)).toList = .ok results ∧
      samples.getLast? = some last ∧
      last.replacement = (buildReport asciiDigits ⟨2, 0⟩ [] samples results none
        "arg" 30).accounting.rowsOnReplacementWorkers := by
  have hgrows : [none, some ((utf8 (fileText (sampleBatch.map sampleLine)).toList).take 20),
      some (utf8 (fileText (sampleBatch.map sampleLine)).toList)].IsChain Grows :=
    .cons_cons (.absent _) (.cons_cons (.append (List.take_prefix _ _)) (.singleton _))
  have hrows : ∀ row ∈ sampleBatch, EvalHarness.Readable sampleLoads sampleLine row ∧
      SameWorker sampleLoadsBytes sampleLine row := by
    intro row hrow
    refine ⟨sample_readable row (by rwa [List.flatten_singleton]), _, if_pos ?_, ?_⟩
    · simp only [sampleBatch, List.mem_cons, List.not_mem_nil, or_false] at hrow
      rcases hrow with rfl | rfl
      · exact Or.inl rfl
      · exact Or.inr rfl
    · simp only [sampleBatch, List.mem_cons, List.not_mem_nil, or_false] at hrow
      rcases hrow with rfl | rfl <;> rfl
  have htimes : ∀ time ∈ ([1, 3, 5] : List ℚ), 0 ≤ time := by norm_num
  obtain ⟨states, samples, results, last, hrun, hparse, hresults, hlast, -, hrepl⟩ :=
    progress_agrees_with_report asciiDigits ⟨2, 0⟩ [] none "arg" 30 hgrows
      (fun _ _ line _ => sampleLoadsBytes_readable line) rfl hrows (by rfl) htimes
  exact ⟨states, samples, results, last, hrun, hparse, hresults, hlast, hrepl⟩

end EvalHarness.Measure
