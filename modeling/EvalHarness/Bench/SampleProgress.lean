import EvalHarness.Lib.Lines
import EvalHarness.Types

set_option autoImplicit false

/-! # Sampling the progress of a run (`bench/multinode/sample_progress.py`)

A results file that is appended to is read in instalments, each from an offset up to the last line
feed. `json.loads` is a parameter. -/

namespace EvalHarness.SampleProgress

open Lines

abbrev Bytes := List UInt8

/-- `b"\n"`. -/
def newline : UInt8 := 10

/-! ## Attributing a line -/

/-- What `json.loads` returns. Of a value that is neither an integer nor a dictionary only the class
    matters. -/
inductive JsonValue where
  | int (n : Int)
  | bool (b : Bool)
  | other (cls : String)
  | dict (items : List (String × JsonValue))

/-- `type(value).__name__`. -/
def JsonValue.className : JsonValue → String
  | .int _ => "int"
  | .bool _ => "bool"
  | .other cls => cls
  | .dict _ => "dict"

/-- The integer that a value is, if `isinstance(value, int)`: the booleans are integers. -/
def JsonValue.asInt : JsonValue → Option Int
  | .int n => some n
  | .bool b => some (if b then 1 else 0)
  | .other _ => none
  | .dict _ => none

/-- `json.JSONDecodeError` and `UnicodeDecodeError`. -/
def undecodable (exc : Exc) : Bool := exc.cls = "JSONDecodeError" || exc.cls = "UnicodeDecodeError"

section Scan

variable (loads : Bytes → Except Exc JsonValue) (workers : Int)

/-- The loop over the lines, for one of them. -/
def countLine (nRepl : Nat) (raw : Bytes) : Except Exc Nat :=
  match loads raw with
  | .error exc => if undecodable exc then .ok nRepl else .error exc
  | .ok (.dict items) =>
      match (items.lookup "worker_id").bind JsonValue.asInt with
      | some wid => .ok (if workers ≤ wid then nRepl + 1 else nRepl)
      | none => .ok nRepl
  | .ok row =>
      .error ⟨"AttributeError", s!"'{row.className}' object has no attribute 'get'"⟩

/-- `scan_new_lines`, of a file that is there with some content, or is not. -/
def scanNewLines (file : Option Bytes) (offset : Nat) : Except Exc (Nat × Nat × Nat) :=
  match file with
  | none => .ok (offset, 0, 0)
  | some content =>
      let chunk := content.drop offset
      if chunk = [] then .ok (offset, 0, 0)
      else
        match rfind newline chunk with
        | none => .ok (offset, 0, 0)
        | some lastNl =>
            let complete := chunk.take (lastNl + 1)
            let lines := (complete.splitOn newline).dropLast
            match lines.foldlM (countLine loads workers) 0 with
            | .error exc => .error exc
            | .ok nRepl => .ok (offset + lastNl + 1, lines.length, nRepl)

/-! ## The loop of `main` -/

/-- The variables of `main`. -/
structure Totals where
  offset : Nat
  total : Nat
  repl : Nat

/-- One scan, added up. -/
def Totals.add (st : Totals) (file : Option Bytes) : Except Exc Totals :=
  match scanNewLines loads workers file st.offset with
  | .error exc => .error exc
  | .ok (offset, n, r) => .ok ⟨offset, st.total + n, st.repl + r⟩

/-- The loop of `main`, over the contents the file has at the scans. -/
def run (st : Totals) : List (Option Bytes) → Except Exc (List Totals)
  | [] => .ok []
  | file :: files =>
      match st.add loads workers file with
      | .error exc => .error exc
      | .ok st => (run st files).map (fun states => st :: states)

/-- What is in a file, nothing if it is not there. -/
def contents (file : Option Bytes) : Bytes := file.getD []

/-- A file that is appended to, or created. -/
inductive Grows : Option Bytes → Option Bytes → Prop where
  | absent (file : Option Bytes) : Grows none file
  | append {content content' : Bytes} (h : content <+: content') :
      Grows (some content) (some content')

/-- A line that does not parse as JSON, or is an object whose `worker_id`, if it has one, is an
    integer. -/
def Readable (line : Bytes) : Prop :=
  (∃ exc, loads line = .error exc ∧ undecodable exc = true) ∨
    ∃ items, loads line = .ok (.dict items) ∧
      ∀ value, items.lookup "worker_id" = some value → ∃ n, value = .int n

/-- A line that is an object with an integer `worker_id` of a replacement. -/
def ofReplacement (line : Bytes) : Bool :=
  match loads line with
  | .ok (.dict items) =>
      match items.lookup "worker_id" with
      | some (.int n) => workers ≤ n
      | _ => false
  | _ => false

/-- The totals are those of a file, and the offset is just past a line feed or 0. -/
structure Exact (file : Option Bytes) (st : Totals) : Prop where
  total : st.total = (terminated newline (contents file)).length
  repl : st.repl = (terminated newline (contents file)).countP (ofReplacement loads workers)
  offset : st.offset = 0 ∨ ∃ i, st.offset = i + 1 ∧ (contents file)[i]? = some newline

variable {loads workers}

/-! ## One scan -/

theorem countLine_of_readable {line : Bytes} (h : Readable loads line) (n : Nat) :
    countLine loads workers n line
      = .ok (if ofReplacement loads workers line then n + 1 else n) := by
  unfold countLine ofReplacement
  rcases h with ⟨exc, hline, hexc⟩ | ⟨items, hline, hint⟩
  · simp [hline, hexc]
  · rw [hline]
    rcases hid : items.lookup "worker_id" with _ | value
    · simp [hid]
    · obtain ⟨wid, rfl⟩ := hint value hid
      simp [hid, JsonValue.asInt]

theorem foldlM_countLine {lines : List Bytes} (h : ∀ line ∈ lines, Readable loads line) (n : Nat) :
    lines.foldlM (countLine loads workers) n
      = .ok (n + lines.countP (ofReplacement loads workers)) := by
  induction lines generalizing n with
  | nil => rfl
  | cons line lines ih =>
      have hline : countLine loads workers n line = _ :=
        countLine_of_readable (h line List.mem_cons_self) n
      have hrest := fun m => ih (fun other hother => h other (List.mem_cons_of_mem _ hother)) m
      rw [List.foldlM_cons, hline]
      refine (hrest _).trans ?_
      rw [List.countP_cons]
      split
      · rw [Nat.add_assoc, Nat.add_comm 1]
      · rfl

/-- A scan from behind complete lines counts the lines that are terminated from there on, and its
    offset is behind the last of them. -/
theorem scanNewLines_append {read rest : Bytes}
    (hlines : ∀ line ∈ terminated newline rest, Readable loads line) :
    ∃ consumed left, rest = consumed ++ left ∧ Complete newline consumed ∧ newline ∉ left
      ∧ scanNewLines loads workers (some (read ++ rest)) read.length
        = .ok (read.length + consumed.length, (terminated newline rest).length,
          (terminated newline rest).countP (ofReplacement loads workers)) := by
  have hchunk : (read ++ rest).drop read.length = rest := List.drop_left
  by_cases hempty : rest = []
  · refine ⟨[], [], hempty, Or.inl rfl, List.not_mem_nil, ?_⟩
    simp [scanNewLines, hempty]
  · rcases hlast : rfind newline rest with _ | lastNl
    · have hnone := not_mem_of_rfind hlast
      refine ⟨[], rest, rfl, Or.inl rfl, hnone, ?_⟩
      simp [scanNewLines, hempty, hlast, terminated_of_not_mem newline hnone]
    · obtain ⟨before, left, rfl, rfl, hleft⟩ := split_of_rfind hlast
      have hsplit : before ++ newline :: left = (before ++ [newline]) ++ left := by
        rw [List.append_assoc, List.singleton_append]
      have hcomplete : (before ++ newline :: left).take (before.length + 1)
          = before ++ [newline] := by
        rw [hsplit]
        exact List.take_left' (List.length_append)
      have hterminated : terminated newline (before ++ newline :: left)
          = ((before ++ [newline]).splitOn newline).dropLast := by
        rw [terminated_append_cons, terminated_of_not_mem newline hleft, List.append_nil,
          ← terminated_concat, terminated]
      have hcount : (terminated newline (before ++ newline :: left)).foldlM
          (countLine loads workers) 0 = _ := foldlM_countLine hlines 0
      rw [hterminated] at hcount ⊢
      refine ⟨before ++ [newline], left, hsplit, complete_concat newline before, hleft, ?_⟩
      simp only [scanNewLines, hchunk, if_neg hempty, hlast, hcomplete, hcount, List.length_append,
        List.length_singleton, Nat.zero_add, Nat.add_assoc]

/-! ## Any number of scans -/

variable (loads workers) in
/-- What is in a file is read up to its last line feed, and counted. -/
structure Caught (file : Option Bytes) (st : Totals) : Prop where
  split : ∃ read left, contents file = read ++ left ∧ st.offset = read.length
    ∧ Complete newline read ∧ newline ∉ left
  total : st.total = (terminated newline (contents file)).length
  repl : st.repl = (terminated newline (contents file)).countP (ofReplacement loads workers)

theorem Caught.exact {file : Option Bytes} {st : Totals} (h : Caught loads workers file st) :
    Exact loads workers file st := by
  refine ⟨h.total, h.repl, ?_⟩
  obtain ⟨read, left, hcontents, hoffset, rfl | ⟨before, rfl⟩, -⟩ := h.split
  · exact Or.inl hoffset
  · refine Or.inr ⟨before.length, ?_, ?_⟩
    · rw [hoffset, List.length_append, List.length_singleton]
    · rw [hcontents, List.append_assoc, List.getElem?_append_right le_rfl, Nat.sub_self]
      rfl

theorem caught_nothing : Caught loads workers none ⟨0, 0, 0⟩ where
  split := ⟨[], [], rfl, rfl, Or.inl rfl, List.not_mem_nil⟩
  total := by rw [contents, Option.getD_none, terminated_nil]; rfl
  repl := by rw [contents, Option.getD_none, terminated_nil]; rfl

theorem Grows.contents_le {file file' : Option Bytes} (h : Grows file file') :
    contents file <+: contents file' := by
  rcases h with file' | hgrown
  · exact List.nil_prefix
  · exact hgrown

/-- A scan of a file that has grown catches up with it. -/
theorem Caught.add {file file' : Option Bytes} {st : Totals} (h : Caught loads workers file st)
    (hgrows : Grows file file')
    (hlines : ∀ line ∈ terminated newline (contents file'), Readable loads line) :
    ∃ st', st.add loads workers file' = .ok st' ∧ Caught loads workers file' st' := by
  obtain ⟨read, left, hcontents, hoffset, hread, hleft⟩ := h.split
  have hbefore : terminated newline (contents file) = terminated newline read := by
    rw [hcontents, terminated_append newline hread, terminated_of_not_mem newline hleft,
      List.append_nil]
  rcases file' with _ | content
  · -- the file is not there yet
    have hfile : file = none := by
      cases hgrows
      rfl
    exact ⟨st, rfl, hfile ▸ h⟩
  · obtain ⟨more, hmore⟩ := hgrows.contents_le
    rw [hcontents, List.append_assoc] at hmore
    replace hmore : read ++ (left ++ more) = content := hmore
    have hafter : terminated newline (contents (some content))
        = terminated newline read ++ terminated newline (left ++ more) := by
      rw [← terminated_append newline hread, hmore]
      rfl
    have hnew : ∀ line ∈ terminated newline (left ++ more), Readable loads line := by
      intro line hline
      exact hlines line (hafter ▸ List.mem_append_right _ hline)
    obtain ⟨consumed, left', hconsumed, hcomplete, hleft', hscan⟩ :=
      @scanNewLines_append loads workers read (left ++ more) hnew
    rw [hmore, ← hoffset] at hscan
    refine ⟨_, by rw [Totals.add, hscan], ⟨read ++ consumed, left', ?_, ?_, ?_, hleft'⟩, ?_, ?_⟩
    · rw [List.append_assoc, ← hconsumed, hmore]
      rfl
    · rw [hoffset, List.length_append]
    · exact complete_append newline hread hcomplete
    · rw [hafter, List.length_append, ← hbefore, h.total]
    · rw [hafter, List.countP_append, ← hbefore, h.repl]

/-- The states of a run, after each scan. -/
theorem Caught.run {file : Option Bytes} {st : Totals} (h : Caught loads workers file st)
    {files : List (Option Bytes)} (hgrows : (file :: files).IsChain Grows)
    (hlines : ∀ file ∈ files, ∀ line ∈ terminated newline (contents file), Readable loads line) :
    ∃ states, run loads workers st files = .ok states
      ∧ List.Forall₂ (Caught loads workers) files states := by
  induction files generalizing file st with
  | nil => exact ⟨[], rfl, .nil⟩
  | cons next files ih =>
      obtain ⟨hnext, hrest⟩ := List.isChain_cons_cons.1 hgrows
      obtain ⟨st', hadd, hcaught⟩ := h.add hnext (hlines next List.mem_cons_self)
      obtain ⟨states, hrun, hstates⟩ :=
        ih hcaught hrest (fun file hfile => hlines file (List.mem_cons_of_mem _ hfile))
      refine ⟨st' :: states, ?_, .cons hcaught hstates⟩
      rw [SampleProgress.run, hadd]
      simp only [hrun, Except.map]

variable (loads workers) in
/-- After each scan of a results file that is only appended to, the totals are the number of lines
    the file has, and of those of replacements; the offset is just past a line feed or 0. -/
theorem totals_exact {files : List (Option Bytes)} (hgrows : files.IsChain Grows)
    (hlines : ∀ file ∈ files, ∀ line ∈ terminated newline (contents file), Readable loads line) :
    ∃ states, run loads workers ⟨0, 0, 0⟩ files = .ok states
      ∧ List.Forall₂ (Exact loads workers) files states := by
  have hchain : (none :: files).IsChain Grows := by
    rcases files with _ | ⟨file, files⟩
    · exact List.isChain_singleton _
    · exact List.isChain_cons_cons.2 ⟨.absent file, hgrows⟩
  obtain ⟨states, hrun, hcaught⟩ := caught_nothing.run hchain hlines
  exact ⟨states, hrun, hcaught.imp (fun _ _ h => h.exact)⟩

/-! ## The log -/

/-- A row of the CSV. -/
structure Sample where
  epoch : ℚ
  total : Nat
  replacement : Nat

/-- The rows that are written, one behind each scan. -/
def rows (times : List ℚ) (states : List Totals) : List Sample :=
  (times.zip states).map (fun scan => ⟨round3 scan.1, scan.2.total, scan.2.repl⟩)

/-- Neither the epochs nor the counts of a log decrease. -/
def Ordered (samples : List Sample) : Prop :=
  samples.Pairwise (fun a b => a.epoch ≤ b.epoch ∧ a.replacement ≤ b.replacement)

/-- A later sample has the greater count. -/
theorem Ordered.le {samples : List Sample} (h : Ordered samples) {a b : Sample} (ha : a ∈ samples)
    (hb : b ∈ samples) (hlt : a.epoch < b.epoch) : a.replacement ≤ b.replacement := by
  induction samples with
  | nil => exact absurd ha List.not_mem_nil
  | cons s rest ih =>
      obtain ⟨hs, hrest⟩ := List.pairwise_cons.1 h
      rcases List.mem_cons.1 ha with rfl | haRest
      · rcases List.mem_cons.1 hb with rfl | hbRest
        · exact absurd hlt (lt_irrefl _)
        · exact (hs b hbRest).2
      · rcases List.mem_cons.1 hb with rfl | hbRest
        · exact absurd hlt (not_lt.2 (hs a haRest).1)
        · exact ih hrest haRest hbRest

/-- What is found first is not later than what could be found. -/
theorem Ordered.find?_le {samples : List Sample} (h : Ordered samples) {p : Sample → Bool}
    {found s : Sample} (hfind : samples.find? p = some found) (hs : s ∈ samples) (hp : p s = true) :
    found.epoch ≤ s.epoch := by
  induction samples with
  | nil => exact absurd hs List.not_mem_nil
  | cons first rest ih =>
      obtain ⟨hfirst, hrest⟩ := List.pairwise_cons.1 h
      rw [List.find?_cons] at hfind
      split at hfind
      · obtain rfl := Option.some.inj hfind
        rcases List.mem_cons.1 hs with rfl | hs
        · exact le_rfl
        · exact (hfirst s hs).1
      · next hnot =>
          rcases List.mem_cons.1 hs with rfl | hs
          · rw [hp] at hnot
            cases hnot
          · exact ih hrest hfind hs

end Scan

/-! ## A line in two parts -/

def bytes (text : String) : Bytes := text.toList.map (fun c => c.toNat.toUInt8)

/-- `json.loads` for the lines of a small file. -/
def loadsSmall (raw : Bytes) : Except Exc JsonValue :=
  if raw = bytes "\x7b\"worker_id\": 0\x7d" then .ok (.dict [("worker_id", .int 0)])
  else if raw = bytes "\x7b\"worker_id\": 2\x7d" then .ok (.dict [("worker_id", .int 2)])
  else .error ⟨"JSONDecodeError", "Expecting value: line 1 column 1 (char 0)"⟩

theorem loadsSmall_readable (line : Bytes) : Readable loadsSmall line := by
  unfold Readable loadsSmall
  split
  · exact Or.inr ⟨_, rfl, fun value h => ⟨0, (Option.some.inj h).symm⟩⟩
  · split
    · exact Or.inr ⟨_, rfl, fun value h => ⟨2, (Option.some.inj h).symm⟩⟩
    · exact Or.inl ⟨_, rfl, rfl⟩

/-- A file that is not there, ends inside its second line, and ends behind it. -/
def growingFile : List (Option Bytes) :=
  [none, some (bytes "\x7b\"worker_id\": 0\x7d\n\x7b\"worker"),
    some (bytes "\x7b\"worker_id\": 0\x7d\n\x7b\"worker" ++ bytes "_id\": 2\x7d\n")]

theorem totals_exact_growing : ∃ states,
    run loadsSmall 2 ⟨0, 0, 0⟩ growingFile = .ok states
      ∧ List.Forall₂ (Exact loadsSmall 2) growingFile states := by
  refine totals_exact loadsSmall 2 ?_ (fun _ _ line _ => loadsSmall_readable line)
  exact .cons_cons (.absent _) (.cons_cons (.append (List.prefix_append _ _)) (.singleton _))

/-- The second line is counted once, when it is complete. -/
example : (run loadsSmall 2 ⟨0, 0, 0⟩ growingFile).toOption.map
      (fun states => states.map (fun st => (st.offset, st.total, st.repl)))
    = some [(0, 0, 0), (17, 1, 0), (34, 2, 1)] := by
  decide +kernel

end EvalHarness.SampleProgress
