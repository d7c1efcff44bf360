import Mathlib

set_option autoImplicit false

/-! # Paths and files

What the aggregator does with paths and files: names derived from the requested path, a file opened
to append to it or to write it anew, a file copied behind what another one holds. The paths are
`pathlib`'s, taken apart into the directory and the last component. -/

namespace EvalHarness

/-- A path: its directory and its last component. -/
structure PurePath where
  parent : String
  name : String
deriving DecidableEq, Repr

/-- What the files hold. A path without a file has none. -/
abbrev Files := PurePath → Option String

namespace PurePath

/-- Stem and suffix of a name: it is cut at its last dot (`rfind`), if text stands on both sides of
    it. -/
def splitName (name : List Char) : List Char × List Char :=
  let behind := (name.reverse.takeWhile (fun c => c ≠ '.')).reverse
  let i := name.length - behind.length - 1
  if 0 < i ∧ behind ≠ [] then (name.take i, name.drop i) else (name, [])

def stem (p : PurePath) : String := String.ofList (splitName p.name.toList).1

def suffix (p : PurePath) : String := String.ofList (splitName p.name.toList).2

/-- `with_name`: another file in the same directory. -/
def withName (p : PurePath) (name : String) : PurePath := { p with name }

/-- `str(path)`. -/
def text (p : PurePath) : String := p.parent ++ "/" ++ p.name

/-- The file of shard `i`: `with_name(f"{stem}.shard{i}{suffix}")`. -/
def shardFile (p : PurePath) (i : Nat) : PurePath :=
  p.withName (p.stem ++ ".shard" ++ toString i ++ p.suffix)

theorem splitName_append (name : List Char) : (splitName name).1 ++ (splitName name).2 = name := by
  unfold splitName
  dsimp only
  split
  · exact List.take_append_drop _ _
  · exact List.append_nil _

theorem stem_append_suffix (p : PurePath) : p.stem ++ p.suffix = p.name := by
  apply String.ext
  simp [stem, suffix, splitName_append]

theorem toString_nat_injective {i j : Nat} (h : toString i = toString j) : i = j := by
  have hdigits : Nat.toDigits 10 i = Nat.toDigits 10 j := by
    simpa [Nat.toString_eq_repr] using congrArg String.toList h
  simpa using congrArg (Nat.ofDigitChars 10 · 0) hdigits

/-- Every shard has a file of its own. -/
theorem shardFile_injective (p : PurePath) : Function.Injective p.shardFile := by
  intro i j h
  have hname := congrArg PurePath.name h
  simp only [shardFile, withName, String.append_left_inj, String.append_right_inj] at hname
  exact toString_nat_injective hname

/-- None of them is the file they are merged into. -/
theorem shardFile_ne (p : PurePath) (i : Nat) : p.shardFile i ≠ p := by
  intro h
  have hname : p.stem ++ ".shard" ++ toString i ++ p.suffix = p.stem ++ p.suffix :=
    (congrArg PurePath.name h).trans p.stem_append_suffix.symm
  have hlen := congrArg String.length hname
  have hshard : ".shard".length = 6 := rfl
  simp only [String.length_append] at hlen
  omega

example : (PurePath.mk "results" "results.jsonl").shardFile 1
    = ⟨"results", "results.shard1.jsonl"⟩ := by
  decide +kernel

end PurePath

/-! ## Reading and writing -/

namespace Files

/-- `open(.., "w")`: the file is there, and empty. -/
def openWrite (files : Files) (p : PurePath) : Files := Function.update files p (some "")

/-- `open(.., "a")`: the text the new one goes behind. -/
def openAppend (files : Files) (p : PurePath) : String := (files p).getD ""

/-- `shutil.copyfileobj` into an open file. -/
def copyInto (files : Files) (out p : PurePath) : Files :=
  Function.update files out (some ((files out).getD "" ++ (files p).getD ""))

/-- Copying several files, one behind the other. -/
theorem foldl_copyInto {out : PurePath} {paths : List PurePath} (hout : out ∉ paths) {files : Files}
    {text : String} (h : files out = some text) :
    paths.foldl (fun files p => files.copyInto out p) files out
      = some (text ++ String.join (paths.map (fun p => (files p).getD ""))) := by
  induction paths generalizing files text with
  | nil => simp [h]
  | cons p paths ih =>
      rw [List.mem_cons, not_or] at hout
      have hopen : files.copyInto out p out = some (text ++ (files p).getD "") := by
        simp [copyInto, h]
      have hothers : ∀ q ∈ paths, (files.copyInto out p q).getD "" = (files q).getD "" := by
        intro q hq
        have hne : q ≠ out := fun heq => hout.2 (heq ▸ hq)
        simp [copyInto, hne]
      rw [List.foldl_cons, ih hout.2 hopen, List.map_congr_left hothers]
      simp [String.append_assoc]

/-- Copying into one file leaves the others alone. -/
theorem foldl_copyInto_of_ne {out q : PurePath} (hq : q ≠ out) (paths : List PurePath)
    (files : Files) : paths.foldl (fun files p => files.copyInto out p) files q = files q := by
  induction paths generalizing files with
  | nil => rfl
  | cons p paths ih =>
      rw [List.foldl_cons, ih]
      exact Function.update_of_ne hq _ _

end Files

/-- The text of a file with the given lines. -/
def fileText (lines : List String) : String := String.join (lines.map (fun line => line ++ "\n"))

@[simp] theorem fileText_nil : fileText [] = "" := rfl

@[simp] theorem fileText_append (lines more : List String) :
    fileText (lines ++ more) = fileText lines ++ fileText more := by
  simp [fileText]

theorem fileText_flatMap {ι : Type} (f : ι → List String) (l : List ι) :
    fileText (l.flatMap f) = String.join (l.map (fun i => fileText (f i))) := by
  induction l with
  | nil => rfl
  | cons i l ih => simp [ih]

theorem toList_fileText (lines : List String) :
    (fileText lines).toList = (lines.map String.toList).flatMap (fun line => line ++ ['\n']) := by
  induction lines with
  | nil => rfl
  | cons line lines ih =>
      rw [fileText, List.map_cons, String.join_cons, String.toList_append, ← fileText, ih]
      simp

/-- The length of a file does not depend on the order of its lines. -/
theorem length_fileText_perm {lines lines' : List String} (h : lines.Perm lines') :
    (fileText lines).length = (fileText lines').length := by
  simp only [fileText, String.length_join]
  exact ((h.map _).map _).sum_eq

/-- Files one behind the other, each of some text and then some lines: they are a file of these
    lines, in whatever order, only if there is no other text. -/
theorem join_lines_iff {ι : Type} (l : List ι) (before : ι → String) (lines : ι → List String) :
    (∃ all, all.Perm (l.flatMap lines)
      ∧ String.join (l.map (fun i => before i ++ fileText (lines i))) = fileText all)
    ↔ ∀ i ∈ l, before i = "" := by
  constructor
  · rintro ⟨all, hperm, hjoin⟩ i hi
    have hlen : (l.map (fun i => (before i).length + (fileText (lines i)).length)).sum
        = (l.map (fun i => (fileText (lines i)).length)).sum := by
      have hleft := congrArg String.length hjoin
      rw [length_fileText_perm hperm, fileText_flatMap] at hleft
      simpa [String.length_join, Function.comp_def] using hleft
    rw [List.sum_map_add, Nat.add_eq_right] at hlen
    have hzero := List.sum_eq_zero_iff.1 hlen _ (List.mem_map_of_mem hi)
    simpa using hzero
  · intro hempty
    have hlines : ∀ i ∈ l, before i ++ fileText (lines i) = fileText (lines i) := by
      intro i hi
      rw [hempty i hi, String.empty_append]
    exact ⟨l.flatMap lines, List.Perm.refl _, by rw [fileText_flatMap, List.map_congr_left hlines]⟩

end EvalHarness
