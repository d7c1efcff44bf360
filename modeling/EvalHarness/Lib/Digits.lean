import EvalHarness.Lib.Text

set_option autoImplicit false

/-! # Decimal numbers

How numbers are written, padded or not, and how they are found in a text again. What counts as a
decimal digit beyond ASCII is a matter of the tables of Unicode. -/

namespace Text

/-- The decimal digits of Unicode with their values: what `\d` matches and `int` reads. -/
structure Digits where
  value : Char → Option Nat
  ascii : ∀ c : Char, c.toNat < 128 →
    value c = if c.isDigit then some (c.toNat - '0'.toNat) else none

/-- The digits of ASCII alone. -/
def asciiDigits : Digits where
  value := fun c => if c.isDigit then some (c.toNat - '0'.toNat) else none
  ascii := fun _ _ => rfl

/-- `str(n)`. -/
def decimal (n : Nat) : Str := Nat.toDigits 10 n

/-- A number with zeros in front, up to a width: the format `0{width}d`. -/
def padded (width n : Nat) : Str := List.leftpad width '0' (decimal n)

namespace Digits

variable (d : Digits)

/-- `\d`. -/
def isDecimal (c : Char) : Bool := (d.value c).isSome

/-- `int`, of digits. -/
def toNat (s : Str) : Nat := s.foldl (fun n c => 10 * n + (d.value c).getD 0) 0

/-- `(\d+)` at the start of a text, in front of something else: the number, and what follows. -/
def number (s : Str) : Option (Nat × Str) :=
  let run := s.takeWhile d.isDecimal
  if run = [] then none else some (d.toNat run, s.dropWhile d.isDecimal)

/-- A digit of ASCII. -/
theorem value_of_isDigit {c : Char} (h : c.isDigit = true) :
    d.value c = some (c.toNat - '0'.toNat) := by
  have hascii : c.toNat < 128 := by
    simp only [Char.isDigit, Bool.and_eq_true, decide_eq_true_eq, UInt32.le_iff_toNat_le] at h
    have hle : c.toNat ≤ 57 := h.2
    omega
  rw [d.ascii c hascii, if_pos h]

theorem isDecimal_of_isDigit {c : Char} (h : c.isDigit = true) : d.isDecimal c = true := by
  rw [isDecimal, d.value_of_isDigit h]
  rfl

/-- Another character of ASCII. -/
theorem not_isDecimal {c : Char} (hascii : c.toNat < 128) (h : c.isDigit = false) :
    d.isDecimal c = false := by
  rw [isDecimal, d.ascii c hascii, h]
  rfl

theorem toNat_of_isDigit {s : Str} (h : ∀ c ∈ s, c.isDigit = true) :
    d.toNat s = Nat.ofDigitChars 10 s 0 := by
  rw [toNat, Nat.ofDigitChars_eq_foldl]
  refine List.foldl_ext _ _ _ (fun n c hc => ?_)
  rw [d.value_of_isDigit (h c hc)]
  rfl

end Digits

/-! ## Numbers that are written -/

theorem isDigit_of_mem_decimal {n : Nat} {c : Char} (h : c ∈ decimal n) : c.isDigit = true :=
  Nat.isDigit_of_mem_toDigits (by norm_num) le_rfl h

theorem isDigit_of_mem_padded {width n : Nat} {c : Char} (h : c ∈ padded width n) :
    c.isDigit = true := by
  rcases List.mem_append.1 h with hzero | hdigit
  · rw [List.eq_of_mem_replicate hzero]
    rfl
  · exact isDigit_of_mem_decimal hdigit

theorem padded_ne_nil (width n : Nat) : padded width n ≠ [] :=
  List.append_ne_nil_of_right_ne_nil _ Nat.toDigits_ne_nil

theorem length_padded {width n : Nat} (hwidth : 0 < width) (h : n < 10 ^ width) :
    (padded width n).length = width := by
  have hlen := (Nat.length_toDigits_le_iff (by norm_num) hwidth).2 h
  rw [padded, List.length_leftpad]
  exact max_eq_left hlen

theorem padded_zero (n : Nat) : padded 0 n = decimal n := by
  simp [padded, List.leftpad]

variable (d : Digits)

/-- Zeros in front do not change a number. -/
theorem toNat_padded (width n : Nat) : d.toNat (padded width n) = n := by
  rw [d.toNat_of_isDigit (fun c hc => isDigit_of_mem_padded hc), padded, List.leftpad,
    Nat.ofDigitChars_append, Nat.ofDigitChars_replicate_zero, Nat.mul_zero]
  exact Nat.ofDigitChars_ten_toDigits

theorem toNat_decimal (n : Nat) : d.toNat (decimal n) = n := by
  rw [← padded_zero, toNat_padded]

/-- A number that is written in front of something that is not a digit is found again. -/
theorem number_padded (width n : Nat) {rest : Str}
    (hrest : ∀ c ∈ rest.head?, d.isDecimal c = false) :
    d.number (padded width n ++ rest) = some (n, rest) := by
  have hall : ∀ c ∈ padded width n, d.isDecimal c = true :=
    fun c hc => d.isDecimal_of_isDigit (isDigit_of_mem_padded hc)
  have hstop : rest.takeWhile d.isDecimal = [] ∧ rest.dropWhile d.isDecimal = rest := by
    cases rest with
    | nil => exact ⟨rfl, rfl⟩
    | cons c rest =>
        have hc : ¬ d.isDecimal c = true := by simp [hrest c rfl]
        exact ⟨List.takeWhile_cons_of_neg hc, List.dropWhile_cons_of_neg hc⟩
  have htake : (padded width n ++ rest).takeWhile d.isDecimal = padded width n := by
    rw [List.takeWhile_append_of_pos hall, hstop.1, List.append_nil]
  have hdrop : (padded width n ++ rest).dropWhile d.isDecimal = rest := by
    rw [List.dropWhile_append_of_pos hall, hstop.2]
  simp only [Digits.number, htake, if_neg (padded_ne_nil width n), toNat_padded, hdrop]

/-- A literal at the start of a text: what follows it. -/
def literal (lit s : Str) : Option Str :=
  if lit <+: s then some (s.drop lit.length) else none

theorem literal_append (lit s : Str) : literal lit (lit ++ s) = some s := by
  rw [literal, if_pos (List.prefix_append lit s), List.drop_left]

theorem not_prefix_of_head {lit s : Str} (hlit : lit ≠ []) (h : s.head? ≠ lit.head?) :
    ¬ lit <+: s := by
  rintro ⟨rest, rfl⟩
  exact h (List.head?_append_of_ne_nil lit hlit)

end Text
