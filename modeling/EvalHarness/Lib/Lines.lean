import Mathlib

set_option autoImplicit false

/-! # Terminated lines

The lines of a text that a separator ends, and what is behind the last one. A text that grows keeps
its terminated lines, so they can be read in instalments: each up to the last separator. -/

namespace Lines

variable {α : Type} (sep : α)

/-- A text that is empty or ends with a separator. -/
def Complete (s : List α) : Prop := s = [] ∨ ∃ before, s = before ++ [sep]

theorem complete_concat (s : List α) : Complete sep (s ++ [sep]) := Or.inr ⟨s, rfl⟩

theorem complete_append {s more : List α} (h : Complete sep s) (hmore : Complete sep more) :
    Complete sep (s ++ more) := by
  rcases hmore with rfl | ⟨before, rfl⟩
  · rwa [List.append_nil]
  · exact Or.inr ⟨s ++ before, by rw [List.append_assoc]⟩

variable [DecidableEq α]

/-- The lines that end with a separator, without it. -/
def terminated (s : List α) : List (List α) := (s.splitOn sep).dropLast

/-- The place of the last occurrence of an item. -/
def rfind (x : α) : List α → Option Nat
  | [] => none
  | a :: rest =>
      match rfind x rest with
      | some i => some (i + 1)
      | none => if a = x then some 0 else none

theorem not_mem_of_rfind {x : α} {s : List α} (h : rfind x s = none) : x ∉ s := by
  induction s with
  | nil => exact List.not_mem_nil
  | cons a rest ih =>
      rw [rfind] at h
      split at h
      · cases h
      · next hrest =>
          split at h
          · cases h
          · next hne =>
              rw [List.mem_cons, not_or]
              exact ⟨fun heq => hne heq.symm, ih hrest⟩

/-- The last occurrence divides a text. -/
theorem split_of_rfind {x : α} {s : List α} {i : Nat} (h : rfind x s = some i) :
    ∃ before behind, s = before ++ x :: behind ∧ before.length = i ∧ x ∉ behind := by
  induction s generalizing i with
  | nil => cases h
  | cons a rest ih =>
      rw [rfind] at h
      split at h
      · next j hrest =>
          obtain ⟨before, behind, rfl, hlength, hnot⟩ := ih hrest
          refine ⟨a :: before, behind, rfl, ?_, hnot⟩
          rw [List.length_cons, hlength]
          exact Option.some.inj h
      · next hrest =>
          split at h
          · next heq =>
              refine ⟨[], rest, by rw [heq]; rfl, ?_, not_mem_of_rfind hrest⟩
              exact Option.some.inj h
          · cases h

/-! ## Appending -/

@[simp] theorem terminated_nil : terminated sep [] = [] := by
  rw [terminated, List.splitOn_nil]
  rfl

theorem terminated_of_not_mem {s : List α} (h : sep ∉ s) : terminated sep s = [] := by
  rw [terminated, List.splitOn_eq_singleton h]
  rfl

/-- Behind a separator the lines start anew. -/
theorem terminated_append_cons (s rest : List α) :
    terminated sep (s ++ sep :: rest) = s.splitOn sep ++ terminated sep rest := by
  rw [terminated, List.splitOn_append_cons_self,
    List.dropLast_append_of_ne_nil (List.splitOn_ne_nil _ _), terminated]

theorem terminated_concat (s : List α) : terminated sep (s ++ [sep]) = s.splitOn sep := by
  rw [terminated_append_cons, terminated_nil, List.append_nil]

/-- What follows complete lines has its own lines. -/
theorem terminated_append {s : List α} (h : Complete sep s) (rest : List α) :
    terminated sep (s ++ rest) = terminated sep s ++ terminated sep rest := by
  rcases h with rfl | ⟨before, rfl⟩
  · rw [terminated_nil, List.nil_append, List.nil_append]
  · rw [List.append_assoc, List.singleton_append, terminated_append_cons, terminated_concat]

/-- A text that is written line by line. -/
theorem terminated_flatMap {lines : List (List α)} (h : ∀ line ∈ lines, sep ∉ line) :
    terminated sep (lines.flatMap (fun line => line ++ [sep])) = lines := by
  induction lines with
  | nil => exact terminated_nil sep
  | cons line lines ih =>
      have hrest := ih (fun other hother => h other (List.mem_cons_of_mem _ hother))
      rw [List.flatMap_cons, List.append_assoc, List.singleton_append, terminated_append_cons,
        hrest, List.splitOn_eq_singleton (h line List.mem_cons_self)]
      rfl

end Lines
