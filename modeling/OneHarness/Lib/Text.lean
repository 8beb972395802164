/-
Texts as lines: what `split("\n")` and `join("\n")` make of each other.

A text is a list of characters. `unlines` ends every line with a newline,
which is what a writer that appends line after line leaves in a file.
-/
import Mathlib.Data.List.Basic
import Mathlib.Tactic.Common

namespace OneHarness.Lib.Text

/-- Lines, each ended by a newline. -/
def unlines (lines : List (List Char)) : List Char :=
  lines.flatMap (· ++ ['\n'])

@[simp] theorem unlines_nil : unlines [] = [] := rfl

@[simp] theorem unlines_cons (line : List Char) (lines : List (List Char)) :
    unlines (line :: lines) = line ++ '\n' :: unlines lines := by
  rw [unlines, List.flatMap_cons, List.append_assoc, List.singleton_append]
  rfl

@[simp] theorem unlines_append (ls ms : List (List Char)) :
    unlines (ls ++ ms) = unlines ls ++ unlines ms := List.flatMap_append

variable {lines : List (List Char)}

/-- Splitting lines and a rest without a newline. -/
theorem splitOn_unlines {rest : List Char}
    (hlines : ∀ line ∈ lines, '\n' ∉ line) (hrest : '\n' ∉ rest) :
    (unlines lines ++ rest).splitOn '\n' = lines ++ [rest] := by
  induction lines with
  | nil => exact List.splitOn_eq_singleton hrest
  | cons line lines ih =>
    rw [unlines_cons, List.append_assoc, List.cons_append,
      List.splitOn_append_cons_self_of_not_mem
        (hlines line List.mem_cons_self),
      ih fun l hl => hlines l (List.mem_cons_of_mem _ hl)]
    rfl

/-- Joining lines and ending the last one ends them all. -/
theorem intercalate_newline (h : lines ≠ []) :
    ['\n'].intercalate lines ++ ['\n'] = unlines lines := by
  induction lines with
  | nil => exact absurd rfl h
  | cons line lines ih =>
    cases lines with
    | nil => simp
    | cons line' lines =>
      rw [unlines_cons, ← ih (List.cons_ne_nil _ _)]
      simp

/-- A text of lines is empty or ends with a newline. -/
theorem getLast?_unlines (h : lines ≠ []) :
    (unlines lines).getLast? = some '\n' := by
  rw [← intercalate_newline h, List.getLast?_append]
  rfl

end OneHarness.Lib.Text
