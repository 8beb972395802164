/-
What `truncateTail` keeps of a content, and when the end of a content is
enough to know it.

Below, `keptTail` is the content of a truncation with its limits spelled
out. The loop collects the lines of a suffix one by one; either they all
fit, and it goes on in front of them, or it stops inside the suffix, and
what is in front does not matter (`keptTail_append`).
-/
import OneHarness.Tools.Truncate
import Mathlib.Tactic.Common

namespace OneHarness.Tools

open Lib.Utf8

-- ======== lines

@[simp] theorem join_nil : join [] = [] := rfl

@[simp] theorem join_singleton (line : List Char) : join [line] = line :=
  List.intercalate_singleton

variable {lines : List (List Char)}

theorem join_cons (h : lines ≠ [])
    (line : List Char) : join (line :: lines) = line ++ '\n' :: join lines := by
  rw [join, List.intercalate_cons_of_ne_nil h, List.append_assoc]
  rfl

theorem join_splitOn (text : List Char) : join (text.splitOn '\n') = text :=
  List.intercalate_splitOn '\n'

/-- Blank lines join to newlines. -/
theorem join_replicate (k : Nat) :
    join (List.replicate (k + 1) []) = List.replicate k '\n' := by
  induction k with
  | zero => rfl
  | succ k ih =>
    have hne : List.replicate (k + 1) ([] : List Char) ≠ [] := by simp
    rw [List.replicate_succ, join_cons hne, ih, List.replicate_succ]
    rfl

/-- A line and blank lines after it. -/
theorem join_cons_replicate (line : List Char) (k : Nat) :
    join (line :: List.replicate k []) = line ++ List.replicate k '\n' := by
  cases k with
  | zero => simp
  | succ k =>
    rw [join_cons (by simp), join_replicate, List.replicate_succ]

theorem byteLength_join_cons (line : List Char) (lines : List (List Char)) :
    byteLength (join (line :: lines))
      = byteLength (join lines)
        + (byteLength line + if 0 < lines.length then 1 else 0) := by
  cases lines with
  | nil => simp
  | cons l ls =>
    rw [join_cons (List.cons_ne_nil _ _), byteLength_append,
      byteLength_cons '\n', byteLength_newline]
    simp only [List.length_cons, Nat.zero_lt_succ, if_true]
    omega

theorem join_suffix (ls lines : List (List Char)) :
    join lines <:+ join (ls ++ lines) := by
  induction ls with
  | nil => exact List.suffix_rfl
  | cons line ls ih =>
    cases hrest : ls ++ lines with
    | nil =>
      rw [(List.append_eq_nil_iff.1 hrest).2]
      exact List.nil_suffix
    | cons l rest =>
      rw [List.cons_append, hrest, join_cons (List.cons_ne_nil _ _), ← hrest]
      exact ih.trans ((List.suffix_cons _ _).trans (List.suffix_append _ _))

/-- A suffix of the lines takes no more bytes. -/
theorem byteLength_join_le (ls lines : List (List Char)) :
    byteLength (join lines) ≤ byteLength (join (ls ++ lines)) := by
  obtain ⟨front, h⟩ := join_suffix ls lines
  rw [← h, byteLength_append]
  exact Nat.le_add_left _ _

theorem length_splitOn (text : List Char) :
    (text.splitOn '\n').length = text.count '\n' + 1 := by
  induction text with
  | nil => rfl
  | cons c text ih =>
    rw [List.splitOn_cons_eq_if_modifyHead]
    by_cases hc : c = '\n'
    · rw [if_pos (beq_iff_eq.2 hc), List.length_cons, ih, hc,
        List.count_cons_self]
    · rw [if_neg (by simpa using hc), List.length_modifyHead, ih,
        List.count_cons_of_ne hc]

/-- Only newlines: the lines are blank, and the text is so many of
them. -/
theorem splitOn_replicate (k : Nat) :
    (List.replicate k '\n').splitOn '\n' = List.replicate (k + 1) [] := by
  induction k with
  | zero => rfl
  | succ k ih =>
    have h := List.splitOn_append_cons_self (a := '\n') []
      (List.replicate k '\n')
    rw [List.replicate_succ, List.replicate_succ, ← ih]
    exact h

theorem blank_iff (text : List Char) :
    (text.splitOn '\n').all (·.length = 0) = true
      ↔ text = List.replicate (text.count '\n') '\n' := by
  constructor
  · intro hall
    have hblank : text.splitOn '\n'
        = List.replicate (text.count '\n' + 1) [] := by
      rw [List.eq_replicate_iff]
      refine ⟨length_splitOn text, fun line hline => ?_⟩
      have := List.all_eq_true.1 hall line hline
      exact List.eq_nil_of_length_eq_zero (by simpa using this)
    conv_lhs => rw [← join_splitOn text, hblank, join_replicate]
  · intro heq
    rw [heq, splitOn_replicate]
    simp

/-- The last line goes on with what is added to the text. -/
theorem exists_last_line (p : List Char) :
    ∃ ls q, '\n' ∉ q
      ∧ ∀ s, '\n' ∉ s → (p ++ s).splitOn '\n' = ls ++ [q ++ s] := by
  have hlast : '\n' ∉ p ∨ ∃ p₀ q, p = p₀ ++ '\n' :: q ∧ '\n' ∉ q := by
    induction p with
    | nil => exact Or.inl List.not_mem_nil
    | cons c p ih =>
      rcases ih with hp | ⟨p₀, q, rfl, hq⟩
      · by_cases hc : c = '\n'
        · exact Or.inr ⟨[], p, by rw [hc]; rfl, hp⟩
        · exact Or.inl (List.not_mem_cons_of_ne_of_not_mem (Ne.symm hc) hp)
      · exact Or.inr ⟨c :: p₀, q, rfl, hq⟩
  rcases hlast with hp | ⟨p₀, q, rfl, hq⟩
  · refine ⟨[], p, hp, fun s hs => ?_⟩
    have hps : '\n' ∉ p ++ s := fun h =>
      (List.mem_append.1 h).elim hp hs
    exact List.splitOn_eq_singleton hps
  · refine ⟨p₀.splitOn '\n', q, hq, fun s hs => ?_⟩
    have hqs : '\n' ∉ q ++ s := fun h =>
      (List.mem_append.1 h).elim hq hs
    rw [List.append_assoc, List.cons_append, List.splitOn_append_cons_self,
      List.splitOn_eq_singleton hqs]

-- ======== the loop

/-- Cutting a line keeps its longest end that fits. -/
theorem truncateStringToBytesFromEnd_eq (str : List Char) (n : Nat) :
    truncateStringToBytesFromEnd str n = lastBytes n str := by
  rw [truncateStringToBytesFromEnd]
  by_cases h : (encode str).length ≤ n
  · rw [if_pos h]
    exact (lastBytes_of_le h).symm
  · rw [if_neg h]
    exact decode_drop_charBoundary (Nat.le_of_not_le h)

variable {text : List Char}

section

variable (m b : Nat)

/-- The lines the loop keeps of a content's lines. -/
def keptLines (lines : List (List Char)) : List (List Char) :=
  (collectTail m b lines.reverse [] 0).outputLinesArr

/-- The content of a truncation. -/
def keptTail (text : List Char) : List Char :=
  join (keptLines m b (text.splitOn '\n'))

/-- Lines within both limits. -/
def Fit (lines : List (List Char)) : Prop :=
  lines.length ≤ m ∧ byteLength (join lines) ≤ b

variable {m b}

/-- While the lines fit, the loop takes them. -/
theorem collectTail_fit {ls arr : List (List Char)}
    (hfit : Fit m b (ls.reverse ++ arr)) (more : List (List Char)) :
    collectTail m b (ls ++ more) arr (byteLength (join arr))
      = collectTail m b more (ls.reverse ++ arr)
          (byteLength (join (ls.reverse ++ arr))) := by
  induction ls generalizing arr with
  | nil => rfl
  | cons line ls ih =>
    rw [List.reverse_cons, List.append_assoc, List.singleton_append]
      at hfit ⊢
    obtain ⟨hlength, hbytes⟩ := hfit
    have hroom : arr.length < m := by
      rw [List.length_append, List.length_cons] at hlength
      omega
    have hle := byteLength_join_le ls.reverse (line :: arr)
    rw [byteLength_join_cons] at hle
    rw [List.cons_append, collectTail, if_pos hroom]
    dsimp only
    rw [if_neg (by omega), ← byteLength_join_cons]
    exact ih ⟨hlength, hbytes⟩

/-- Once the lines do not fit, it stops among them. -/
theorem collectTail_stop {ls arr : List (List Char)} (harr : Fit m b arr)
    (hfit : ¬ Fit m b (ls.reverse ++ arr)) (more : List (List Char)) :
    collectTail m b (ls ++ more) arr (byteLength (join arr))
      = collectTail m b ls arr (byteLength (join arr)) := by
  induction ls generalizing arr with
  | nil => exact absurd harr hfit
  | cons line ls ih =>
    rw [List.reverse_cons, List.append_assoc, List.singleton_append]
      at hfit
    rw [List.cons_append, collectTail, collectTail]
    by_cases hroom : arr.length < m
    · rw [if_pos hroom, if_pos hroom]
      dsimp only
      by_cases hover : b < byteLength (join arr)
          + (byteLength line + if 0 < arr.length then 1 else 0)
      · rw [if_pos hover, if_pos hover]
      · rw [if_neg hover, if_neg hover, ← byteLength_join_cons]
        apply ih ⟨?_, ?_⟩ hfit
        · rw [List.length_cons]
          omega
        · rw [byteLength_join_cons]
          omega
    · rw [if_neg hroom, if_neg hroom]

theorem fit_nil : Fit m b [] := ⟨Nat.zero_le m, Nat.zero_le b⟩

/-- Lines that fit are kept. -/
theorem keptLines_fit (h : Fit m b lines) : keptLines m b lines = lines := by
  have hrun := @collectTail_fit m b lines.reverse []
    (by rwa [List.reverse_reverse, List.append_nil]) []
  rw [List.append_nil, List.reverse_reverse, List.append_nil] at hrun
  rw [keptLines, show (0 : Nat) = byteLength (join []) from rfl, hrun]
  rfl

/-- In front of lines that fit, the loop goes on. -/
theorem keptLines_append_fit (h : Fit m b lines) (more : List (List Char)) :
    keptLines m b (more ++ lines)
      = (collectTail m b more.reverse lines
          (byteLength (join lines))).outputLinesArr := by
  have hrun := @collectTail_fit m b lines.reverse []
    (by rwa [List.reverse_reverse, List.append_nil]) more.reverse
  rw [List.reverse_reverse, List.append_nil] at hrun
  rw [keptLines, List.reverse_append,
    show (0 : Nat) = byteLength (join []) from rfl, hrun]

/-- In front of lines that do not fit, nothing matters. -/
theorem keptLines_append_stop (h : ¬ Fit m b lines) (more : List (List Char)) :
    keptLines m b (more ++ lines) = keptLines m b lines := by
  have hrun := @collectTail_stop m b lines.reverse [] fit_nil
    (by rwa [List.reverse_reverse, List.append_nil]) more.reverse
  rw [keptLines, List.reverse_append,
    show (0 : Nat) = byteLength (join []) from rfl, hrun]
  rfl

/-- A text within both limits is kept whole. -/
theorem keptTail_fit
    (h : Fit m b (text.splitOn '\n')) : keptTail m b text = text := by
  rw [keptTail, keptLines_fit h, join_splitOn]

-- ======== what is in front

/-- The text after a newline does not fit: it is all that matters. -/
theorem keptTail_append_stop
    (h : ¬ Fit m b (text.splitOn '\n')) (front : List Char) :
    keptTail m b (front ++ '\n' :: text) = keptTail m b text := by
  rw [keptTail, List.splitOn_append_cons_self, keptLines_append_stop h]
  rfl

/-- The text after the last newline does not fit by itself: its end is
kept, if a line is kept at all. -/
theorem keptTail_line {line : List Char} {ls : List (List Char)}
    (hlines : text.splitOn '\n' = ls ++ [line]) (hover : b < byteLength line) :
    keptTail m b text = if 0 < m then lastBytes b line else [] := by
  rw [keptTail, keptLines, hlines, List.reverse_append,
    List.reverse_singleton, List.singleton_append, collectTail]
  by_cases hm : 0 < m
  · rw [if_pos (show ([] : List (List Char)).length < m from hm), if_pos hm]
    dsimp only
    rw [if_pos (by simpa using hover), if_pos (by simp)]
    simp [truncateStringToBytesFromEnd_eq]
  · rw [if_neg (show ¬ ([] : List (List Char)).length < m from hm),
      if_neg hm]
    rfl

/-- Too long a line in front of a text that fits is left out, unless the
text is blank: then the line's end is kept, and blank lines give way
to it. -/
theorem keptTail_long_line {front line : List Char}
    {ls : List (List Char)} (hfit : Fit m b (text.splitOn '\n'))
    (hlines : front.splitOn '\n' = ls ++ [line])
    (hover : b < byteLength text + byteLength line + 1) :
    keptTail m b (front ++ '\n' :: text)
      = if (text.splitOn '\n').length < m
          ∧ text = List.replicate (text.count '\n') '\n' then
          lastBytes (b - min (text.count '\n' + 1) (b - 1)) line
            ++ List.replicate (min (text.count '\n' + 1) (b - 1)) '\n'
        else text := by
  have hne : text.splitOn '\n' ≠ [] := List.splitOn_ne_nil _ _
  have hpos : 0 < (text.splitOn '\n').length := List.length_pos_iff.2 hne
  rw [keptTail, List.splitOn_append_cons_self, keptLines_append_fit hfit,
    hlines, List.reverse_append, List.reverse_singleton,
    List.singleton_append, collectTail, join_splitOn]
  by_cases hroom : (text.splitOn '\n').length < m
  · rw [if_pos hroom]
    dsimp only
    rw [if_pos hpos, if_pos (by omega)]
    by_cases hblank : text = List.replicate (text.count '\n') '\n'
    · rw [if_pos ((blank_iff text).2 hblank), if_pos ⟨hroom, hblank⟩]
      have hlines : text.splitOn '\n'
          = List.replicate (text.count '\n' + 1) [] := by
        conv_lhs => rw [hblank, splitOn_replicate]
      rw [length_splitOn, hlines, List.take_replicate,
        Nat.min_assoc, Nat.min_comm (b - 1), ← Nat.min_assoc, Nat.min_self,
        truncateStringToBytesFromEnd_eq, join_cons_replicate]
    · rw [if_neg fun h => hblank ((blank_iff text).1 h),
        if_neg fun h => hblank h.2]
      exact join_splitOn text
  · rw [if_neg hroom, if_neg fun h => hroom h.1]
    exact join_splitOn text

/-- The content of a truncation is the part kept. -/
theorem truncateTail_content (text : List Char) (options : TruncationOptions) :
    (truncateTail text options).content
      = keptTail (options.maxLines.getD defaultMaxLines)
          (options.maxBytes.getD defaultMaxBytes) text := by
  rw [truncateTail]
  dsimp only
  split
  · rename_i h
    refine (keptTail_fit ⟨h.1, ?_⟩).symm
    rw [join_splitOn]
    exact h.2
  · rfl

-- ======== the limits

end

end OneHarness.Tools
