/-
The first place of a word in a text, as `indexOf`.
-/
import Mathlib.Data.List.Basic
import Mathlib.Tactic.Common

namespace OneHarness.Lib.Search

variable {α : Type}

/-- It occurs there, and nowhere before. -/
structure First (word text : List α) (i : Nat) : Prop where
  here : word <+: text.drop i
  before : ∀ j < i, ¬ word <+: text.drop j

variable {word text : List α}

variable {i : Nat}

theorem First.unique {j : Nat} (hi : First word text i)
    (hj : First word text j) : i = j := by
  rcases Nat.lt_trichotomy i j with hlt | heq | hlt
  · exact absurd hi.here (hj.before i hlt)
  · exact heq
  · exact absurd hj.here (hi.before j hlt)

theorem First.zero (h : word <+: text) : First word text 0 :=
  ⟨h, fun j hj => absurd hj (Nat.not_lt_zero j)⟩

theorem first_succ {a : α} (hne : ¬ word <+: a :: text) :
    First word (a :: text) (i + 1) ↔ First word text i := by
  constructor
  · intro h
    exact ⟨h.here, fun j hj => h.before (j + 1) (Nat.succ_lt_succ hj)⟩
  · intro h
    refine ⟨h.here, ?_⟩
    intro j hj
    cases j with
    | zero => exact hne
    | succ j => exact h.before j (Nat.lt_of_succ_lt_succ hj)

theorem First.length_le (h : First word text i) (hword : word ≠ []) :
    i + word.length ≤ text.length := by
  have hle := h.here.length_le
  have hpos := List.length_pos_iff.2 hword
  rw [List.length_drop] at hle
  omega

/-- What follows the text does not matter. -/
theorem First.append (h : First word text i) (hword : word ≠ [])
    (rest : List α) : First word (text ++ rest) i := by
  have hlen := h.length_le hword
  refine ⟨?_, ?_⟩
  · rw [List.drop_append_of_le_length (by omega)]
    exact h.here.trans (List.prefix_append _ _)
  · intro j hj hpre
    rw [List.drop_append_of_le_length (by omega)] at hpre
    apply h.before j hj
    apply List.prefix_of_prefix_length_le hpre (List.prefix_append _ _)
    rw [List.length_drop]
    omega

theorem First.drop {k : Nat} (h : First word text i) (hk : k ≤ i) :
    First word (text.drop k) (i - k) := by
  refine ⟨?_, ?_⟩
  · rw [List.drop_drop, Nat.add_sub_cancel' hk]
    exact h.here
  · intro j hj hpre
    rw [List.drop_drop] at hpre
    exact h.before (k + j) (by omega) hpre

variable [DecidableEq α]

/-- Where the word occurs first. -/
def indexOf (word : List α) : List α → Option Nat
  | [] => if word.isEmpty then some 0 else none
  | a :: text =>
    if word.isPrefixOf (a :: text) then some 0
    else (indexOf word text).map (· + 1)

theorem indexOf_eq_some (hword : word ≠ []) :
    indexOf word text = some i ↔ First word text i := by
  induction text generalizing i with
  | nil =>
    have hempty : ¬ word.isEmpty = true := fun h =>
      hword (List.isEmpty_iff.1 h)
    rw [indexOf, if_neg hempty]
    constructor
    · intro h
      cases h
    · intro h
      have hpre := h.here
      rw [List.drop_nil, List.prefix_nil] at hpre
      exact absurd hpre hword
  | cons a text ih =>
    rw [indexOf]
    by_cases hpre : word.isPrefixOf (a :: text) = true
    · rw [if_pos hpre]
      have hfirst := First.zero (List.isPrefixOf_iff_prefix.1 hpre)
      constructor
      · intro h
        rw [← Option.some.inj h]
        exact hfirst
      · intro h
        rw [hfirst.unique h]
    · have hne : ¬ word <+: a :: text := fun h =>
        hpre (List.isPrefixOf_iff_prefix.2 h)
      rw [if_neg hpre, Option.map_eq_some_iff]
      constructor
      · rintro ⟨j, hj, rfl⟩
        exact (first_succ hne).2 (ih.1 hj)
      · intro h
        cases i with
        | zero => exact absurd h.here hne
        | succ i => exact ⟨i, ih.2 ((first_succ hne).1 h), rfl⟩

theorem indexOf_eq_none (hword : word ≠ []) :
    indexOf word text = none ↔ ∀ i, ¬ word <+: text.drop i := by
  constructor
  · intro h i
    induction i using Nat.strongRecOn with
    | ind i ih =>
      intro hpre
      rw [(indexOf_eq_some hword).2 ⟨hpre, ih⟩] at h
      cases h
  · intro h
    cases hfind : indexOf word text with
    | none => rfl
    | some i => exact absurd ((indexOf_eq_some hword).1 hfind).here (h i)

section
variable (hword : word ≠ []) (h : indexOf word text = some i)
include hword h

theorem indexOf_append (rest : List α) : indexOf word (text ++ rest) = some i :=
  (indexOf_eq_some hword).2
    (((indexOf_eq_some hword).1 h).append hword rest)

theorem length_of_indexOf : i + word.length ≤ text.length :=
  ((indexOf_eq_some hword).1 h).length_le hword

/-- The text is what is before the word, the word, and what follows. -/
theorem eq_of_indexOf :
    text = text.take i ++ word ++ text.drop (i + word.length) := by
  obtain ⟨rest, hrest⟩ := ((indexOf_eq_some hword).1 h).here
  have hdrop : text.drop (i + word.length) = rest := by
    rw [← List.drop_drop, ← hrest, List.drop_left]
  rw [hdrop, List.append_assoc, hrest, List.take_append_drop]

end

end OneHarness.Lib.Search
