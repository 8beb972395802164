/-
`text.replace(pattern, …)` and `text.matchAll(pattern)` with a global
pattern. The pattern is given as what it finds at the start of a text: the
length of the match, which is not zero, and what it is replaced by.

# Reasoning

A text is taken apart from the left: what is found at its start is replaced
(`replaceAll_found`), and what nothing is found in stays
(`replaceAll_unfound`).
-/
import Mathlib.Data.List.Basic
import Mathlib.Tactic.Common

namespace OneHarness.Lib.Replace

variable {α : Type}

/-- The text behind so many elements, with every match replaced. -/
def replaceAll (found : List α → Option (Nat × List α)) :
    Nat → List α → List α
  | _, [] => []
  | skip + 1, _ :: rest => replaceAll found skip rest
  | 0, a :: rest =>
    match found (a :: rest) with
    | some (n, content) => content ++ replaceAll found (n - 1) rest
    | none => a :: replaceAll found 0 rest

/-- The places of the matches, from `i` on, and their lengths. -/
def matchAll (found : List α → Option Nat) :
    Nat → Nat → List α → List (Nat × Nat)
  | _, _, [] => []
  | i, skip + 1, _ :: rest => matchAll found (i + 1) skip rest
  | i, 0, a :: rest =>
    match found (a :: rest) with
    | some n => (i, n) :: matchAll found (i + 1) (n - 1) rest
    | none => matchAll found (i + 1) 0 rest

variable {found : List α → Option (Nat × List α)} {xs ys content : List α}

theorem replaceAll_skip :
    replaceAll found xs.length (xs ++ ys) = replaceAll found 0 ys := by
  induction xs with
  | nil => rfl
  | cons x xs ih =>
    rw [List.cons_append, List.length_cons, replaceAll]
    exact ih

theorem replaceAll_found (hxs : xs ≠ [])
    (h : found (xs ++ ys) = some (xs.length, content)) :
    replaceAll found 0 (xs ++ ys) = content ++ replaceAll found 0 ys := by
  cases xs with
  | nil => exact absurd rfl hxs
  | cons x xs =>
    rw [List.cons_append] at h ⊢
    rw [replaceAll, h]
    dsimp only
    rw [List.length_cons, Nat.add_sub_cancel, replaceAll_skip]

theorem replaceAll_unfound
    (h : ∀ before after, xs = before ++ after → after ≠ [] →
      found (after ++ ys) = none) :
    replaceAll found 0 (xs ++ ys) = xs ++ replaceAll found 0 ys := by
  induction xs with
  | nil => rfl
  | cons x xs ih =>
    have hhere : found (x :: (xs ++ ys)) = none :=
      h [] (x :: xs) rfl (List.cons_ne_nil x xs)
    rw [List.cons_append, replaceAll, hhere]
    dsimp only
    rw [List.cons_append, ih]
    intro before after heq hne
    exact h (x :: before) after (by rw [heq, List.cons_append]) hne

-- ======== all matches

section
variable {found : List α → Option Nat}

theorem matchAll_skip (i n : Nat) (xs : List α) :
    matchAll found i n xs = matchAll found (i + n) 0 (xs.drop n) := by
  induction xs generalizing i n with
  | nil => simp [matchAll]
  | cons x xs ih =>
    cases n with
    | zero => rfl
    | succ n =>
      rw [matchAll, ih, List.drop_succ_cons, Nat.add_assoc, Nat.add_comm 1 n]

theorem matchAll_eq_nil_iff (i : Nat) (xs : List α) :
    matchAll found i 0 xs = []
      ↔ ∀ j < xs.length, found (xs.drop j) = none := by
  induction xs generalizing i with
  | nil => exact iff_of_true rfl fun j hj => absurd hj (Nat.not_lt_zero j)
  | cons x xs ih =>
    rw [matchAll]
    cases hx : found (x :: xs) with
    | some n =>
      refine iff_of_false (List.cons_ne_nil _ _) fun h => ?_
      rw [← List.drop_zero (l := x :: xs), h 0 (Nat.succ_pos _)] at hx
      cases hx
    | none =>
      refine (ih (i + 1)).trans ⟨fun h j hj => ?_, fun h j hj => ?_⟩
      · cases j with
        | zero => exact hx
        | succ j => exact h j (Nat.lt_of_succ_lt_succ hj)
      · exact h (j + 1) (Nat.succ_lt_succ hj)

/-- The first match, and those behind it. -/
theorem matchAll_first {k n : Nat} {xs : List α} (i : Nat)
    (hbefore : ∀ j < k, found (xs.drop j) = none) (hk : k < xs.length)
    (hn : 0 < n) (h : found (xs.drop k) = some n) :
    matchAll found i 0 xs
      = (i + k, n) :: matchAll found (i + k + n) 0 (xs.drop (k + n)) := by
  induction xs generalizing i k with
  | nil => cases hk
  | cons x xs ih =>
    cases k with
    | zero =>
      rw [List.drop_zero] at h
      rw [matchAll, h]
      dsimp only
      obtain ⟨n, rfl⟩ := Nat.exists_eq_succ_of_ne_zero (by omega : n ≠ 0)
      rw [matchAll_skip, Nat.succ_sub_one, Nat.zero_add,
        List.drop_succ_cons, Nat.add_assoc, Nat.add_comm 1 n]
      rfl
    | succ k =>
      have hx : found (x :: xs) = none := hbefore 0 (Nat.succ_pos k)
      rw [matchAll, hx]
      dsimp only
      rw [ih (i + 1) (fun j hj => hbefore (j + 1) (Nat.succ_lt_succ hj))
        (Nat.lt_of_succ_lt_succ hk) h, Nat.add_right_comm k 1 n,
        List.drop_succ_cons, Nat.add_assoc i 1 k, Nat.add_comm 1 k]

end

end OneHarness.Lib.Replace
