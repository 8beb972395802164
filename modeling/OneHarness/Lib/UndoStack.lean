/-
A stack of snapshots to go back to.

When every step puts at most a snapshot of the state before it on the stack,
the stack holds snapshots of the states of the run, the newest first
(`sublist_earlier`), and undoing goes back along it (`undo_replicate`).
-/
import Mathlib.Data.List.Basic
import Mathlib.Tactic.Common

namespace OneHarness.Lib.UndoStack

universe u v w

variable {σ : Type u} {ε : Type v} {τ : Type w} {step : σ → ε → σ}
  {snapshot : σ → τ} {stack : σ → List τ} {s : σ}

/-- The states before the steps of a run, from the newest on. -/
def earlier (step : σ → ε → σ) (snapshot : σ → τ) : σ → List ε → List τ
  | _, [] => []
  | s, e :: es => earlier step snapshot (step s e) es ++ [snapshot s]

theorem sublist_earlier
    (h : ∀ s e, (stack (step s e)).Sublist (snapshot s :: stack s))
    (es : List ε) :
    (stack (es.foldl step s)).Sublist
      (earlier step snapshot s es ++ stack s) := by
  induction es generalizing s with
  | nil => exact .refl _
  | cons e es ih =>
    rw [earlier, List.append_assoc]
    exact ih.trans ((h s e).append_left _)

theorem undo_replicate {undo : ε}
    (h : ∀ s top rest, stack s = top :: rest →
      snapshot (step s undo) = top ∧ stack (step s undo) = rest)
    {k : Nat} {top : τ} (hk : (stack s)[k]? = some top) :
    snapshot ((List.replicate (k + 1) undo).foldl step s) = top := by
  induction k generalizing s with
  | zero =>
    obtain ⟨rest, hrest⟩ := List.head?_eq_some_iff.1
      (List.head?_eq_getElem?.trans hk)
    exact (h s top rest hrest).1
  | succ k ih =>
    cases hstack : stack s with
    | nil =>
      rw [hstack] at hk
      cases hk
    | cons first rest =>
      rw [hstack, List.getElem?_cons_succ, ← (h s first rest hstack).2] at hk
      exact ih hk

end OneHarness.Lib.UndoStack
