/-
Undo goes back over the states of a run.

An operation puts the state before it on the stack or leaves the stack
(`step_pushes`); an undo and a submission take from it.
-/
import OneHarness.Lib.UndoStack
import OneHarness.Tui.Editor
import Mathlib.Tactic.SplitIfs

namespace OneHarness.Tui.Editor

open Lib UndoStack

/-- What an undo brings back. -/
def snapshot (e : Editor) : EditorUndoSnapshot :=
  ⟨e.lines, e.cursorLine, e.cursorCol, e.pastes, e.pasteCounter⟩

variable {e : Editor} (setting : Setting)

theorem insertLines_undoStack (line : Line) :
    (e.insertLines line).undoStack = e.undoStack := by
  unfold insertLines
  split <;> rfl

theorem insertText_undoStack (text : Text) (paste : Option Nat) :
    (e.insertTextAtCursorInternal text paste).undoStack = e.undoStack := by
  unfold insertTextAtCursorInternal
  split_ifs
  · rfl
  · cases paste <;> exact insertLines_undoStack _

theorem deleteYankedText_undoStack :
    e.deleteYankedText.undoStack = e.undoStack := by
  unfold deleteYankedText
  split
  · rfl
  · dsimp only
    split_ifs <;> rfl

theorem yankPop_undoStack : e.yankPop.undoStack = e.undoStack
    ∨ e.yankPop.undoStack = e.snapshot :: e.undoStack := by
  unfold yankPop
  split_ifs
  · dsimp only
    split
    · exact .inr deleteYankedText_undoStack
    · exact .inr ((insertLines_undoStack _).trans deleteYankedText_undoStack)
  · exact .inl rfl

theorem step_pushes (e : Editor) (operation : Operation) :
    (e.step setting operation).undoStack.Sublist
      (e.snapshot :: e.undoStack) := by
  have hsame : ∀ e' : Editor, e'.undoStack = e.undoStack →
      e'.undoStack.Sublist (e.snapshot :: e.undoStack) :=
    fun _ h => h ▸ List.sublist_cons_self _ _
  have hpush : ∀ e' : Editor, e'.undoStack = e.snapshot :: e.undoStack →
      e'.undoStack.Sublist (e.snapshot :: e.undoStack) :=
    fun _ h => h ▸ .refl _
  cases operation with
  | insertTextAtCursor newText =>
    dsimp only [step, insertTextAtCursor]
    split_ifs
    · exact hsame _ rfl
    · exact hpush _ (insertText_undoStack _ _)
  | handlePaste pastedText =>
    dsimp only [step, handlePaste]
    split_ifs <;> exact hpush _ (insertText_undoStack _ _)
  | yank =>
    dsimp only [step, yank]
    split
    · exact hsame _ rfl
    · exact hpush _ (insertLines_undoStack _)
  | yankPop => exact yankPop_undoStack.elim (hsame _) (hpush _)
  | undo =>
    dsimp only [step, undo]
    split
    · exact hsame _ rfl
    · next top rest hstack =>
      rw [show e.undoStack = top :: rest from hstack]
      exact (List.sublist_cons_self _ _).trans (List.sublist_cons_self _ _)
  | submitValue => exact List.nil_sublist _
  | addNewLine => exact hpush _ rfl
  -- the edits that put the state there or do nothing
  | insertCharacter | setText | handleBackspace | handleForwardDelete
  | deleteToStartOfLine | deleteToEndOfLine | deleteWordBackwards
  | deleteWordForward | addToHistory | navigateHistory =>
    dsimp only [step, insertCharacter, setText, handleBackspace,
      handleForwardDelete, deleteToStartOfLine, deleteToEndOfLine,
      deleteWordBackwards, moveWordBackwards, deleteWordForward,
      moveWordForwards, addToHistory, navigateHistory]
    split_ifs <;> first | exact hpush _ rfl | exact hsame _ rfl
  | moveToLineStart | moveToLineEnd | placeCursor => exact hsame _ rfl
  | moveLeft | moveWordBackwards | moveWordForwards =>
    dsimp only [step, moveLeft, moveWordBackwards, moveWordForwards]
    split_ifs <;> exact hsame _ rfl
  | moveRight =>
    dsimp only [step, moveRight]
    split_ifs
    · split <;> exact hsame _ rfl
    · exact hsame _ rfl
    · exact hsame _ rfl
  | jumpForward | jumpBackward =>
    dsimp only [step, jumpForward, jumpBackward]
    split <;> exact hsame _ rfl

theorem undo_top {top : EditorUndoSnapshot} {rest : List EditorUndoSnapshot}
    (h : e.undoStack = top :: rest) :
    (e.step setting .undo).snapshot = top
      ∧ (e.step setting .undo).undoStack = rest := by
  dsimp only [step, undo, leaveHistory]
  rw [h]
  exact ⟨rfl, rfl⟩

/-- As often as there is something to undo, an undo brings back the state before
some operation, and each goes further back. -/
theorem undone_exactly (e : Editor) (operations : List Operation) :
    let reached := e.run setting operations
    ((List.range reached.undoStack.length).map fun k =>
        (reached.run setting (List.replicate (k + 1) .undo)).snapshot).Sublist
      (earlier (step setting) snapshot e operations ++ e.undoStack) := by
  intro reached
  have hstack : (List.range reached.undoStack.length).map (fun k =>
      (reached.run setting (List.replicate (k + 1) .undo)).snapshot)
        = reached.undoStack := by
    refine List.ext_getElem (by simp) fun k _ hk => ?_
    rw [List.getElem_map, List.getElem_range]
    exact undo_replicate (fun _ _ _ => undo_top setting)
      (List.getElem?_eq_getElem hk)
  rw [hstack]
  exact sublist_earlier (step_pushes setting) operations

end OneHarness.Tui.Editor
