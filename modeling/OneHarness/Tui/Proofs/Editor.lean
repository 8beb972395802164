/-
What was pasted is what is submitted, as long as nothing is mistaken for a
marker and no marker outlives its paste.

The invariant of a run (`Editor.Inv`) is about the pastes and the counter,
now and in every snapshot of the undo stack: the ids are different and the
counter has reached them. A run is `tracked` when every cell that is yanked
belongs to a paste the editor still has; in such a run that is so of every
cell of the text.
-/
import OneHarness.Lib.Run
import OneHarness.Tui.Proofs.PasteMarkers

namespace OneHarness.Tui

open Lib Lib.Replace

-- ======== the cells

/-- If it is of a marker, the paste of that marker is there. -/
def Cell.Live (log : List Paste) (pastes : JsMap Nat Text) (cell : Cell) :
    Prop :=
  ∀ i j, cell.origin = some (i, j) →
    ∃ paste, log[i]? = some paste
      ∧ pastes.get paste.id = some paste.content

def Line.Live (log : List Paste) (pastes : JsMap Nat Text) (line : Line) :
    Prop :=
  ∀ cell ∈ line, cell.Live log pastes

namespace Line.Live

variable {log log' : List Paste} {pastes pastes' : JsMap Nat Text}
  {line line' : Line}

section
variable (h : Line.Live log pastes line)
include h

theorem of_subset (hsub : line' ⊆ line) : Line.Live log pastes line' :=
  fun cell hmem => h cell (hsub hmem)

/-- More pastes do not take one away. -/
theorem mono (hlog : ∀ (i : Nat) (paste : Paste), log[i]? = some paste →
      log'[i]? = some paste)
    (hpastes : ∀ pasteId content, pastes.get pasteId = some content →
      pastes'.get pasteId = some content) :
    Line.Live log' pastes' line := by
  intro cell hmem i j horigin
  obtain ⟨paste, hi, hget⟩ := h cell hmem i j horigin
  exact ⟨paste, hlog i paste hi, hpastes _ _ hget⟩

theorem append (h' : Line.Live log pastes line') :
    Line.Live log pastes (line ++ line') := by
  intro cell hmem
  rcases List.mem_append.1 hmem with hmem | hmem
  · exact h cell hmem
  · exact h' cell hmem

omit h in
theorem plain (text : Text) : Line.Live log pastes (plain text) := by
  intro cell hmem i j horigin
  obtain ⟨u, -, rfl⟩ := List.mem_map.1 hmem
  cases horigin

theorem take (n : Nat) : Line.Live log pastes (line.take n) :=
  h.of_subset (List.take_subset n line)

theorem drop (n : Nat) : Line.Live log pastes (line.drop n) :=
  h.of_subset (List.drop_subset n line)

theorem splitLines : ∀ part ∈ splitLines line, Line.Live log pastes part := by
  unfold Tui.splitLines
  induction line with
  | nil =>
    intro part hmem
    rw [List.splitOnP_nil, List.mem_singleton] at hmem
    rw [hmem]
    exact fun cell hcell => absurd hcell List.not_mem_nil
  | cons cell line ih =>
    have hcell := h cell List.mem_cons_self
    have hline := ih fun c hc => h c (List.mem_cons_of_mem _ hc)
    intro part hmem
    rw [List.splitOnP_cons_eq_if_modifyHead] at hmem
    split at hmem
    · rcases List.mem_cons.1 hmem with rfl | hmem
      · exact fun cell hcell => absurd hcell List.not_mem_nil
      · exact hline part hmem
    · cases hparts : line.splitOnP
          fun cell => decide (cell.unit = newline) with
      | nil =>
        rw [hparts] at hmem
        cases hmem
      | cons first rest =>
        rw [hparts] at hmem hline
        rcases List.mem_cons.1 hmem with rfl | hmem
        · intro c hc
          rcases List.mem_cons.1 hc with rfl | hc
          · exact hcell
          · exact hline first List.mem_cons_self c hc
        · exact hline part (List.mem_cons_of_mem _ hmem)

end

theorem joinLines {lines : List Line}
    (h : ∀ line ∈ lines, Line.Live log pastes line) :
    Line.Live log pastes (joinLines lines) := by
  unfold Tui.joinLines
  induction lines with
  | nil => exact fun cell hcell => absurd hcell List.not_mem_nil
  | cons line rest ih =>
    have hline := h line List.mem_cons_self
    have hrest := ih fun l hl => h l (List.mem_cons_of_mem _ hl)
    cases rest with
    | nil =>
      show Line.Live log pastes (line ++ [])
      rw [List.append_nil]
      exact hline
    | cons next rest => exact hline.append ((plain [newline]).append hrest)

end Line.Live

-- ======== the invariant

/-- The ids are different, and the counter has reached them. -/
structure DistinctIds (pastes : JsMap Nat Text) (pasteCounter : Nat) : Prop where
  nodup : pastes.keys.Nodup
  reached : ∀ pasteId ∈ pastes.keys, pasteId ≤ pasteCounter

/-- Lines, and the pastes behind their markers. -/
structure Consistent (tracked : Prop) (log : List Paste) (lines : List Line)
    (pastes : JsMap Nat Text) (pasteCounter : Nat) : Prop where
  kept : DistinctIds pastes pasteCounter
  live : tracked → ∀ line ∈ lines, Line.Live log pastes line

variable {operation : Operation}

namespace Editor

/-- The text in whole markers and single units. -/
def pieces (e : Editor) : List Piece :=
  Tui.pieces e.log 0 (joinLines e.lines)

/-- Every whole marker of the text is of a paste the editor has. -/
def Current (e : Editor) : Prop :=
  ∀ paste, .marker paste ∈ e.pieces →
    e.pastes.get paste.id = some paste.content

/-- What looks like the marker of a paste the editor has, in the text with
the pastes before it expanded, is a whole marker with its id. -/
def Unmistaken (e : Editor) : Prop :=
  ∀ before pasteId content rest,
    e.pastes = before ++ (pasteId, content) :: rest →
    FoundAtMarkers e.pieces (JsMap.keys before) pasteId

/-- What was meant was submitted. -/
def Faithful (e : Editor) : Prop := e.submitted = e.meant

structure Inv (tracked : Prop) (e : Editor) : Prop where
  now : Consistent tracked e.log e.lines e.pastes e.pasteCounter
  before : ∀ snapshot ∈ e.undoStack,
    Consistent tracked e.log snapshot.lines snapshot.pastes
      snapshot.pasteCounter
  faithful : e.Faithful

variable {tracked : Prop} {setting : Setting} {e : Editor} {line : Line}
  {i n : Nat}

/-- A line of the editor, or one made of such lines. -/
def Fits (tracked : Prop) (e : Editor) (line : Line) : Prop :=
  tracked → Line.Live e.log e.pastes line

theorem Fits.same {e' : Editor} (h : e.Fits tracked line)
    (hlog : e'.log = e.log) (hpastes : e'.pastes = e.pastes) :
    e'.Fits tracked line := by
  intro ht
  rw [hlog, hpastes]
  exact h ht

namespace Inv

section
variable (h : e.Inv tracked)
include h

theorem lineAt (i : Nat) : e.Fits tracked (e.line i) := by
  intro ht
  rw [Editor.line, List.getD_eq_getElem?_getD]
  cases hi : e.lines[i]? with
  | none => exact fun cell hcell => absurd hcell List.not_mem_nil
  | some line => exact h.now.live ht line (List.mem_of_getElem? hi)

theorem setLine (hline : e.Fits tracked line) (i : Nat) :
    (e.setLine i line).Inv tracked := by
  refine ⟨⟨h.now.kept, ?_⟩, h.before, h.faithful⟩
  intro ht line' hmem
  rcases List.mem_or_eq_of_mem_set hmem with hmem | rfl
  · exact h.now.live ht line' hmem
  · exact hline ht

theorem splice {items : List Line}
    (hitems : ∀ line ∈ items, e.Fits tracked line) (i count : Nat) :
    (e.splice i count items).Inv tracked := by
  refine ⟨⟨h.now.kept, ?_⟩, h.before, h.faithful⟩
  intro ht line hmem
  rcases List.mem_append.1 hmem with hmem | hmem
  · rcases List.mem_append.1 hmem with hmem | hmem
    · exact h.now.live ht line (List.mem_of_mem_take hmem)
    · exact hitems line hmem ht
  · exact h.now.live ht line (List.mem_of_mem_drop hmem)

theorem push : e.pushUndoSnapshot.Inv tracked := by
  refine ⟨h.now, ?_, h.faithful⟩
  intro snapshot hmem
  rcases List.mem_cons.1 hmem with rfl | hmem
  · exact h.now
  · exact h.before snapshot hmem

theorem place (cursorLine cursorCol : Nat) :
    (e.place cursorLine cursorCol).Inv tracked := ⟨h.now, h.before, h.faithful⟩

theorem setCursorCol (cursorCol : Nat) :
    (e.setCursorCol cursorCol).Inv tracked := ⟨h.now, h.before, h.faithful⟩

theorem act (lastAction : Option Action) :
    (e.act lastAction).Inv tracked := ⟨h.now, h.before, h.faithful⟩

theorem leaveHistory : e.leaveHistory.Inv tracked :=
  ⟨h.now, h.before, h.faithful⟩

theorem kill (killed : Line) (prepend accumulate : Bool) :
    (e.kill killed prepend accumulate).Inv tracked :=
  ⟨h.now, h.before, h.faithful⟩

theorem beforeCursor : e.Fits tracked e.beforeCursor :=
  fun ht => (h.lineAt _ ht).take _

theorem afterCursor : e.Fits tracked e.afterCursor :=
  fun ht => (h.lineAt _ ht).drop _

theorem mergeWithPrevious : e.mergeWithPrevious.Inv tracked := by
  apply place
  apply splice
  · exact h.setLine (fun ht => (h.lineAt _ ht).append (h.lineAt _ ht)) _
  · exact fun _ hmem => absurd hmem List.not_mem_nil

theorem mergeWithNext : e.mergeWithNext.Inv tracked := by
  apply splice
  · exact h.setLine (fun ht => (h.lineAt _ ht).append (h.lineAt _ ht)) _
  · exact fun _ hmem => absurd hmem List.not_mem_nil

theorem cut (start stop : Nat) : (e.cut start stop).Inv tracked :=
  h.setLine
    (fun ht => ((h.lineAt _ ht).take _).append ((h.lineAt _ ht).drop _)) _

end

-- ======== insertion

section
variable (h : e.Inv tracked)
include h

theorem insertLines {inserted : Line} (hinserted : e.Fits tracked inserted) :
    (e.insertLines inserted).Inv tracked := by
  have hparts : ∀ part ∈ splitLines inserted, e.Fits tracked part :=
    fun part hmem ht => (hinserted ht).splitLines part hmem
  unfold Editor.insertLines
  split
  · exact h
  · rename_i only heq
    have honly := hparts only (by rw [heq]; exact List.mem_cons_self)
    apply setCursorCol
    apply h.setLine
    exact fun ht => ((h.beforeCursor ht).append (honly ht)).append
      (h.afterCursor ht)
  · rename_i first second rest heq
    rw [heq] at hparts
    apply place
    apply h.splice
    intro line hmem
    rcases List.mem_append.1 hmem with hmem | hmem
    · rcases List.mem_cons.1 hmem with rfl | hmem
      · exact fun ht => (h.beforeCursor ht).append
          (hparts first List.mem_cons_self ht)
      · apply hparts line
        exact List.mem_cons_of_mem _ ((List.dropLast_sublist _).subset hmem)
    · rw [List.mem_singleton.1 hmem]
      exact fun ht => (hparts _ (List.mem_cons_of_mem _ (List.getLast_mem _))
        ht).append (h.afterCursor ht)

theorem insertText (text : Text) :
    (e.insertTextAtCursorInternal text none).Inv tracked := by
  unfold insertTextAtCursorInternal
  split
  · exact h
  · exact h.insertLines fun _ => .plain _

theorem setTextInternal (text : Text) :
    (e.setTextInternal text).Inv tracked := by
  refine ⟨⟨h.now.kept, ?_⟩, h.before, h.faithful⟩
  exact fun _ => (Line.Live.plain text).splitLines

/-- A new paste gets the next id, which no other has. -/
theorem paste (paste : Paste) (hid : paste.id = e.pasteCounter + 1) :
    Inv tracked { e with
      pasteCounter := e.pasteCounter + 1
      pastes := e.pastes.set paste.id paste.content
      log := e.log ++ [paste] } := by
  have hlog : ∀ (i : Nat) (paste' : Paste), e.log[i]? = some paste' →
      (e.log ++ [paste])[i]? = some paste' := by
    intro i paste' hi
    rw [List.getElem?_append_left (List.getElem?_eq_some_iff.1 hi).1]
    exact hi
  have hpastes : ∀ pasteId content, e.pastes.get pasteId = some content →
      (e.pastes.set paste.id paste.content).get pasteId = some content := by
    intro pasteId content hget
    have hreached := h.now.kept.reached pasteId
      (List.mem_map.2 ⟨(pasteId, content), JsMap.mem_of_get hget, rfl⟩)
    have hne : paste.id ≠ pasteId := by omega
    rw [JsMap.get_set_ne _ _ hne]
    exact hget
  refine ⟨⟨⟨JsMap.nodup_keys_set h.now.kept.nodup _ _, ?_⟩, ?_⟩, ?_, h.faithful⟩
  · intro pasteId hmem
    obtain ⟨⟨k, content⟩, hpair, rfl⟩ := List.mem_map.1 hmem
    rcases JsMap.mem_set hpair with hpair | hpair
    · have hreached := h.now.kept.reached k
        (List.mem_map.2 ⟨(k, content), hpair, rfl⟩)
      show k ≤ e.pasteCounter + 1
      omega
    · show k ≤ e.pasteCounter + 1
      have hk : k = paste.id := congrArg Prod.fst hpair
      omega
  · exact fun ht line hmem => (h.now.live ht line hmem).mono hlog hpastes
  · intro snapshot hmem
    have hbefore := h.before snapshot hmem
    exact ⟨hbefore.kept, fun ht line hline =>
      (hbefore.live ht line hline).mono hlog fun _ _ hget => hget⟩

theorem insertMarker {paste : Paste} {i : Nat}
    (hlog : e.log[i]? = some paste)
    (hget : e.pastes.get paste.id = some paste.content) (text : Text) :
    (e.insertTextAtCursorInternal text (some i)).Inv tracked := by
  unfold insertTextAtCursorInternal
  split
  · exact h
  · apply h.insertLines
    intro _ cell hmem i' j horigin
    obtain ⟨k, hk⟩ := List.mem_iff_getElem?.1 hmem
    rw [mark, List.getElem?_mapIdx] at hk
    obtain ⟨u, -, rfl⟩ := Option.map_eq_some_iff.1 hk
    cases horigin
    exact ⟨paste, hlog, hget⟩

theorem handlePaste (pastedText : Text) :
    (e.handlePaste pastedText).Inv tracked := by
  unfold Editor.handlePaste
  have hstart : (e.leaveHistory.act none).pushUndoSnapshot.Inv tracked :=
    (h.leaveHistory.act none).push
  dsimp only
  split
  · rename_i hlarge
    apply (hstart.paste ⟨_, _, hlarge⟩ rfl).insertMarker
    · exact List.getElem?_concat_length
    · exact JsMap.get_set_self _ _ _
  · exact hstart.insertText _

end

-- ======== the operations

section
variable (h : e.Inv tracked)
include h

theorem insertCharacter (char : Text) :
    (e.insertCharacter char).Inv tracked := by
  have hput : ∀ e : Editor, e.Inv tracked →
      ((e.setLine e.cursorLine (e.beforeCursor ++ plain char
        ++ e.afterCursor)).setCursorCol (e.cursorCol + char.length)).Inv
          tracked := by
    intro e h
    apply setCursorCol
    apply h.setLine
    exact fun ht => ((h.beforeCursor ht).append (.plain char)).append
      (h.afterCursor ht)
  unfold Editor.insertCharacter
  dsimp only
  split
  · exact hput _ (h.leaveHistory.push.act _)
  · exact hput _ (h.leaveHistory.act _)

theorem insertTextAtCursor (text : Text) :
    (e.insertTextAtCursor text).Inv tracked := by
  unfold Editor.insertTextAtCursor
  split
  · exact h
  · exact ((h.push.act none).leaveHistory).insertText text

theorem setText (newText : Text) : (e.setText newText).Inv tracked := by
  unfold Editor.setText
  dsimp only
  split
  · exact (h.act none).leaveHistory.push.setTextInternal _
  · exact (h.act none).leaveHistory.setTextInternal _

theorem addNewLine : e.addNewLine.Inv tracked := by
  have hstart : (e.leaveHistory.act none).pushUndoSnapshot.Inv tracked :=
    (h.leaveHistory.act none).push
  apply place
  apply hstart.splice
  intro line hmem
  rcases List.mem_cons.1 hmem with rfl | hmem
  · exact hstart.beforeCursor
  · rw [List.mem_singleton.1 hmem]
    exact hstart.afterCursor

theorem handleBackspace : (e.handleBackspace setting).Inv tracked := by
  have hstart := (h.leaveHistory.act none)
  unfold Editor.handleBackspace
  dsimp only
  split
  · exact (hstart.push.cut _ _).setCursorCol _
  · split
    · apply setCursorCol
      apply hstart.push.setLine
      exact fun _ cell hcell => absurd hcell List.not_mem_nil
    · split
      · exact hstart.push.mergeWithPrevious
      · exact hstart

theorem handleForwardDelete : (e.handleForwardDelete setting).Inv tracked := by
  have hstart := (h.leaveHistory.act none)
  unfold Editor.handleForwardDelete
  dsimp only
  split
  · exact hstart.push.cut _ _
  · split
    · exact hstart.push.mergeWithNext
    · exact hstart

theorem deleteToStartOfLine : (e.deleteToStartOfLine setting).Inv tracked := by
  have hstart := h.leaveHistory
  unfold Editor.deleteToStartOfLine
  dsimp only
  split
  · exact ((hstart.push.kill _ _ _).cut _ _).setCursorCol _
  · split
    · exact (hstart.push.kill _ _ _).mergeWithPrevious
    · exact hstart

theorem deleteToEndOfLine : e.deleteToEndOfLine.Inv tracked := by
  have hstart := h.leaveHistory
  unfold Editor.deleteToEndOfLine
  dsimp only
  split
  · exact (hstart.push.kill _ _ _).setLine hstart.beforeCursor _
  · split
    · exact (hstart.push.kill _ _ _).mergeWithNext
    · exact hstart

theorem moveWordBackwards : (e.moveWordBackwards setting).Inv tracked := by
  have hstart := h.act none
  unfold Editor.moveWordBackwards
  dsimp only
  split
  · split
    · exact hstart.place _ _
    · exact hstart
  · exact hstart.setCursorCol _

theorem moveWordForwards : (e.moveWordForwards setting).Inv tracked := by
  have hstart := h.act none
  unfold Editor.moveWordForwards
  dsimp only
  split
  · split
    · exact hstart.place _ _
    · exact hstart
  · exact hstart.setCursorCol _

omit h in
/-- A move over a word changes no line and no paste. -/
theorem moveWordBackwards_same (setting : Setting) (e : Editor) :
    (e.moveWordBackwards setting).log = e.log
      ∧ (e.moveWordBackwards setting).pastes = e.pastes := by
  unfold Editor.moveWordBackwards
  dsimp only
  split
  · split
    · exact ⟨rfl, rfl⟩
    · exact ⟨rfl, rfl⟩
  · exact ⟨rfl, rfl⟩

theorem deleteWordBackwards : (e.deleteWordBackwards setting).Inv tracked := by
  have hstart := h.leaveHistory
  unfold Editor.deleteWordBackwards
  dsimp only
  split
  · split
    · exact (hstart.push.kill _ _ _).mergeWithPrevious
    · exact hstart
  · have hmoved : (e.leaveHistory.pushUndoSnapshot.moveWordBackwards
        setting).Inv tracked := hstart.push.moveWordBackwards
    obtain ⟨hlog, hpastes⟩ :=
      moveWordBackwards_same setting e.leaveHistory.pushUndoSnapshot
    generalize e.leaveHistory.pushUndoSnapshot.moveWordBackwards setting = moved
      at hmoved hlog hpastes
    have hfits : e.leaveHistory.Fits tracked
        (e.currentLine.take moved.cursorCol ++ e.afterCursor) :=
      fun ht => ((hstart.lineAt _ ht).take _).append (hstart.afterCursor ht)
    apply setCursorCol
    apply setLine
    · exact (hmoved.place _ _).kill _ _ _
    · exact hfits.same hlog hpastes

theorem deleteWordForward : (e.deleteWordForward setting).Inv tracked := by
  have hstart := h.leaveHistory
  unfold Editor.deleteWordForward
  dsimp only
  split
  · split
    · exact (hstart.push.kill _ _ _).mergeWithNext
    · exact hstart
  · exact (hstart.push.kill _ _ _).cut _ _

theorem insertYankedText (hline : e.Fits tracked line) :
    (e.insertYankedText line).Inv tracked :=
  h.leaveHistory.insertLines hline

theorem yank (hyanked : ∀ text ∈ e.killRing.peek, e.Fits tracked text) :
    e.yank.Inv tracked := by
  unfold Editor.yank
  split
  · exact h
  · rename_i text hpeek
    exact (h.push.insertYankedText (hyanked text hpeek)).act _

theorem deleteYankedText : e.deleteYankedText.Inv tracked := by
  unfold Editor.deleteYankedText
  split
  · exact h
  · dsimp only
    split
    · exact h
    · split
      · exact (h.cut _ _).setCursorCol _
      · apply place
        apply h.splice
        intro line hmem
        rw [List.mem_singleton.1 hmem]
        exact fun ht => ((h.lineAt _ ht).take _).append (h.afterCursor ht)

omit h in
theorem deleteYankedText_same :
    e.deleteYankedText.log = e.log ∧ e.deleteYankedText.pastes = e.pastes
      ∧ e.deleteYankedText.killRing = e.killRing := by
  unfold Editor.deleteYankedText
  split
  · exact ⟨rfl, rfl, rfl⟩
  · dsimp only
    split
    · exact ⟨rfl, rfl, rfl⟩
    · split
      · exact ⟨rfl, rfl, rfl⟩
      · exact ⟨rfl, rfl, rfl⟩

theorem yankPop
    (hyanked : ∀ text ∈ e.killRing.rotate.peek, e.Fits tracked text) :
    e.yankPop.Inv tracked := by
  unfold Editor.yankPop
  split
  · obtain ⟨hlog, hpastes, hring⟩ := deleteYankedText_same
      (e := e.pushUndoSnapshot)
    have hdeleted : e.pushUndoSnapshot.deleteYankedText.Inv tracked :=
      h.push.deleteYankedText
    dsimp only
    rw [hring]
    split
    · exact ⟨hdeleted.now, hdeleted.before, hdeleted.faithful⟩
    · rename_i text hpeek
      have hrotated : Inv tracked { e.pushUndoSnapshot.deleteYankedText with
          killRing := e.pushUndoSnapshot.killRing.rotate } :=
        ⟨hdeleted.now, hdeleted.before, hdeleted.faithful⟩
      have hfits : e.pushUndoSnapshot.Fits tracked text := hyanked text hpeek
      exact (hrotated.insertYankedText (hfits.same hlog hpastes)).act _
  · exact h

theorem undo : e.undo.Inv tracked := by
  have hstart := h.leaveHistory
  unfold Editor.undo
  dsimp only
  split
  · exact hstart
  · rename_i snapshot undoStack hstack
    have hbefore : ∀ s ∈ snapshot :: undoStack, Consistent tracked e.log
        s.lines s.pastes s.pasteCounter := by
      rw [← hstack]
      exact hstart.before
    exact ⟨hbefore snapshot List.mem_cons_self,
      fun s hmem => hbefore s (List.mem_cons_of_mem _ hmem), hstart.faithful⟩

/-- A submission hands over what is meant if every marker is current and
nothing else is taken for one. -/
theorem result_eq (hcurrent : e.Current) (hunmistaken : e.Unmistaken) :
    e.result = trim (Tui.meant e.log (joinLines e.lines)) := by
  have hnodup := h.now.kept.nodup
  have htext : text (joinLines e.lines)
      = e.pieces.flatMap (Piece.shown []) :=
    (pieces_shown e.log 0 (joinLines e.lines)).symm
  have hexpanded : expandPasteMarkers e.pastes (text (joinLines e.lines))
      = e.pieces.flatMap (Piece.shown e.pastes.keys) := by
    rw [htext]
    apply expandPasteMarkers_shown hnodup
    · exact hunmistaken
    · rintro pasteId content hmem paste hpaste rfl
      have hget := hcurrent paste hpaste
      rw [JsMap.get_of_mem hnodup hmem] at hget
      exact (Option.some.inj hget).symm
  rw [result, hexpanded]
  apply congrArg trim
  apply List.flatMap_congr
  intro piece hpiece
  cases piece with
  | unit u => rfl
  | marker paste =>
    have hmem : paste.id ∈ e.pastes.keys := List.mem_map.2
      ⟨_, JsMap.mem_of_get (hcurrent paste hpiece), rfl⟩
    rw [Piece.shown, if_pos hmem]
    rfl

theorem submitValue (hcurrent : e.Current)
    (hunmistaken : e.Unmistaken) : e.submitValue.Inv tracked := by
  refine ⟨⟨⟨List.nodup_nil, ?_⟩, ?_⟩, ?_, ?_⟩
  · exact fun _ hmem => absurd hmem List.not_mem_nil
  · intro _ line hmem
    rw [List.mem_singleton.1 hmem]
    exact fun cell hcell => absurd hcell List.not_mem_nil
  · exact fun _ hmem => absurd hmem List.not_mem_nil
  · show e.submitted ++ [e.result] = e.meant ++ [_]
    rw [h.result_eq hcurrent hunmistaken, h.faithful]

theorem addToHistory (prompt : Text) : (e.addToHistory prompt).Inv tracked := by
  unfold Editor.addToHistory
  dsimp only
  split
  · exact h
  · split
    · exact h
    · exact ⟨h.now, h.before, h.faithful⟩

theorem navigateHistory (older : Bool) :
    (e.navigateHistory older).Inv tracked := by
  have hset : ∀ e : Editor, e.Inv tracked → ∀ (index : Int) (text : Text),
      (Editor.setTextInternal { e with historyIndex := index } text).Inv
        tracked := by
    intro e h index text
    have hindex : Inv tracked { e with historyIndex := index } :=
      ⟨h.now, h.before, h.faithful⟩
    exact hindex.setTextInternal text
  have hstart := h.act none
  unfold Editor.navigateHistory
  dsimp only
  generalize (if older = true then (e.act none).historyIndex + 1
    else (e.act none).historyIndex - 1) = newIndex
  split
  · exact hstart
  · split
    · exact hstart
    · have hpushed : (if (e.act none).historyIndex = -1 ∧ 0 ≤ newIndex then
          (e.act none).pushUndoSnapshot else e.act none).Inv tracked := by
        split
        · exact hstart.push
        · exact hstart
      split
      · exact hset _ hpushed _ _
      · exact hset _ hpushed _ _

theorem moveLeft : (e.moveLeft setting).Inv tracked := by
  have hstart := h.act none
  unfold Editor.moveLeft
  dsimp only
  split
  · exact hstart.setCursorCol _
  · split
    · exact hstart.place _ _
    · exact hstart

theorem moveRight : (e.moveRight setting).Inv tracked := by
  have hstart := h.act none
  unfold Editor.moveRight
  dsimp only
  split
  · split
    · exact hstart.setCursorCol _
    · exact hstart.setCursorCol _
  · split
    · exact hstart.place _ _
    · exact hstart

theorem jumpForward (char : Text) : (e.jumpForward char).Inv tracked := by
  unfold Editor.jumpForward
  dsimp only
  split
  · exact (h.act none).place _ _
  · exact h.act none

theorem jumpBackward (char : Text) : (e.jumpBackward char).Inv tracked := by
  unfold Editor.jumpBackward
  dsimp only
  split
  · exact (h.act none).place _ _
  · exact h.act none

end

end Inv

-- ======== the runs

/-- A submission finds every marker current and mistakes nothing for one. -/
def SubmitsCurrent (e : Editor) : Operation → Prop
  | .submitValue => e.Current ∧ e.Unmistaken
  | _ => True

/-- What is yanked belongs to pastes the editor has, and a submission
mistakes nothing for a marker. -/
def YanksLive (e : Editor) : Operation → Prop
  | .yank => ∀ text ∈ e.killRing.peek, Line.Live e.log e.pastes text
  | .yankPop => ∀ text ∈ e.killRing.rotate.peek, Line.Live e.log e.pastes text
  | .submitValue => e.Unmistaken
  | _ => True

/-- What a step asks for: of a tracked run that its yanks are live, of
another that its submissions are current. -/
structure Guard (tracked : Prop) (e : Editor) (operation : Operation) :
    Prop where
  yank : operation = .yank → ∀ text ∈ e.killRing.peek, e.Fits tracked text
  yankPop : operation = .yankPop →
    ∀ text ∈ e.killRing.rotate.peek, e.Fits tracked text
  submitValue : operation = .submitValue → e.Current ∧ e.Unmistaken

theorem Inv.step (h : e.Inv tracked) (hguard : e.Guard tracked operation) :
    (e.step setting operation).Inv tracked := by
  cases operation with
  | insertCharacter char => exact h.insertCharacter char
  | insertTextAtCursor newText => exact h.insertTextAtCursor newText
  | setText newText => exact h.setText newText
  | handlePaste pastedText => exact h.handlePaste pastedText
  | addNewLine => exact h.addNewLine
  | handleBackspace => exact h.handleBackspace
  | handleForwardDelete => exact h.handleForwardDelete
  | deleteToStartOfLine => exact h.deleteToStartOfLine
  | deleteToEndOfLine => exact h.deleteToEndOfLine
  | deleteWordBackwards => exact h.deleteWordBackwards
  | deleteWordForward => exact h.deleteWordForward
  | yank => exact h.yank (hguard.yank rfl)
  | yankPop => exact h.yankPop (hguard.yankPop rfl)
  | undo => exact h.undo
  | submitValue =>
    obtain ⟨hcurrent, hunmistaken⟩ := hguard.submitValue rfl
    exact h.submitValue hcurrent hunmistaken
  | addToHistory prompt => exact h.addToHistory prompt
  | navigateHistory older => exact h.navigateHistory older
  | moveToLineStart => exact (h.act none).setCursorCol _
  | moveToLineEnd => exact (h.act none).setCursorCol _
  | moveLeft => exact h.moveLeft
  | moveRight => exact h.moveRight
  | moveWordBackwards => exact h.moveWordBackwards
  | moveWordForwards => exact h.moveWordForwards
  | jumpForward char => exact h.jumpForward char
  | jumpBackward char => exact h.jumpBackward char
  | placeCursor cursorLine cursorCol => exact (h.act none).place _ _

theorem inv_initial : initial.Inv tracked := by
  refine ⟨⟨⟨List.nodup_nil, ?_⟩, ?_⟩, ?_, rfl⟩
  · exact fun _ hmem => absurd hmem List.not_mem_nil
  · intro _ line hmem
    rw [List.mem_singleton.1 hmem]
    exact fun cell hcell => absurd hcell List.not_mem_nil
  · exact fun _ hmem => absurd hmem List.not_mem_nil

/-- The cells of a whole marker are those of the line. -/
theorem mem_of_pieces {log : List Paste} {paste : Paste} {skip : Nat}
    (h : .marker paste ∈ Tui.pieces log skip line) :
    ∃ i, log[i]? = some paste
      ∧ ∃ cell ∈ line, ∃ j, cell.origin = some (i, j) := by
  induction line generalizing skip with
  | nil => cases skip <;> cases h
  | cons cell rest ih =>
    have hrest : ∀ skip, .marker paste ∈ Tui.pieces log skip rest →
        ∃ i, log[i]? = some paste
          ∧ ∃ c ∈ cell :: rest, ∃ j, c.origin = some (i, j) := by
      intro skip hmem
      obtain ⟨i, hlog, c, hc, horigin⟩ := ih hmem
      exact ⟨i, hlog, c, List.mem_cons_of_mem _ hc, horigin⟩
    cases skip with
    | succ skip => exact hrest skip h
    | zero =>
      rw [Tui.pieces] at h
      cases hmarker : markerAt log (cell :: rest) with
      | none =>
        rw [hmarker] at h
        rcases List.mem_cons.1 h with h | h
        · cases h
        · exact hrest 0 h
      | some paste' =>
        rw [hmarker] at h
        rcases List.mem_cons.1 h with h | h
        · cases h
          obtain ⟨i, hlog, rest', heq⟩ := markerAt_spec hmarker
          cases hm : paste.marker with
          | nil => exact absurd hm paste.marker_ne_nil
          | cons u us =>
            rw [hm, mark, List.mapIdx_cons, List.cons_append] at heq
            refine ⟨i, hlog, cell, List.mem_cons_self, 0, ?_⟩
            rw [← (List.cons.inj heq).1]
        · exact hrest _ h

theorem Inv.current (h : e.Inv True) : e.Current := by
  have hlive : Line.Live e.log e.pastes (joinLines e.lines) :=
    .joinLines (h.now.live trivial)
  intro paste hmem
  obtain ⟨i, hlog, cell, hcell, j, horigin⟩ := mem_of_pieces hmem
  obtain ⟨paste', hlog', hget⟩ := hlive cell hcell i j horigin
  rw [hlog] at hlog'
  cases hlog'
  exact hget

theorem SubmitsCurrent.guard
    (h : e.SubmitsCurrent operation) : e.Guard False operation := by
  refine ⟨fun _ _ _ => False.elim, fun _ _ _ => False.elim, ?_⟩
  rintro rfl
  exact h

theorem YanksLive.guard (h : e.YanksLive operation)
    (hcurrent : e.Current) : e.Guard True operation := by
  refine ⟨?_, ?_, ?_⟩
  · rintro rfl text hpeek -
    exact h text hpeek
  · rintro rfl text hpeek -
    exact h text hpeek
  · rintro rfl
    exact ⟨hcurrent, h⟩

/-- In a run whose submissions find every marker current and mistake nothing
for one, what was meant is what is submitted. Every marker is current all
along a run that yanks none whose paste is gone. -/
theorem submits_what_was_pasted (setting : Setting)
    (operations : List Operation) :
    (Run.Guarded (Editor.step setting) SubmitsCurrent initial operations →
        Run.Along (Editor.step setting) Faithful initial operations)
      ∧ (Run.Guarded (Editor.step setting) YanksLive initial operations →
        Run.Along (Editor.step setting) (fun e => e.Faithful ∧ e.Current)
          initial operations) := by
  constructor
  · intro hguarded
    have halong : Run.Along (Editor.step setting) (Inv False) initial
        operations :=
      Run.along_of_kept (fun _ _ h hguard => h.step hguard.guard) inv_initial
        hguarded
    exact halong.mono fun e h => h.faithful
  · intro hguarded
    have halong : Run.Along (Editor.step setting) (Inv True) initial
        operations :=
      Run.along_of_kept (fun _ _ h hguard => h.step (hguard.guard h.current))
        inv_initial hguarded
    exact halong.mono fun e h => ⟨h.faithful, h.current⟩

-- ======== markers that are mistaken

/-- Every unit a grapheme, and nothing of a line hidden. -/
def plainSetting : Setting := ⟨fun text => text.map ([·]), fun _ _ => 0⟩

/-- Eleven lines. -/
def elevenLines (first : String) : Text :=
  units first ++ List.replicate 10 newline

/-- A killed marker is yanked after a submission, when another paste has its
id; and the first paste has the second one's marker in its text. -/
theorem marker_of_another_paste :
    ¬ Faithful (initial.run plainSetting
        [.handlePaste (elevenLines "one"), .deleteToStartOfLine, .submitValue,
          .handlePaste (elevenLines "two"), .yank, .submitValue])
      ∧ ¬ Faithful (initial.run plainSetting
        [.handlePaste (elevenLines "see [paste #2]"),
          .handlePaste (elevenLines "two"), .submitValue]) := by
  unfold Faithful
  decide +kernel

/-- A marker is killed and yanked back before it is submitted. -/
def killedAndYanked : List Operation :=
  [.handlePaste (elevenLines "one"), .deleteToStartOfLine, .yank, .submitValue]

def onePaste : Paste := ⟨1, elevenLines "one", by decide⟩

/-- The one marker of the text is found at its start only. -/
theorem foundAtMarkers_onePaste : FoundAtMarkers [.marker onePaste] [] 1 := by
  have honly : ∀ n < 21, (pasteMarker 1 (onePaste.marker.drop n)).isSome →
      n = 0 := by decide +kernel
  intro before behind hsplit hsome
  have hshown : onePaste.marker = before ++ behind := hsplit
  have hlength : before.length + behind.length = 20 := by
    rw [← List.length_append, ← hshown]
    decide +kernel
  have hzero : before.length = 0 := by
    apply honly before.length (by omega)
    rw [hshown, List.drop_left]
    exact hsome
  have hnil := List.length_eq_zero_iff.1 hzero
  subst hnil
  exact ⟨[], onePaste, [], rfl, rfl, rfl⟩

/-- The marker is killed, and then yanked. -/
def killed : Editor :=
  initial.run plainSetting
    [.handlePaste (elevenLines "one"), .deleteToStartOfLine]

def yanked : Editor := killed.step plainSetting .yank

theorem killed_live :
    killed.killRing.peek = some (mark 0 onePaste.marker)
      ∧ killed.log = [onePaste]
      ∧ killed.pastes = [(1, elevenLines "one")] := by
  decide +kernel

theorem yanked_unmistaken :
    yanked.pieces = [.marker onePaste]
      ∧ yanked.pastes = [(1, elevenLines "one")] := by
  decide +kernel

theorem submits_what_was_pasted_killed :
    Run.Along (Editor.step plainSetting) (fun e => e.Faithful ∧ e.Current)
      initial killedAndYanked := by
  have hyank : killed.YanksLive .yank := by
    obtain ⟨hpeek, hlog, hpastes⟩ := killed_live
    intro text htext cell hmem i j horigin
    rw [hpeek, Option.mem_some] at htext
    rw [← htext] at hmem
    obtain ⟨k, hk⟩ := List.mem_iff_getElem?.1 hmem
    rw [mark, List.getElem?_mapIdx] at hk
    obtain ⟨u, -, rfl⟩ := Option.map_eq_some_iff.1 hk
    cases horigin
    rw [hlog, hpastes]
    exact ⟨onePaste, rfl, rfl⟩
  have hsubmit : yanked.YanksLive .submitValue := by
    obtain ⟨hpieces, hpastes⟩ := yanked_unmistaken
    intro before pasteId content rest hsplit
    rw [hpastes] at hsplit
    rw [hpieces]
    cases before with
    | nil =>
      cases hsplit
      exact foundAtMarkers_onePaste
    | cons p before =>
      have hnil := (List.cons.inj hsplit).2
      exact absurd hnil.symm (List.append_ne_nil_of_right_ne_nil _
        (List.cons_ne_nil _ _))
  exact (submits_what_was_pasted plainSetting killedAndYanked).2
    ⟨trivial, trivial, hyank, hsubmit, trivial⟩

end Editor

end OneHarness.Tui
