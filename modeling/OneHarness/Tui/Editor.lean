/-
`Editor`: the lines and the cursor, the pastes behind the markers, the kill
ring, the undo stack, and the operations that `handleInput` dispatches to.

A cell is a code unit of the text. What it remembers besides, the paste
whose marker it was inserted with and its place in that marker, is a ghost:
no operation reads it. So are the list of all pastes and, for every
submission, the text that was meant: the one with each marker that is still
whole replaced by its own paste.

The layout of the text is not modelled. Where a vertical move, a page or a
click places the cursor is given, as any line and column.
-/
import OneHarness.Lib.Search
import OneHarness.Tui.PasteMarkers
import Mathlib.Algebra.GroupWithZero.Nat

namespace OneHarness.Tui

open Lib Lib.Replace

structure Cell where
  unit : Nat
  /-- The paste whose marker it came with, and its place there. -/
  origin : Option (Nat × Nat)
deriving DecidableEq

abbrev Line := List Cell

def plain (text : Text) : Line := text.map fun u => ⟨u, none⟩

/-- The cells of a marker. -/
def mark (paste : Nat) (marker : Text) : Line :=
  marker.mapIdx fun i u => ⟨u, some (paste, i)⟩

def text (line : Line) : Text := line.map Cell.unit

def joinLines (lines : List Line) : Line := (plain [newline]).intercalate lines

def splitLines (line : Line) : List Line :=
  line.splitOnP fun cell => cell.unit = newline

-- ======== what is meant

inductive Piece where
  | unit (u : Nat)
  | marker (paste : Paste)
deriving DecidableEq

/-- The paste whose whole marker is at the start of the line. -/
def markerAt (log : List Paste) (line : Line) : Option Paste := do
  let cell ← line.head?
  let (i, _) ← cell.origin
  let paste ← log[i]?
  if mark i paste.marker <+: line then pure paste else none

/-- The line behind so many cells, in whole markers and single units. -/
def pieces (log : List Paste) : Nat → Line → List Piece
  | _, [] => []
  | skip + 1, _ :: rest => pieces log skip rest
  | 0, cell :: rest =>
    match markerAt log (cell :: rest) with
    | some paste =>
      .marker paste :: pieces log (paste.marker.length - 1) rest
    | none => .unit cell.unit :: pieces log 0 rest

/-- With the text of the paste for each marker. -/
def Piece.meant : Piece → Text
  | .unit u => [u]
  | .marker paste => paste.content

def meant (log : List Paste) (line : Line) : Text :=
  (pieces log 0 line).flatMap Piece.meant

-- ======== the kill ring

structure KillRing where
  ring : List Line

namespace KillRing

def push (killRing : KillRing) (text : Line) (prepend accumulate : Bool) :
    KillRing :=
  if text.isEmpty then killRing
  else
    match killRing.ring.getLast? with
    | some last =>
      if accumulate then
        ⟨killRing.ring.dropLast ++
          [if prepend then text ++ last else last ++ text]⟩
      else ⟨killRing.ring ++ [text]⟩
    | none => ⟨killRing.ring ++ [text]⟩

def peek (killRing : KillRing) : Option Line := killRing.ring.getLast?

def rotate (killRing : KillRing) : KillRing :=
  match killRing.ring.getLast? with
  | some last =>
    if 1 < killRing.ring.length then ⟨last :: killRing.ring.dropLast⟩
    else killRing
  | none => killRing

end KillRing

-- ======== the editor

inductive Action where
  | kill
  | yank
  | typeWord
deriving DecidableEq

structure EditorUndoSnapshot where
  lines : List Line
  cursorLine : Nat
  cursorCol : Nat
  pastes : JsMap Nat Text
  pasteCounter : Nat

structure Editor where
  lines : List Line
  cursorLine : Nat
  cursorCol : Nat
  pastes : JsMap Nat Text
  pasteCounter : Nat
  history : List Text
  historyIndex : Int
  killRing : KillRing
  lastAction : Option Action
  undoStack : List EditorUndoSnapshot
  /-- The calls of `onSubmit`. -/
  submitted : List Text
  /-- Every paste with a marker so far. -/
  log : List Paste
  /-- What was meant by the calls. -/
  meant : List Text

/-- The base segmenter, and how much of a line is hidden. -/
structure Setting where
  graphemes : Text → List Text
  hiddenTextPrefixLength : Nat → Text → Nat

namespace Editor

def initial : Editor :=
  { lines := [[]]
    cursorLine := 0
    cursorCol := 0
    pastes := []
    pasteCounter := 0
    history := []
    historyIndex := -1
    killRing := ⟨[]⟩
    lastAction := none
    undoStack := []
    submitted := []
    log := []
    meant := [] }

variable (setting : Setting)

def line (e : Editor) (i : Nat) : Line := e.lines.getD i []

def currentLine (e : Editor) : Line := e.line e.cursorLine

def beforeCursor (e : Editor) : Line := e.currentLine.take e.cursorCol

def afterCursor (e : Editor) : Line := e.currentLine.drop e.cursorCol

def segment (e : Editor) (text : Text) : List Text :=
  segmentWithMarkers setting.graphemes text e.pastes.keys

def lineStartCol (e : Editor) : Nat :=
  min (text e.currentLine).length
    (setting.hiddenTextPrefixLength e.cursorLine (text e.currentLine))

def setLine (e : Editor) (i : Nat) (line : Line) : Editor :=
  { e with lines := e.lines.set i line }

/-- `lines.splice(i, count, ...items)`. -/
def splice (e : Editor) (i count : Nat) (items : List Line) : Editor :=
  { e with lines := e.lines.take i ++ items ++ e.lines.drop (i + count) }

def place (e : Editor) (cursorLine cursorCol : Nat) : Editor :=
  { e with cursorLine := cursorLine, cursorCol := cursorCol }

def setCursorCol (e : Editor) (cursorCol : Nat) : Editor :=
  { e with cursorCol := cursorCol }

def act (e : Editor) (lastAction : Option Action) : Editor :=
  { e with lastAction := lastAction }

def leaveHistory (e : Editor) : Editor := { e with historyIndex := -1 }

def pushUndoSnapshot (e : Editor) : Editor :=
  { e with
    undoStack :=
      ⟨e.lines, e.cursorLine, e.cursorCol, e.pastes, e.pasteCounter⟩
        :: e.undoStack }

def kill (e : Editor) (killed : Line) (prepend accumulate : Bool) : Editor :=
  { e with
    killRing := e.killRing.push killed prepend accumulate
    lastAction := some .kill }

/-- The line and the one before it in one, the cursor between them. -/
def mergeWithPrevious (e : Editor) : Editor :=
  let previousLine := e.line (e.cursorLine - 1)
  ((e.setLine (e.cursorLine - 1) (previousLine ++ e.currentLine)).splice
    e.cursorLine 1 []).place (e.cursorLine - 1) previousLine.length

/-- The line and the next one in one. -/
def mergeWithNext (e : Editor) : Editor :=
  (e.setLine e.cursorLine (e.currentLine ++ e.line (e.cursorLine + 1))).splice
    (e.cursorLine + 1) 1 []

-- ======== insertion

/-- `text.replace` of a word. -/
def replaceWord (word content text : Text) : Text :=
  replaceAll
    (fun text => if word <+: text then some (word.length, content) else none)
    0 text

def normalizeText (text : Text) : Text :=
  replaceWord [0x09] [0x20, 0x20, 0x20, 0x20]
    (replaceWord [0x0d] [newline] (replaceWord [0x0d, newline] [newline] text))

/-- The line is put in at the cursor, which moves behind it. -/
def insertLines (e : Editor) (inserted : Line) : Editor :=
  match splitLines inserted with
  | [] => e
  | [only] =>
    let line := e.beforeCursor ++ only ++ e.afterCursor
    (e.setLine e.cursorLine line).setCursorCol (e.cursorCol + only.length)
  | first :: second :: rest =>
    let last := (second :: rest).getLast (List.cons_ne_nil second rest)
    (e.splice e.cursorLine 1
      ((e.beforeCursor ++ first) :: (second :: rest).dropLast
        ++ [last ++ e.afterCursor])).place
      (e.cursorLine + (second :: rest).length) last.length

/-- `insertTextAtCursorInternal`; the marker of a paste is marked. -/
def insertTextAtCursorInternal (e : Editor) (text : Text)
    (paste : Option Nat) : Editor :=
  if text.isEmpty then e
  else
    match paste with
    | none => e.insertLines (plain (normalizeText text))
    | some i => e.insertLines (mark i (normalizeText text))

def insertTextAtCursor (e : Editor) (text : Text) : Editor :=
  if text.isEmpty then e
  else
    ((e.pushUndoSnapshot.act none).leaveHistory).insertTextAtCursorInternal
      text none

def insertCharacter (e : Editor) (char : Text) : Editor :=
  let e := e.leaveHistory
  let e :=
    if isWhitespaceChar char || e.lastAction ≠ some .typeWord then
      e.pushUndoSnapshot
    else e
  let e := e.act (some .typeWord)
  let line := e.beforeCursor ++ plain char ++ e.afterCursor
  (e.setLine e.cursorLine line).setCursorCol (e.cursorCol + char.length)

def setTextInternal (e : Editor) (text : Text) : Editor :=
  let lines := splitLines (plain text)
  { e with
    lines := lines
    cursorLine := lines.length - 1
    cursorCol := (lines.getD (lines.length - 1) []).length }

def setText (e : Editor) (newText : Text) : Editor :=
  let e := (e.act none).leaveHistory
  let normalized := normalizeText newText
  let e :=
    if text (joinLines e.lines) ≠ normalized then e.pushUndoSnapshot else e
  e.setTextInternal normalized

def addNewLine (e : Editor) : Editor :=
  let e := (e.leaveHistory.act none).pushUndoSnapshot
  (e.splice e.cursorLine 1 [e.beforeCursor, e.afterCursor]).place
    (e.cursorLine + 1) 0

-- ======== the paste

/-- `\x1b\[(\d+);5u` at the start of the text, and its control byte. -/
def csiU (text : Text) : Option (Nat × Text) := do
  let digits ← after [0x1b, 0x5b] text
  let rest ← afterDigits digits
  let rest' ← after (units ";5u") rest
  let length := text.length - rest'.length
  let cp := (digits.takeWhile isDigitUnit).foldl
    (fun cp u => 10 * cp + (u - 0x30)) 0
  pure (length,
    if 97 ≤ cp ∧ cp ≤ 122 then [cp - 96]
    else if 65 ≤ cp ∧ cp ≤ 90 then [cp - 64]
    else text.take length)

def filteredText (e : Editor) (pastedText : Text) : Text :=
  let cleanText := normalizeText (replaceAll csiU 0 pastedText)
  let filtered := cleanText.filter fun u => u = newline || 32 ≤ u
  let startsPath := filtered.head?.any fun u => u = 0x2f || u = 0x7e || u = 0x2e
  let behindWord := (text e.beforeCursor).getLast?.any isWordChar
  if startsPath && behindWord then 0x20 :: filtered else filtered

def handlePaste (e : Editor) (pastedText : Text) : Editor :=
  let e := (e.leaveHistory.act none).pushUndoSnapshot
  let filtered := e.filteredText pastedText
  if h : isLarge filtered then
    let paste : Paste := ⟨e.pasteCounter + 1, filtered, h⟩
    { e with
      pasteCounter := e.pasteCounter + 1
      pastes := e.pastes.set paste.id filtered
      log := e.log ++ [paste] }.insertTextAtCursorInternal paste.marker
        (some e.log.length)
  else e.insertTextAtCursorInternal filtered none

-- ======== the moves

def moveToLineStart (e : Editor) : Editor :=
  (e.act none).setCursorCol (e.lineStartCol setting)

def moveToLineEnd (e : Editor) : Editor :=
  (e.act none).setCursorCol e.currentLine.length

def moveRight (e : Editor) : Editor :=
  let e := e.act none
  if e.cursorCol < e.currentLine.length then
    match e.segment setting (text e.afterCursor) with
    | first :: _ => e.setCursorCol (e.cursorCol + first.length)
    | [] => e.setCursorCol (e.cursorCol + 1)
  else if e.cursorLine < e.lines.length - 1 then e.place (e.cursorLine + 1) 0
  else e

def moveLeft (e : Editor) : Editor :=
  let e := e.act none
  let lineStartCol := e.lineStartCol setting
  if lineStartCol < e.cursorCol then
    let segments := e.segment setting (text (e.beforeCursor.drop lineStartCol))
    let length := (segments.getLast?.map List.length).getD 1
    e.setCursorCol (max lineStartCol (e.cursorCol - length))
  else if 0 < e.cursorLine then
    e.place (e.cursorLine - 1) (e.line (e.cursorLine - 1)).length
  else e

/-- How far a move over a word goes through these segments. -/
def wordLength (segments : List Text) : Nat :=
  let isSpaces := fun seg => !isAtomicMarker seg && isWhitespaceChar seg
  let spaces := segments.takeWhile isSpaces
  let word :=
    match segments.dropWhile isSpaces with
    | [] => []
    | first :: rest =>
      if isAtomicMarker first then [first]
      else if isPunctuationChar first then
        (first :: rest).takeWhile fun seg =>
          isPunctuationChar seg && !isAtomicMarker seg
      else
        (first :: rest).takeWhile fun seg =>
          !isWhitespaceChar seg && !isPunctuationChar seg &&
            !isAtomicMarker seg
  ((spaces ++ word).map List.length).sum

def moveWordBackwards (e : Editor) : Editor :=
  let e := e.act none
  let lineStartCol := e.lineStartCol setting
  if e.cursorCol ≤ lineStartCol then
    if 0 < e.cursorLine then
      e.place (e.cursorLine - 1) (e.line (e.cursorLine - 1)).length
    else e
  else
    let segments := e.segment setting (text (e.beforeCursor.drop lineStartCol))
    let length := wordLength segments.reverse
    e.setCursorCol (max lineStartCol (e.cursorCol - length))

def moveWordForwards (e : Editor) : Editor :=
  let e := e.act none
  if e.currentLine.length ≤ e.cursorCol then
    if e.cursorLine < e.lines.length - 1 then e.place (e.cursorLine + 1) 0
    else e
  else
    e.setCursorCol
      (e.cursorCol + wordLength (e.segment setting (text e.afterCursor)))

/-- `line.lastIndexOf(char, from)`. -/
def lastIndexOf (char line : Text) (start : Nat) : Option Nat :=
  (List.range (min start line.length + 1)).reverse.find? fun i =>
    char.isPrefixOf (line.drop i)

/-- `line.indexOf(char, from)`. -/
def indexOf (char line : Text) (start : Nat) : Option Nat :=
  (Search.indexOf char (line.drop start)).map (start + ·)

def jumpForward (e : Editor) (char : Text) : Editor :=
  let e := e.act none
  let found := (List.range (e.lines.length - e.cursorLine)).findSome? fun k =>
    let start := if k = 0 then e.cursorCol + 1 else 0
    (indexOf char (text (e.line (e.cursorLine + k))) start).map
      (e.cursorLine + k, ·)
  match found with
  | some (cursorLine, cursorCol) => e.place cursorLine cursorCol
  | none => e

def jumpBackward (e : Editor) (char : Text) : Editor :=
  let e := e.act none
  let found := (List.range (e.cursorLine + 1)).findSome? fun k =>
    let line := text (e.line (e.cursorLine - k))
    let start := if k = 0 then e.cursorCol - 1 else line.length
    (lastIndexOf char line start).map (e.cursorLine - k, ·)
  match found with
  | some (cursorLine, cursorCol) => e.place cursorLine cursorCol
  | none => e

-- ======== the deletions

/-- Drop the units of the line between two columns. -/
def cut (e : Editor) (start stop : Nat) : Editor :=
  e.setLine e.cursorLine (e.currentLine.take start ++ e.currentLine.drop stop)

def handleBackspace (e : Editor) : Editor :=
  let e := e.leaveHistory.act none
  let lineStartCol := e.lineStartCol setting
  if lineStartCol < e.cursorCol then
    let segments := e.segment setting (text (e.beforeCursor.drop lineStartCol))
    let length := (segments.getLast?.map List.length).getD 1
    let e := e.pushUndoSnapshot
    (e.cut (e.cursorCol - length) e.cursorCol).setCursorCol
      (e.cursorCol - length)
  else if 0 < lineStartCol ∧ e.currentLine.length = lineStartCol then
    (e.pushUndoSnapshot.setLine e.cursorLine []).setCursorCol 0
  else if 0 < e.cursorLine then e.pushUndoSnapshot.mergeWithPrevious
  else e

def handleForwardDelete (e : Editor) : Editor :=
  let e := e.leaveHistory.act none
  if e.cursorCol < e.currentLine.length then
    let segments := e.segment setting (text e.afterCursor)
    let length := (segments.head?.map List.length).getD 1
    e.pushUndoSnapshot.cut e.cursorCol (e.cursorCol + length)
  else if e.cursorLine < e.lines.length - 1 then
    e.pushUndoSnapshot.mergeWithNext
  else e

def deleteToStartOfLine (e : Editor) : Editor :=
  let e := e.leaveHistory
  let lineStartCol := e.lineStartCol setting
  let wasKill := decide (e.lastAction = some .kill)
  if lineStartCol < e.cursorCol then
    let killed := e.beforeCursor.drop lineStartCol
    ((e.pushUndoSnapshot.kill killed true wasKill).cut lineStartCol
      e.cursorCol).setCursorCol lineStartCol
  else if 0 < e.cursorLine then
    (e.pushUndoSnapshot.kill (plain [newline]) true wasKill).mergeWithPrevious
  else e

def deleteToEndOfLine (e : Editor) : Editor :=
  let e := e.leaveHistory
  let wasKill := decide (e.lastAction = some .kill)
  if e.cursorCol < e.currentLine.length then
    (e.pushUndoSnapshot.kill e.afterCursor false wasKill).setLine e.cursorLine
      e.beforeCursor
  else if e.cursorLine < e.lines.length - 1 then
    (e.pushUndoSnapshot.kill (plain [newline]) false wasKill).mergeWithNext
  else e

def deleteWordBackwards (e : Editor) : Editor :=
  let e := e.leaveHistory
  let wasKill := decide (e.lastAction = some .kill)
  if e.cursorCol = 0 then
    if 0 < e.cursorLine then
      (e.pushUndoSnapshot.kill (plain [newline]) true wasKill).mergeWithPrevious
    else e
  else
    -- the move leaves the line when the cursor is in its hidden part
    let moved := e.pushUndoSnapshot.moveWordBackwards setting
    let deleteFrom := moved.cursorCol
    let back := (moved.place moved.cursorLine e.cursorCol)
    let killed := e.beforeCursor.drop deleteFrom
    ((back.kill killed true wasKill).setLine moved.cursorLine
      (e.currentLine.take deleteFrom ++ e.afterCursor)).setCursorCol deleteFrom

def deleteWordForward (e : Editor) : Editor :=
  let e := e.leaveHistory
  let wasKill := decide (e.lastAction = some .kill)
  if e.currentLine.length ≤ e.cursorCol then
    if e.cursorLine < e.lines.length - 1 then
      (e.pushUndoSnapshot.kill (plain [newline]) false wasKill).mergeWithNext
    else e
  else
    let deleteTo := (e.pushUndoSnapshot.moveWordForwards setting).cursorCol
    let killed := (e.currentLine.take deleteTo).drop e.cursorCol
    (e.pushUndoSnapshot.kill killed false wasKill).cut e.cursorCol deleteTo

-- ======== yank and undo

def insertYankedText (e : Editor) (text : Line) : Editor :=
  e.leaveHistory.insertLines text

def yank (e : Editor) : Editor :=
  match e.killRing.peek with
  | none => e
  | some text => (e.pushUndoSnapshot.insertYankedText text).act (some .yank)

/-- The text of the last yank is behind the cursor. -/
def deleteYankedText (e : Editor) : Editor :=
  match e.killRing.peek with
  | none => e
  | some yanked =>
    let yankLines := splitLines yanked
    if yanked.isEmpty then e
    else if yankLines.length = 1 then
      (e.cut (e.cursorCol - yanked.length) e.cursorCol).setCursorCol
        (e.cursorCol - yanked.length)
    else
      let startLine := e.cursorLine - (yankLines.length - 1)
      let startCol := (e.line startLine).length - (yankLines.headD []).length
      (e.splice startLine yankLines.length
        [(e.line startLine).take startCol ++ e.afterCursor]).place startLine
          startCol

def yankPop (e : Editor) : Editor :=
  if e.lastAction = some .yank ∧ 1 < e.killRing.ring.length then
    let e := e.pushUndoSnapshot.deleteYankedText
    let e := { e with killRing := e.killRing.rotate }
    match e.killRing.peek with
    | none => e
    | some text => (e.insertYankedText text).act (some .yank)
  else e

def undo (e : Editor) : Editor :=
  let e := e.leaveHistory
  match e.undoStack with
  | [] => e
  | snapshot :: undoStack =>
    { e with
      lines := snapshot.lines
      cursorLine := snapshot.cursorLine
      cursorCol := snapshot.cursorCol
      pastes := snapshot.pastes
      pasteCounter := snapshot.pasteCounter
      undoStack := undoStack
      lastAction := none }

-- ======== submission and history

/-- What is handed to `onSubmit`. -/
def result (e : Editor) : Text :=
  trim (expandPasteMarkers e.pastes (text (joinLines e.lines)))

def submitValue (e : Editor) : Editor :=
  { e with
    lines := [[]]
    cursorLine := 0
    cursorCol := 0
    pastes := []
    pasteCounter := 0
    historyIndex := -1
    undoStack := []
    lastAction := none
    submitted := e.submitted ++ [e.result]
    meant := e.meant ++ [trim (Tui.meant e.log (joinLines e.lines))] }

def addToHistory (e : Editor) (prompt : Text) : Editor :=
  let trimmed := trim prompt
  if trimmed.isEmpty then e
  else if e.history.head? = some trimmed then e
  else { e with history := (trimmed :: e.history).take 100 }

/-- To an older entry, or to a newer one. -/
def navigateHistory (e : Editor) (older : Bool) : Editor :=
  let e := e.act none
  let newIndex := if older then e.historyIndex + 1 else e.historyIndex - 1
  if e.history.isEmpty then e
  else if newIndex < -1 ∨ (e.history.length : Int) ≤ newIndex then e
  else
    let e :=
      if e.historyIndex = -1 ∧ 0 ≤ newIndex then e.pushUndoSnapshot else e
    let e := { e with historyIndex := newIndex }
    if newIndex = -1 then e.setTextInternal []
    else e.setTextInternal (e.history.getD newIndex.toNat [])

-- ======== the operations

inductive Operation where
  | insertCharacter (char : Text)
  | insertTextAtCursor (newText : Text)
  | setText (newText : Text)
  | handlePaste (pastedText : Text)
  | addNewLine
  | handleBackspace
  | handleForwardDelete
  | deleteToStartOfLine
  | deleteToEndOfLine
  | deleteWordBackwards
  | deleteWordForward
  | yank
  | yankPop
  | undo
  | submitValue
  | addToHistory (prompt : Text)
  | navigateHistory (older : Bool)
  | moveToLineStart
  | moveToLineEnd
  | moveLeft
  | moveRight
  | moveWordBackwards
  | moveWordForwards
  | jumpForward (char : Text)
  | jumpBackward (char : Text)
  /-- A vertical move, a page, or a click. -/
  | placeCursor (cursorLine cursorCol : Nat)

def step (e : Editor) : Operation → Editor
  | .insertCharacter char => e.insertCharacter char
  | .insertTextAtCursor newText => e.insertTextAtCursor newText
  | .setText newText => e.setText newText
  | .handlePaste pastedText => e.handlePaste pastedText
  | .addNewLine => e.addNewLine
  | .handleBackspace => e.handleBackspace setting
  | .handleForwardDelete => e.handleForwardDelete setting
  | .deleteToStartOfLine => e.deleteToStartOfLine setting
  | .deleteToEndOfLine => e.deleteToEndOfLine
  | .deleteWordBackwards => e.deleteWordBackwards setting
  | .deleteWordForward => e.deleteWordForward setting
  | .yank => e.yank
  | .yankPop => e.yankPop
  | .undo => e.undo
  | .submitValue => e.submitValue
  | .addToHistory prompt => e.addToHistory prompt
  | .navigateHistory older => e.navigateHistory older
  | .moveToLineStart => e.moveToLineStart setting
  | .moveToLineEnd => e.moveToLineEnd
  | .moveLeft => e.moveLeft setting
  | .moveRight => e.moveRight setting
  | .moveWordBackwards => e.moveWordBackwards setting
  | .moveWordForwards => e.moveWordForwards setting
  | .jumpForward char => e.jumpForward char
  | .jumpBackward char => e.jumpBackward char
  | .placeCursor cursorLine cursorCol => (e.act none).place cursorLine cursorCol

def run (e : Editor) (operations : List Operation) : Editor :=
  operations.foldl (step setting) e

end Editor

end OneHarness.Tui
