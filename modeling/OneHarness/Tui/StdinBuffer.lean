/-
`StdinBuffer`: terminal input, buffered until a sequence is complete.

Strings are lists of UTF-16 code units. Bracketed pastes are looked for
anywhere in the buffer; what is before one, and what there is without one,
is cut into sequences from the left.

# History

`StdinEvent.dropped` and the mark of a raw paste are for the reader of the
model: nobody hears of the first, and a listener sees no mark.
-/
import OneHarness.Lib.Search
import OneHarness.Lib.Utf16
import OneHarness.Lib.Utf8

namespace OneHarness.Tui

open Lib

def ESC : Nat := 0x1B

/-- `ESC [ 200 ~` -/
def BRACKETED_PASTE_START : List Nat := [ESC, 0x5B, 0x32, 0x30, 0x30, 0x7E]

/-- `ESC [ 201 ~` -/
def BRACKETED_PASTE_END : List Nat := [ESC, 0x5B, 0x32, 0x30, 0x31, 0x7E]

-- ======== complete or not

inductive SequenceStatus where
  | complete | incomplete | notEscape
deriving DecidableEq

/-- `\d`. -/
def isDigit (u : Nat) : Bool := 0x30 ≤ u && u ≤ 0x39

/-- `\d+` and nothing else. -/
def allDigits (text : List Nat) : Bool := !text.isEmpty && text.all isDigit

/-- `/^<\d+;\d+;\d+[Mm]$/`. -/
def isMouseReport (payload : List Nat) : Bool :=
  match payload with
  | 0x3C :: rest =>
    let parts := rest.dropLast.splitOn 0x3B
    (rest.getLast? = some 0x4D || rest.getLast? = some 0x6D)
      && parts.length = 3 && parts.all allDigits
  | _ => false

def isCompleteCsiSequence (data : List Nat) : SequenceStatus :=
  if !List.isPrefixOf [ESC, 0x5B] data then .complete
  else if data.length < 3 then .incomplete
  else
    let payload := data.drop 2
    let lastChar := payload.getLast?.getD 0
    if 0x40 ≤ lastChar && lastChar ≤ 0x7E then
      if List.isPrefixOf [0x3C] payload then
        if isMouseReport payload then .complete
        else if lastChar = 0x4D || lastChar = 0x6D then
          let parts := (payload.drop 1).dropLast.splitOn 0x3B
          if parts.length = 3 && parts.all allDigits then .complete
          else .incomplete
        else .incomplete
      else .complete
    else .incomplete

/-- `data.endsWith(ESC \)`: the string terminator. -/
def endsWithST (data : List Nat) : Bool := List.isSuffixOf [ESC, 0x5C] data

def isCompleteOscSequence (data : List Nat) : SequenceStatus :=
  if !List.isPrefixOf [ESC, 0x5D] data then .complete
  else if endsWithST data || List.isSuffixOf [0x07] data then .complete
  else .incomplete

def isCompleteDcsSequence (data : List Nat) : SequenceStatus :=
  if !List.isPrefixOf [ESC, 0x50] data then .complete
  else if endsWithST data then .complete
  else .incomplete

def isCompleteApcSequence (data : List Nat) : SequenceStatus :=
  if !List.isPrefixOf [ESC, 0x5F] data then .complete
  else if endsWithST data then .complete
  else .incomplete

def isCompleteSequence (data : List Nat) : SequenceStatus :=
  if !List.isPrefixOf [ESC] data then .notEscape
  else if data.length = 1 then .incomplete
  else
    let afterEsc := data.drop 1
    if List.isPrefixOf [0x5B] afterEsc then
      if List.isPrefixOf [0x5B, 0x4D] afterEsc then
        if 6 ≤ data.length then .complete else .incomplete
      else isCompleteCsiSequence data
    else if List.isPrefixOf [0x5D] afterEsc then isCompleteOscSequence data
    else if List.isPrefixOf [0x50] afterEsc then isCompleteDcsSequence data
    else if List.isPrefixOf [0x5F] afterEsc then isCompleteApcSequence data
    else if List.isPrefixOf [0x4F] afterEsc then
      if 2 ≤ afterEsc.length then .complete else .incomplete
    else .complete

-- ======== the sequences

/-- The value of decimal digits. -/
def parseDigits (digits : List Nat) : Nat :=
  digits.foldl (fun n digit => 10 * n + (digit - 0x30)) 0

/-- `/^\x1b\[(\d+)(?::\d*)?(?::\d+)?u$/`, and a code point of 32 or more. -/
def parseUnmodifiedKittyPrintableCodepoint (sequence : List Nat) :
    Option Nat :=
  if List.isPrefixOf [ESC, 0x5B] sequence
      && sequence.getLast? = some 0x75 then
    let matched : Option (List Nat) :=
      match (sequence.drop 2).dropLast.splitOn 0x3A with
      | [digits] => if allDigits digits then some digits else none
      | [digits, alternate] =>
        if allDigits digits && alternate.all isDigit then some digits
        else none
      | [digits, alternate, base] =>
        if allDigits digits && alternate.all isDigit && allDigits base then
          some digits
        else none
      | _ => none
    matched.bind fun digits =>
      if 32 ≤ parseDigits digits then some (parseDigits digits) else none
  else none

/-- `[\r\n]`. -/
def isNewline (u : Nat) : Bool := u = 0x0D || u = 0x0A

/-- `/[^\r\n][\r\n]+[^\r\n]/` somewhere. -/
def hasInnerNewline : List Nat → Bool
  | [] => false
  | u :: us =>
    (!isNewline u && (us.head?.map isNewline).getD false
        && !(us.dropWhile isNewline).isEmpty)
      || hasInnerNewline us

def isRawMultilinePaste (data : List Nat) : Bool :=
  !data.contains ESC && hasInnerNewline data

/-- The first length at which the sequence is not incomplete. -/
def sequenceEnd (remaining : List Nat) : Option Nat :=
  (List.range' 1 remaining.length).find? fun seqEnd =>
    isCompleteSequence (remaining.take seqEnd) ≠ .incomplete

theorem sequenceEnd_pos {remaining : List Nat} {seqEnd : Nat}
    (h : sequenceEnd remaining = some seqEnd) :
    0 < seqEnd ∧ seqEnd ≤ remaining.length := by
  have hmem := List.mem_of_find?_eq_some h
  rw [List.mem_range'_1] at hmem
  omega

def extractCompleteSequences (buffer : List Nat) :
    List (List Nat) × List Nat :=
  match buffer with
  | [] => ([], [])
  | u :: rest =>
    if u = ESC then
      match _hend : sequenceEnd (u :: rest) with
      | none => ([], u :: rest)
      | some seqEnd =>
        let (sequences, remainder) :=
          extractCompleteSequences ((u :: rest).drop seqEnd)
        ((u :: rest).take seqEnd :: sequences, remainder)
    else
      let (sequences, remainder) := extractCompleteSequences rest
      ([u] :: sequences, remainder)
termination_by buffer.length
decreasing_by
  · have hpos := sequenceEnd_pos _hend
    rw [List.length_drop, List.length_cons]
    omega
  · exact Nat.lt_succ_self _

-- ======== the buffer

inductive StdinEvent where
  | data (sequence : List Nat)
  /-- `raw`: it was no bracketed paste. -/
  | paste (content : List Nat) (raw : Bool)
  /-- The raw duplicate of a Kitty key, which is not emitted. -/
  | dropped (sequence : List Nat)
deriving DecidableEq

structure StdinBuffer where
  buffer : List Nat
  pasteMode : Bool
  pasteBuffer : List Nat
  pendingKittyPrintableCodepoint : Option Nat
deriving DecidableEq

/-- What is given to `process`. -/
inductive StdinData where
  | string (text : List Nat)
  | buffer (bytes : List UInt8)

/-- A single byte above 127 is that key with Alt. -/
def StdinData.str : StdinData → List Nat
  | .string text => text
  | .buffer bytes =>
    match bytes with
    | [byte] =>
      if 127 < byte.toNat then [ESC, byte.toNat - 128]
      else Utf16.encode (Utf8.decode bytes)
    | _ => Utf16.encode (Utf8.decode bytes)

namespace StdinBuffer

def init : StdinBuffer := ⟨[], false, [], none⟩

def emitDataSequence (s : StdinBuffer) (sequence : List Nat) :
    StdinBuffer × List StdinEvent :=
  let rawCodepoint := if sequence.length = 1 then sequence.head? else none
  if rawCodepoint.isSome
      && rawCodepoint = s.pendingKittyPrintableCodepoint then
    ({ s with pendingKittyPrintableCodepoint := none }, [.dropped sequence])
  else
    ({ s with
        pendingKittyPrintableCodepoint :=
          parseUnmodifiedKittyPrintableCodepoint sequence },
      [.data sequence])

def emitSequences (s : StdinBuffer) :
    List (List Nat) → StdinBuffer × List StdinEvent
  | [] => (s, [])
  | sequence :: sequences =>
    let first := s.emitDataSequence sequence
    let rest := first.1.emitSequences sequences
    (rest.1, first.2 ++ rest.2)

/-- The end of a paste, if it is there: what was pasted, and what follows. -/
def splitPaste (pasteBuffer : List Nat) : Option (List Nat × List Nat) :=
  (Search.indexOf BRACKETED_PASTE_END pasteBuffer).map fun endIndex =>
    (pasteBuffer.take endIndex,
      pasteBuffer.drop (endIndex + BRACKETED_PASTE_END.length))

/-- In a paste, `pasteBuffer` is what there is of it; the last component is
what is still to be processed. -/
def continuePaste (s : StdinBuffer) (pasteBuffer : List Nat) :
    StdinBuffer × List StdinEvent × List Nat :=
  match splitPaste pasteBuffer with
  | none =>
    ({ s with buffer := [], pasteMode := true, pasteBuffer := pasteBuffer },
      [], [])
  | some (pastedContent, remaining) =>
    (⟨[], false, [], none⟩, [.paste pastedContent false], remaining)

/-- `process` without its calls of itself. -/
def processOnce (s : StdinBuffer) (str : List Nat) :
    StdinBuffer × List StdinEvent × List Nat :=
  if str.length = 0 && s.buffer.length = 0 then
    let emitted := s.emitDataSequence []
    (emitted.1, emitted.2, [])
  else
    let buffer := s.buffer ++ str
    if s.pasteMode then s.continuePaste (s.pasteBuffer ++ buffer)
    else
      match Search.indexOf BRACKETED_PASTE_START buffer with
      | some startIndex =>
        -- the remainder of what is before the paste is not looked at
        let beforePaste := extractCompleteSequences (buffer.take startIndex)
        let emitted := s.emitSequences beforePaste.1
        let pasted := StdinBuffer.continuePaste
          { emitted.1 with pendingKittyPrintableCodepoint := none }
          (buffer.drop (startIndex + BRACKETED_PASTE_START.length))
        (pasted.1, emitted.2 ++ pasted.2.1, pasted.2.2)
      | none =>
        if isRawMultilinePaste buffer then
          ({ s with buffer := [], pendingKittyPrintableCodepoint := none },
            [.paste buffer true], [])
        else
          let result := extractCompleteSequences buffer
          let emitted := StdinBuffer.emitSequences
            { s with buffer := result.2 } result.1
          (emitted.1, emitted.2, [])

theorem splitPaste_length {pasteBuffer content remaining : List Nat}
    (h : splitPaste pasteBuffer = some (content, remaining)) :
    remaining.length < pasteBuffer.length := by
  rw [splitPaste, Option.map_eq_some_iff] at h
  obtain ⟨endIndex, hfind, heq⟩ := h
  have hlen := Search.length_of_indexOf (by decide) hfind
  have hword : BRACKETED_PASTE_END.length = 6 := rfl
  rw [← (Prod.mk.inj heq).2, List.length_drop]
  omega

theorem continuePaste_length {s : StdinBuffer} {pasteBuffer : List Nat}
    (h : (s.continuePaste pasteBuffer).2.2 ≠ []) :
    (s.continuePaste pasteBuffer).2.2.length < pasteBuffer.length
      ∧ (s.continuePaste pasteBuffer).1.buffer = []
      ∧ (s.continuePaste pasteBuffer).1.pasteBuffer = [] := by
  unfold continuePaste at h ⊢
  cases hsplit : splitPaste pasteBuffer with
  | none =>
    rw [hsplit] at h
    exact absurd rfl h
  | some p => exact ⟨splitPaste_length hsplit, rfl, rfl⟩

/-- What is still to be processed is shorter than what there was. -/
theorem processOnce_length {s : StdinBuffer} {str : List Nat}
    (h : (s.processOnce str).2.2 ≠ []) :
    (s.processOnce str).2.2.length + (s.processOnce str).1.buffer.length
        + (s.processOnce str).1.pasteBuffer.length
      < str.length + s.buffer.length + s.pasteBuffer.length := by
  unfold processOnce at h ⊢
  split
  · rename_i hempty
    rw [if_pos hempty] at h
    exact absurd rfl h
  · rename_i hempty
    rw [if_neg hempty] at h
    dsimp only at h ⊢
    split
    · rename_i hpaste
      rw [if_pos hpaste] at h
      obtain ⟨hlen, hbuf, hpb⟩ := continuePaste_length h
      rw [hbuf, hpb]
      simp only [List.length_append, List.length_nil] at hlen ⊢
      omega
    · rename_i hpaste
      rw [if_neg hpaste] at h
      cases hfind : Search.indexOf BRACKETED_PASTE_START (s.buffer ++ str) with
      | some startIndex =>
        rw [hfind] at h
        dsimp only at h ⊢
        obtain ⟨hlen, hbuf, hpb⟩ := continuePaste_length h
        rw [hbuf, hpb]
        simp only [List.length_drop, List.length_append, List.length_nil]
          at hlen ⊢
        omega
      | none =>
        rw [hfind] at h
        dsimp only at h
        split at h
        · exact absurd rfl h
        · exact absurd rfl h

/-- `process`, of a string. -/
def processString (s : StdinBuffer) (str : List Nat) :
    StdinBuffer × List StdinEvent :=
  if _h : (s.processOnce str).2.2 = [] then
    ((s.processOnce str).1, (s.processOnce str).2.1)
  else
    let rest := (s.processOnce str).1.processString (s.processOnce str).2.2
    (rest.1, (s.processOnce str).2.1 ++ rest.2)
termination_by str.length + s.buffer.length + s.pasteBuffer.length
decreasing_by exact processOnce_length _h

def process (s : StdinBuffer) (data : StdinData) :
    StdinBuffer × List StdinEvent := s.processString data.str

/-- Chunk after chunk, with no timeout in between. -/
def run (s : StdinBuffer) : List (List Nat) → StdinBuffer × List StdinEvent
  | [] => (s, [])
  | chunk :: chunks =>
    let first := s.process (.string chunk)
    let rest := first.1.run chunks
    (rest.1, first.2 ++ rest.2)

end StdinBuffer
end OneHarness.Tui
