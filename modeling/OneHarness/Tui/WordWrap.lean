/-
`wordWrapLine`: the chunks in which the editor shows a line.

The segments of a line stand one behind the other, so the index of a segment
is the length of those before it. The function calls itself for a segment
that is wider than a line; `fuel` bounds how deep, and `none` is a call that
goes deeper than that.
-/
import OneHarness.Tui.Width

namespace OneHarness.Tui

structure TextChunk where
  text : Text
  startIndex : Nat
  endIndex : Nat
deriving DecidableEq

/-- `line.slice(start, end)`. -/
def slice (line : Text) (startIndex endIndex : Nat) : Text :=
  (line.take endIndex).drop startIndex

def chunkOf (line : Text) (startIndex endIndex : Nat) : TextChunk :=
  ⟨slice line startIndex endIndex, startIndex, endIndex⟩

/-- The variables of the loop. -/
structure Wrapping where
  chunks : List TextChunk
  currentWidth : Nat
  chunkStart : Nat
  /-- `none` for -1 -/
  wrapOppIndex : Option Nat
  wrapOppWidth : Nat

variable (T : Graphemes)

/-- White space before something else is where a line may be broken. -/
def breaksAfter (grapheme : Text) (next : Option Text) : Bool :=
  (!isAtomicMarker grapheme && isWhitespaceChar grapheme)
    && next.any fun next => isAtomicMarker next || !isWhitespaceChar next

def advance (charIndex gWidth : Nat) (grapheme : Text) (next : Option Text)
    (s : Wrapping) : Wrapping :=
  let s := { s with currentWidth := s.currentWidth + gWidth }
  if breaksAfter grapheme next then
    { s with
      wrapOppIndex := some (charIndex + grapheme.length)
      wrapOppWidth := s.currentWidth }
  else s

end OneHarness.Tui
