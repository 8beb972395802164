/-
The markers of the editor: how the marker of a large paste is written and
found again, the segments in which the cursor moves, and the expansion of
the markers in a text.

A text is its code units. The expansion goes through the pastes one after
another, each time through the whole text.
-/
import OneHarness.Lib.JsMap
import OneHarness.Lib.Replace
import OneHarness.Lib.Utf16
import Mathlib.Data.List.Sort

namespace OneHarness.Tui

open Lib Lib.Replace

abbrev Text := List Nat

def units (s : String) : Text := Utf16.encode s.toList

def newline : Nat := 0x0a

-- ======== the characters

def isDigitUnit (u : Nat) : Bool := 0x30 ≤ u && u ≤ 0x39

/-- White space of `\s` and of `trim`. -/
def isSpace (u : Nat) : Bool :=
  0x09 ≤ u && u ≤ 0x0d || 0x2000 ≤ u && u ≤ 0x200a ||
    u ∈ [0x20, 0xa0, 0x1680, 0x2028, 0x2029, 0x202f, 0x205f, 0x3000, 0xfeff]

/-- `\w`. -/
def isWordChar (u : Nat) : Bool :=
  isDigitUnit u || 0x41 ≤ u && u ≤ 0x5a || 0x61 ≤ u && u ≤ 0x7a || u = 0x5f

def isWhitespaceChar (char : Text) : Bool := char.any isSpace

def isPunctuationChar (char : Text) : Bool :=
  char.any fun u => u ∈ units "()\x7b\x7d[]<>.,;:'\"!?+-=*/\\|&%^$#@~" ++ [0x60]

def trim (text : Text) : Text :=
  ((text.dropWhile isSpace).reverse.dropWhile isSpace).reverse

-- ======== the markers

/-- What follows the word at the start of the text. -/
def after (word text : Text) : Option Text :=
  if word <+: text then some (text.drop word.length) else none

/-- What follows `\d+`. -/
def afterDigits (text : Text) : Option Text :=
  if (text.head?.map isDigitUnit).getD false then some (text.dropWhile isDigitUnit)
  else none

/-- What follows ` \+\d+ lines`. -/
def afterLines (text : Text) : Option Text :=
  (after (units " +") text >>= afterDigits) >>= after (units " lines")

/-- What follows ` \d+ chars`. -/
def afterChars (text : Text) : Option Text :=
  (after (units " ") text >>= afterDigits) >>= after (units " chars")

/-- What follows `( (\+\d+ lines|\d+ chars))?\]`. -/
def afterSize (text : Text) : Option Text :=
  (((afterLines text).or (afterChars text)).bind (after (units "]"))).or
    (after (units "]") text)

/-- The length of the marker of this paste at the start of the text. -/
def pasteMarker (pasteId : Nat) (text : Text) : Option Nat :=
  ((after (units s!"[paste #{pasteId}") text).bind afterSize).map
    fun rest => text.length - rest.length

/-- `PASTE_MARKER_REGEX` at the start of the text: the length and the id. -/
def anyPasteMarker (text : Text) : Option (Nat × Nat) := do
  let digits ← after (units "[paste #") text
  let rest ← afterDigits digits
  let rest' ← afterSize rest
  let id := (digits.takeWhile isDigitUnit).foldl
    (fun id u => 10 * id + (u - 0x30)) 0
  pure (text.length - rest'.length, id)

/-- `IMAGE_MARKER_REGEX` at the start of the text. -/
def imageMarker (text : Text) : Option Nat := do
  let digits ← after (units "[image #") text
  let rest ← afterDigits digits
  let rest' ← after (units "]") rest
  pure (text.length - rest'.length)

def isAtomicMarker (segment : Text) : Bool :=
  10 ≤ segment.length &&
    ((anyPasteMarker segment).any (·.1 = segment.length) ||
      imageMarker segment = some segment.length)

-- ======== the segments

/-- The segments of a text, with the graphemes of each marker in one. -/
def mergeSegments (text : Text) :
    List (Nat × Nat) → Nat → List Text → List Text
  | _, _, [] => []
  | markers, i, seg :: segs =>
    let markers := markers.dropWhile fun marker => marker.1 + marker.2 ≤ i
    match markers.head? with
    | none => seg :: mergeSegments text markers (i + seg.length) segs
    | some (start, length) =>
      if start ≤ i ∧ i < start + length then
        if i = start then
          (text.drop start).take length
            :: mergeSegments text markers (i + seg.length) segs
        else mergeSegments text markers (i + seg.length) segs
      else seg :: mergeSegments text markers (i + seg.length) segs

/-- `segmentWithMarkers` over the graphemes of the base segmenter. -/
def segmentWithMarkers (graphemes : Text → List Text) (text : Text)
    (validPasteIds : List Nat) : List Text :=
  let pasteMarkers := matchAll
    (fun text => (anyPasteMarker text).bind fun (n, id) =>
      if id ∈ validPasteIds then some n else none) 0 0 text
  let imageMarkers := matchAll imageMarker 0 0 text
  let markers := (pasteMarkers ++ imageMarkers).insertionSort
    fun a b => a.1 ≤ b.1
  if markers.isEmpty then graphemes text
  else mergeSegments text markers 0 (graphemes text)

-- ======== the expansion

/-- A paste is large with more than ten lines or a thousand units. -/
def isLarge (content : Text) : Prop :=
  10 < content.count newline + 1 ∨ 1000 < content.length

instance (content : Text) : Decidable (isLarge content) := instDecidableOr

/-- A large paste, with the id it got. -/
structure Paste where
  id : Nat
  content : Text
  large : isLarge content
deriving DecidableEq

/-- The marker that stands for the paste. -/
def Paste.marker (paste : Paste) : Text :=
  if 10 < paste.content.count newline + 1 then
    units s!"[paste #{paste.id} +{paste.content.count newline + 1} lines]"
  else units s!"[paste #{paste.id} {paste.content.length} chars]"

def expandPasteMarker (text : Text) (paste : Nat × Text) : Text :=
  replaceAll
    (fun text => (pasteMarker paste.1 text).map fun n => (n, paste.2)) 0 text

def expandPasteMarkers (pastes : JsMap Nat Text) (text : Text) : Text :=
  pastes.foldl expandPasteMarker text

end OneHarness.Tui
