/-
How many columns of a terminal a text takes.

# Graphemes

The segmenter of the platform and the tables that give the width of one
grapheme are taken as they are (`Graphemes`).

# What is left out

The cache of widths, and the cache of where control strings end: both hold
what would be computed again.
-/
import OneHarness.Tui.PasteMarkers
import Mathlib.Algebra.GroupWithZero.Nat

namespace OneHarness.Tui

/-- `Intl.Segmenter` and `graphemeWidth`. -/
structure Graphemes where
  segment : Text → List Text
  graphemeWidth : Text → Nat

def esc : Nat := 0x1b

def bel : Nat := 0x07

def tab : Nat := 0x09

def isPrintableAscii (str : Text) : Bool :=
  str.all fun u => 0x20 ≤ u && u ≤ 0x7e

-- ======== escape sequences

/-- What is left to the end of a CSI sequence: parameter bytes, then
intermediate bytes, then one final byte. -/
def csiEnd : Bool → Text → Option Nat
  | _, [] => none
  | hasIntermediate, byte :: rest =>
    if (0x30 ≤ byte && byte ≤ 0x3f) && !hasIntermediate then
      (csiEnd false rest).map (· + 1)
    else if 0x20 ≤ byte && byte ≤ 0x2f then
      (csiEnd true rest).map (· + 1)
    else if 0x40 ≤ byte && byte ≤ 0x7e then some 1
    else none

/-- What is left to the end of a control string. -/
def controlStringEnd (allowBel : Bool) : Text → Option Nat
  | [] => none
  | u :: rest =>
    if allowBel && u = bel then some 1
    else if u = esc ∧ rest.head? = some 0x5c then some 2
    else (controlStringEnd allowBel rest).map (· + 1)

/-- The length of the escape sequence at the start of the text. -/
def extractAnsi : Text → Option Nat
  | u :: next :: rest =>
    if u ≠ esc then none
    else if next = 0x5b then (csiEnd false rest).map (· + 2)
    else if next = 0x5d ∨ next = 0x5f then
      (controlStringEnd true rest).map (· + 2)
    else if next = 0x50 ∨ next = 0x5e ∨ next = 0x58 then
      (controlStringEnd false rest).map (· + 2)
    else none
  | _ => none

/-- The text behind so many units, without its escape sequences. -/
def stripAnsi : Nat → Text → Text
  | _, [] => []
  | skip + 1, _ :: rest => stripAnsi skip rest
  | 0, u :: rest =>
    match extractAnsi (u :: rest) with
    | some length => stripAnsi (length - 1) rest
    | none => u :: stripAnsi 0 rest

-- ======== the width

def expandTabs (str : Text) : Text :=
  str.flatMap fun u => if u = tab then [0x20, 0x20, 0x20] else [u]

def visibleWidth (T : Graphemes) (str : Text) : Nat :=
  if str = [] then 0
  else if isPrintableAscii str then str.length
  else
    let clean := expandTabs str
    let clean := if esc ∈ clean then stripAnsi 0 clean else clean
    ((T.segment clean).map T.graphemeWidth).sum

end OneHarness.Tui
