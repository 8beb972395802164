/-
The scanner for escape sequences, and its cache of control strings.

Strings are lists of UTF-16 code units. A position may be any integer, and
`str[pos]` is undefined outside the string. An index of -1 that stands for
none is `none`.
-/
import OneHarness.Lib.JsMap

namespace OneHarness.Tui.AnsiScan

open Lib

abbrev ControlStringEnds := JsMap Nat (Option Nat)

structure AnsiScanState where
  controlStringEnds : Option ControlStringEnds

structure AnsiCode where
  code : List Nat
  length : Nat
  deriving DecidableEq

-- ======== the cache

/-- What the backward pass has found. -/
structure Pass where
  nextBel : Option Nat
  nextSt : Option Nat
  ends : ControlStringEnds

/-- Where a control string that either terminator ends is ended. -/
def earliest (nextBel nextSt : Option Nat) : Option Nat :=
  match nextBel, nextSt with
  | some bel, none => some (bel + 1)
  | some bel, some st => if bel < st then some (bel + 1) else some (st + 2)
  | none, st => st.map (· + 2)

/-- `]` and `_`. -/
def allowsBel (next : Option Nat) : Bool :=
  next = some 0x5D || next = some 0x5F

/-- `P`, `^` and `X`. -/
def needsSt (next : Option Nat) : Bool :=
  next = some 0x50 || next = some 0x5E || next = some 0x58

/-- The body of the loop of `cacheControlStringEnds`. -/
def Pass.visit (str : List Nat) (i : Nat) (pass : Pass) : Pass :=
  let pass :=
    if str[i]? = some 0x07 then { pass with nextBel := some i } else pass
  if str[i]? ≠ some 0x1B then pass
  else
    let next := str[i + 1]?
    if next = some 0x5C then { pass with nextSt := some i }
    else if allowsBel next then
      { pass with ends := pass.ends.set i (earliest pass.nextBel pass.nextSt) }
    else if needsSt next then
      { pass with ends := pass.ends.set i (pass.nextSt.map (· + 2)) }
    else pass

/-- From the last position down to `start`. -/
def cacheControlStringEnds (str : List Nat) (start : Nat)
    (ends : ControlStringEnds) : ControlStringEnds :=
  ((List.range' start (str.length - start)).foldr (Pass.visit str)
    ⟨none, none, ends⟩).ends

-- ======== the scanner

/-- The loop of `extractControlStringEnd`, on what is left from `j` on. -/
def controlStringEnd (allowBel : Bool) : Nat → List Nat → Option Nat
  | _, [] => none
  | j, unit :: rest =>
    if allowBel ∧ unit = 0x07 then some (j + 1)
    else if unit = 0x1B ∧ rest.head? = some 0x5C then some (j + 2)
    else controlStringEnd allowBel (j + 1) rest

def cached (state : Option AnsiScanState) (pos : Nat) : Option (Option Nat) :=
  state.bind fun state => state.controlStringEnds.bind (·.get pos)

def extractControlStringEnd (str : List Nat) (pos : Nat) (allowBel : Bool)
    (state : Option AnsiScanState) : Option Nat × Option AnsiScanState :=
  match cached state pos with
  | some stop => (stop, state)
  | none =>
    match controlStringEnd allowBel (pos + 2) (str.drop (pos + 2)) with
    | some stop => (some stop, state)
    | none =>
      (none, state.map fun _ => ⟨some (cacheControlStringEnds str pos [])⟩)

/-- The loop over a CSI sequence. -/
def csiEnd : Nat → Bool → List Nat → Option Nat
  | _, _, [] => none
  | j, hasIntermediate, byte :: rest =>
    if 0x30 ≤ byte ∧ byte ≤ 0x3F ∧ ¬hasIntermediate then
      csiEnd (j + 1) hasIntermediate rest
    else if 0x20 ≤ byte ∧ byte ≤ 0x2F then csiEnd (j + 1) true rest
    else if 0x40 ≤ byte ∧ byte ≤ 0x7E then some (j + 1)
    else none

def extractAnsiEndAt (str : List Nat) (pos : Nat)
    (state : Option AnsiScanState) : Option Nat × Option AnsiScanState :=
  if str[pos]? ≠ some 0x1B then (none, state)
  else
    let next := str[pos + 1]?
    if next = some 0x5B then
      (csiEnd (pos + 2) false (str.drop (pos + 2)), state)
    else if allowsBel next then extractControlStringEnd str pos true state
    else if needsSt next then extractControlStringEnd str pos false state
    else (none, state)

def extractAnsiCodeAt (str : List Nat) (pos : Int)
    (state : Option AnsiScanState) : Option AnsiCode × Option AnsiScanState :=
  if pos < 0 then (none, state)
  else
    let (stop, state) := extractAnsiEndAt str pos.toNat state
    (stop.map fun stop =>
      ⟨(str.take stop).drop pos.toNat, stop - pos.toNat⟩, state)

def extractAnsiCode (str : List Nat) (pos : Int) : Option AnsiCode :=
  (extractAnsiCodeAt str pos none).1

/-- The state of `createAnsiCodeExtractor`. -/
def emptyState : AnsiScanState := ⟨none⟩

/-- What the function that `createAnsiCodeExtractor` returns answers, when it
is called at these positions one after the other. -/
def answers (str : List Nat) (state : Option AnsiScanState) :
    List Int → List (Option AnsiCode)
  | [] => []
  | pos :: positions =>
    let (answer, state) := extractAnsiCodeAt str pos state
    answer :: answers str state positions

def createAnsiCodeExtractor (str : List Nat) : List Int → List (Option AnsiCode) :=
  answers str (some emptyState)

end OneHarness.Tui.AnsiScan
