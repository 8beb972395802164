/-
JSONL: one JSON value a line, and the reader that takes lines off a stream
as it arrives.

Strings are lists of UTF-16 code units: the limit of a line counts units
and may cut a pair of surrogates.

# The reader

keeps the segments of the line that is not ended yet. Once the line is
longer than the limit its beginning is reported, and what comes of it is
discarded until its newline.
-/
import OneHarness.Lib.Json.Basic
import OneHarness.Lib.TextDecoder
import OneHarness.Lib.Utf16

namespace OneHarness.Wire.Jsonl

open Lib Utf16

/-- The newline. -/
def LF : Nat := 0x0A

/-- The carriage return. -/
def CR : Nat := 0x0D

def serializeJsonLine (value : Json) : List Char := value.stringify ++ ['\n']

/-- What the reader tells its listeners. -/
inductive LineEvent where
  | line (units : List Nat)
  | overflow (start : List Nat)
deriving DecidableEq

inductive Chunk where
  | string (text : List Nat)
  | buffer (bytes : List UInt8)

structure JsonlLineReader where
  decoder : Utf8.Pending
  pending : List (List Nat)
  pendingLength : Nat
  discardingOverflow : Bool

namespace JsonlLineReader

def init : JsonlLineReader := ⟨.start, [], 0, false⟩

/-- Whether a line of that length is too long. -/
def exceeds (maxLineLength : Option Nat) (length : Nat) : Bool :=
  match maxLineLength with
  | some max => max < length
  | none => false

/-- The line less a carriage return at its end. -/
def dropCR (line : List Nat) : List Nat :=
  if line.getLast? = some CR then line.dropLast else line

def resetPending (r : JsonlLineReader) : JsonlLineReader :=
  { r with pending := [], pendingLength := 0 }

variable (maxLineLength : Option Nat)

def appendPending (r : JsonlLineReader) (segment : List Nat) :
    JsonlLineReader × List LineEvent :=
  if r.discardingOverflow || segment.length = 0 then (r, [])
  else if exceeds maxLineLength (r.pendingLength + segment.length) then
    let remaining := maxLineLength.getD 0 - r.pendingLength
    let pending :=
      if 0 < remaining then r.pending ++ [segment.take remaining]
      else r.pending
    ({ r.resetPending with discardingOverflow := true },
      [.overflow pending.flatten])
  else
    ({ r with
        pending := r.pending ++ [segment]
        pendingLength := r.pendingLength + segment.length }, [])

def emitFrom (r : JsonlLineReader) (segment : List Nat) :
    JsonlLineReader × List LineEvent :=
  if r.discardingOverflow then
    ({ r.resetPending with discardingOverflow := false }, [])
  else
    let (r, events) := appendPending maxLineLength r segment
    if r.discardingOverflow then
      ({ r with discardingOverflow := false }, events)
    else
      (r.resetPending, events ++ [.line (dropCR r.pending.flatten)])

/-- The loop over a text; `segment` is what it has passed since the last
newline. -/
def scan (r : JsonlLineReader) (segment : List Nat) :
    List Nat → JsonlLineReader × List LineEvent
  | [] =>
    if segment.length = 0 then (r, [])
    else appendPending maxLineLength r segment
  | unit :: text =>
    if unit = LF then
      let (r, events) := emitFrom maxLineLength r segment
      let (r, more) := scan r [] text
      (r, events ++ more)
    else scan r (segment ++ [unit]) text

def onData (r : JsonlLineReader) (chunk : Chunk) :
    JsonlLineReader × List LineEvent :=
  match chunk with
  | .string text => scan maxLineLength r [] text
  | .buffer bytes =>
    let (decoder, text) := Utf8.feed r.decoder bytes
    scan maxLineLength { r with decoder := decoder } [] (encode text)

def onEnd (r : JsonlLineReader) : JsonlLineReader × List LineEvent :=
  let tail := encode (Utf8.flush r.decoder)
  let (r, events) :=
    if 0 < tail.length then appendPending maxLineLength r tail else (r, [])
  ({ r.resetPending with discardingOverflow := false, decoder := .start },
    if !r.discardingOverflow && 0 < r.pending.length then
      events ++ [.line (dropCR r.pending.flatten)]
    else events)

/-- The chunks of a stream, one after the other. -/
def onChunks (r : JsonlLineReader) :
    List Chunk → JsonlLineReader × List LineEvent
  | [] => (r, [])
  | chunk :: chunks =>
    let (r, events) := onData maxLineLength r chunk
    let (r, more) := onChunks r chunks
    (r, events ++ more)

/-- What is told of a whole stream. -/
def readAll (chunks : List Chunk) : List LineEvent :=
  let (r, events) := onChunks maxLineLength init chunks
  events ++ (onEnd maxLineLength r).2

end JsonlLineReader

/-- `JSON.parse` of a line. -/
def LineEvent.parsed : LineEvent → Option Json
  | .line units => (decode units).bind Json.parse
  | .overflow _ => none

end OneHarness.Wire.Jsonl
