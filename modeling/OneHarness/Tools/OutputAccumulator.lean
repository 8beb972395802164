/-
A tool's output as it streams in, in bounded memory.

# The tail

`append` decodes a chunk with a streaming decoder and adds the text to
`tailText`; when the tail has grown to twice the rolling size it is cut
back to that size. Whether the tail starts at a line's beginning is
remembered, and a snapshot leaves a first line out that may be partial.
Totals are counted as the text arrives.

# The spill

Output past a limit goes to a temporary file, raw. An error of its stream
may arrive between any two operations; it degrades the spill for good. The
name of the file is the environment's choice.
-/
import OneHarness.Lib.TextDecoder
import OneHarness.Tools.Truncate

namespace OneHarness.Tools

open Lib
open Lib.Utf8

-- ======== the spill

/-- `stream` holds what has been written to the open file. -/
structure OutputSpill where
  filePrefix : String
  path : Option String := none
  stream : Option (List (List UInt8)) := none
  failed : Bool := false

namespace OutputSpill

def isOpen (spill : OutputSpill) : Bool := spill.stream.isSome

/-- Open once, writing `replay` first; a degraded spill never reopens. -/
def openFile (spill : OutputSpill) (tempFilePath : String → String)
    (replay : List (List UInt8)) : OutputSpill :=
  if spill.stream.isSome || spill.failed then spill
  else { spill with
    path := some (tempFilePath spill.filePrefix)
    stream := some replay }

def write (spill : OutputSpill) (chunk : List UInt8) : OutputSpill :=
  { spill with stream := spill.stream.map (· ++ [chunk]) }

/-- The stream's `error` event. -/
def error (spill : OutputSpill) : OutputSpill :=
  if spill.stream.isSome then
    { spill with path := none, stream := none, failed := true }
  else spill

end OutputSpill

-- ======== the accumulator

structure OutputAccumulatorOptions where
  maxLines : Option Nat := none
  maxBytes : Option Nat := none
  tempFilePrefix : Option String := none

structure OutputSnapshot where
  content : List Char
  truncation : TruncationResult
  fullOutputPath : Option String

structure OutputAccumulator where
  maxLines : Nat
  maxBytes : Nat
  maxRollingBytes : Nat
  decoder : TextDecoder
  rawChunks : List (List UInt8)
  tailText : List Char
  tailBytes : Nat
  tailStartsAtLineBoundary : Bool
  totalRawBytes : Nat
  totalDecodedBytes : Nat
  totalLines : Nat
  currentLineBytes : Nat
  finished : Bool
  spill : OutputSpill

/-- `Cannot append to a finished output accumulator`. -/
inductive AppendError where
  | finished

namespace OutputAccumulator

/-- `new OutputAccumulator(options)`. -/
def new (options : OutputAccumulatorOptions) : OutputAccumulator :=
  let maxBytes := options.maxBytes.getD defaultMaxBytes
  { maxLines := options.maxLines.getD defaultMaxLines
    maxBytes := maxBytes
    maxRollingBytes := max (maxBytes * 2) 1
    decoder := ⟨.start, false⟩
    rawChunks := []
    tailText := []
    tailBytes := 0
    tailStartsAtLineBoundary := true
    totalRawBytes := 0
    totalDecodedBytes := 0
    totalLines := 1
    currentLineBytes := 0
    finished := false
    spill := { filePrefix := options.tempFilePrefix.getD "pi-output" } }

def trimTail (acc : OutputAccumulator) : OutputAccumulator :=
  let buffer := encode acc.tailText
  if buffer.length ≤ acc.maxRollingBytes then
    { acc with tailBytes := buffer.length }
  else
    let start := charBoundary buffer (buffer.length - acc.maxRollingBytes)
    let tailText := decode (buffer.drop start)
    { acc with
      tailStartsAtLineBoundary :=
        if start = 0 then acc.tailStartsAtLineBoundary
        else decide (buffer[start - 1]? = some 0x0a)
      tailText := tailText
      tailBytes := byteLength tailText }

/-- Count the newlines of a text and what follows the last one. -/
def countLines (acc : OutputAccumulator) (text : List Char) :
    OutputAccumulator :=
  let newlines := text.count '\n'
  if newlines = 0 then
    { acc with currentLineBytes := acc.currentLineBytes + byteLength text }
  else
    { acc with
      totalLines := acc.totalLines + newlines
      currentLineBytes :=
        byteLength (text.reverse.takeWhile (· ≠ '\n')).reverse }

def appendDecodedText (acc : OutputAccumulator) (text : List Char) :
    OutputAccumulator :=
  if text.length = 0 then acc
  else
    let bytes := byteLength text
    let acc := { acc with
      totalDecodedBytes := acc.totalDecodedBytes + bytes
      tailText := acc.tailText ++ text
      tailBytes := acc.tailBytes + bytes }
    let acc :=
      if acc.maxRollingBytes * 2 < acc.tailBytes then acc.trimTail else acc
    acc.countLines text

def shouldUseTempFile (acc : OutputAccumulator) : Bool :=
  decide (acc.maxBytes < acc.totalRawBytes)
    || decide (acc.maxBytes < acc.totalDecodedBytes)
    || decide (acc.maxLines < acc.totalLines)

def ensureTempFile (acc : OutputAccumulator)
    (tempFilePath : String → String) : OutputAccumulator :=
  { acc with
    spill := acc.spill.openFile tempFilePath acc.rawChunks
    rawChunks := [] }

def append (acc : OutputAccumulator) (tempFilePath : String → String)
    (data : List UInt8) : Except AppendError OutputAccumulator :=
  if acc.finished then .error .finished
  else
    let out := acc.decoder.write data
    let acc := { acc with
      totalRawBytes := acc.totalRawBytes + data.length
      decoder := out.1 }
    let acc := acc.appendDecodedText out.2
    if acc.spill.isOpen || acc.shouldUseTempFile then
      let acc := acc.ensureTempFile tempFilePath
      .ok { acc with spill := acc.spill.write data }
    else if 0 < data.length then
      .ok { acc with rawChunks := acc.rawChunks ++ [data] }
    else .ok acc

def finish (acc : OutputAccumulator) (tempFilePath : String → String) :
    OutputAccumulator :=
  if acc.finished then acc
  else
    let acc := { acc with finished := true }
    let acc := acc.appendDecodedText acc.decoder.close
    if acc.shouldUseTempFile then acc.ensureTempFile tempFilePath else acc

def getSnapshotText (acc : OutputAccumulator) : List Char :=
  if acc.tailStartsAtLineBoundary then acc.tailText
  else if '\n' ∈ acc.tailText then
    (acc.tailText.dropWhile (· ≠ '\n')).tail
  else acc.tailText

def snapshot (acc : OutputAccumulator) : OutputSnapshot :=
  let tailTruncation :=
    truncateTail acc.getSnapshotText ⟨some acc.maxLines, some acc.maxBytes⟩
  let truncated := decide (acc.maxLines < acc.totalLines)
    || decide (acc.maxBytes < acc.totalDecodedBytes)
  let truncatedBy :=
    if truncated then
      tailTruncation.truncatedBy.or
        (some (if acc.maxBytes < acc.totalDecodedBytes then .bytes
          else .lines))
    else none
  let truncation := { tailTruncation with
    truncated := truncated
    truncatedBy := truncatedBy
    totalLines := acc.totalLines
    totalBytes := acc.totalDecodedBytes
    maxLines := acc.maxLines
    maxBytes := acc.maxBytes }
  ⟨truncation.content, truncation, acc.spill.path⟩

/-- The stream of the spill fails, between two operations. -/
def spillError (acc : OutputAccumulator) : OutputAccumulator :=
  { acc with spill := acc.spill.error }

end OutputAccumulator

-- ======== runs

/-- What happens to an accumulator before it is finished. -/
inductive OutputEvent where
  | append (data : List UInt8)
  | spillError

/-- The chunks appended. -/
def OutputEvent.chunks (events : List OutputEvent) : List (List UInt8) :=
  events.filterMap fun
    | .append data => some data
    | .spillError => none

/-- One event after the other. -/
def OutputAccumulator.run (tempFilePath : String → String) :
    OutputAccumulator → List OutputEvent →
      Except AppendError OutputAccumulator
  | acc, [] => .ok acc
  | acc, .append data :: events =>
    match acc.append tempFilePath data with
    | .ok acc => run tempFilePath acc events
    | .error e => .error e
  | acc, .spillError :: events => run tempFilePath acc.spillError events

end OneHarness.Tools
