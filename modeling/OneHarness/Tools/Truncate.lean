/-
Truncating a tool's output to its end.

Two limits, lines and bytes; whichever is hit first wins. Lines are taken
from the last one backwards while they fit. Partial lines are left out,
except that a last line which is too long by itself (blank lines after it
do not count) is cut to its end.
-/
import OneHarness.Lib.ByteTail

namespace OneHarness.Tools

open Lib.Utf8

def defaultMaxLines : Nat := 2000

def defaultMaxBytes : Nat := 50 * 1024

/-- Which limit was hit. -/
inductive Limit where
  | lines
  | bytes
  deriving DecidableEq

structure TruncationResult where
  content : List Char
  truncated : Bool
  truncatedBy : Option Limit
  totalLines : Nat
  totalBytes : Nat
  outputLines : Nat
  outputBytes : Nat
  lastLinePartial : Bool
  firstLineExceedsLimit : Bool
  maxLines : Nat
  maxBytes : Nat
  deriving DecidableEq

structure TruncationOptions where
  maxLines : Option Nat := none
  maxBytes : Option Nat := none

/-- `lines.join("\n")`. -/
def join (lines : List (List Char)) : List Char := ['\n'].intercalate lines

/-- Fit a text within a byte limit, from the end. -/
def truncateStringToBytesFromEnd (str : List Char) (maxBytes : Nat) :
    List Char :=
  let buf := encode str
  if buf.length ≤ maxBytes then str
  else decode (buf.drop (charBoundary buf (buf.length - maxBytes)))

/-- What the loop of `truncateTail` leaves: the lines collected, their
bytes, the limit hit, and whether the last line is partial. -/
structure Collected where
  outputLinesArr : List (List Char)
  outputBytesCount : Nat
  truncatedBy : Limit
  lastLinePartial : Bool

/-- The loop of `truncateTail`, over the lines from the last one on. -/
def collectTail (maxLines maxBytes : Nat) :
    List (List Char) → List (List Char) → Nat → Collected
  | [], arr, count => ⟨arr, count, .lines, false⟩
  | line :: lines, arr, count =>
    if arr.length < maxLines then
      let lineBytes := byteLength line + if 0 < arr.length then 1 else 0
      if maxBytes < count + lineBytes then
        if arr.all (·.length = 0) then
          -- blank lines at the end give way to the end of this one
          let keptBlanks := min arr.length (maxBytes - 1)
          let truncatedLine :=
            truncateStringToBytesFromEnd line (maxBytes - keptBlanks)
          ⟨truncatedLine :: arr.take keptBlanks,
            byteLength truncatedLine + keptBlanks, .bytes, true⟩
        else ⟨arr, count, .bytes, false⟩
      else collectTail maxLines maxBytes lines (line :: arr)
        (count + lineBytes)
    else ⟨arr, count, .lines, false⟩

/-- Keep the last lines of a content. -/
def truncateTail (content : List Char) (options : TruncationOptions) :
    TruncationResult :=
  let maxLines := options.maxLines.getD defaultMaxLines
  let maxBytes := options.maxBytes.getD defaultMaxBytes
  let totalBytes := byteLength content
  let lines := content.splitOn '\n'
  let totalLines := lines.length
  if totalLines ≤ maxLines ∧ totalBytes ≤ maxBytes then
    { content := content
      truncated := false
      truncatedBy := none
      totalLines := totalLines
      totalBytes := totalBytes
      outputLines := totalLines
      outputBytes := totalBytes
      lastLinePartial := false
      firstLineExceedsLimit := false
      maxLines := maxLines
      maxBytes := maxBytes }
  else
    let out := collectTail maxLines maxBytes lines.reverse [] 0
    let truncatedBy :=
      if maxLines ≤ out.outputLinesArr.length
          ∧ out.outputBytesCount ≤ maxBytes then .lines
      else out.truncatedBy
    let outputContent := join out.outputLinesArr
    { content := outputContent
      truncated := true
      truncatedBy := some truncatedBy
      totalLines := totalLines
      totalBytes := totalBytes
      outputLines := out.outputLinesArr.length
      outputBytes := byteLength outputContent
      lastLinePartial := out.lastLinePartial
      firstLineExceedsLimit := false
      maxLines := maxLines
      maxBytes := maxBytes }

end OneHarness.Tools
