/-
The own spend of a session, as its file and its entries tell it.

A list of sessions reads the files: `foldSessionScanLine` takes one line
after another, `snapshotSessionInfo` sums what was found. An attribution
puts an aggregate in the place of its target's usage, so what children
spent is in the sum of the usages and is taken off again. A session in
memory computes the same from its entries (`computeOwnAndTotalUsage`).

# Amounts

Sums are exact: an amount is the rational number a stored numeral reads
as, and a usage record is one amount for each `UsageField`.

# What is left out

Of the scan, everything the usage does not read: names, previews, counts
and times. The length of a line is in UTF-16 units.
-/
import OneHarness.Lib.Utf16
import OneHarness.Session.Manager

namespace OneHarness.Session

open Lib Lib.Lines

-- ======== usage.ts

/-- The numbers of a usage record. -/
inductive UsageField where
  | input
  | output
  | cacheRead
  | cacheWrite
  | totalTokens
  | costInput
  | costOutput
  | costCacheRead
  | costCacheWrite
  | costTotal
deriving DecidableEq

abbrev Amounts := UsageField → ℚ

def Usage.amounts (usage : Usage) : Amounts
  | .input => usage.input.toRat
  | .output => usage.output.toRat
  | .cacheRead => usage.cacheRead.toRat
  | .cacheWrite => usage.cacheWrite.toRat
  | .totalTokens => usage.totalTokens.toRat
  | .costInput => usage.cost.input.toRat
  | .costOutput => usage.cost.output.toRat
  | .costCacheRead => usage.cost.cacheRead.toRat
  | .costCacheWrite => usage.cost.cacheWrite.toRat
  | .costTotal => usage.cost.total.toRat

def emptyUsage : Amounts := fun _ => 0

def addAssistantUsage (total usage : Amounts) : Amounts :=
  fun field => total field + usage field

def subtractAssistantUsage (total usage : Amounts) : Amounts :=
  fun field => max 0 (total field - usage field)

structure SessionUsageSummary where
  inputTokens : ℚ
  outputTokens : ℚ
  cost : ℚ
deriving DecidableEq

def sessionUsageSummaryFrom (usage : Amounts) : Option SessionUsageSummary :=
  let inputTokens := usage .input + usage .cacheRead + usage .cacheWrite
  if inputTokens = 0 ∧ usage .output = 0 ∧ usage .costTotal = 0 then none
  else
    some
      { inputTokens, outputTokens := usage .output, cost := usage .costTotal }

-- ======== the scan

/-- `SESSION_LIST_PARSE_MAX_LINE_CHARS`. -/
def sessionListParseMaxLineChars : Nat := 1024 * 1024

structure SessionScanAccumulator where
  header : Option SessionHeader
  invalid : Bool
  assistantUsageById : JsMap String Usage
  attributedChildUsage : Amounts
  summarizationUsage : Amounts

namespace SessionScanAccumulator

def init : SessionScanAccumulator where
  header := none
  invalid := false
  assistantUsageById := []
  attributedChildUsage := emptyUsage
  summarizationUsage := emptyUsage

/-- A summarization entry's usage is counted when it has one. -/
def addSummarization (acc : SessionScanAccumulator) :
    Option Usage → SessionScanAccumulator
  | none => acc
  | some usage =>
    { acc with
      summarizationUsage :=
        addAssistantUsage acc.summarizationUsage usage.amounts }

/-- What an entry's type alone adds, before the header is asked for. -/
def foldBody (acc : SessionScanAccumulator) :
    EntryBody → SessionScanAccumulator
  | .childUsageAttributed attribution =>
    if acc.assistantUsageById.has attribution.targetId then
      { acc with
        assistantUsageById := acc.assistantUsageById.set
          attribution.targetId attribution.aggregateUsage
        attributedChildUsage := addAssistantUsage acc.attributedChildUsage
          attribution.childUsage.amounts }
    else acc
  | .compaction c => acc.addSummarization c.usage
  | .branchSummary b => acc.addSummarization b.usage
  | _ => acc

/-- A line's entry. The first one has to be the header. -/
def foldEntry (acc : SessionScanAccumulator) :
    FileEntry → SessionScanAccumulator
  | .session header =>
    if acc.header.isNone then { acc with header := some header } else acc
  | .entry e =>
    let acc := acc.foldBody e.body
    if acc.header.isNone then { acc with invalid := true }
    else
      match e.assistant? with
      | some message =>
        { acc with
          assistantUsageById :=
            acc.assistantUsageById.set e.id message.usage }
      | none => acc

/-- `foldSessionScanLine`; `none` is a line that is JSON but no entry. -/
def foldSessionScanLine (acc : SessionScanAccumulator)
    (lineBuffer : List UInt8) : Option SessionScanAccumulator :=
  let line := Utf8.decode lineBuffer
  let trimmed := trim (String.ofList line)
  if trimmed = "" then some acc
  else if sessionListParseMaxLineChars < (Utf16.encode line).length then
    some acc
  else
    match Json.parse trimmed.toList with
    | none => some acc
    | some json => (ofJson json).map acc.foldEntry

/-- `scanSessionLines`: nothing is folded once the file is not a session. -/
def scanSessionLines (acc : SessionScanAccumulator)
    (lines : List (List UInt8)) : Option SessionScanAccumulator :=
  lines.foldlM (fun acc line =>
    if acc.invalid then some acc else acc.foldSessionScanLine line) acc

/-- What was spent by the session itself. -/
def usageTotal (acc : SessionScanAccumulator) : Amounts :=
  subtractAssistantUsage
    (addAssistantUsage
      (acc.assistantUsageById.values.foldl
        (fun total usage => addAssistantUsage total usage.amounts) emptyUsage)
      acc.summarizationUsage)
    acc.attributedChildUsage

/-- The usage total of `snapshotSessionInfo`: an unterminated last line is
folded for this snapshot only; `some none` is no session. -/
def snapshotSessionInfo (persistent : SessionScanAccumulator)
    (tornTail : Option (List UInt8)) : Option (Option Amounts) := do
  let acc ← match tornTail with
    | none => some persistent
    | some tail =>
      if tail ≠ [] ∧ persistent.invalid = false then
        persistent.foldSessionScanLine tail
      else some persistent
  return if acc.invalid || acc.header.isNone then none
    else some acc.usageTotal

end SessionScanAccumulator

/-- The usage total of `readSessionInfo`, on the bytes of a file. -/
def readSessionInfo (bytes : List UInt8) : Option (Option Amounts) := do
  let (lines, rest) := splitLines bytes
  let acc ← SessionScanAccumulator.init.scanSessionLines lines
  acc.snapshotSessionInfo (if rest = [] then none else some rest)

-- ======== context-tree.ts

/-- One entry of the branch: the usages so far, and the ids of the assistant
messages. -/
def addBranchEntry (sum : Amounts × List String) (e : SessionEntry) :
    Amounts × List String :=
  match e.body with
  | .message (.assistant message) =>
    (addAssistantUsage sum.1 message.usage.amounts, sum.2 ++ [e.id])
  | .compaction { usage := some usage, .. } =>
    (addAssistantUsage sum.1 usage.amounts, sum.2)
  | .branchSummary { usage := some usage, .. } =>
    (addAssistantUsage sum.1 usage.amounts, sum.2)
  | _ => sum

/-- One of all entries: an attribution to a message of the branch. -/
def subtractEntry (branchAssistantIds : List String) (ownUsage : Amounts)
    (e : SessionEntry) : Amounts :=
  match e.body with
  | .childUsageAttributed a =>
    if a.targetId ∈ branchAssistantIds then
      subtractAssistantUsage ownUsage a.childUsage.amounts
    else ownUsage
  | _ => ownUsage

structure OwnAndTotalUsage where
  ownUsage : Amounts
  totalUsage : Amounts

def computeOwnAndTotalUsage (branch allEntries : List SessionEntry) :
    OwnAndTotalUsage :=
  let (totalUsage, branchAssistantIds) :=
    branch.foldl addBranchEntry (emptyUsage, [])
  { ownUsage := allEntries.foldl (subtractEntry branchAssistantIds) totalUsage
    totalUsage }

end OneHarness.Session
