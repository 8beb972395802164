/-
Compaction of a session: what a message weighs, where a path is cut, what the
cut leaves to be summarized, and the summary that is made of it.

# Cuts

The token walk picks a cut point (`chosenCut`), which then moves back over the
entries that are neither a message nor a compaction (`walkBack`). A turn start
is an index; the source's -1 is `none`. An index past the entries, where the
source throws, is nothing here.

# Numbers

Token counts of stored usage are exact, and `keepRecentTokens` is any number.
-/
import OneHarness.Lib.Utf16
import OneHarness.Session.Context

namespace OneHarness.Session

open Lib

-- ======== weights

/-- The length of a string, in UTF-16 units. -/
def textLength (s : String) : Nat := (Utf16.encode s.toList).length

/-- `Math.ceil(chars / 4)`. -/
def quarter (chars : Nat) : Nat := (chars + 3) / 4

def contentChars (imageChars : Nat) : MessageContent → Nat
  | .text text => textLength text
  | .blocks blocks =>
    (blocks.map fun block =>
      match block with
      | .text text _ => textLength text
      | .image _ _ => imageChars).sum

def assistantChars (content : List AssistantBlock) : Nat :=
  (content.map fun block =>
    match block with
    | .text text _ => textLength text
    | .thinking thinking _ _ => textLength thinking
    | .toolCall _ name arguments _ =>
      textLength name
        + (Utf16.encode (Json.stringify (.obj arguments))).length).sum

def estimateTokens : AgentMessage → Nat
  | .user m => quarter (contentChars 0 m.content)
  | .assistant m => quarter (assistantChars m.content)
  | .custom m => quarter (contentChars 4800 m.content)
  | .toolResult m => quarter (contentChars 4800 (.blocks m.content))
  | .bashExecution m => quarter (textLength m.command + textLength m.output)
  | .branchSummary m => quarter (textLength m.summary)
  | .compactionSummary m => quarter (textLength m.summary)

def calculateContextTokens (usage : Usage) : ℚ :=
  if usage.totalTokens.toRat ≠ 0 then usage.totalTokens.toRat
  else usage.input.toRat + usage.output.toRat + usage.cacheRead.toRat
    + usage.cacheWrite.toRat

def getAssistantUsage : AgentMessage → Option Usage
  | .assistant m =>
    if m.stopReason ≠ .aborted ∧ m.stopReason ≠ .error then some m.usage
    else none
  | _ => none

/-- From the last usage on, or all of them. -/
def estimateContextTokens (messages : List AgentMessage) : ℚ :=
  let trailing := messages.reverse.takeWhile fun m =>
    (getAssistantUsage m).isNone
  let estimated : ℚ := ((trailing.map estimateTokens).sum : Nat)
  match messages.reverse.findSome? getAssistantUsage with
  | some usage => calculateContextTokens usage + estimated
  | none => estimated

-- ======== the cut points

namespace SessionEntry

/-- An entry that a path may be cut before. -/
def isCutPoint (e : SessionEntry) : Bool :=
  match e.body with
  | .message (.toolResult _) => false
  | .message _ => true
  | .branchSummary _ => true
  | .customMessage _ => true
  | _ => false

/-- An entry that starts a turn. -/
def isTurnStart (e : SessionEntry) : Bool :=
  match e.body with
  | .message (.user _) => true
  | .message (.bashExecution _) => true
  | .branchSummary _ => true
  | .customMessage _ => true
  | _ => false

def isUserMessage (e : SessionEntry) : Bool :=
  match e.body with
  | .message (.user _) => true
  | _ => false

end SessionEntry

section
variable (entries : List SessionEntry) (startIndex : Nat)

def findValidCutPoints (endIndex : Nat) : List Nat :=
  (List.range' startIndex (endIndex - startIndex)).filter fun i =>
    entries[i]?.any (·.isCutPoint)

/-- From the entry back to the start. -/
def findTurnStartIndex : Nat → Option Nat
  | 0 =>
    if startIndex = 0 ∧ entries[0]?.any (·.isTurnStart) then some 0 else none
  | i + 1 =>
    if i + 1 < startIndex then none
    else if entries[i + 1]?.any (·.isTurnStart) then some (i + 1)
    else findTurnStartIndex i

/-- The message that the tokens from the end on reach the budget at; the count
says which entries are left. -/
def crossing (keepRecentTokens : ℚ) : Nat → Nat → Option Nat
  | 0, _ => none
  | i + 1, accumulatedTokens =>
    if i < startIndex then none
    else
      match entries[i]?.map SessionEntry.body with
      | some (.message message) =>
        let accumulatedTokens := accumulatedTokens + estimateTokens message
        if keepRecentTokens ≤ accumulatedTokens then some i
        else crossing keepRecentTokens i accumulatedTokens
      | _ => crossing keepRecentTokens i accumulatedTokens

/-- Of these cut points, the first at or after the crossing, or the last;
without a crossing, the first. -/
def chosenCut (endIndex : Nat) (keepRecentTokens : ℚ) (first : Nat)
    (cutPoints : List Nat) : Nat :=
  match crossing entries startIndex keepRecentTokens endIndex 0 with
  | none => first
  | some i => (cutPoints.find? (i ≤ ·)).getD (cutPoints.getLastD first)

def walkBack : Nat → Nat
  | 0 => 0
  | i + 1 =>
    if startIndex < i + 1 then
      if entries[i]?.any fun e => e.isCompaction || e.isMessage then i + 1
      else walkBack i
    else i + 1

structure CutPointResult where
  firstKeptEntryIndex : Nat
  turnStartIndex : Option Nat
  isSplitTurn : Bool
deriving DecidableEq

def findCutPoint (endIndex : Nat) (keepRecentTokens : ℚ) : CutPointResult :=
  match findValidCutPoints entries startIndex endIndex with
  | [] => ⟨startIndex, none, false⟩
  | first :: rest =>
    let cutIndex := walkBack entries startIndex
      (chosenCut entries startIndex endIndex keepRecentTokens first
        (first :: rest))
    let isUserMessage := entries[cutIndex]?.any (·.isUserMessage)
    let turnStartIndex :=
      if isUserMessage then none
      else findTurnStartIndex entries startIndex cutIndex
    ⟨cutIndex, turnStartIndex, !isUserMessage && turnStartIndex.isSome⟩

end

-- ======== the messages

def getMessageFromEntry (entry : SessionEntry) : Option AgentMessage :=
  match entry.body with
  | .message m => some m
  | .customMessage c =>
    some (createCustomMessage c.customType c.content c.display c.details
      entry.timestamp)
  | .branchSummary b =>
    some (createBranchSummaryMessage b.summary b.fromId entry.timestamp)
  | .compaction c =>
    some (createCompactionSummaryMessage c.summary c.tokensBefore
      entry.timestamp c.customInstructions none none none)
  | _ => none

def harnessDigestCustomType : String := "harness_digest"

def getMessageFromEntryForCompaction (entry : SessionEntry) :
    Option AgentMessage :=
  match entry.body with
  | .compaction _ => none
  | .customMessage c =>
    if c.customType = harnessDigestCustomType then none
    else getMessageFromEntry entry
  | _ => getMessageFromEntry entry

/-- The messages of the entries from `start` up to `stop`. -/
def messagesBetween (entries : List SessionEntry) (start stop : Nat) :
    List AgentMessage :=
  ((entries.take stop).drop start).filterMap getMessageFromEntryForCompaction

-- ======== the file operations

structure FileOperations where
  read : List String
  edited : List String

def createFileOps : FileOperations := ⟨[], []⟩

/-- `Set.add`. -/
def addOnce (files : List String) (file : String) : List String :=
  if file ∈ files then files else files ++ [file]

def FileOperations.edit (fileOps : FileOperations) (path : Option Json) :
    FileOperations :=
  match path with
  | some (.str path) =>
    if path = "" then fileOps
    else { fileOps with edited := addOnce fileOps.edited path }
  | _ => fileOps

def extractFileOpsFromMessage (fileOps : FileOperations) :
    AgentMessage → FileOperations
  | .toolResult m =>
    if m.toolName = "ipython" then
      match m.details.bind (·.get "diffs") with
      | some (.arr diffs) =>
        diffs.foldl (fun fileOps diff => fileOps.edit (diff.get "path"))
          fileOps
      | _ => fileOps
    else fileOps
  | .assistant m =>
    m.content.foldl (fun fileOps block =>
      match block with
      | .toolCall _ "edit" arguments _ =>
        fileOps.edit ((Json.obj arguments).get "path")
      | _ => fileOps) fileOps
  | _ => fileOps

/-- The strings of an array, if it is one. -/
def strings (value : Option Json) : List String :=
  match value with
  | some (.arr values) =>
    values.filterMap fun v =>
      match v with
      | .str s => some s
      | _ => none
  | _ => []

def extractFileOperations (messages : List AgentMessage)
    (prevCompaction : Option CompactionEntry) : FileOperations :=
  let fileOps :=
    match prevCompaction with
    | some c =>
      if c.fromHook = some true then createFileOps
      else
        { read := (strings (c.details.bind (·.get "readFiles"))).foldl addOnce []
          edited :=
            (strings (c.details.bind (·.get "modifiedFiles"))).foldl addOnce
              [] }
    | none => createFileOps
  messages.foldl extractFileOpsFromMessage fileOps

-- ======== the preparation

structure CompactionSettings where
  enabled : Bool
  reserveTokens : ℚ
  keepRecentTokens : ℚ

structure CompactionPreparation where
  firstKeptEntryId : String
  messagesToSummarize : List AgentMessage
  turnPrefixMessages : List AgentMessage
  isSplitTurn : Bool
  tokensBefore : ℚ
  previousSummary : Option String
  fileOps : FileOperations
  settings : CompactionSettings

/-- The last compaction of a path, and its index. -/
def prevCompaction (pathEntries : List SessionEntry) :
    Option (Nat × CompactionEntry) := do
  let c ← pathEntries.reverse.findSome? (·.compaction?)
  let behind := pathEntries.reverse.findIdx (·.isCompaction)
  return (pathEntries.length - 1 - behind, c)

/-- Where the part of the path starts that is not summarized yet. -/
def boundaryStart (pathEntries : List SessionEntry) : Nat :=
  match prevCompaction pathEntries with
  | none => 0
  | some (index, c) =>
    (pathEntries.findIdx? (·.id = c.firstKeptEntryId)).getD (index + 1)

/-- `none` where a walk of the path never ends. -/
def prepareCompaction (pathEntries : List SessionEntry)
    (settings : CompactionSettings) : Option (Option CompactionPreparation) :=
  if pathEntries.getLast?.any (·.isCompaction) then some none
  else
    let prev := prevCompaction pathEntries
    let previousSummary := prev.map (·.2.summary)
    let start := boundaryStart pathEntries
    (buildSessionContext (pathEntries.map .entry) .undefined none).map
      fun context =>
        let tokensBefore := estimateContextTokens context.messages
        let cutPoint := findCutPoint pathEntries start pathEntries.length
          settings.keepRecentTokens
        match pathEntries[cutPoint.firstKeptEntryIndex]? with
        | none => none
        | some firstKeptEntry =>
          if firstKeptEntry.id = "" then none
          else
            let historyEnd :=
              if cutPoint.isSplitTurn then
                cutPoint.turnStartIndex.getD 0
              else cutPoint.firstKeptEntryIndex
            let messagesToSummarize :=
              messagesBetween pathEntries start historyEnd
            let turnPrefixMessages :=
              if cutPoint.isSplitTurn then
                messagesBetween pathEntries
                  (cutPoint.turnStartIndex.getD 0)
                  cutPoint.firstKeptEntryIndex
              else []
            if messagesToSummarize.isEmpty ∧ turnPrefixMessages.isEmpty
                ∧ previousSummary.getD "" = "" then none
            else
              let fileOps :=
                turnPrefixMessages.foldl extractFileOpsFromMessage
                  (extractFileOperations messagesToSummarize (prev.map (·.2)))
              some
                { firstKeptEntryId := firstKeptEntry.id
                  messagesToSummarize := messagesToSummarize
                  turnPrefixMessages := turnPrefixMessages
                  isSplitTurn := cutPoint.isSplitTurn
                  tokensBefore := tokensBefore
                  previousSummary := previousSummary
                  fileOps := fileOps
                  settings := settings }

-- ======== turn boundaries

/-- The entry has a message for the summary. -/
def SessionEntry.isProducing (e : SessionEntry) : Bool :=
  (getMessageFromEntryForCompaction e).isSome

section
variable (entries : List SessionEntry)

def TurnStartAt (i : Nat) : Prop := entries[i]?.any (·.isTurnStart)

def ProducingAt (i : Nat) : Prop := entries[i]?.any (·.isProducing)

/-- A message or a compaction: where the walk back stops. -/
def StopAt (i : Nat) : Prop :=
  entries[i]?.any fun e => e.isCompaction || e.isMessage

/-- The first message at or after the index starts a turn. -/
def StartsTurn (k : Nat) : Prop :=
  ∃ t, k ≤ t ∧ ProducingAt entries t ∧ TurnStartAt entries t
    ∧ ∀ i, k ≤ i → i < t → ¬ ProducingAt entries i

/-- A cut at a turn boundary: the prefix of the turn that is split, as it is
reported, has no message. -/
def AtBoundary (r : CutPointResult) : Prop :=
  StartsTurn entries r.firstKeptEntryIndex → r.isSplitTurn →
    ∀ i, r.turnStartIndex.getD 0 ≤ i → i < r.firstKeptEntryIndex →
      ¬ ProducingAt entries i

variable (startIndex endIndex : Nat) (keepRecentTokens : ℚ)

def weight (e : Option SessionEntry) : Nat :=
  match e.map SessionEntry.body with
  | some (.message message) => estimateTokens message
  | _ => 0

/-- The tokens of the messages from the index up to the end of the range. -/
def tokensFrom (i : Nat) : Nat :=
  ((List.range' i (endIndex - i)).map fun j => weight entries[j]?).sum

def MessageAt (i : Nat) : Prop := entries[i]?.any (·.isMessage)

/-- The newest message from which on the budget is reached. -/
structure Crosses (i : Nat) : Prop where
  start : startIndex ≤ i
  stop : i < endIndex
  message : MessageAt entries i
  reached : keepRecentTokens ≤ tokensFrom entries endIndex i
  newest : ∀ j, i < j → j < endIndex → MessageAt entries j →
    (tokensFrom entries endIndex j : ℚ) < keepRecentTokens

def CutAt (c : Nat) : Prop :=
  startIndex ≤ c ∧ c < endIndex ∧ entries[c]?.any (·.isCutPoint)

/-- The cut point that keeps the budget: the first at or after where it is
reached, or the last one; and the first of all where it is not reached. -/
structure Lands (c : Nat) : Prop where
  valid : CutAt entries startIndex endIndex c
  reached : ∀ i, Crosses entries startIndex endIndex keepRecentTokens i →
    (i ≤ c ∧ ∀ c', CutAt entries startIndex endIndex c' → i ≤ c' → c ≤ c')
      ∨ ∀ c', CutAt entries startIndex endIndex c' → c' < i ∧ c' ≤ c
  all : (∀ i, ¬ Crosses entries startIndex endIndex keepRecentTokens i) →
    ∀ c', CutAt entries startIndex endIndex c' → c ≤ c'

/-- Before the cut point, back to a message or a compaction, come entries of
which the first starts no turn; the first message from there on starts one,
and an earlier turn has messages before them. -/
def Misread : Prop :=
  ∃ c k, Lands entries startIndex endIndex keepRecentTokens c
    ∧ startIndex ≤ k ∧ k ≤ c
    ∧ (∀ i, k ≤ i → i < c → ¬ StopAt entries i)
    ∧ (k = startIndex ∨ StopAt entries (k - 1))
    ∧ ¬ TurnStartAt entries k ∧ StartsTurn entries k
    ∧ ∃ j i, startIndex ≤ j ∧ j ≤ i ∧ i < k ∧ TurnStartAt entries j
      ∧ (∀ j', j < j' → j' < k → ¬ TurnStartAt entries j')
      ∧ ProducingAt entries i

end

end OneHarness.Session
