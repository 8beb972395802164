/-
The data a session is made of: usage, messages, entries, the header.

Field names, order and optionality follow the interfaces of the source;
an optional field is an `Option`, and a discriminated union is an
inductive with one constructor per `type` or `role`. Values the code
only carries (tool arguments, extension details, diagnostics) are JSON.

# Numbers and times

A stored number is its numeral. The timestamp of a message that the code
builds from an entry is `new Date(entry.timestamp).getTime()`; `none` is
`NaN`, which is also what a stored `null` reads as.
-/
import OneHarness.Lib.IsoDate
import OneHarness.Lib.Json.Numeral

namespace OneHarness.Session

open Lib

-- ======== usage

/-- The cost part of a usage record. -/
structure UsageCost where
  input : Numeral
  output : Numeral
  cacheRead : Numeral
  cacheWrite : Numeral
  total : Numeral
deriving DecidableEq

/-- Token counts and cost of one model response. -/
structure Usage where
  input : Numeral
  output : Numeral
  cacheRead : Numeral
  cacheWrite : Numeral
  totalTokens : Numeral
  cost : UsageCost
deriving DecidableEq

/-- `cloneUsage`: a field-by-field copy. -/
def cloneUsage (usage : Usage) : Usage where
  input := usage.input
  output := usage.output
  cacheRead := usage.cacheRead
  cacheWrite := usage.cacheWrite
  totalTokens := usage.totalTokens
  cost :=
    { input := usage.cost.input
      output := usage.cost.output
      cacheRead := usage.cost.cacheRead
      cacheWrite := usage.cost.cacheWrite
      total := usage.cost.total }

-- ======== messages

/-- `TextContent | ImageContent`. -/
inductive ContentBlock where
  | text (text : String) (textSignature : Option String)
  | image (data mimeType : String)
deriving DecidableEq

/-- `string | (TextContent | ImageContent)[]`. -/
inductive MessageContent where
  | text (text : String)
  | blocks (blocks : List ContentBlock)
deriving DecidableEq

/-- `TextContent | ThinkingContent | ToolCall`. -/
inductive AssistantBlock where
  | text (text : String) (textSignature : Option String)
  | thinking (thinking : String) (thinkingSignature : Option String)
      (redacted : Option Bool)
  | toolCall (id name : String) (arguments : List (String × Json))
      (thoughtSignature : Option String)

inductive StopReason where
  | stop | length | toolUse | error | aborted
deriving DecidableEq

structure UserMessage where
  content : MessageContent
  timestamp : Numeral

structure AssistantMessage where
  content : List AssistantBlock
  api : String
  provider : String
  model : String
  responseModel : Option String
  responseId : Option String
  diagnostics : Option Json
  usage : Usage
  stopReason : StopReason
  stopReasonRaw : Option String
  errorMessage : Option String
  timestamp : Numeral

structure ToolResultMessage where
  toolCallId : String
  toolName : String
  content : List ContentBlock
  details : Option Json
  isError : Bool
  timestamp : Numeral

structure BashExecutionMessage where
  command : String
  output : String
  exitCode : Option Numeral
  cancelled : Bool
  truncated : Bool
  fullOutputPath : Option String
  timestamp : Numeral
  excludeFromContext : Option Bool

structure CustomMessage where
  customType : String
  content : MessageContent
  display : Bool
  details : Option Json
  timestamp : Option Numeral

structure BranchSummaryMessage where
  summary : String
  fromId : String
  timestamp : Option Numeral

structure CompactionSummaryMessage where
  summary : String
  tokensBefore : Numeral
  retainedMessageCount : Option Numeral
  customInstructions : Option String
  harnessDigest : Option String
  harnessStateFingerprint : Option String
  timestamp : Option Numeral

/-- The messages of a conversation, by role. -/
inductive AgentMessage where
  | user (m : UserMessage)
  | assistant (m : AssistantMessage)
  | toolResult (m : ToolResultMessage)
  | bashExecution (m : BashExecutionMessage)
  | custom (m : CustomMessage)
  | branchSummary (m : BranchSummaryMessage)
  | compactionSummary (m : CompactionSummaryMessage)

/-- `message.role === "assistant"`. -/
def AgentMessage.isAssistant : AgentMessage → Bool
  | .assistant _ => true
  | _ => false

/-- `message.role === "toolResult"`. -/
def AgentMessage.isToolResult : AgentMessage → Bool
  | .toolResult _ => true
  | _ => false

-- ======== entries

/-- `"auto" | "default" | "flex" | "scale" | "priority" | null`. -/
inductive ServiceTier where
  | auto | default | flex | scale | priority | null
deriving DecidableEq

structure GitContext where
  repoUrl : Option String
  commit : Option String
  branch : Option String
deriving DecidableEq

inductive SessionStateStatus where
  | active | archived | crash
deriving DecidableEq

inductive AgentTaskState where
  | needsInput | completed | error
deriving DecidableEq

structure AgentStatus where
  summary : String
  taskState : Option AgentTaskState
  basedOnMessageCount : Numeral

inductive UsageOrigin where
  | spawnTask | agentMessage | directUser
deriving DecidableEq

structure CompactionEntry where
  summary : String
  firstKeptEntryId : String
  tokensBefore : Numeral
  details : Option Json
  fromHook : Option Bool
  customInstructions : Option String
  usage : Option Usage
  harnessDigest : Option String
  harnessStateFingerprint : Option String

structure BranchSummaryEntry where
  fromId : String
  summary : String
  details : Option Json
  fromHook : Option Bool
  usage : Option Usage

structure ChildUsageAttributionEntry where
  targetId : String
  childUsage : Usage
  aggregateUsage : Usage
  origin : Option UsageOrigin

structure CustomMessageEntry where
  customType : String
  content : MessageContent
  details : Option Json
  display : Bool

/-- What an entry holds besides its base: one constructor per `type`. -/
inductive EntryBody where
  | message (message : AgentMessage)
  | thinkingLevelChange (thinkingLevel : String)
  | serviceTierChange (serviceTier : ServiceTier)
  | modelChange (provider modelId : String)
  | compaction (c : CompactionEntry)
  | branchSummary (b : BranchSummaryEntry)
  | custom (customType : String) (data : Option Json)
  | childUsageAttributed (a : ChildUsageAttributionEntry)
  | customMessage (c : CustomMessageEntry)
  | label (targetId : String) (label : Option String)
  | sessionInfo (name : Option String)
  | sessionState (status : SessionStateStatus)
  | agentStatus (status : AgentStatus)
  | gitState (git : GitContext)

/-- One entry: its base and its body. -/
structure SessionEntry where
  id : String
  parentId : Option String
  timestamp : String
  body : EntryBody

structure SessionHeader where
  version : Option Numeral
  id : String
  timestamp : String
  cwd : String
  parentSession : Option String
  rlmDepth : Option Numeral
  git : Option GitContext

/-- One line of a session file. -/
inductive FileEntry where
  | session (header : SessionHeader)
  | entry (e : SessionEntry)

namespace SessionEntry

/-- `entry.type === "message" && entry.message.role === "assistant"`. -/
def assistant? (e : SessionEntry) : Option AssistantMessage :=
  match e.body with
  | .message (.assistant m) => some m
  | _ => none

/-- `entry.type === "compaction"`. -/
def compaction? (e : SessionEntry) : Option CompactionEntry :=
  match e.body with
  | .compaction c => some c
  | _ => none

/-- `entry.type === "label"`. -/
def isLabel (e : SessionEntry) : Bool :=
  match e.body with
  | .label _ _ => true
  | _ => false

/-- `entry.type === "git_state"`. -/
def isGitState (e : SessionEntry) : Bool :=
  match e.body with
  | .gitState _ => true
  | _ => false

/-- `entry.type === "compaction"`. -/
def isCompaction (e : SessionEntry) : Bool := e.compaction?.isSome

/-- `entry.type === "message"`. -/
def isMessage (e : SessionEntry) : Bool :=
  match e.body with
  | .message _ => true
  | _ => false

/-- The message a tool result answers with, if the entry is one. -/
def toolResult? (e : SessionEntry) : Option ToolResultMessage :=
  match e.body with
  | .message (.toolResult m) => some m
  | _ => none

theorem isCompaction_iff {e : SessionEntry} :
    e.isCompaction = true ↔ ∃ c, e.body = .compaction c := by
  unfold isCompaction compaction?
  cases e.body <;> simp

theorem compaction?_eq_some {e : SessionEntry} {c : CompactionEntry} :
    e.compaction? = some c ↔ e.body = .compaction c := by
  unfold compaction?
  cases e.body <;> simp

theorem assistant?_eq_some {e : SessionEntry} {m : AssistantMessage} :
    e.assistant? = some m ↔ e.body = .message (.assistant m) := by
  unfold assistant?
  split
  case h_1 a heq =>
    rw [heq, Option.some.injEq, EntryBody.message.injEq,
      AgentMessage.assistant.injEq]
  case h_2 hne =>
    refine ⟨fun h => absurd h (by simp), fun h => absurd h (hne m)⟩

end SessionEntry

/-- The entry of a file line that is not the header. -/
def FileEntry.entry? : FileEntry → Option SessionEntry
  | .session _ => none
  | .entry e => some e

/-- The header of a file line that is one. -/
def FileEntry.header? : FileEntry → Option SessionHeader
  | .session h => some h
  | .entry _ => none

/-- `entries.filter((e) => e.type !== "session")`. -/
def entriesOf (fileEntries : List FileEntry) : List SessionEntry :=
  fileEntries.filterMap FileEntry.entry?

@[simp] theorem entriesOf_nil : entriesOf [] = [] := rfl

@[simp] theorem entriesOf_append (xs ys : List FileEntry) :
    entriesOf (xs ++ ys) = entriesOf xs ++ entriesOf ys :=
  List.filterMap_append

@[simp] theorem entriesOf_session (h : SessionHeader) (xs : List FileEntry) :
    entriesOf (.session h :: xs) = entriesOf xs := rfl

@[simp] theorem entriesOf_entry (e : SessionEntry) (xs : List FileEntry) :
    entriesOf (.entry e :: xs) = e :: entriesOf xs := rfl

@[simp] theorem entriesOf_map_entry (es : List SessionEntry) :
    entriesOf (es.map .entry) = es := by
  induction es with
  | nil => rfl
  | cons e es ih => rw [List.map_cons, entriesOf_entry, ih]

end OneHarness.Session
