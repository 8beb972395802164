/-
The JSON form of a session's data, and reading it back.

Every type of Session/Types.lean is a `JsonCodec`: its object has the
members of the source's literal, in that order, an absent optional field
left out. What a line holds is therefore its entry: nothing is lost and
nothing has to be assumed about the text.
-/
import OneHarness.Lib.Json.Codec
import OneHarness.Session.Types

namespace OneHarness.Session

open Lib Lib.Json

-- ======== usage

instance : JsonCodec UsageCost where
  toJson c := fields
    [("input", some (toJson c.input)), ("output", some (toJson c.output)),
      ("cacheRead", some (toJson c.cacheRead)),
      ("cacheWrite", some (toJson c.cacheWrite)),
      ("total", some (toJson c.total))]
  ofJson j := do
    return {
      input := ← required (j.get "input")
      output := ← required (j.get "output")
      cacheRead := ← required (j.get "cacheRead")
      cacheWrite := ← required (j.get "cacheWrite")
      total := ← required (j.get "total") }
  ofJson_toJson c := by simp

instance : JsonCodec Usage where
  toJson u := fields
    [("input", some (toJson u.input)), ("output", some (toJson u.output)),
      ("cacheRead", some (toJson u.cacheRead)),
      ("cacheWrite", some (toJson u.cacheWrite)),
      ("totalTokens", some (toJson u.totalTokens)),
      ("cost", some (toJson u.cost))]
  ofJson j := do
    return {
      input := ← required (j.get "input")
      output := ← required (j.get "output")
      cacheRead := ← required (j.get "cacheRead")
      cacheWrite := ← required (j.get "cacheWrite")
      totalTokens := ← required (j.get "totalTokens")
      cost := ← required (j.get "cost") }
  ofJson_toJson u := by simp

-- ======== messages

instance : JsonCodec ContentBlock where
  toJson
    | .text text sig => fields
        [("type", some (.str "text")), ("text", some (toJson text)),
          ("textSignature", sig.map toJson)]
    | .image data mimeType => fields
        [("type", some (.str "image")), ("data", some (toJson data)),
          ("mimeType", some (toJson mimeType))]
  ofJson j :=
    match j.get "type" with
    | some (.str "text") => do
        return .text (← required (j.get "text"))
          (← omittable (j.get "textSignature"))
    | some (.str "image") => do
        return .image (← required (j.get "data"))
          (← required (j.get "mimeType"))
    | _ => none
  ofJson_toJson b := by cases b <;> simp

instance : JsonCodec MessageContent where
  toJson
    | .text text => .str text
    | .blocks blocks => toJson blocks
  ofJson
    | .str text => some (.text text)
    | j => (ofJson j).map .blocks
  ofJson_toJson c := by
    cases c with
    | text text => rfl
    | blocks blocks =>
      have h := JsonCodec.ofJson_toJson blocks
      change (ofJson (toJson blocks)).map MessageContent.blocks = _
      rw [h, Option.map_some]

instance : JsonCodec AssistantBlock where
  toJson
    | .text text sig => fields
        [("type", some (.str "text")), ("text", some (toJson text)),
          ("textSignature", sig.map toJson)]
    | .thinking thinking sig redacted => fields
        [("type", some (.str "thinking")),
          ("thinking", some (toJson thinking)),
          ("thinkingSignature", sig.map toJson),
          ("redacted", redacted.map toJson)]
    | .toolCall id name arguments sig => fields
        [("type", some (.str "toolCall")), ("id", some (toJson id)),
          ("name", some (toJson name)),
          ("arguments", some (toJson arguments)),
          ("thoughtSignature", sig.map toJson)]
  ofJson j :=
    match j.get "type" with
    | some (.str "text") => do
        return .text (← required (j.get "text"))
          (← omittable (j.get "textSignature"))
    | some (.str "thinking") => do
        return .thinking (← required (j.get "thinking"))
          (← omittable (j.get "thinkingSignature"))
          (← omittable (j.get "redacted"))
    | some (.str "toolCall") => do
        return .toolCall (← required (j.get "id"))
          (← required (j.get "name")) (← required (j.get "arguments"))
          (← omittable (j.get "thoughtSignature"))
    | _ => none
  ofJson_toJson b := by cases b <;> simp

instance : JsonCodec StopReason where
  toJson
    | .stop => .str "stop"
    | .length => .str "length"
    | .toolUse => .str "toolUse"
    | .error => .str "error"
    | .aborted => .str "aborted"
  ofJson
    | .str "stop" => some .stop
    | .str "length" => some .length
    | .str "toolUse" => some .toolUse
    | .str "error" => some .error
    | .str "aborted" => some .aborted
    | _ => none
  ofJson_toJson r := by cases r <;> rfl

instance : JsonCodec UserMessage where
  toJson m := fields
    [("role", some (.str "user")), ("content", some (toJson m.content)),
      ("timestamp", some (toJson m.timestamp))]
  ofJson j := do
    return {
      content := ← required (j.get "content")
      timestamp := ← required (j.get "timestamp") }
  ofJson_toJson m := by simp

instance : JsonCodec AssistantMessage where
  toJson m := fields
    [("role", some (.str "assistant")), ("content", some (toJson m.content)),
      ("api", some (toJson m.api)), ("provider", some (toJson m.provider)),
      ("model", some (toJson m.model)),
      ("responseModel", m.responseModel.map toJson),
      ("responseId", m.responseId.map toJson),
      ("diagnostics", m.diagnostics.map toJson),
      ("usage", some (toJson m.usage)),
      ("stopReason", some (toJson m.stopReason)),
      ("stopReasonRaw", m.stopReasonRaw.map toJson),
      ("errorMessage", m.errorMessage.map toJson),
      ("timestamp", some (toJson m.timestamp))]
  ofJson j := do
    return {
      content := ← required (j.get "content")
      api := ← required (j.get "api")
      provider := ← required (j.get "provider")
      model := ← required (j.get "model")
      responseModel := ← omittable (j.get "responseModel")
      responseId := ← omittable (j.get "responseId")
      diagnostics := ← omittable (j.get "diagnostics")
      usage := ← required (j.get "usage")
      stopReason := ← required (j.get "stopReason")
      stopReasonRaw := ← omittable (j.get "stopReasonRaw")
      errorMessage := ← omittable (j.get "errorMessage")
      timestamp := ← required (j.get "timestamp") }
  ofJson_toJson m := by simp

instance : JsonCodec ToolResultMessage where
  toJson m := fields
    [("role", some (.str "toolResult")),
      ("toolCallId", some (toJson m.toolCallId)),
      ("toolName", some (toJson m.toolName)),
      ("content", some (toJson m.content)),
      ("details", m.details.map toJson),
      ("isError", some (toJson m.isError)),
      ("timestamp", some (toJson m.timestamp))]
  ofJson j := do
    return {
      toolCallId := ← required (j.get "toolCallId")
      toolName := ← required (j.get "toolName")
      content := ← required (j.get "content")
      details := ← omittable (j.get "details")
      isError := ← required (j.get "isError")
      timestamp := ← required (j.get "timestamp") }
  ofJson_toJson m := by simp

instance : JsonCodec BashExecutionMessage where
  toJson m := fields
    [("role", some (.str "bashExecution")),
      ("command", some (toJson m.command)), ("output", some (toJson m.output)),
      ("exitCode", m.exitCode.map toJson),
      ("cancelled", some (toJson m.cancelled)),
      ("truncated", some (toJson m.truncated)),
      ("fullOutputPath", m.fullOutputPath.map toJson),
      ("timestamp", some (toJson m.timestamp)),
      ("excludeFromContext", m.excludeFromContext.map toJson)]
  ofJson j := do
    return {
      command := ← required (j.get "command")
      output := ← required (j.get "output")
      exitCode := ← omittable (j.get "exitCode")
      cancelled := ← required (j.get "cancelled")
      truncated := ← required (j.get "truncated")
      fullOutputPath := ← omittable (j.get "fullOutputPath")
      timestamp := ← required (j.get "timestamp")
      excludeFromContext := ← omittable (j.get "excludeFromContext") }
  ofJson_toJson m := by simp

/-- A timestamp may be `null`: that is how `NaN` is written. -/
@[simp] theorem nullable_numeral (o : Option Numeral) :
    nullable (some (orNull o)) = some o :=
  nullable_orNull (fun _ h => by cases h) o

@[simp] theorem nullable_string (o : Option String) :
    nullable (some (orNull o)) = some o :=
  nullable_orNull (fun _ h => by cases h) o

instance : JsonCodec CustomMessage where
  toJson m := fields
    [("role", some (.str "custom")),
      ("customType", some (toJson m.customType)),
      ("content", some (toJson m.content)),
      ("display", some (toJson m.display)),
      ("details", m.details.map toJson),
      ("timestamp", some (orNull m.timestamp))]
  ofJson j := do
    return {
      customType := ← required (j.get "customType")
      content := ← required (j.get "content")
      display := ← required (j.get "display")
      details := ← omittable (j.get "details")
      timestamp := ← nullable (j.get "timestamp") }
  ofJson_toJson m := by simp

instance : JsonCodec BranchSummaryMessage where
  toJson m := fields
    [("role", some (.str "branchSummary")),
      ("summary", some (toJson m.summary)), ("fromId", some (toJson m.fromId)),
      ("timestamp", some (orNull m.timestamp))]
  ofJson j := do
    return {
      summary := ← required (j.get "summary")
      fromId := ← required (j.get "fromId")
      timestamp := ← nullable (j.get "timestamp") }
  ofJson_toJson m := by simp

instance : JsonCodec CompactionSummaryMessage where
  toJson m := fields
    [("role", some (.str "compactionSummary")),
      ("summary", some (toJson m.summary)),
      ("tokensBefore", some (toJson m.tokensBefore)),
      ("retainedMessageCount", m.retainedMessageCount.map toJson),
      ("customInstructions", m.customInstructions.map toJson),
      ("harnessDigest", m.harnessDigest.map toJson),
      ("harnessStateFingerprint", m.harnessStateFingerprint.map toJson),
      ("timestamp", some (orNull m.timestamp))]
  ofJson j := do
    return {
      summary := ← required (j.get "summary")
      tokensBefore := ← required (j.get "tokensBefore")
      retainedMessageCount := ← omittable (j.get "retainedMessageCount")
      customInstructions := ← omittable (j.get "customInstructions")
      harnessDigest := ← omittable (j.get "harnessDigest")
      harnessStateFingerprint := ← omittable (j.get "harnessStateFingerprint")
      timestamp := ← nullable (j.get "timestamp") }
  ofJson_toJson m := by simp

@[simp] theorem get_role_user (m : UserMessage) :
    (toJson m).get "role" = some (.str "user") := by
  simp [toJson]

@[simp] theorem get_role_assistant (m : AssistantMessage) :
    (toJson m).get "role" = some (.str "assistant") := by
  simp [toJson]

@[simp] theorem get_role_toolResult (m : ToolResultMessage) :
    (toJson m).get "role" = some (.str "toolResult") := by
  simp [toJson]

@[simp] theorem get_role_bashExecution (m : BashExecutionMessage) :
    (toJson m).get "role" = some (.str "bashExecution") := by
  simp [toJson]

@[simp] theorem get_role_custom (m : CustomMessage) :
    (toJson m).get "role" = some (.str "custom") := by
  simp [toJson]

@[simp] theorem get_role_branchSummary (m : BranchSummaryMessage) :
    (toJson m).get "role" = some (.str "branchSummary") := by
  simp [toJson]

@[simp] theorem get_role_compactionSummary (m : CompactionSummaryMessage) :
    (toJson m).get "role" = some (.str "compactionSummary") := by
  simp [toJson]

instance : JsonCodec AgentMessage where
  toJson
    | .user m => toJson m
    | .assistant m => toJson m
    | .toolResult m => toJson m
    | .bashExecution m => toJson m
    | .custom m => toJson m
    | .branchSummary m => toJson m
    | .compactionSummary m => toJson m
  ofJson j :=
    match j.get "role" with
    | some (.str "user") => (ofJson j).map .user
    | some (.str "assistant") => (ofJson j).map .assistant
    | some (.str "toolResult") => (ofJson j).map .toolResult
    | some (.str "bashExecution") => (ofJson j).map .bashExecution
    | some (.str "custom") => (ofJson j).map .custom
    | some (.str "branchSummary") => (ofJson j).map .branchSummary
    | some (.str "compactionSummary") => (ofJson j).map .compactionSummary
    | _ => none
  ofJson_toJson m := by cases m <;> simp

-- ======== entries

instance : JsonCodec ServiceTier where
  toJson
    | .auto => .str "auto"
    | .default => .str "default"
    | .flex => .str "flex"
    | .scale => .str "scale"
    | .priority => .str "priority"
    | .null => .null
  ofJson
    | .str "auto" => some .auto
    | .str "default" => some .default
    | .str "flex" => some .flex
    | .str "scale" => some .scale
    | .str "priority" => some .priority
    | .null => some .null
    | _ => none
  ofJson_toJson t := by cases t <;> rfl

instance : JsonCodec GitContext where
  toJson g := fields
    [("repoUrl", g.repoUrl.map toJson), ("commit", g.commit.map toJson),
      ("branch", g.branch.map toJson)]
  ofJson j := do
    return {
      repoUrl := ← omittable (j.get "repoUrl")
      commit := ← omittable (j.get "commit")
      branch := ← omittable (j.get "branch") }
  ofJson_toJson g := by simp

instance : JsonCodec SessionStateStatus where
  toJson
    | .active => .str "active"
    | .archived => .str "archived"
    | .crash => .str "crash"
  ofJson
    | .str "active" => some .active
    | .str "archived" => some .archived
    | .str "crash" => some .crash
    | _ => none
  ofJson_toJson t := by cases t <;> rfl

instance : JsonCodec AgentTaskState where
  toJson
    | .needsInput => .str "needs_input"
    | .completed => .str "completed"
    | .error => .str "error"
  ofJson
    | .str "needs_input" => some .needsInput
    | .str "completed" => some .completed
    | .str "error" => some .error
    | _ => none
  ofJson_toJson t := by cases t <;> rfl

instance : JsonCodec AgentStatus where
  toJson s := fields
    [("summary", some (toJson s.summary)),
      ("taskState", s.taskState.map toJson),
      ("basedOnMessageCount", some (toJson s.basedOnMessageCount))]
  ofJson j := do
    return {
      summary := ← required (j.get "summary")
      taskState := ← omittable (j.get "taskState")
      basedOnMessageCount := ← required (j.get "basedOnMessageCount") }
  ofJson_toJson s := by simp

instance : JsonCodec UsageOrigin where
  toJson
    | .spawnTask => .str "spawn_task"
    | .agentMessage => .str "agent_message"
    | .directUser => .str "direct_user"
  ofJson
    | .str "spawn_task" => some .spawnTask
    | .str "agent_message" => some .agentMessage
    | .str "direct_user" => some .directUser
    | _ => none
  ofJson_toJson t := by cases t <;> rfl

/-- `{ status }`. -/
def stateFields (status : SessionStateStatus) : Json :=
  fields [("status", some (toJson status))]

/-- The members of an entry. `custom` and `custom_message` write their
own before the base. -/
def entryFields (e : SessionEntry) : List (String × Option Json) :=
  let base : List (String × Option Json) :=
    [("id", some (toJson e.id)), ("parentId", some (orNull e.parentId)),
      ("timestamp", some (toJson e.timestamp))]
  match e.body with
  | .message m =>
    ("type", some (.str "message")) :: base
      ++ [("message", some (toJson m))]
  | .thinkingLevelChange level =>
    ("type", some (.str "thinking_level_change")) :: base
      ++ [("thinkingLevel", some (toJson level))]
  | .serviceTierChange tier =>
    ("type", some (.str "service_tier_change")) :: base
      ++ [("serviceTier", some (toJson tier))]
  | .modelChange provider modelId =>
    ("type", some (.str "model_change")) :: base
      ++ [("provider", some (toJson provider)),
        ("modelId", some (toJson modelId))]
  | .compaction c =>
    ("type", some (.str "compaction")) :: base
      ++ [("summary", some (toJson c.summary)),
        ("firstKeptEntryId", some (toJson c.firstKeptEntryId)),
        ("tokensBefore", some (toJson c.tokensBefore)),
        ("details", c.details.map toJson),
        ("fromHook", c.fromHook.map toJson),
        ("customInstructions", c.customInstructions.map toJson),
        ("usage", c.usage.map toJson),
        ("harnessDigest", c.harnessDigest.map toJson),
        ("harnessStateFingerprint", c.harnessStateFingerprint.map toJson)]
  | .branchSummary b =>
    ("type", some (.str "branch_summary")) :: base
      ++ [("fromId", some (toJson b.fromId)),
        ("summary", some (toJson b.summary)),
        ("details", b.details.map toJson),
        ("fromHook", b.fromHook.map toJson), ("usage", b.usage.map toJson)]
  | .custom customType data =>
    [("type", some (.str "custom")), ("customType", some (toJson customType)),
      ("data", data.map toJson)] ++ base
  | .childUsageAttributed a =>
    ("type", some (.str "child_usage_attributed")) :: base
      ++ [("targetId", some (toJson a.targetId)),
        ("childUsage", some (toJson a.childUsage)),
        ("aggregateUsage", some (toJson a.aggregateUsage)),
        ("origin", a.origin.map toJson)]
  | .customMessage c =>
    [("type", some (.str "custom_message")),
      ("customType", some (toJson c.customType)),
      ("content", some (toJson c.content)),
      ("display", some (toJson c.display)),
      ("details", c.details.map toJson)] ++ base
  | .label targetId label =>
    ("type", some (.str "label")) :: base
      ++ [("targetId", some (toJson targetId)), ("label", label.map toJson)]
  | .sessionInfo name =>
    ("type", some (.str "session_info")) :: base
      ++ [("name", name.map toJson)]
  | .sessionState status =>
    ("type", some (.str "session_state")) :: base
      ++ [("state", some (stateFields status))]
  | .agentStatus status =>
    ("type", some (.str "agent_status")) :: base
      ++ [("status", some (toJson status))]
  | .gitState git =>
    ("type", some (.str "git_state")) :: base
      ++ [("git", some (toJson git))]

/-- The body of an entry, by its `type`. -/
def readBody (j : Json) : Option EntryBody :=
  match j.get "type" with
  | some (.str "message") => (required (j.get "message")).map .message
  | some (.str "thinking_level_change") =>
    (required (j.get "thinkingLevel")).map .thinkingLevelChange
  | some (.str "service_tier_change") =>
    (required (j.get "serviceTier")).map .serviceTierChange
  | some (.str "model_change") => do
      return .modelChange (← required (j.get "provider"))
        (← required (j.get "modelId"))
  | some (.str "compaction") => do
      return .compaction {
        summary := ← required (j.get "summary")
        firstKeptEntryId := ← required (j.get "firstKeptEntryId")
        tokensBefore := ← required (j.get "tokensBefore")
        details := ← omittable (j.get "details")
        fromHook := ← omittable (j.get "fromHook")
        customInstructions := ← omittable (j.get "customInstructions")
        usage := ← omittable (j.get "usage")
        harnessDigest := ← omittable (j.get "harnessDigest")
        harnessStateFingerprint :=
          ← omittable (j.get "harnessStateFingerprint") }
  | some (.str "branch_summary") => do
      return .branchSummary {
        fromId := ← required (j.get "fromId")
        summary := ← required (j.get "summary")
        details := ← omittable (j.get "details")
        fromHook := ← omittable (j.get "fromHook")
        usage := ← omittable (j.get "usage") }
  | some (.str "custom") => do
      return .custom (← required (j.get "customType"))
        (← omittable (j.get "data"))
  | some (.str "child_usage_attributed") => do
      return .childUsageAttributed {
        targetId := ← required (j.get "targetId")
        childUsage := ← required (j.get "childUsage")
        aggregateUsage := ← required (j.get "aggregateUsage")
        origin := ← omittable (j.get "origin") }
  | some (.str "custom_message") => do
      return .customMessage {
        customType := ← required (j.get "customType")
        content := ← required (j.get "content")
        display := ← required (j.get "display")
        details := ← omittable (j.get "details") }
  | some (.str "label") => do
      return .label (← required (j.get "targetId"))
        (← omittable (j.get "label"))
  | some (.str "session_info") =>
    (omittable (j.get "name")).map .sessionInfo
  | some (.str "session_state") => do
      let state : Json ← j.get "state"
      return .sessionState (← required (state.get "status"))
  | some (.str "agent_status") =>
    (required (j.get "status")).map .agentStatus
  | some (.str "git_state") => (required (j.get "git")).map .gitState
  | _ => none

theorem readBody_entryFields (e : SessionEntry) :
    readBody (fields (entryFields e)) = some e.body := by
  obtain ⟨id, parentId, timestamp, body⟩ := e
  cases body <;> simp [entryFields, readBody, stateFields]

instance : JsonCodec SessionEntry where
  toJson e := fields (entryFields e)
  ofJson j := do
    return {
      id := ← required (j.get "id")
      parentId := ← nullable (j.get "parentId")
      timestamp := ← required (j.get "timestamp")
      body := ← readBody j }
  ofJson_toJson e := by
    rw [readBody_entryFields]
    obtain ⟨id, parentId, timestamp, body⟩ := e
    cases body <;> simp [entryFields]

-- ======== file lines

instance : JsonCodec SessionHeader where
  toJson h := fields
    [("type", some (.str "session")), ("version", h.version.map toJson),
      ("id", some (toJson h.id)), ("timestamp", some (toJson h.timestamp)),
      ("cwd", some (toJson h.cwd)),
      ("parentSession", h.parentSession.map toJson),
      ("rlmDepth", h.rlmDepth.map toJson), ("git", h.git.map toJson)]
  ofJson j := do
    return {
      version := ← omittable (j.get "version")
      id := ← required (j.get "id")
      timestamp := ← required (j.get "timestamp")
      cwd := ← required (j.get "cwd")
      parentSession := ← omittable (j.get "parentSession")
      rlmDepth := ← omittable (j.get "rlmDepth")
      git := ← omittable (j.get "git") }
  ofJson_toJson h := by simp

@[simp] theorem get_type_session (h : SessionHeader) :
    (toJson h).get "type" = some (.str "session") := by
  simp [toJson]

theorem get_type_entry (e : SessionEntry) :
    (toJson e).get "type" ≠ some (.str "session") := by
  obtain ⟨id, parentId, timestamp, body⟩ := e
  change (fields (entryFields ⟨id, parentId, timestamp, body⟩)).get "type" ≠ _
  cases body <;> simp [entryFields]

instance : JsonCodec FileEntry where
  toJson
    | .session h => toJson h
    | .entry e => toJson e
  ofJson j :=
    match j.get "type" with
    | some (.str "session") => (ofJson j).map .session
    | _ => (ofJson j).map .entry
  ofJson_toJson f := by
    cases f with
    | session h => simp
    | entry e =>
      split
      case h_1 heq => exact absurd heq (get_type_entry e)
      case h_2 => rw [JsonCodec.ofJson_toJson, Option.map_some]

end OneHarness.Session
