/-
A conversation made ready for a model, whichever models it was held with.

# Two passes

The first goes over the messages one by one. Messages of other models lose
what only those models can read, and the ids of their tool calls are
normalized; a map remembers the ids that changed, so that results found
later are renamed with their calls. The second pass leaves failed turns and
results without a pending call out, and answers the calls left without a
result.

# The clock

A synthetic result carries the time it was made at: `now k` is the time
read when `k` messages have been put out.
-/
import OneHarness.Lib.JsMap
import OneHarness.Session.Manager

namespace OneHarness.Ai

open Lib Session

-- ======== types

inductive InputKind where
  | text | image
deriving DecidableEq

/-- The model a conversation is replayed to, as far as it matters here. -/
structure Model where
  provider : String
  api : String
  id : String
  input : List InputKind

inductive Message where
  | user (m : UserMessage)
  | assistant (m : AssistantMessage)
  | toolResult (m : ToolResultMessage)

structure ToolCall where
  id : String
  name : String
  arguments : List (String × Json)
  thoughtSignature : Option String

/-- `(id, model, source) => string`. -/
abbrev NormalizeToolCallId : Type :=
  String → Model → AssistantMessage → String

/-- `content.filter((b) => b.type === "toolCall")`. -/
def toolCallsOf (content : List AssistantBlock) : List ToolCall :=
  content.filterMap fun
    | .toolCall id name arguments thoughtSignature =>
      some ⟨id, name, arguments, thoughtSignature⟩
    | _ => none

-- ======== images

def nonVisionUserImagePlaceholder : String :=
  "(image omitted: model does not support images)"

def nonVisionToolImagePlaceholder : String :=
  "(tool image omitted: model does not support images)"

/-- Images become a text; the second flag is `previousWasPlaceholder`. -/
def replaceImagesFrom (placeholder : String) :
    Bool → List ContentBlock → List ContentBlock
  | _, [] => []
  | previous, .image _ _ :: content =>
    if previous then replaceImagesFrom placeholder true content
    else .text placeholder none
      :: replaceImagesFrom placeholder true content
  | _, .text text textSignature :: content =>
    .text text textSignature
      :: replaceImagesFrom placeholder (text == placeholder) content

def replaceImagesWithPlaceholder (content : List ContentBlock)
    (placeholder : String) : List ContentBlock :=
  replaceImagesFrom placeholder false content

/-- One message for a model that takes no images. -/
def downgradeImages : Message → Message
  | .user m =>
    match m.content with
    | .text _ => .user m
    | .blocks blocks => .user { m with
        content := .blocks (replaceImagesWithPlaceholder blocks
          nonVisionUserImagePlaceholder) }
  | .toolResult m => .toolResult { m with
      content := replaceImagesWithPlaceholder m.content
        nonVisionToolImagePlaceholder }
  | .assistant m => .assistant m

def downgradeUnsupportedImages (messages : List Message) (model : Model) :
    List Message :=
  if .image ∈ model.input then messages else messages.map downgradeImages

-- ======== first pass

/-- A string that is there and not empty. -/
def truthy (s : Option String) : Bool := s.any (· ≠ "")

def isSameModel (m : AssistantMessage) (model : Model) : Bool :=
  m.provider == model.provider && m.api == model.api && m.model == model.id

/-- One block of a message, and the map after it. -/
def transformBlock (model : Model) (normalize : Option NormalizeToolCallId)
    (source : AssistantMessage) (toolCallIdMap : JsMap String String) :
    AssistantBlock → List AssistantBlock × JsMap String String
  | .thinking thinking signature redacted =>
    let same := isSameModel source model
    if redacted = some true then
      (if same then [.thinking thinking signature redacted] else [],
        toolCallIdMap)
    else if same && truthy signature then
      ([.thinking thinking signature redacted], toolCallIdMap)
    else if trim thinking = "" then ([], toolCallIdMap)
    else if same then ([.thinking thinking signature redacted], toolCallIdMap)
    else ([.text thinking none], toolCallIdMap)
  | .text text textSignature =>
    if isSameModel source model then
      ([.text text textSignature], toolCallIdMap)
    else ([.text text none], toolCallIdMap)
  | .toolCall id name arguments signature =>
    if isSameModel source model then
      ([.toolCall id name arguments signature], toolCallIdMap)
    else
      let signature := if truthy signature then none else signature
      match normalize with
      | none => ([.toolCall id name arguments signature], toolCallIdMap)
      | some normalize =>
        let normalizedId := normalize id model source
        if normalizedId = id then
          ([.toolCall id name arguments signature], toolCallIdMap)
        else
          ([.toolCall normalizedId name arguments signature],
            toolCallIdMap.set id normalizedId)

/-- The blocks of a message, in order. -/
def transformContent (model : Model) (normalize : Option NormalizeToolCallId)
    (source : AssistantMessage) :
    JsMap String String → List AssistantBlock →
      List AssistantBlock × JsMap String String
  | toolCallIdMap, [] => ([], toolCallIdMap)
  | toolCallIdMap, block :: content =>
    let out := transformBlock model normalize source toolCallIdMap block
    let more := transformContent model normalize source out.2 content
    (out.1 ++ more.1, more.2)

/-- A result takes the id its call has taken. -/
def renameResult (toolCallIdMap : JsMap String String)
    (m : ToolResultMessage) : ToolResultMessage :=
  match toolCallIdMap.get m.toolCallId with
  | some normalizedId =>
    if normalizedId ≠ "" ∧ normalizedId ≠ m.toolCallId then
      { m with toolCallId := normalizedId }
    else m
  | none => m

/-- One message, and the map after it. -/
def transformMessage (model : Model) (normalize : Option NormalizeToolCallId)
    (toolCallIdMap : JsMap String String) :
    Message → Message × JsMap String String
  | .user m => (.user m, toolCallIdMap)
  | .toolResult m => (.toolResult (renameResult toolCallIdMap m), toolCallIdMap)
  | .assistant m =>
    let out := transformContent model normalize m toolCallIdMap m.content
    (.assistant { m with content := out.1 }, out.2)

def firstPass (model : Model) (normalize : Option NormalizeToolCallId) :
    JsMap String String → List Message → List Message
  | _, [] => []
  | toolCallIdMap, message :: messages =>
    let out := transformMessage model normalize toolCallIdMap message
    out.1 :: firstPass model normalize out.2 messages

-- ======== second pass

/-- The state of the second pass. -/
structure Replay where
  result : List Message
  pendingToolCalls : List ToolCall
  existingToolResultIds : List String

/-- The answer to a call that has none. -/
def syntheticResult (now : Numeral) (tc : ToolCall) : ToolResultMessage where
  toolCallId := tc.id
  toolName := tc.name
  content := [.text "No result provided" none]
  details := none
  isError := true
  timestamp := now

/-- The pending calls without a result are answered. -/
def insertSyntheticFor (now : Nat → Numeral) (existing : List String) :
    List ToolCall → List Message → List Message
  | [], result => result
  | tc :: calls, result =>
    if tc.id ∈ existing then insertSyntheticFor now existing calls result
    else insertSyntheticFor now existing calls
      (result ++ [.toolResult (syntheticResult (now result.length) tc)])

def insertSyntheticToolResults (now : Nat → Numeral) (s : Replay) : Replay :=
  if 0 < s.pendingToolCalls.length then
    { result := insertSyntheticFor now s.existingToolResultIds
        s.pendingToolCalls s.result
      pendingToolCalls := []
      existingToolResultIds := [] }
  else s

/-- `stopReason` is `"error"` or `"aborted"`. -/
def isInterrupted (m : AssistantMessage) : Bool :=
  m.stopReason == .error || m.stopReason == .aborted

/-- One turn of the loop of the second pass. -/
def replayStep (now : Nat → Numeral) (s : Replay) : Message → Replay
  | .assistant m =>
    let s := insertSyntheticToolResults now s
    if isInterrupted m then s
    else
      let toolCalls := toolCallsOf m.content
      let s := if 0 < toolCalls.length then
          { s with
            pendingToolCalls := toolCalls
            existingToolResultIds := [] }
        else s
      { s with result := s.result ++ [.assistant m] }
  | .toolResult m =>
    if s.pendingToolCalls.any (·.id == m.toolCallId) then
      { s with
        existingToolResultIds := m.toolCallId :: s.existingToolResultIds
        result := s.result ++ [.toolResult m] }
    else s
  | .user m =>
    let s := insertSyntheticToolResults now s
    { s with result := s.result ++ [.user m] }

/-- The loop of the second pass. -/
def replayLoop (now : Nat → Numeral) (messages : List Message) : Replay :=
  messages.foldl (replayStep now) ⟨[], [], []⟩

def transformMessages (now : Nat → Numeral) (messages : List Message)
    (model : Model) (normalize : Option NormalizeToolCallId) :
    List Message :=
  let imageAwareMessages := downgradeUnsupportedImages messages model
  let transformed := firstPass model normalize [] imageAwareMessages
  (insertSyntheticToolResults now (replayLoop now transformed)).result

end OneHarness.Ai
