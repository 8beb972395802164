/-
`processResponsesStream`: the events of the Responses API, folded into the
content of an assistant message and the events that are pushed for it.

# The block of a slot

A slot holds its block by reference. The block sits at the slot's content
index, where it was put when the slot was made, so the model looks it up
there. A text is the list of its UTF-16 units. `parseStreamingJson` is a
parameter. Usage, cost and service tier are left out.
-/
import OneHarness.Lib.JsMap
import OneHarness.Lib.Json.Numeral
import OneHarness.Lib.Utf16

namespace OneHarness.Ai.Responses

open Lib

abbrev Text := List Nat

def units (s : String) : Text := Utf16.encode s.toList

abbrev Arguments := List (String × Json)

-- ======== the items

inductive Part where
  | outputText (value : Text)
  | refusal (value : Text)

def Part.text : Part → Text
  | outputText value => value
  | refusal value => value

inductive Phase where
  | commentary
  | finalAnswer

structure ResponseReasoningItem where
  id : Text
  summary : List Text
  content : List Text
  encryptedContent : Option Text

structure ResponseOutputMessage where
  id : Text
  content : List Part
  phase : Option Phase

structure ResponseFunctionToolCall where
  id : Text
  callId : Text
  name : Text
  arguments : Text

inductive Item where
  | reasoning (item : ResponseReasoningItem)
  | message (item : ResponseOutputMessage)
  | functionCall (item : ResponseFunctionToolCall)
  /-- Of another type, known or not. -/
  | other

inductive ResponseStatus where
  | completed
  | incomplete
  | failed
  | cancelled
  | inProgress
  | queued
deriving DecidableEq

structure Response where
  id : Option Text
  status : Option ResponseStatus
  output : List Item

inductive ResponseStreamEvent where
  | created (responseId : Text)
  | outputItemAdded (outputIndex : Nat) (item : Item)
  | reasoningSummaryPartAdded (outputIndex : Nat) (part : Text)
  | reasoningSummaryTextDelta (outputIndex : Nat) (delta : Text)
  | reasoningSummaryPartDone (outputIndex : Nat)
  | reasoningTextDelta (outputIndex : Nat) (delta : Text)
  /-- Or a part of another type, which is passed over. -/
  | contentPartAdded (outputIndex : Nat) (part : Option Part)
  | outputTextDelta (outputIndex : Nat) (delta : Text)
  | refusalDelta (outputIndex : Nat) (delta : Text)
  | functionCallArgumentsDelta (outputIndex : Nat) (delta : Text)
  | functionCallArgumentsDone (outputIndex : Nat) (arguments : Text)
  | outputItemDone (outputIndex : Nat) (item : Item)
  /-- `response.completed` and `response.incomplete`. -/
  | terminal (response : Response)
  /-- `error` and `response.failed`, with the message. -/
  | failed (message : String)
  /-- Any other event. -/
  | ignored

-- ======== the message

structure TextSignature where
  id : Text
  phase : Option Phase

inductive Block where
  | thinking (text : Text) (thinkingSignature : Option ResponseReasoningItem)
  | text (value : Text) (textSignature : Option TextSignature)
  | toolCall (id name : Text) (arguments : Arguments)
      (partialJson : Option Text)

inductive StopReason where
  | stop
  | length
  | toolUse
  | error
deriving DecidableEq

inductive PushKind where
  | thinkingStart
  | thinkingDelta (delta : Text)
  | thinkingEnd (content : Text)
  | textStart
  | textDelta (delta : Text)
  | textEnd (content : Text)
  | toolcallStart
  | toolcallDelta (delta : Text)
  | toolcallEnd (toolCall : Block)

structure Push where
  contentIndex : Nat
  kind : PushKind

structure Slot where
  item : Item
  contentIndex : Nat

structure State where
  content : List Block
  slots : JsMap Nat Slot
  pushed : List Push
  responseId : Option Text
  stopReason : StopReason
  stopReasonRaw : Option ResponseStatus
  sawTerminalResponse : Bool

/-- Before the first event. -/
def State.initial : State where
  content := []
  slots := []
  pushed := []
  responseId := none
  stopReason := .stop
  stopReasonRaw := none
  sawTerminalResponse := false

namespace State

variable (s : State)

def push (contentIndex : Nat) (kind : PushKind) : State :=
  { s with pushed := s.pushed ++ [⟨contentIndex, kind⟩] }

/-- `currentItem`, `currentBlock` and `currentContentIndex`. -/
def current (outputIndex : Nat) : Option (Item × Block × Nat) := do
  let slot ← s.slots.get outputIndex
  let block ← s.content[slot.contentIndex]?
  return (slot.item, block, slot.contentIndex)

def currentContentIndex (outputIndex : Nat) : Nat :=
  ((s.slots.get outputIndex).map (·.contentIndex)).getD s.content.length

/-- A new block at the end, and its slot. -/
def start (outputIndex : Nat) (item : Item) (block : Block)
    (kind : PushKind) : State :=
  let contentIndex := s.content.length
  { { s with content := s.content ++ [block] }.push contentIndex kind with
    slots := s.slots.set outputIndex ⟨item, contentIndex⟩ }

def setItem (outputIndex : Nat) (item : Item) (contentIndex : Nat) : State :=
  { s with slots := s.slots.set outputIndex ⟨item, contentIndex⟩ }

def setBlock (contentIndex : Nat) (block : Block) : State :=
  { s with content := s.content.set contentIndex block }

end State

/-- The text is appended to the last part. -/
def appendToLast (parts : List Text) (delta : Text) : List Text :=
  match parts.getLast? with
  | some last => parts.dropLast ++ [last ++ delta]
  | none => parts

def initialBlock : Item → Option (Block × PushKind)
  | .reasoning _ => some (.thinking [] none, .thinkingStart)
  | .message _ => some (.text [] none, .textStart)
  | .functionCall item =>
    some (.toolCall (item.callId ++ units "|" ++ item.id) item.name []
      (some item.arguments), .toolcallStart)
  | .other => none

/-- Of texts that are empty, the next one: `a || b`. -/
def orElse (a b : Text) : Text := if a = [] then b else a

def summaryText (item : ResponseReasoningItem) : Text :=
  (units "\n\n").intercalate item.summary

def contentText (item : ResponseReasoningItem) : Text :=
  (units "\n\n").intercalate item.content

def messageText (item : ResponseOutputMessage) : Text :=
  item.content.flatMap Part.text

-- ======== the events

section
variable (parseStreamingJson : Text → Arguments) (s : State)

def outputItemAdded (outputIndex : Nat) (item : Item) : State :=
  match initialBlock item with
  | some (block, kind) => s.start outputIndex item block kind
  | none => s

def reasoningSummaryPartAdded (outputIndex : Nat) (part : Text) : State :=
  match s.current outputIndex with
  | some (.reasoning item, _, contentIndex) =>
    s.setItem outputIndex
      (.reasoning { item with summary := item.summary ++ [part] })
      contentIndex
  | _ => s

/-- A delta of the summary, if it has a part. -/
def reasoningSummaryTextDelta (outputIndex : Nat) (delta : Text) : State :=
  match s.current outputIndex with
  | some (.reasoning item, .thinking thinking signature, contentIndex) =>
    if item.summary = [] then s
    else
      ((s.setBlock contentIndex (.thinking (thinking ++ delta) signature)).setItem
        outputIndex
        (.reasoning { item with summary := appendToLast item.summary delta })
        contentIndex).push contentIndex (.thinkingDelta delta)
  | _ => s

def reasoningSummaryPartDone (outputIndex : Nat) : State :=
  reasoningSummaryTextDelta s outputIndex (units "\n\n")

def reasoningTextDelta (outputIndex : Nat) (delta : Text) : State :=
  match s.current outputIndex with
  | some (.reasoning _, .thinking thinking signature, contentIndex) =>
    (s.setBlock contentIndex (.thinking (thinking ++ delta) signature)).push
      contentIndex (.thinkingDelta delta)
  | _ => s

def contentPartAdded (outputIndex : Nat) (part : Option Part) : State :=
  match s.current outputIndex, part with
  | some (.message item, _, contentIndex), some part =>
    s.setItem outputIndex
      (.message { item with content := item.content ++ [part] }) contentIndex
  | _, _ => s

def outputTextDelta (outputIndex : Nat) (delta : Text) : State :=
  match s.current outputIndex with
  | some (.message item, .text text signature, contentIndex) =>
    match item.content.getLast? with
    | some (.outputText last) =>
      ((s.setBlock contentIndex (.text (text ++ delta) signature)).setItem
        outputIndex
        (.message
          { item with
            content :=
              item.content.dropLast ++ [.outputText (last ++ delta)] })
        contentIndex).push contentIndex (.textDelta delta)
    | _ => s
  | _ => s

def refusalDelta (outputIndex : Nat) (delta : Text) : State :=
  match s.current outputIndex with
  | some (.message item, .text text signature, contentIndex) =>
    match item.content.getLast? with
    | some (.refusal last) =>
      ((s.setBlock contentIndex (.text (text ++ delta) signature)).setItem
        outputIndex
        (.message
          { item with
            content := item.content.dropLast ++ [.refusal (last ++ delta)] })
        contentIndex).push contentIndex (.textDelta delta)
    | _ => s
  | _ => s

def functionCallArgumentsDelta (outputIndex : Nat) (delta : Text) : State :=
  match s.current outputIndex with
  | some (.functionCall _, .toolCall id name _ (some partialJson),
      contentIndex) =>
      let partialJson := partialJson ++ delta
      (s.setBlock contentIndex
        (.toolCall id name (parseStreamingJson partialJson)
          (some partialJson))).push contentIndex (.toolcallDelta delta)
  | _ => s

/-- What the arguments go on with after what was streamed of them. -/
def remainder (arguments previousPartialJson : Text) : Text :=
  if previousPartialJson <+: arguments then
    arguments.drop previousPartialJson.length
  else []

def functionCallArgumentsDone (outputIndex : Nat) (arguments : Text) : State :=
  match s.current outputIndex with
  | some (.functionCall _, .toolCall id name _ (some previousPartialJson),
      contentIndex) =>
      let s := s.setBlock contentIndex
        (.toolCall id name (parseStreamingJson arguments) (some arguments))
      let delta := remainder arguments previousPartialJson
      if delta = [] then s else s.push contentIndex (.toolcallDelta delta)
  | _ => s

def outputItemDone (outputIndex : Nat) (item : Item) : State :=
  let contentIndex := s.currentContentIndex outputIndex
  let currentBlock : Option Block := (s.current outputIndex).map (·.2.1)
  let s := { s with slots := s.slots.delete outputIndex }
  match item, currentBlock with
  | .reasoning item, some (.thinking thinking _) =>
    let thinking :=
      orElse (summaryText item) (orElse (contentText item) thinking)
    (s.setBlock contentIndex (.thinking thinking (some item))).push
      contentIndex (.thinkingEnd thinking)
  | .message item, some (.text _ _) =>
    let text := messageText item
    (s.setBlock contentIndex
      (.text text (some ⟨item.id, item.phase⟩))).push contentIndex
        (.textEnd text)
  | .functionCall item, some (.toolCall id name _ partialJson) =>
    let arguments := parseStreamingJson
      (orElse item.arguments (orElse (partialJson.getD []) (units "\x7b\x7d")))
    let toolCall : Block := .toolCall id name arguments none
    (s.setBlock contentIndex toolCall).push contentIndex
      (.toolcallEnd toolCall)
  | .functionCall item, _ =>
    let arguments :=
      parseStreamingJson (orElse item.arguments (units "\x7b\x7d"))
    s.push contentIndex
      (.toolcallEnd
        (.toolCall (item.callId ++ units "|" ++ item.id) item.name arguments
          none))
  | _, _ => s

-- ======== the terminal response

/-- The encrypted content of the response, where the block has none. -/
def fillEncrypted (content : List Block) : Item → List Block
  | .reasoning item =>
    match item.encryptedContent with
    | some encrypted =>
      if encrypted = [] then content
      else
        content.map fun block =>
          match block with
          | .thinking thinking (some stored) =>
            if stored.id = item.id ∧ stored.encryptedContent.getD [] = []
            then .thinking thinking
              (some { stored with encryptedContent := some encrypted })
            else block
          | block => block
    | none => content
  | _ => content

def mapStopReason : Option ResponseStatus → StopReason
  | none => .stop
  | some .completed => .stop
  | some .incomplete => .length
  | some .failed => .error
  | some .cancelled => .error
  | some .inProgress => .stop
  | some .queued => .stop

def Block.isToolCall : Block → Bool
  | toolCall _ _ _ _ => true
  | _ => false

def terminal (xai : Bool) (response : Response) : State :=
  let content :=
    if xai then response.output.foldl fillEncrypted s.content else s.content
  let stopReason := mapStopReason response.status
  let stopReason :=
    if content.any Block.isToolCall ∧ stopReason = .stop then .toolUse
    else stopReason
  { s with
    sawTerminalResponse := true
    content := content
    responseId := (response.id.filter (· ≠ [])).or s.responseId
    stopReason := stopReason
    stopReasonRaw :=
      if stopReason = .error then response.status.or s.stopReasonRaw
      else s.stopReasonRaw }

/-- The body of the loop; an exception has a message. -/
def step (xai : Bool) : ResponseStreamEvent → Except String State
  | .created responseId => .ok { s with responseId := some responseId }
  | .outputItemAdded outputIndex item =>
    .ok (outputItemAdded s outputIndex item)
  | .reasoningSummaryPartAdded outputIndex part =>
    .ok (reasoningSummaryPartAdded s outputIndex part)
  | .reasoningSummaryTextDelta outputIndex delta =>
    .ok (reasoningSummaryTextDelta s outputIndex delta)
  | .reasoningSummaryPartDone outputIndex =>
    .ok (reasoningSummaryPartDone s outputIndex)
  | .reasoningTextDelta outputIndex delta =>
    .ok (reasoningTextDelta s outputIndex delta)
  | .contentPartAdded outputIndex part =>
    .ok (contentPartAdded s outputIndex part)
  | .outputTextDelta outputIndex delta =>
    .ok (outputTextDelta s outputIndex delta)
  | .refusalDelta outputIndex delta => .ok (refusalDelta s outputIndex delta)
  | .functionCallArgumentsDelta outputIndex delta =>
    .ok (functionCallArgumentsDelta parseStreamingJson s outputIndex delta)
  | .functionCallArgumentsDone outputIndex arguments =>
    .ok (functionCallArgumentsDone parseStreamingJson s outputIndex arguments)
  | .outputItemDone outputIndex item =>
    .ok (outputItemDone parseStreamingJson s outputIndex item)
  | .terminal response => .ok (terminal s xai response)
  | .failed message => .error message
  | .ignored => .ok s

end

/-- The message as it is at the end, and the exception, if there was one. -/
def processResponsesStream (parseStreamingJson : Text → Arguments)
    (xai : Bool) : State → List ResponseStreamEvent → State × Option String
  | s, [] =>
    (s, if xai ∧ ¬ s.sawTerminalResponse then
      some "xAI Responses stream ended before a terminal response event"
    else none)
  | s, event :: events =>
    match step parseStreamingJson s xai event with
    | .ok s => processResponsesStream parseStreamingJson xai s events
    | .error message => (s, some message)

end OneHarness.Ai.Responses
