/-
An assistant message streamed without being sent again with every update.

# The sender

Of a `message_update` only the event is sent (`createCompactAssistantDelta`),
with the new block at a block's start and the parsed arguments at a tool
call's delta. Everything else of the message stays behind.

# The receiver

It keeps the message it has seen start and applies the events to it
(`reconstruct`). The content it keeps is an array: setting an index past
its end leaves holes, which are `none` here.

Messages cross a socket in between, so sender and receiver share nothing.
What the parser of partial arguments makes of a text is
`parseStreamingJson`.
-/
import OneHarness.Lib.JsMap
import OneHarness.Session.Types

namespace OneHarness.Daemon.CompactStream

open Lib Session

-- ======== types

/-- An `AssistantMessageEvent` without its `partial`. -/
inductive CompactAssistantMessageEvent where
  | start
  | textStart (contentIndex : Nat)
  | textDelta (contentIndex : Nat) (delta : String)
  | textEnd (contentIndex : Nat) (content : String)
  | thinkingStart (contentIndex : Nat)
  | thinkingDelta (contentIndex : Nat) (delta : String)
  | thinkingEnd (contentIndex : Nat) (content : String)
  | toolcallStart (contentIndex : Nat)
  | toolcallDelta (contentIndex : Nat) (delta : String)
  | toolcallEnd (contentIndex : Nat) (id name : String)
      (arguments : List (String × Json)) (thoughtSignature : Option String)
  | done
  | error

inductive SessionEvent where
  | messageStart (message : AgentMessage)
  | messageUpdate (message : AgentMessage)
      (assistantMessageEvent : CompactAssistantMessageEvent)
  | messageEnd (message : AgentMessage)
  | other

inductive DaemonOutbound where
  | sessionEvent (activeSessionId : String) (event : SessionEvent)
      (eventMeta : Option Json)
  | sessionReplaced (activeSessionId : String)
  | sessionResynced (activeSessionId : String)
  | sessionClosed (activeSessionId : String)
  | other

structure CompactAssistantDelta where
  activeSessionId : String
  assistantMessageEvent : CompactAssistantMessageEvent
  contentStart : Option AssistantBlock
  toolCallArguments : Option (List (String × Json))
  eventMeta : Option Json

-- ======== the sender

def compactToolCallArguments (message : AssistantMessage) :
    CompactAssistantMessageEvent → Option (List (String × Json))
  | .toolcallDelta contentIndex _ =>
    match message.content[contentIndex]? with
    | some (.toolCall _ _ arguments _) => some arguments
    | _ => none
  | _ => none

def compactContentStart (message : AssistantMessage) :
    CompactAssistantMessageEvent → Option AssistantBlock
  | .textStart contentIndex =>
    match message.content[contentIndex]? with
    | some (.text _ textSignature) => some (.text "" textSignature)
    | _ => none
  | .thinkingStart contentIndex =>
    match message.content[contentIndex]? with
    | some (.thinking _ thinkingSignature redacted) =>
      some (.thinking "" thinkingSignature redacted)
    | _ => none
  | .toolcallStart contentIndex =>
    match message.content[contentIndex]? with
    | some (.toolCall id name _ thoughtSignature) =>
      some (.toolCall id name [] thoughtSignature)
    | _ => none
  | _ => none

def createCompactAssistantDelta : DaemonOutbound → Option CompactAssistantDelta
  | .sessionEvent activeSessionId
      (.messageUpdate (.assistant message) assistantMessageEvent) eventMeta =>
      some {
        activeSessionId := activeSessionId
        assistantMessageEvent := assistantMessageEvent
        contentStart := compactContentStart message assistantMessageEvent
        toolCallArguments :=
          compactToolCallArguments message assistantMessageEvent
        eventMeta := eventMeta }
  | _ => none

-- ======== the receiver

/-- A message whose content is an array with holes. -/
structure PartialMessage where
  message : AssistantMessage
  content : List (Option AssistantBlock)

def PartialMessage.ofMessage (message : AssistantMessage) : PartialMessage :=
  ⟨message, message.content.map some⟩

/-- `content[i] = block`. -/
def setContent (content : List (Option AssistantBlock)) (i : Nat)
    (block : AssistantBlock) : List (Option AssistantBlock) :=
  if i < content.length then content.set i (some block)
  else content ++ List.replicate (i - content.length) none ++ [some block]

/-- A `message_update` as it was put together again. -/
structure Reconstructed where
  activeSessionId : String
  message : PartialMessage
  assistantMessageEvent : CompactAssistantMessageEvent
  eventMeta : Option Json

structure Reconstructor where
  partialMessages : JsMap String PartialMessage
  toolCallJson : JsMap String String

def toolCallKey (activeSessionId : String) (contentIndex : Nat) : String :=
  activeSessionId ++ ":" ++ toString contentIndex

namespace Reconstructor

def clear (r : Reconstructor) (activeSessionId : String) : Reconstructor where
  partialMessages := r.partialMessages.delete activeSessionId
  toolCallJson := r.toolCallJson.filter fun p =>
    ¬ (activeSessionId ++ ":").toList <+: p.1.toList

def seed (r : Reconstructor) (activeSessionId : String)
    (message : AssistantMessage) : Reconstructor :=
  { r with
    partialMessages :=
      r.partialMessages.set activeSessionId (.ofMessage message) }

def observe (r : Reconstructor) : DaemonOutbound → Reconstructor
  | .sessionEvent activeSessionId (.messageStart (.assistant message)) _ =>
    r.seed activeSessionId message
  | .sessionEvent activeSessionId (.messageEnd _) _ => r.clear activeSessionId
  | .sessionReplaced activeSessionId => r.clear activeSessionId
  | .sessionResynced activeSessionId => r.clear activeSessionId
  | .sessionClosed activeSessionId => r.clear activeSessionId
  | _ => r

section

variable (parseStreamingJson : String → List (String × Json))

/-- The content and the partial arguments after an event; `none` is the
branches that return `undefined`, which change nothing. -/
def applyEvent (toolCallJson : JsMap String String)
    (content : List (Option AssistantBlock)) (delta : CompactAssistantDelta) :
    Option (List (Option AssistantBlock) × JsMap String String) :=
  let key := toolCallKey delta.activeSessionId
  match delta.assistantMessageEvent with
  | .textStart i =>
    some (setContent content i (delta.contentStart.getD (.text "" none)),
      toolCallJson)
  | .textDelta i d =>
    match content[i]? with
    | some (some (.text text textSignature)) =>
      some (setContent content i (.text (text ++ d) textSignature),
        toolCallJson)
    | _ => none
  | .textEnd i text =>
    match content[i]? with
    | some (some (.text _ textSignature)) =>
      some (setContent content i (.text text textSignature), toolCallJson)
    | _ => none
  | .thinkingStart i =>
    some (setContent content i
      (delta.contentStart.getD (.thinking "" none none)), toolCallJson)
  | .thinkingDelta i d =>
    match content[i]? with
    | some (some (.thinking thinking thinkingSignature redacted)) =>
      some (setContent content i
        (.thinking (thinking ++ d) thinkingSignature redacted),
          toolCallJson)
    | _ => none
  | .thinkingEnd i thinking =>
    match content[i]? with
    | some (some (.thinking _ thinkingSignature redacted)) =>
      some (setContent content i
        (.thinking thinking thinkingSignature redacted), toolCallJson)
    | _ => none
  | .toolcallStart i =>
    match delta.contentStart with
    | some (.toolCall id name arguments thoughtSignature) =>
      some (setContent content i
        (.toolCall id name arguments thoughtSignature),
          toolCallJson.set (key i) "")
    | _ => none
  | .toolcallDelta i d =>
    match content[i]? with
    | some (some (.toolCall id name _ thoughtSignature)) =>
      match delta.toolCallArguments with
      | some arguments =>
        some (setContent content i
          (.toolCall id name arguments thoughtSignature), toolCallJson)
      | none =>
        let partialJson := (toolCallJson.get (key i)).getD "" ++ d
        some (setContent content i (.toolCall id name
          (parseStreamingJson partialJson) thoughtSignature),
            toolCallJson.set (key i) partialJson)
    | _ => none
  | .toolcallEnd i id name arguments thoughtSignature =>
    some (setContent content i (.toolCall id name arguments thoughtSignature),
      toolCallJson.delete (key i))
  | .start => none
  | .done => none
  | .error => none

def reconstruct (r : Reconstructor) (delta : CompactAssistantDelta) :
    Reconstructor × Option Reconstructed :=
  match r.partialMessages.get delta.activeSessionId with
  | none => (r, none)
  | some old =>
    match applyEvent parseStreamingJson r.toolCallJson old.content delta with
    | none => (r, none)
    | some (content, toolCallJson) =>
      let message := { old with content := content }
      (⟨r.partialMessages.set delta.activeSessionId message, toolCallJson⟩,
        some {
          activeSessionId := delta.activeSessionId
          message := message
          assistantMessageEvent := delta.assistantMessageEvent
          eventMeta := delta.eventMeta })

/-- One outbound message, sent and received. -/
def relay (r : Reconstructor) (message : DaemonOutbound) :
    Reconstructor × Option Reconstructed :=
  match createCompactAssistantDelta message with
  | some delta => r.reconstruct parseStreamingJson delta
  | none => (r.observe message, none)

end

end Reconstructor

end OneHarness.Daemon.CompactStream
