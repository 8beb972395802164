/-
The data of the agent loop: tools and their calls, stream events, agent
events, and what the loop is configured with.

# The world outside

Everything the loop waits for is answered from outside: by the provider,
by tools, by hooks, by listeners. `Env` and `AgentLoopConfig` hold these
answers as functions of an outside state `σ` which each of them may
change, so whatever happens elsewhere while the loop waits, the abort
signal included, happens there. A function that may throw when it is
called, before it returns its promise, is `Started`.
-/
import OneHarness.Lib.Async
import OneHarness.Session.Types

namespace OneHarness.Agent

open Lib Session

-- ======== errors

/-- A thrown value: `isError` is `instanceof Error`, `message` its message
or else the value as a string. -/
structure JsError where
  isError : Bool
  name : String
  message : String
deriving DecidableEq

/-- `ABORT_ERROR_MESSAGE`. -/
def abortErrorMessage : String := "Request was aborted"

/-- `createAbortError`. -/
def createAbortError : JsError where
  isError := true
  name := "Error"
  message := abortErrorMessage

/-- `isAbortError`. -/
def isAbortError (error : JsError) : Bool :=
  error.isError
    && (error.message == abortErrorMessage || error.name == "AbortError")

-- ======== tools

inductive ToolExecutionMode where
  | sequential | parallel
deriving DecidableEq

structure AgentToolCall where
  id : String
  name : String
  arguments : List (String × Json)

/-- `message.content.filter((c) => c.type === "toolCall")`. -/
def toolCallsOf (message : AssistantMessage) : List AgentToolCall :=
  message.content.filterMap fun
    | .toolCall id name arguments _ =>
      some { id := id, name := name, arguments := arguments }
    | _ => none

structure AgentToolResult where
  content : List ContentBlock
  details : Option Json
  terminate : Option Bool

structure AgentTool where
  name : String
  executionMode : Option ToolExecutionMode
  prepareArguments :
    Option (List (String × Json) → Except JsError (List (String × Json)))

structure PreparedToolCall where
  toolCall : AgentToolCall
  tool : AgentTool
  args : Json

structure ExecutedToolCallOutcome where
  result : AgentToolResult
  isError : Bool

structure FinalizedToolCallOutcome where
  toolCall : AgentToolCall
  result : AgentToolResult
  isError : Bool

structure BeforeToolCallResult where
  block : Option Bool
  reason : Option String

structure AfterToolCallResult where
  content : Option (List ContentBlock)
  details : Option Json
  isError : Option Bool
  terminate : Option Bool

-- ======== events

/-- The events between a stream's start and its end. -/
inductive StreamPart where
  | textStart | textDelta | textEnd
  | thinkingStart | thinkingDelta | thinkingEnd
  | toolcallStart | toolcallDelta | toolcallEnd
deriving DecidableEq

inductive AssistantMessageEvent where
  | start (partialMessage : AssistantMessage)
  | update (part : StreamPart) (partialMessage : AssistantMessage)
  | done (message : AssistantMessage)
  | error (error : AssistantMessage)

/-- What a provider answers: the outcome of each `iterator.next()`, `none`
at the end of the iteration, and of `response.result()`. -/
structure Response where
  next : Nat → Except JsError (Option AssistantMessageEvent)
  result : Except JsError AssistantMessage

inductive AgentEvent where
  | agentStart
  | agentEnd (messages : List AgentMessage)
  | turnStart
  | turnEnd (message : AssistantMessage) (toolResults : List ToolResultMessage)
  | messageStart (message : AgentMessage)
  | messageUpdate (message : AssistantMessage) (part : StreamPart)
  | messageEnd (message : AgentMessage)
  | toolExecutionStart (toolCall : AgentToolCall)
  | toolExecutionUpdate (toolCall : AgentToolCall)
      (partialResult : AgentToolResult)
  | toolExecutionEnd (toolCall : AgentToolCall) (result : AgentToolResult)
      (isError : Bool)

-- ======== outside

/-- A call that throws, or returns a promise that settles. -/
inductive Started (α : Type) where
  | threw (error : JsError)
  | settles (r : Except JsError α)

/-- A call of something outside. -/
abbrev Call (σ α : Type) : Type := σ → Started α × σ

/-- What goes on while a prepared tool call is executed. -/
inductive ExecutionEvent where
  /-- The execution is started. -/
  | start
  /-- The tool calls `onUpdate`. -/
  | update (partialResult : AgentToolResult)
  /-- `execute` settles. -/
  | settle (r : Except JsError AgentToolResult)
  /-- The abort listener of the race with `execute` is called. -/
  | abort
  /-- The race of the update events is decided. -/
  | drained (r : Except JsError Unit)
  /-- The race with `afterToolCall` is decided, if there is one. -/
  | after (r : Except JsError (Option AfterToolCallResult))
  /-- The listeners of `tool_execution_end` are done. -/
  | ended

/-- A step of a batch of executions: something elsewhere, or an event of
the `i`th call. -/
inductive BatchEvent where
  | elsewhere
  | execution (i : Nat) (event : ExecutionEvent)

/-- The world outside the loop. -/
structure Env (σ : Type) where
  /-- `signal?.aborted`. -/
  aborted : σ → Bool
  /-- What happens elsewhere while the loop is suspended. -/
  suspended : σ → σ
  /-- Of an abort and a settled operation, whether the abort came first. -/
  abortFirst : σ → Bool
  /-- `emit`, awaited. -/
  emit : AgentEvent → σ → Except JsError Unit × σ
  /-- `Date.now()`. -/
  now : σ → Numeral
  /-- How the executions of a batch go on. -/
  schedule : σ → List BatchEvent

/-- The model as far as an aborted message names it. -/
structure Model where
  api : String
  provider : String
  id : String

/-- The request of a provider call. -/
structure LlmContext where
  systemPrompt : String
  messages : List AgentMessage
  tools : List AgentTool
  apiKey : Option String

structure AgentContext where
  systemPrompt : String
  messages : List AgentMessage
  tools : List AgentTool

/-- `lastTurn`, and the argument of `shouldStopAfterTurn`. -/
structure TurnContext where
  message : AssistantMessage
  toolResults : List ToolResultMessage
  context : AgentContext
  newMessages : List AgentMessage

structure BeforeToolCallContext where
  assistantMessage : AssistantMessage
  toolCall : AgentToolCall
  args : Json
  context : AgentContext

structure AgentLoopConfig (σ : Type) where
  model : Model
  apiKey : Option String
  transformContext : Option (List AgentMessage → Call σ (List AgentMessage))
  convertToLlm : List AgentMessage → Call σ (List AgentMessage)
  getApiKey : Option (Call σ (Option String))
  getSystemPrompt : Option (σ → String)
  streamFunction : LlmContext → Call σ Response
  toolExecution : Option ToolExecutionMode
  validateToolArguments : AgentTool → AgentToolCall → Except JsError Json
  beforeToolCall :
    Option (BeforeToolCallContext → Call σ (Option BeforeToolCallResult))
  hasAfterToolCall : Bool
  shouldStopBeforeTurn : Option (σ → Except JsError Bool × σ)
  shouldStopAfterTurn : Option (TurnContext → Call σ Bool)
  getSteeringMessages : Option (Call σ (List AgentMessage))
  getFollowUpMessages : Option (Call σ (List AgentMessage))
  getContinuationMessages :
    Option (TurnContext → Call σ (List AgentMessage))

/-- The world of a run: outside, the events emitted, and the two
transcripts the loop keeps, with the state of the stream it reads. -/
structure World (σ : Type) where
  outside : σ
  events : List AgentEvent
  /-- `currentContext`. -/
  context : AgentContext
  newMessages : List AgentMessage
  partialMessage : Option AssistantMessage
  addedPartial : Bool

/-- A computation of the loop. -/
abbrev Loop (σ : Type) : Type → Type := Async (World σ) JsError

end OneHarness.Agent
