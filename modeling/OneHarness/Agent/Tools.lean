/-
The tool calls of a turn.

A call is prepared (found, validated, let through by `beforeToolCall`) or
answered at once. A prepared call is executed, and its result passes
`afterToolCall`. One after the other, each call is done before the next
one starts; in parallel, all are prepared first and then executed
together, and `tool_execution_end` is emitted in the order they complete.
The tool results are emitted in call order either way.

# Executions

An execution goes through `Phase`s, and what it waits for is settled by
`ExecutionEvent`s in an order the outside world picks (`Env.schedule`).
An event that its phase does not wait for is ignored, as are updates from
the moment the execution stops accepting them.
-/
import OneHarness.Agent.Types

namespace OneHarness.Agent

open Lib Session Async

variable {σ : Type}

-- ======== primitives

/-- `signal?.aborted`. -/
def aborted (env : Env σ) : Loop σ Bool := read fun w => env.aborted w.outside

/-- The loop is suspended, and others go on. -/
def suspend (env : Env σ) : Loop σ Unit :=
  modify fun w => { w with outside := env.suspended w.outside }

def throwIfAborted (env : Env σ) : Loop σ Unit := do
  if ← aborted env then throw createAbortError

/-- `emit(event)`, and what it settles to. -/
def emitted (env : Env σ) (event : AgentEvent) (w : World σ) :
    Except JsError Unit × World σ :=
  let (r, outside) := env.emit event w.outside
  (r, { w with outside := outside, events := w.events ++ [event] })

/-- `await emit(event)`. -/
def emit (env : Env σ) (event : AgentEvent) : Loop σ Unit :=
  fun w => some (emitted env event w)

/-- Call something outside. -/
def call {α : Type} (c : Call σ α) : Loop σ (Except JsError α) := fun w =>
  match c w.outside with
  | (.threw error, outside) => some (.error error, { w with outside := outside })
  | (.settles r, outside) => some (.ok r, { w with outside := outside })

/-- The abort listener of a race is called before its operation settles. -/
def rejectIfAbortFirst (env : Env σ) : Loop σ Unit := do
  if ← read fun w => env.aborted w.outside && env.abortFirst w.outside then
    throw createAbortError

/-- `await raceWithAbort(operation, signal)`, of a promise that settles as
`r`: a signal that is aborted already rejects, else the two race. -/
def raceWithAbort {α : Type} (env : Env σ) (r : Except JsError α) :
    Loop σ α := do
  throwIfAborted env
  suspend env
  rejectIfAbortFirst env
  suspend env
  ofExcept r

/-- `await maybePromiseWithAbort(c(), signal)`. -/
def maybePromiseWithAbort {α : Type} (env : Env σ) (c : Call σ α) :
    Loop σ α := do
  raceWithAbort env (← call c)

-- ======== preparation

def createErrorToolResult (message : String) : AgentToolResult where
  content := [.text message none]
  details := some (.obj [])
  terminate := none

def prepareToolCallArguments (tool : AgentTool) (toolCall : AgentToolCall) :
    Except JsError AgentToolCall :=
  match tool.prepareArguments with
  | none => .ok toolCall
  | some prepareArguments =>
    (prepareArguments toolCall.arguments).map fun preparedArguments =>
      { toolCall with arguments := preparedArguments }

/-- `PreparedToolCall | ImmediateToolCallOutcome`. -/
inductive Preparation where
  | prepared (call : PreparedToolCall)
  | immediate (result : AgentToolResult) (isError : Bool)

def prepareToolCall (env : Env σ) (config : AgentLoopConfig σ)
    (assistantMessage : AssistantMessage) (toolCall : AgentToolCall) :
    Loop σ Preparation := do
  let context ← read (·.context)
  match context.tools.find? fun t => t.name == toolCall.name with
  | none =>
    return .immediate
      (createErrorToolResult ("Tool " ++ toolCall.name ++ " not found")) true
  | some tool =>
    tryCatch
      (do
        let preparedToolCall ←
          ofExcept (prepareToolCallArguments tool toolCall)
        let validatedArgs ←
          ofExcept (config.validateToolArguments tool preparedToolCall)
        match config.beforeToolCall with
        | none => return .prepared ⟨toolCall, tool, validatedArgs⟩
        | some beforeToolCall =>
          let beforeResult ← maybePromiseWithAbort env
            (beforeToolCall
              { assistantMessage := assistantMessage
                toolCall := toolCall
                args := validatedArgs
                context := context })
          match beforeResult with
          | some { block := some true, reason } =>
            return .immediate
              (createErrorToolResult
                ((reason.filter (· ≠ "")).getD
                  "Tool execution was blocked")) true
          | _ => return .prepared ⟨toolCall, tool, validatedArgs⟩)
      fun error =>
        return .immediate (createErrorToolResult error.message) true

-- ======== execution

/-- Where an execution stands: before it, awaiting `execute` and accepting
updates, awaiting the updates, awaiting `afterToolCall`, and behind it. -/
inductive Phase where
  | created
  | running
  | draining (outcome : Except JsError AgentToolResult)
  | finalizing (executed : ExecutedToolCallOutcome)
  | finalized (outcome : FinalizedToolCallOutcome)

/-- `value ?? none`: `null` counts as missing. -/
def nonNull : Option Json → Option Json
  | some .null => none
  | value => value

/-- `finalizeExecutedToolCall`, once `afterToolCall` settled as `r`. -/
def finalizeExecutedToolCall (config : AgentLoopConfig σ)
    (prepared : PreparedToolCall) (executed : ExecutedToolCallOutcome)
    (r : Except JsError (Option AfterToolCallResult)) :
    FinalizedToolCallOutcome :=
  if config.hasAfterToolCall then
    match r with
    | .ok (some afterResult) =>
      { toolCall := prepared.toolCall
        result :=
          { content := afterResult.content.getD executed.result.content
            details :=
              (nonNull afterResult.details).or executed.result.details
            terminate := afterResult.terminate.or executed.result.terminate }
        isError := afterResult.isError.getD executed.isError }
    | .ok none =>
      { toolCall := prepared.toolCall
        result := executed.result
        isError := executed.isError }
    | .error error =>
      { toolCall := prepared.toolCall
        result := createErrorToolResult error.message
        isError := true }
  else
    { toolCall := prepared.toolCall
      result := executed.result
      isError := executed.isError }

/-- `executePreparedToolCall` and `finalizeExecutedToolCall`, one event at
a time. -/
def executePreparedToolCall (env : Env σ) (config : AgentLoopConfig σ)
    (prepared : PreparedToolCall) (phase : Phase) (event : ExecutionEvent)
    (w : World σ) : Phase × World σ :=
  let aborted := env.aborted w.outside
  match phase, event with
  | .created, .start =>
    (if aborted then .draining (.error createAbortError) else .running, w)
  | .running, .update partialResult =>
    if aborted then (.running, w)
    else (.running,
      (emitted env (.toolExecutionUpdate prepared.toolCall partialResult) w).2)
  | .running, .settle r => (.draining r, w)
  | .running, .abort =>
    (if aborted then .draining (.error createAbortError) else .running, w)
  | .draining (.ok result), .drained r =>
    match r with
    | .ok () => (.finalizing { result := result, isError := false }, w)
    | .error error =>
      if aborted && isAbortError error then
        (.finalizing { result := result, isError := false }, w)
      else (.draining (.error error), w)
  | .draining (.error error), .drained _ =>
    (.finalizing
      { result := createErrorToolResult
          (if aborted then "Tool execution aborted" else error.message)
        isError := true }, w)
  | .finalizing executed, .after r =>
    (.finalized (finalizeExecutedToolCall config prepared executed r), w)
  | phase, _ => (phase, w)

def createToolResultMessage (finalized : FinalizedToolCallOutcome)
    (now : Numeral) : ToolResultMessage where
  toolCallId := finalized.toolCall.id
  toolName := finalized.toolCall.name
  content := finalized.result.content
  details := finalized.result.details
  isError := finalized.isError
  timestamp := now

/-- The event `emitToolExecutionEnd` emits. -/
def toolExecutionEnd (finalized : FinalizedToolCallOutcome) : AgentEvent :=
  .toolExecutionEnd finalized.toolCall finalized.result finalized.isError

def emitToolResultMessage (env : Env σ) (toolResultMessage : ToolResultMessage) :
    Loop σ Unit := do
  emit env (.messageStart (.toolResult toolResultMessage))
  emit env (.messageEnd (.toolResult toolResultMessage))

def shouldTerminateToolBatch (finalizedCalls : List FinalizedToolCallOutcome) :
    Bool :=
  !finalizedCalls.isEmpty
    && finalizedCalls.all fun finalized => finalized.result.terminate == some true

structure ExecutedToolCallBatch where
  messages : List ToolResultMessage
  terminate : Bool

-- ======== one after the other

/-- One event of a single execution. -/
def executionStep (env : Env σ) (config : AgentLoopConfig σ)
    (prepared : PreparedToolCall) (s : Phase × World σ) (event : BatchEvent) :
    Phase × World σ :=
  match event with
  | .elsewhere =>
    (s.1, { s.2 with outside := env.suspended s.2.outside })
  | .execution 0 event =>
    executePreparedToolCall env config prepared s.1 event s.2
  | .execution _ _ => s

/-- Execute a prepared call and await its outcome. -/
def awaitExecution (env : Env σ) (config : AgentLoopConfig σ)
    (prepared : PreparedToolCall) : Loop σ FinalizedToolCallOutcome :=
  fun w =>
    let s := (env.schedule w.outside).foldl (executionStep env config prepared)
      (.created, w)
    match s.1 with
    | .finalized outcome => some (.ok outcome, s.2)
    | _ => none

def executeToolCallsSequential (env : Env σ) (config : AgentLoopConfig σ)
    (assistantMessage : AssistantMessage) (toolCalls : List AgentToolCall)
    (finalizedCalls : List FinalizedToolCallOutcome)
    (messages : List ToolResultMessage) : Loop σ ExecutedToolCallBatch := do
  let done := return { messages := messages
                       terminate := shouldTerminateToolBatch finalizedCalls }
  match toolCalls with
  | [] => done
  | toolCall :: toolCalls =>
    if ← aborted env then done
    else
      emit env (.toolExecutionStart toolCall)
      let finalized ← (do
        match ← prepareToolCall env config assistantMessage toolCall with
        | .immediate result isError =>
          return { toolCall := toolCall, result := result, isError := isError }
        | .prepared prepared => awaitExecution env config prepared)
      emit env (toolExecutionEnd finalized)
      let toolResultMessage := createToolResultMessage finalized
        (env.now (← read (·.outside)))
      emitToolResultMessage env toolResultMessage
      let finalizedCalls := finalizedCalls ++ [finalized]
      let messages := messages ++ [toolResultMessage]
      if ← aborted env then
        return { messages := messages
                 terminate := shouldTerminateToolBatch finalizedCalls }
      else
        executeToolCallsSequential env config assistantMessage toolCalls
          finalizedCalls messages

-- ======== in parallel

/-- A `FinalizedToolCallEntry`: an outcome, or a thunk and how far it is;
`ending` awaits the listeners of its `tool_execution_end`. -/
inductive Entry where
  | finalized (outcome : FinalizedToolCallOutcome)
  | execution (prepared : PreparedToolCall) (phase : Phase)
  | ending (outcome : FinalizedToolCallOutcome) (emitted : Except JsError Unit)
  | failed (error : JsError)

/-- Emit the start of each call and prepare it. -/
def prepareToolCalls (env : Env σ) (config : AgentLoopConfig σ)
    (assistantMessage : AssistantMessage) :
    List AgentToolCall → Loop σ (List Entry)
  | [] => return []
  | toolCall :: toolCalls => do
      emit env (.toolExecutionStart toolCall)
      let entry ← (do
        match ← prepareToolCall env config assistantMessage toolCall with
        | .immediate result isError =>
          let finalized : FinalizedToolCallOutcome :=
            { toolCall := toolCall, result := result, isError := isError }
          emit env (toolExecutionEnd finalized)
          return .finalized finalized
        | .prepared prepared => return .execution prepared .created)
      return entry :: (← prepareToolCalls env config assistantMessage toolCalls)

/-- One event of an entry. -/
def Entry.step (env : Env σ) (config : AgentLoopConfig σ) (entry : Entry)
    (event : ExecutionEvent) (w : World σ) : Entry × World σ :=
  match entry with
  | .execution prepared phase =>
    match executePreparedToolCall env config prepared phase event w with
    | (.finalized outcome, w) =>
      let (r, w) := emitted env (toolExecutionEnd outcome) w
      (.ending outcome r, w)
    | (phase, w) => (.execution prepared phase, w)
  | .ending outcome r =>
    match event, r with
    | .ended, .ok () => (.finalized outcome, w)
    | .ended, .error error => (.failed error, w)
    | _, _ => (.ending outcome r, w)
  | entry => (entry, w)

/-- One event of a batch. -/
def batchStep (env : Env σ) (config : AgentLoopConfig σ)
    (s : List Entry × World σ) (event : BatchEvent) : List Entry × World σ :=
  match event with
  | .elsewhere => (s.1, { s.2 with outside := env.suspended s.2.outside })
  | .execution i event =>
    match s.1[i]? with
    | none => s
    | some entry =>
      let (entry, w) := entry.step env config event s.2
      (s.1.set i entry, w)

/-- `Promise.all`: the outcomes once all are there, or an error; `none`
while it waits. -/
def collect : List Entry → Option (Except JsError (List FinalizedToolCallOutcome))
  | [] => some (.ok [])
  | entry :: entries =>
    match entry, collect entries with
    | .failed error, _ => some (.error error)
    | _, some (.error error) => some (.error error)
    | .finalized outcome, some (.ok outcomes) => some (.ok (outcome :: outcomes))
    | _, _ => none

/-- Run the entries and await all of them. -/
def awaitAll (env : Env σ) (config : AgentLoopConfig σ) (entries : List Entry) :
    Loop σ (List FinalizedToolCallOutcome) := fun w =>
  let s := (env.schedule w.outside).foldl (batchStep env config) (entries, w)
  (collect s.1).map fun r => (r, s.2)

/-- Emit the tool results in call order. -/
def emitToolResults (env : Env σ) :
    List FinalizedToolCallOutcome → Loop σ (List ToolResultMessage)
  | [] => return []
  | finalized :: rest => do
      let toolResultMessage := createToolResultMessage finalized
        (env.now (← read (·.outside)))
      emitToolResultMessage env toolResultMessage
      return toolResultMessage :: (← emitToolResults env rest)

def executeToolCallsParallel (env : Env σ) (config : AgentLoopConfig σ)
    (assistantMessage : AssistantMessage) (toolCalls : List AgentToolCall) :
    Loop σ ExecutedToolCallBatch := do
  let entries ← prepareToolCalls env config assistantMessage toolCalls
  let orderedFinalizedCalls ← awaitAll env config entries
  let messages ← emitToolResults env orderedFinalizedCalls
  return { messages := messages
           terminate := shouldTerminateToolBatch orderedFinalizedCalls }

def executeToolCalls (env : Env σ) (config : AgentLoopConfig σ)
    (assistantMessage : AssistantMessage) : Loop σ ExecutedToolCallBatch := do
  let context ← read (·.context)
  let toolCalls := toolCallsOf assistantMessage
  let hasSequentialToolCall := toolCalls.any fun tc =>
    ((context.tools.find? fun t => t.name == tc.name).bind (·.executionMode))
      == some .sequential
  if config.toolExecution == some .sequential || hasSequentialToolCall then
    executeToolCallsSequential env config assistantMessage toolCalls [] []
  else executeToolCallsParallel env config assistantMessage toolCalls

end OneHarness.Agent
