/-
The agent loop: turns of a response and its tool calls, with messages
polled between them.

Each loop of the source is a function with a bound on its rounds; running
out of rounds is a computation that never ends. `currentContext` and
`newMessages` are fields of the world, and so are the variables that
`streamAssistantResponse` shares with its error handler.
-/
import OneHarness.Agent.Tools

namespace OneHarness.Agent

open Lib Session Async

variable {σ : Type}

/-- `pollMessagesUnlessAborted`. -/
def pollMessagesUnlessAborted (env : Env σ)
    (poll : Option (Call σ (List AgentMessage))) : Loop σ (List AgentMessage) :=
  do
  match poll with
  | none => return []
  | some poll =>
    if ← aborted env then return []
    else maybePromiseWithAbort env poll

/-- `settlePostTurn`: `none` is an operation cut short by the abort. -/
def settlePostTurn {α : Type} (env : Env σ) (operation : Loop σ α) :
    Loop σ (Option α) :=
  tryCatch (some <$> operation) fun error => do
    if (← aborted env) && isAbortError error then return none
    else throw error

-- ======== the response

def emptyUsage : Usage where
  input := .ofNat 0
  output := .ofNat 0
  cacheRead := .ofNat 0
  cacheWrite := .ofNat 0
  totalTokens := .ofNat 0
  cost :=
    { input := .ofNat 0
      output := .ofNat 0
      cacheRead := .ofNat 0
      cacheWrite := .ofNat 0
      total := .ofNat 0 }

def createAbortedAssistantMessage (config : AgentLoopConfig σ)
    (partialMessage : Option AssistantMessage) (now : Numeral) :
    AssistantMessage where
  content := match partialMessage with
    | some m => m.content
    | none => [.text "" none]
  api := (partialMessage.map (·.api)).getD config.model.api
  provider := (partialMessage.map (·.provider)).getD config.model.provider
  model := (partialMessage.map (·.model)).getD config.model.id
  responseModel := none
  responseId := none
  diagnostics := none
  usage := cloneUsage ((partialMessage.map (·.usage)).getD emptyUsage)
  stopReason := .aborted
  stopReasonRaw := none
  errorMessage := some abortErrorMessage
  timestamp := now

/-- `context.messages.push(message)`. -/
def pushContext (message : AgentMessage) : Loop σ Unit :=
  modify fun w => { w with
    context := { w.context with messages := w.context.messages ++ [message] } }

/-- `context.messages[context.messages.length - 1] = message`. -/
def replaceLast (message : AgentMessage) : Loop σ Unit :=
  modify fun w => { w with
    context := { w.context with
      messages := w.context.messages.dropLast ++ [message] } }

/-- `newMessages.push(message)`. -/
def pushNew (message : AgentMessage) : Loop σ Unit :=
  modify fun w => { w with newMessages := w.newMessages ++ [message] }

/-- Put the final message in the place of the partial one, or start it,
and end it. -/
def finishMessage (env : Env σ) (finalMessage : AssistantMessage) :
    Loop σ AssistantMessage := do
  if ← read (·.addedPartial) then
    replaceLast (.assistant finalMessage)
  else
    pushContext (.assistant finalMessage)
    emit env (.messageStart (.assistant finalMessage))
  emit env (.messageEnd (.assistant finalMessage))
  return finalMessage

/-- `finishAbortedMessage`. -/
def finishAbortedMessage (env : Env σ) (config : AgentLoopConfig σ) :
    Loop σ AssistantMessage := do
  let partialMessage ← read (·.partialMessage)
  let now ← read fun w => env.now w.outside
  finishMessage env (createAbortedAssistantMessage config partialMessage now)

/-- `await raceWithAbort(iterator.next(), signal)`, the `n`th time. -/
def nextEvent (env : Env σ) (response : Response) (n : Nat) :
    Loop σ (Option AssistantMessageEvent) :=
  maybePromiseWithAbort env fun s => (.settles (response.next n), s)

/-- `await maybePromiseWithAbort(response.result(), signal)`. -/
def awaitResult (env : Env σ) (response : Response) :
    Loop σ AssistantMessage :=
  maybePromiseWithAbort env fun s => (.settles response.result, s)

/-- The final message of a `done` or `error` event: the stream's result,
or, should the abort come first, the event's own. -/
def terminalMessage (env : Env σ) (response : Response)
    (message : AssistantMessage) : Loop σ AssistantMessage :=
  tryCatch (awaitResult env response) fun error => do
    if !(← aborted env) || !isAbortError error then throw error
    else return message

/-- Read the stream to its end, from the `n`th event on. -/
def readStream (env : Env σ) (response : Response) :
    Nat → Nat → Loop σ AssistantMessage
  | 0, _ => diverge
  | fuel + 1, n => do
      match ← nextEvent env response n with
      | none => finishMessage env (← awaitResult env response)
      | some (.start partialMessage) =>
        modify fun w => { w with partialMessage := some partialMessage }
        pushContext (.assistant partialMessage)
        modify fun w => { w with addedPartial := true }
        emit env (.messageStart (.assistant partialMessage))
        readStream env response fuel (n + 1)
      | some (.update part partialMessage) =>
        if (← read (·.partialMessage)).isSome then
          modify fun w => { w with partialMessage := some partialMessage }
          replaceLast (.assistant partialMessage)
          emit env (.messageUpdate partialMessage part)
          readStream env response fuel (n + 1)
        else readStream env response fuel (n + 1)
      | some (.done message) =>
        finishMessage env (← terminalMessage env response message)
      | some (.error message) =>
        finishMessage env (← terminalMessage env response message)

/-- The request of a turn, and the provider's answer to it. -/
def requestResponse (env : Env σ) (config : AgentLoopConfig σ) :
    Loop σ Response := do
  throwIfAborted env
  let context ← read (·.context)
  let messages ← (match config.transformContext with
    | none => return context.messages
    | some transformContext =>
      maybePromiseWithAbort env (transformContext context.messages))
  let llmMessages ← maybePromiseWithAbort env (config.convertToLlm messages)
  let resolvedApiKey ← (match config.getApiKey with
    | none => return none
    | some getApiKey => maybePromiseWithAbort env getApiKey)
  let systemPrompt ← read fun w =>
    match config.getSystemPrompt with
    | none => context.systemPrompt
    | some getSystemPrompt => getSystemPrompt w.outside
  maybePromiseWithAbort env
    (config.streamFunction
      { systemPrompt := systemPrompt
        messages := llmMessages
        tools := context.tools
        apiKey := (resolvedApiKey.filter (· ≠ "")).or config.apiKey })

def streamAssistantResponse (env : Env σ) (config : AgentLoopConfig σ)
    (fuel : Nat) : Loop σ AssistantMessage := do
  modify fun w => { w with partialMessage := none, addedPartial := false }
  tryCatch
    (do
      let response ← requestResponse env config
      readStream env response fuel 0)
    fun error => do
      if (← aborted env) && isAbortError error then
        finishAbortedMessage env config
      else throw error

-- ======== the loop

/-- The variables of `runLoop`. -/
structure LoopVars where
  firstTurn : Bool
  lastTurn : Option TurnContext
  pendingMessages : List AgentMessage
  hasMoreToolCalls : Bool

/-- `emit({ type: "agent_end", messages: newMessages })`. -/
def emitAgentEnd (env : Env σ) : Loop σ Unit := do
  emit env (.agentEnd (← read (·.newMessages)))

/-- The callback `shouldStopBeforeTurn` of the loop. -/
def shouldStopBeforeTurn (config : AgentLoopConfig σ) (firstTurn : Bool) :
    Loop σ Bool :=
  if firstTurn then return false
  else
    match config.shouldStopBeforeTurn with
    | none => return false
    | some shouldStop => fun w =>
      let (r, s) := shouldStop w.outside
      some (r, { w with outside := s })

/-- Deliver the pending messages one by one. -/
def deliverPending (env : Env σ) : List AgentMessage → Loop σ Unit
  | [] => return ()
  | message :: rest => do
      emit env (.messageStart message)
      emit env (.messageEnd message)
      pushContext message
      pushNew message
      deliverPending env rest

/-- Push the results of a tool batch. -/
def pushToolResults : List ToolResultMessage → Loop σ Unit
  | [] => return ()
  | result :: rest => do
      pushContext (.toolResult result)
      pushNew (.toolResult result)
      pushToolResults rest

/-- The tool calls of a turn: their results, and whether there may be more
of them. -/
def turnToolCalls (env : Env σ) (config : AgentLoopConfig σ)
    (message : AssistantMessage) : Loop σ (List ToolResultMessage × Bool) := do
  if (toolCallsOf message).isEmpty then return ([], false)
  else
    let executedToolBatch ← executeToolCalls env config message
    pushToolResults executedToolBatch.messages
    return (executedToolBatch.messages, !executedToolBatch.terminate)

/-- What comes after a turn: `none` has ended the run. -/
def afterTurn (env : Env σ) (config : AgentLoopConfig σ)
    (message : AssistantMessage) (toolResults : List ToolResultMessage)
    (hasMoreToolCalls : Bool) : Loop σ (Option LoopVars) := do
  let ended : Loop σ (Option LoopVars) := do
    emitAgentEnd env
    return none
  if ← aborted env then ended
  else
    let context ← read (·.context)
    let newMessages ← read (·.newMessages)
    let lastTurn : TurnContext :=
      { message := message
        toolResults := toolResults
        context := context
        newMessages := newMessages }
    let shouldStopAfterTurn : Call σ Bool :=
      match config.shouldStopAfterTurn with
      | none => fun s => (.settles (.ok false), s)
      | some shouldStopAfterTurn => shouldStopAfterTurn lastTurn
    let shouldStop ← call shouldStopAfterTurn
    match ← settlePostTurn env (raceWithAbort env shouldStop) with
    | none => ended
    | some true => ended
    | some false =>
      if ← shouldStopBeforeTurn config false then ended
      else
        match ← settlePostTurn env
            (pollMessagesUnlessAborted env config.getSteeringMessages) with
        | none => ended
        | some [] =>
          if ← shouldStopBeforeTurn config false then ended
          else
            return some
              { firstTurn := false
                lastTurn := some lastTurn
                pendingMessages := []
                hasMoreToolCalls := hasMoreToolCalls }
        | some (message :: rest) =>
          return some
            { firstTurn := false
              lastTurn := some lastTurn
              pendingMessages := message :: rest
              hasMoreToolCalls := hasMoreToolCalls }

/-- One round of the inner loop: a turn. `none` has ended the run. -/
def turn (env : Env σ) (config : AgentLoopConfig σ) (fuel : Nat)
    (v : LoopVars) : Loop σ (Option LoopVars) := do
  throwIfAborted env
  if !v.firstTurn then emit env .turnStart
  deliverPending env v.pendingMessages
  let message ← streamAssistantResponse env config fuel
  pushNew (.assistant message)
  if message.stopReason = .error ∨ message.stopReason = .aborted then
    emit env (.turnEnd message [])
    emitAgentEnd env
    return none
  else
    let (toolResults, hasMoreToolCalls) ← turnToolCalls env config message
    emit env (.turnEnd message toolResults)
    afterTurn env config message toolResults hasMoreToolCalls

/-- The inner loop; `none` has ended the run. -/
def innerLoop (env : Env σ) (config : AgentLoopConfig σ) (fuel : Nat) :
    Nat → LoopVars → Loop σ (Option LoopVars)
  | 0, _ => diverge
  | rounds + 1, v => do
      if v.hasMoreToolCalls || !v.pendingMessages.isEmpty then
        match ← turn env config fuel v with
        | none => return none
        | some v => innerLoop env config fuel rounds v
      else return some v

/-- The continuation messages, once a turn was made. -/
def pollContinuation (env : Env σ) (config : AgentLoopConfig σ)
    (lastTurn : Option TurnContext) : Loop σ (Option (List AgentMessage)) := do
  match lastTurn with
  | none => return some []
  | some lastTurn =>
    let getContinuationMessages : Call σ (List AgentMessage) :=
      match config.getContinuationMessages with
      | none => fun s => (.settles (.ok []), s)
      | some getContinuationMessages => getContinuationMessages lastTurn
    let continuation ← call getContinuationMessages
    settlePostTurn env (raceWithAbort env continuation)

/-- What the outer loop does once there is nothing left to do: `none` has
ended the run. -/
def whenIdle (env : Env σ) (config : AgentLoopConfig σ) (v : LoopVars) :
    Loop σ (Option LoopVars) := do
  let ended : Loop σ (Option LoopVars) := do
    emitAgentEnd env
    return none
  if ← shouldStopBeforeTurn config v.firstTurn then ended
  else
    match ← settlePostTurn env
        (pollMessagesUnlessAborted env config.getFollowUpMessages) with
    | none => ended
    | some (message :: rest) =>
      return some { v with pendingMessages := message :: rest }
    | some [] =>
      if ← shouldStopBeforeTurn config v.firstTurn then ended
      else
        match ← pollContinuation env config v.lastTurn with
        | none => ended
        | some [] => ended
        | some (message :: rest) =>
          return some { v with pendingMessages := message :: rest }

/-- The outer loop. -/
def outerLoop (env : Env σ) (config : AgentLoopConfig σ) (fuel : Nat) :
    Nat → LoopVars → Loop σ Unit
  | 0, _ => diverge
  | rounds + 1, v => do
      throwIfAborted env
      match ← innerLoop env config fuel fuel { v with hasMoreToolCalls := true }
        with
      | none => return ()
      | some v =>
        match ← whenIdle env config v with
        | none => return ()
        | some v => outerLoop env config fuel rounds v

def runLoop (env : Env σ) (config : AgentLoopConfig σ) (fuel : Nat) :
    Loop σ Unit := do
  let pendingMessages ←
    pollMessagesUnlessAborted env config.getSteeringMessages
  outerLoop env config fuel fuel
    { firstTurn := true
      lastTurn := none
      pendingMessages := pendingMessages
      hasMoreToolCalls := true }

-- ======== the runs

/-- A world before a run. -/
def initialWorld (context : AgentContext) (outside : σ) : World σ where
  outside := outside
  events := []
  context := context
  newMessages := []
  partialMessage := none
  addedPartial := false

/-- Announce the prompts. -/
def emitPrompts (env : Env σ) : List AgentMessage → Loop σ Unit
  | [] => return ()
  | prompt :: rest => do
      emit env (.messageStart prompt)
      emit env (.messageEnd prompt)
      emitPrompts env rest

/-- `runAgentLoop`, in `initialWorld context`. -/
def runAgentLoop (env : Env σ) (config : AgentLoopConfig σ)
    (prompts : List AgentMessage) (fuel : Nat) : Loop σ (List AgentMessage) := do
  modify fun w => { w with
    newMessages := prompts
    context := { w.context with messages := w.context.messages ++ prompts } }
  emit env .agentStart
  emit env .turnStart
  emitPrompts env prompts
  runLoop env config fuel
  read (·.newMessages)

/-- `runAgentLoopContinue`, in `initialWorld context`. -/
def runAgentLoopContinue (env : Env σ) (config : AgentLoopConfig σ)
    (fuel : Nat) : Loop σ (List AgentMessage) := do
  match (← read (·.context)).messages.getLast? with
  | none =>
    throw
      { isError := true
        name := "Error"
        message := "Cannot continue: no messages in context" }
  | some (.assistant _) =>
    throw
      { isError := true
        name := "Error"
        message := "Cannot continue from message role: assistant" }
  | some _ =>
    modify fun w => { w with newMessages := [] }
    emit env .agentStart
    emit env .turnStart
    runLoop env config fuel
    read (·.newMessages)

end OneHarness.Agent
