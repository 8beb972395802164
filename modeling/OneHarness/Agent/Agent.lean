/-
The agent: its message queues, its state, and its runs.

# Others

Whatever else holds the agent (listeners, hooks, the user) acts on it
while the loop waits, and only through `AgentCall`s. What they know is an
`Agent ρ`, with a part `ρ` of their own.

# Where messages come from

A message is one object, handed to one place: an `Origin` says to which
of the queues, `none` standing for all that no queue is given (prompts,
continuations, and what the loop makes itself). With it, a message of the
transcript is known to be a queued one.

# The ledger

`Ledger` is no part of the source. It keeps what a queue was given, what
was taken out of it again and what was drained; the drained messages that
are not in the transcript; whether no event was emitted since the last of
them was drained; and whether they were cut off: by an abort in this time,
or by a listener that rejects before all of them are delivered.
-/
import OneHarness.Agent.Loop

namespace OneHarness

open Lib Session Async

namespace Agent

-- ======== the queue

inductive QueueMode where
  | all | oneAtATime
deriving DecidableEq

structure PendingMessageQueue where
  mode : QueueMode
  batches : List (List AgentMessage)

namespace PendingMessageQueue

def enqueue (q : PendingMessageQueue) (batch : List AgentMessage) :
    PendingMessageQueue :=
  if batch.length > 0 then { q with batches := q.batches ++ [batch] } else q

def hasItems (q : PendingMessageQueue) : Bool := q.batches.length > 0

def drain (q : PendingMessageQueue) :
    List AgentMessage × PendingMessageQueue :=
  match q.mode with
  | .all => (q.batches.flatten, { q with batches := [] })
  | .oneAtATime =>
    match q.batches with
    | [] => ([], q)
    | first :: rest => (first, { q with batches := rest })

def clear (q : PendingMessageQueue) : PendingMessageQueue :=
  { q with batches := [] }

/-- The messages removed: whole batches, of which one meets the test. -/
def removeWhere (q : PendingMessageQueue) (predicate : AgentMessage → Bool) :
    List AgentMessage × PendingMessageQueue :=
  ((q.batches.filter (·.any predicate)).flatten,
    { q with batches := q.batches.filter fun batch => !batch.any predicate })

end PendingMessageQueue

-- ======== the agent

/-- `steeringQueue` and `followUpQueue`. -/
inductive QueueName where
  | steering | followUp
deriving DecidableEq

structure MutableAgentState where
  systemPrompt : String
  model : Model
  tools : List AgentTool
  messages : List AgentMessage
  isStreaming : Bool
  streamingMessage : Option AgentMessage
  pendingToolCalls : List String
  errorMessage : Option String

/-- What went through the queues. -/
structure Ledger where
  enqueued : QueueName → List AgentMessage
  removed : QueueName → List AgentMessage
  drained : QueueName → List AgentMessage
  /-- Drained, and not in the transcript. -/
  undelivered : List AgentMessage
  /-- A batch was drained, and no event emitted since. -/
  inFlight : Bool
  /-- Drained messages were cut off. -/
  cutOff : Bool

end Agent

open Agent in
structure Agent (ρ : Type) where
  state : MutableAgentState
  queues : QueueName → PendingMessageQueue
  /-- `activeRun`, and whether its signal is aborted. -/
  activeRun : Option Bool
  /-- The variable of `createLoopConfig`. -/
  skipInitialSteeringPoll : Bool
  ledger : Ledger
  others : ρ

namespace Agent

/-- Which queue a message is for; what the loop makes is for none. -/
structure Origin where
  queueOf : AgentMessage → Option QueueName
  assistant : ∀ m, queueOf (.assistant m) = none
  toolResult : ∀ m, queueOf (.toolResult m) = none

/-- What others may call. -/
inductive AgentCall (origin : Origin) where
  /-- `steer` and `followUp`. -/
  | enqueue (name : QueueName) (batch : List AgentMessage)
      (h : ∀ m ∈ batch, origin.queueOf m = some name)
  | removeQueuedMessages (predicate : AgentMessage → Bool)
  /-- `clearSteeringQueue` and `clearFollowUpQueue`. -/
  | clear (name : QueueName)
  /-- `steeringMode` and `followUpMode`. -/
  | setMode (name : QueueName) (mode : QueueMode)
  | abort

variable {ρ : Type} {origin : Origin}

/-- Put a queue in its place. -/
def setQueue (a : Agent ρ) (name : QueueName) (queue : PendingMessageQueue) :
    Agent ρ :=
  { a with queues := Function.update a.queues name queue }

/-- `steer` and `followUp`. -/
def enqueue (a : Agent ρ) (name : QueueName) (batch : List AgentMessage) :
    Agent ρ :=
  { a.setQueue name ((a.queues name).enqueue batch) with
    ledger := { a.ledger with
      enqueued := Function.update a.ledger.enqueued name
        (a.ledger.enqueued name ++ batch) } }

/-- Note what was taken out of a queue. -/
def noteRemoved (a : Agent ρ) (name : QueueName) (removed : List AgentMessage) :
    Agent ρ :=
  { a with ledger := { a.ledger with
      removed := Function.update a.ledger.removed name
        (a.ledger.removed name ++ removed) } }

/-- `removeWhere` of one of the queues. -/
def removeWhere (a : Agent ρ) (name : QueueName)
    (predicate : AgentMessage → Bool) : Agent ρ :=
  let (removed, queue) := (a.queues name).removeWhere predicate
  (a.setQueue name queue).noteRemoved name removed

def removeQueuedMessages (a : Agent ρ) (predicate : AgentMessage → Bool) :
    Agent ρ :=
  (a.removeWhere .steering predicate).removeWhere .followUp predicate

/-- `clearSteeringQueue` and `clearFollowUpQueue`. -/
def clear (a : Agent ρ) (name : QueueName) : Agent ρ :=
  (a.setQueue name (a.queues name).clear).noteRemoved name
    (a.queues name).batches.flatten

/-- `steeringMode` and `followUpMode`. -/
def setMode (a : Agent ρ) (name : QueueName) (mode : QueueMode) : Agent ρ :=
  a.setQueue name { a.queues name with mode := mode }

/-- `abort`: nothing, but for a run. -/
def abort (a : Agent ρ) : Agent ρ :=
  { a with
    activeRun := a.activeRun.map fun _ => true
    ledger := { a.ledger with
      cutOff := a.ledger.cutOff
        || (a.activeRun.isSome && a.ledger.inFlight) } }

/-- One call of others. -/
def act (a : Agent ρ) : AgentCall origin → Agent ρ
  | .enqueue name batch _ => a.enqueue name batch
  | .removeQueuedMessages predicate => a.removeQueuedMessages predicate
  | .clear name => a.clear name
  | .setMode name mode => a.setMode name mode
  | .abort => a.abort

/-- Others go on: their own part changes, and they call the agent. -/
def goOn (a : Agent ρ) (others : ρ) (calls : List (AgentCall origin)) :
    Agent ρ :=
  calls.foldl act { a with others := others }

/-- `drain` of one of the queues. -/
def drain (a : Agent ρ) (name : QueueName) : List AgentMessage × Agent ρ :=
  let (drained, queue) := (a.queues name).drain
  (drained,
    { a.setQueue name queue with
      ledger := { a.ledger with
        drained := Function.update a.ledger.drained name
          (a.ledger.drained name ++ drained)
        undelivered := a.ledger.undelivered ++ drained
        inFlight := a.ledger.inFlight || !drained.isEmpty } })

-- ======== others

/-- A call of others: an answer, their part, and what they call. -/
abbrev Remote (origin : Origin) (ρ α : Type) : Type :=
  Agent ρ → Started α × ρ × List (AgentCall origin)

/-- A message that is for no queue. -/
abbrev Own (origin : Origin) : Type := 
  { m : AgentMessage // origin.queueOf m = none }

/-- What an agent is made with, and those around it. -/
structure AgentOptions (origin : Origin) (ρ : Type) where
  transformContext :
    Option (List AgentMessage → Remote origin ρ (List AgentMessage))
  convertToLlm : List AgentMessage → Remote origin ρ (List AgentMessage)
  streamFn : LlmContext → Remote origin ρ Response
  getApiKey : Option (Remote origin ρ (Option String))
  beforeToolCall :
    Option (BeforeToolCallContext →
      Remote origin ρ (Option BeforeToolCallResult))
  hasAfterToolCall : Bool
  shouldStopAfterTurn : Option (TurnContext → Remote origin ρ Bool)
  shouldStopBeforeTurn :
    Option (Agent ρ → Except JsError Bool × ρ × List (AgentCall origin))
  getContinuationMessages :
    Option (TurnContext → Remote origin ρ (List (Own origin)))
  toolExecution : ToolExecutionMode
  validateToolArguments : AgentTool → AgentToolCall → Except JsError Json
  /-- The listeners, awaited one after the other. -/
  listeners : AgentEvent → Agent ρ →
    Except JsError Unit × ρ × List (AgentCall origin)
  /-- What goes on while the loop is suspended. -/
  suspended : Agent ρ → ρ × List (AgentCall origin)
  abortFirst : Agent ρ → Bool
  now : Agent ρ → Numeral
  schedule : Agent ρ → List BatchEvent
  /-- `createAssistantMessageDiagnostic("agent_lifecycle_failure", error,
  { source: "run_with_lifecycle" })`. -/
  lifecycleFailure : JsError → Json

variable {α β : Type}

/-- A call of others, as the loop sees it. -/
def remote (r : Remote origin ρ α) : Call (Agent ρ) α := fun a =>
  let (started, others, calls) := r a
  (started, a.goOn others calls)

/-- What is thrown in an `async` function rejects its promise. -/
def asyncFunction (c : Call (Agent ρ) α) : Call (Agent ρ) α := fun a =>
  match c a with
  | (.threw error, a) => (.settles (.error error), a)
  | r => r

/-- Use another form of what a call answers. -/
def mapCall (f : α → β) (c : Call (Agent ρ) α) : Call (Agent ρ) β := fun a =>
  match c a with
  | (.threw error, a) => (.threw error, a)
  | (.settles r, a) => (.settles (r.map f), a)

/-- Drained messages are lost where a listener rejects. -/
def rejected (a : Agent ρ) : Agent ρ :=
  { a with ledger := { a.ledger with
      cutOff := a.ledger.cutOff || !a.ledger.undelivered.isEmpty } }

/-- What `processEvents` does before the listeners are called. -/
def reduce (a : Agent ρ) (event : AgentEvent) : Agent ρ :=
  let a := { a with ledger := { a.ledger with inFlight := false } }
  match event with
  | .messageStart message =>
    { a with state := { a.state with streamingMessage := some message } }
  | .messageUpdate message _ =>
    { a with state := { a.state with
        streamingMessage := some (.assistant message) } }
  | .messageEnd message =>
    { a with
      state := { a.state with
        streamingMessage := none
        messages := a.state.messages ++ [message] }
      ledger := { a.ledger with
        undelivered := a.ledger.undelivered.tail } }
  | .toolExecutionStart toolCall =>
    { a with state := { a.state with
        pendingToolCalls :=
          a.state.pendingToolCalls.insert toolCall.id } }
  | .toolExecutionEnd toolCall _ _ =>
    { a with state := { a.state with
        pendingToolCalls := a.state.pendingToolCalls.erase toolCall.id } }
  | .turnEnd message _ =>
    { a with state := { a.state with
        errorMessage :=
          (message.errorMessage.filter (· ≠ "")).or a.state.errorMessage } }
  | .agentEnd _ =>
    { a with state := { a.state with streamingMessage := none } }
  | _ => a

def processEvents (options : AgentOptions origin ρ) (event : AgentEvent)
    (a : Agent ρ) : Except JsError Unit × Agent ρ :=
  let a := a.reduce event
  match a.activeRun with
  | none =>
    (.error
      { isError := true
        name := "Error"
        message := "Agent listener invoked outside active run" },
      a.rejected)
  | some _ =>
    match options.listeners event a with
    | (.ok (), others, calls) => (.ok (), a.goOn others calls)
    | (.error error, others, calls) =>
      (.error error, (a.goOn others calls).rejected)

/-- The world of the loop. -/
def loopEnv (options : AgentOptions origin ρ) : Env (Agent ρ) where
  aborted a := a.activeRun == some true
  suspended a :=
    let (others, calls) := options.suspended a
    a.goOn others calls
  abortFirst := options.abortFirst
  emit := processEvents options
  now := options.now
  schedule := options.schedule

/-- `getSteeringMessages`. -/
def getSteeringMessages : Call (Agent ρ) (List AgentMessage) := fun a =>
  if a.skipInitialSteeringPoll then
    (.settles (.ok []), { a with skipInitialSteeringPoll := false })
  else
    let (drained, a) := a.drain .steering
    (.settles (.ok drained), a)

/-- `getFollowUpMessages`. -/
def getFollowUpMessages : Call (Agent ρ) (List AgentMessage) := fun a =>
  let (drained, a) := a.drain .followUp
  (.settles (.ok drained), a)

/-- `createLoopConfig`, but for its variable. -/
def createLoopConfig (options : AgentOptions origin ρ) (a : Agent ρ) :
    AgentLoopConfig (Agent ρ) where
  model := a.state.model
  apiKey := none
  transformContext :=
    options.transformContext.map fun transformContext messages =>
      remote (transformContext messages)
  convertToLlm messages := remote (options.convertToLlm messages)
  getApiKey := options.getApiKey.map remote
  getSystemPrompt := some fun a => a.state.systemPrompt
  streamFunction context := remote (options.streamFn context)
  toolExecution := some options.toolExecution
  validateToolArguments := options.validateToolArguments
  beforeToolCall := options.beforeToolCall.map fun beforeToolCall context =>
    remote (beforeToolCall context)
  hasAfterToolCall := options.hasAfterToolCall
  shouldStopBeforeTurn := some fun a =>
    match options.shouldStopBeforeTurn with
    | none => (.ok false, a)
    | some shouldStopBeforeTurn =>
      let (r, others, calls) := shouldStopBeforeTurn a
      (r, a.goOn others calls)
  shouldStopAfterTurn := some fun context =>
    match options.shouldStopAfterTurn with
    | none => fun a => (.settles (.ok false), a)
    | some shouldStopAfterTurn =>
      asyncFunction (remote (shouldStopAfterTurn context))
  getSteeringMessages := some getSteeringMessages
  getFollowUpMessages := some getFollowUpMessages
  getContinuationMessages := some fun context =>
    match options.getContinuationMessages with
    | none => fun a => (.settles (.ok []), a)
    | some getContinuationMessages =>
      asyncFunction (mapCall (·.map (·.1))
        (remote (getContinuationMessages context)))

def createContextSnapshot (a : Agent ρ) : AgentContext where
  systemPrompt := a.state.systemPrompt
  messages := a.state.messages
  tools := a.state.tools

-- ======== the runs

/-- The message of a run that failed. -/
def failureMessage (options : AgentOptions origin ρ) (error : JsError)
    (a : Agent ρ) : AssistantMessage :=
  let aborted := a.activeRun == some true
  { content := [.text "" none]
    api := a.state.model.api
    provider := a.state.model.provider
    model := a.state.model.id
    responseModel := none
    responseId := none
    diagnostics :=
      if aborted then none else some (.arr [options.lifecycleFailure error])
    usage := emptyUsage
    stopReason := if aborted then .aborted else .error
    stopReasonRaw := none
    errorMessage := some error.message
    timestamp := options.now a }

def handleRunFailure (options : AgentOptions origin ρ) (error : JsError)
    (a : Agent ρ) : Agent ρ :=
  let message := failureMessage options error a
  let a := { a with
    state := { a.state with errorMessage := message.errorMessage } }
  let a := (processEvents options (.messageStart (.assistant message)) a).2
  let a := (processEvents options (.messageEnd (.assistant message)) a).2
  (processEvents options (.agentEnd [.assistant message]) a).2

def finishRun (a : Agent ρ) : Agent ρ :=
  { a with
    state := { a.state with
      isStreaming := false
      streamingMessage := none
      pendingToolCalls := [] }
    activeRun := none }

/-- `runWithLifecycle`, of an agent that is not running: the world of the
run is that of a loop with the agent's context. `none` never ends. -/
def runWithLifecycle (options : AgentOptions origin ρ)
    (executor : Loop (Agent ρ) (List AgentMessage)) (a : Agent ρ) :
    Option (Agent ρ) :=
  let a := { a with
    activeRun := some false
    state := { a.state with
      isStreaming := true
      streamingMessage := none
      errorMessage := none } }
  match executor (initialWorld a.createContextSnapshot a) with
  | none => none
  | some (.ok _, w) => some w.outside.finishRun
  | some (.error error, w) =>
    some (handleRunFailure options error w.outside).finishRun

def runPromptMessages (options : AgentOptions origin ρ) (fuel : Nat)
    (messages : List AgentMessage) (skipInitialSteeringPoll : Bool)
    (a : Agent ρ) : Option (Agent ρ) :=
  let a := { a with skipInitialSteeringPoll := skipInitialSteeringPoll }
  runWithLifecycle options
    (runAgentLoop (loopEnv options) (createLoopConfig options a) messages fuel) a

def runContinuation (options : AgentOptions origin ρ) (fuel : Nat)
    (a : Agent ρ) : Option (Agent ρ) :=
  let a := { a with skipInitialSteeringPoll := false }
  runWithLifecycle options
    (runAgentLoopContinue (loopEnv options) (createLoopConfig options a) fuel) a

/-- `runQueuedMessages`: `none` where nothing is queued. -/
def runQueuedMessages (options : AgentOptions origin ρ) (fuel : Nat)
    (a : Agent ρ) : Option (Option (Agent ρ)) :=
  match a.drain .steering with
  | (message :: rest, a) =>
    some (runPromptMessages options fuel (message :: rest) true a)
  | ([], a) =>
    match a.drain .followUp with
    | (message :: rest, a) =>
      some (runPromptMessages options fuel (message :: rest) false a)
    | ([], _) => none

def agentContinueError (message : String) : JsError where
  isError := true
  name := "AgentContinueError"
  message := message

/-- `prompt`, with messages. -/
def prompt (options : AgentOptions origin ρ) (fuel : Nat)
    (messages : List (Own origin)) (a : Agent ρ) :
    Option (Except JsError Unit × Agent ρ) :=
  match a.activeRun with
  | some _ =>
    some (.error
      { isError := true
        name := "Error"
        message := "Agent is already processing a prompt. "
          ++ "Use steer() or followUp() to queue messages, "
          ++ "or wait for completion." }, a)
  | none =>
    (runPromptMessages options fuel (messages.map (·.1)) false a).map
      fun a => (.ok (), a)

/-- `continue`. -/
def continueRun (options : AgentOptions origin ρ) (fuel : Nat) (a : Agent ρ) :
    Option (Except JsError Unit × Agent ρ) :=
  let queuedOr (otherwise : Option (Except JsError Unit × Agent ρ)) :=
    match runQueuedMessages options fuel a with
    | some run => run.map fun a => (.ok (), a)
    | none => otherwise
  let continuation := (runContinuation options fuel a).map fun a => (.ok (), a)
  match a.activeRun with
  | some _ =>
    some (.error (agentContinueError
      "Agent is already processing. Wait for completion before continuing."),
      a)
  | none =>
    match a.state.messages.getLast? with
    | none =>
      queuedOr (some (.error
        (agentContinueError "No messages to continue from"), a))
    | some (.assistant _) =>
      queuedOr (some (.error
        (agentContinueError "Cannot continue from message role: assistant"),
        a))
    | some (.custom _) => queuedOr continuation
    | some _ => continuation

/-- `new Agent(options)`. -/
def create (state : MutableAgentState) (messages : List (Own origin))
    (modes : QueueName → QueueMode) (others : ρ) : Agent ρ where
  state := { state with
    messages := messages.map (·.1)
    isStreaming := false
    streamingMessage := none
    pendingToolCalls := []
    errorMessage := none }
  queues name := { mode := modes name, batches := [] }
  activeRun := none
  skipInitialSteeringPoll := false
  ledger :=
    { enqueued := fun _ => []
      removed := fun _ => []
      drained := fun _ => []
      undelivered := []
      inFlight := false
      cutOff := false }
  others := others

/-- The agents at the end of their runs: made, called between runs, and
run from a prompt or continued, each time among others of any kind. -/
inductive AtRest (origin : Origin) : Agent ρ → Prop where
  | create (state : MutableAgentState) (messages : List (Own origin))
      (modes : QueueName → QueueMode) (others : ρ) :
      AtRest origin (Agent.create state messages modes others)
  | called {a : Agent ρ} (others : ρ) (calls : List (AgentCall origin))
      (h : AtRest origin a) : AtRest origin (a.goOn others calls)
  | prompted {a a' : Agent ρ} {r : Except JsError Unit}
      (options : AgentOptions origin ρ) (fuel : Nat)
      (messages : List (Own origin)) (h : AtRest origin a)
      (hrun : a.prompt options fuel messages = some (r, a')) :
      AtRest origin a'
  | continued {a a' : Agent ρ} {r : Except JsError Unit}
      (options : AgentOptions origin ρ) (fuel : Nat) (h : AtRest origin a)
      (hrun : a.continueRun options fuel = some (r, a')) : AtRest origin a'

end Agent

end OneHarness
