/-
What the loop leaves alone.

A property of the outside state that the surroundings keep (`Kept`) is
kept by every function of the loop that polls no queue and delivers no
message: the functions reach the outside state by suspending, by emitting
events of their own and by calling what the loop is configured with, and
in no other way. There is one rule for each way a computation is made
(`Keeps`), as there is for `Holds`.
-/
import OneHarness.Agent.Loop

namespace OneHarness.Agent

open Lib Session Async

variable {σ α β : Type} {I : σ → Prop} {env : Env σ}
  {config : AgentLoopConfig σ}

/-- The computation keeps a property of the outside state, whether it
returns or throws. -/
def Keeps (I : σ → Prop) (x : Loop σ α) : Prop :=
  ∀ w, I w.outside →
    Holds x w (fun _ w' => I w'.outside) (fun _ w' => I w'.outside)

namespace Keeps

theorem pure (a : α) : Keeps I (pure a : Loop σ α) := fun _ h => .pure h

theorem throw (e : JsError) : Keeps I (Async.throw e : Loop σ α) :=
  fun _ h => .throw h

theorem read (f : World σ → α) : Keeps I (Async.read f : Loop σ α) :=
  fun _ h => .read h

theorem ofExcept (r : Except JsError α) :
    Keeps I (Async.ofExcept r : Loop σ α) :=
  fun _ h => .ofExcept (fun _ _ => h) fun _ _ => h

theorem diverge : Keeps I (Async.diverge : Loop σ α) := fun _ _ => .diverge

/-- The loop's own part of the world changes. -/
theorem modify {f : World σ → World σ} (hf : ∀ w, (f w).outside = w.outside) :
    Keeps I (Async.modify f : Loop σ Unit) := by
  intro w h
  refine .modify ?_
  rw [hf]
  exact h

theorem bind {x : Loop σ α} {f : α → Loop σ β} (hx : Keeps I x)
    (hf : ∀ a, Keeps I (f a)) : Keeps I (x >>= f) :=
  fun w h => .bind ((hx w h).mono (fun a w' h' => hf a w' h') fun _ _ h => h)

theorem map {x : Loop σ α} {f : α → β} (hx : Keeps I x) : Keeps I (f <$> x) :=
  fun w h => .map (hx w h)

theorem tryCatch {x : Loop σ α} {k : JsError → Loop σ α} (hx : Keeps I x)
    (hk : ∀ e, Keeps I (k e)) : Keeps I (Async.tryCatch x k) :=
  fun w h => .tryCatch ((hx w h).mono (fun _ _ h => h) fun e w' h' => hk e w' h')

theorem ite {b : Bool} {x y : Loop σ α} (hx : Keeps I x) (hy : Keeps I y) :
    Keeps I (if b = true then x else y) := by
  cases b with
  | true => exact hx
  | false => exact hy

end Keeps

-- ======== the surroundings

/-- An event of the loop's own: it ends no message but an assistant message
or a tool result. -/
def IsOwn : AgentEvent → Prop
  | .messageEnd (.assistant _) | .messageEnd (.toolResult _) => True
  | .messageEnd _ => False
  | _ => True

/-- Whatever the loop calls keeps the property, but for the queues it
polls. -/
structure Kept (I : σ → Prop) (env : Env σ) (config : AgentLoopConfig σ) :
    Prop where
  suspended : ∀ s, I s → I (env.suspended s)
  emit : ∀ event s, IsOwn event → I s → I (env.emit event s).2
  transformContext : ∀ c ∈ config.transformContext, ∀ messages s, I s →
    I (c messages s).2
  convertToLlm : ∀ messages s, I s → I (config.convertToLlm messages s).2
  getApiKey : ∀ c ∈ config.getApiKey, ∀ s, I s → I (c s).2
  streamFunction : ∀ context s, I s → I (config.streamFunction context s).2
  beforeToolCall : ∀ c ∈ config.beforeToolCall, ∀ context s, I s →
    I (c context s).2
  shouldStopBeforeTurn : ∀ c ∈ config.shouldStopBeforeTurn, ∀ s, I s →
    I (c s).2
  shouldStopAfterTurn : ∀ c ∈ config.shouldStopAfterTurn, ∀ context s, I s →
    I (c context s).2
  getContinuationMessages : ∀ c ∈ config.getContinuationMessages,
    ∀ context s, I s → I (c context s).2

section Surroundings

variable (hI : Kept I env config) (assistantMessage message : AssistantMessage)
include hI

-- ======== primitives

theorem keeps_suspend : Keeps I (suspend env) :=
  fun _ h => .modify (hI.suspended _ h)

theorem keeps_emit {event : AgentEvent} (hown : IsOwn event) :
    Keeps I (emit env event) := by
  intro w h r w' hw
  obtain rfl : w' = (emitted env event w).2 :=
    (congrArg Prod.snd (Option.some.inj hw)).symm
  have hkept : I (emitted env event w).2.outside :=
    hI.emit event w.outside hown h
  cases r with
  | ok a => exact hkept
  | error e => exact hkept

omit hI in
theorem keeps_aborted : Keeps I (aborted env) := .read _

omit hI in
theorem keeps_throwIfAborted : Keeps I (throwIfAborted env) :=
  .bind keeps_aborted fun _ => .ite (.throw _) (.pure _)

omit hI in
theorem keeps_rejectIfAbortFirst : Keeps I (rejectIfAbortFirst env) :=
  .bind (.read _) fun _ => .ite (.throw _) (.pure _)

omit hI in
theorem keeps_call {c : Call σ α} (hc : ∀ s, I s → I (c s).2) :
    Keeps I (call c) := by
  intro w h r w' hw
  have hkept := hc w.outside h
  unfold call at hw
  cases hcall : c w.outside with
  | mk started s =>
    rw [hcall] at hw hkept
    cases started with
    | threw e =>
      cases hw
      exact hkept
    | settles r' =>
      cases hw
      exact hkept

theorem keeps_raceWithAbort (r : Except JsError α) :
    Keeps I (raceWithAbort env r) :=
  .bind keeps_throwIfAborted fun _ => .bind (keeps_suspend hI) fun _ =>
    .bind keeps_rejectIfAbortFirst fun _ => .bind (keeps_suspend hI) fun _ =>
      .ofExcept r

theorem keeps_maybePromiseWithAbort {c : Call σ α}
    (hc : ∀ s, I s → I (c s).2) : Keeps I (maybePromiseWithAbort env c) :=
  .bind (keeps_call hc) fun r => keeps_raceWithAbort hI r

omit hI in
theorem keeps_settlePostTurn {operation : Loop σ α}
    (h : Keeps I operation) : Keeps I (settlePostTurn env operation) :=
  .tryCatch (.map h) fun _ => .bind keeps_aborted fun _ =>
    .ite (.pure _) (.throw _)

-- ======== the tool calls

theorem keeps_prepareToolCall (toolCall : AgentToolCall) :
    Keeps I (prepareToolCall env config assistantMessage toolCall) := by
  unfold prepareToolCall
  refine .bind (.read _) fun context => ?_
  split
  · exact .pure _
  · refine .tryCatch ?_ fun _ => .pure _
    refine .bind (.ofExcept _) fun preparedToolCall => ?_
    refine .bind (.ofExcept _) fun validatedArgs => ?_
    split
    · exact .pure _
    · rename_i c hc
      refine .bind (keeps_maybePromiseWithAbort hI
        (hI.beforeToolCall c hc _)) fun beforeResult => ?_
      split <;> exact .pure _

theorem executePreparedToolCall_kept (prepared : PreparedToolCall)
    (phase : Phase) (event : ExecutionEvent) (w : World σ)
    (h : I w.outside) :
    I (executePreparedToolCall env config prepared phase event w).2.outside := by
  unfold executePreparedToolCall
  simp only []
  split
  any_goals exact h
  · split
    · exact h
    · exact hI.emit _ w.outside trivial h
  · split
    · exact h
    · split <;> exact h

theorem keeps_awaitExecution (prepared : PreparedToolCall) :
    Keeps I (awaitExecution env config prepared) := by
  have hrun : ∀ (events : List BatchEvent) (s : Phase × World σ),
      I s.2.outside →
      I (events.foldl (executionStep env config prepared) s).2.outside := by
    intro events
    induction events with
    | nil => exact fun _ h => h
    | cons event events ih =>
      intro s h
      refine ih _ ?_
      unfold executionStep
      split
      · exact hI.suspended _ h
      · exact executePreparedToolCall_kept hI prepared s.1 _ s.2 h
      · exact h
  intro w h r w' hw
  have hkept := hrun (env.schedule w.outside) (.created, w) h
  unfold awaitExecution at hw
  simp only [] at hw
  split at hw
  · cases hw
    exact hkept
  · cases hw

theorem keeps_emitToolResultMessage (message : ToolResultMessage) :
    Keeps I (emitToolResultMessage env message) :=
  .bind (keeps_emit hI trivial) fun _ => keeps_emit hI trivial

theorem keeps_executeToolCallsSequential (toolCalls : List AgentToolCall)
    (finalizedCalls : List FinalizedToolCallOutcome)
    (messages : List ToolResultMessage) :
    Keeps I (executeToolCallsSequential env config assistantMessage toolCalls
      finalizedCalls messages) := by
  induction toolCalls generalizing finalizedCalls messages with
  | nil => exact .pure _
  | cons toolCall toolCalls ih =>
    unfold executeToolCallsSequential
    refine .bind keeps_aborted fun _ => .ite (.pure _) ?_
    refine .bind (keeps_emit hI trivial) fun _ => ?_
    refine .bind ?_ fun finalized => ?_
    · refine .bind (keeps_prepareToolCall hI assistantMessage toolCall)
        fun preparation => ?_
      cases preparation with
      | immediate result isError => exact .pure _
      | prepared prepared => exact keeps_awaitExecution hI prepared
    · refine .bind (keeps_emit hI trivial) fun _ => ?_
      refine .bind (.read _) fun s => ?_
      refine .bind (keeps_emitToolResultMessage hI _) fun _ => ?_
      exact .bind keeps_aborted fun _ => .ite (.pure _) (ih _ _)

theorem keeps_prepareToolCalls (toolCalls : List AgentToolCall) :
    Keeps I (prepareToolCalls env config assistantMessage toolCalls) := by
  induction toolCalls with
  | nil => exact .pure _
  | cons toolCall toolCalls ih =>
    unfold prepareToolCalls
    refine .bind (keeps_emit hI trivial) fun _ => ?_
    refine .bind ?_ fun entry => .bind ih fun _ => .pure _
    refine .bind (keeps_prepareToolCall hI assistantMessage toolCall)
      fun preparation => ?_
    cases preparation with
    | immediate result isError =>
      exact .bind (keeps_emit hI trivial) fun _ => .pure _
    | prepared prepared => exact .pure _

theorem entryStep_kept (entry : Entry) (event : ExecutionEvent)
    (w : World σ) (h : I w.outside) :
    I (entry.step env config event w).2.outside := by
  cases entry with
  | execution prepared phase =>
    have hkept := executePreparedToolCall_kept hI prepared phase event w h
    unfold Entry.step
    simp only []
    split
    · rename_i outcome w₁ heq
      rw [heq] at hkept
      exact hI.emit _ w₁.outside trivial hkept
    · rename_i phase' w₁ _ heq
      rw [heq] at hkept
      exact hkept
  | ending outcome r =>
    unfold Entry.step
    simp only []
    split <;> exact h
  | finalized outcome => exact h
  | failed error => exact h

theorem keeps_awaitAll (entries : List Entry) :
    Keeps I (awaitAll env config entries) := by
  have hrun : ∀ (events : List BatchEvent) (s : List Entry × World σ),
      I s.2.outside →
      I (events.foldl (batchStep env config) s).2.outside := by
    intro events
    induction events with
    | nil => exact fun _ h => h
    | cons event events ih =>
      intro s h
      refine ih _ ?_
      unfold batchStep
      split
      · exact hI.suspended _ h
      · split
        · exact h
        · exact entryStep_kept hI _ _ s.2 h
  intro w h r w' hw
  have hkept := hrun (env.schedule w.outside) (entries, w) h
  unfold awaitAll at hw
  obtain ⟨r', -, heq⟩ := Option.map_eq_some_iff.1 hw
  cases heq
  cases r with
  | ok a => exact hkept
  | error e => exact hkept

theorem keeps_emitToolResults (outcomes : List FinalizedToolCallOutcome) :
    Keeps I (emitToolResults env outcomes) := by
  induction outcomes with
  | nil => exact .pure _
  | cons finalized rest ih =>
    unfold emitToolResults
    refine .bind (.read _) fun s => ?_
    refine .bind (keeps_emitToolResultMessage hI _) fun _ => ?_
    exact .bind ih fun _ => .pure _

theorem keeps_executeToolCalls :
    Keeps I (executeToolCalls env config assistantMessage) := by
  unfold executeToolCalls
  refine .bind (.read _) fun context => .ite ?_ ?_
  · exact keeps_executeToolCallsSequential hI assistantMessage _ [] []
  · refine .bind (keeps_prepareToolCalls hI assistantMessage _) fun entries => ?_
    refine .bind (keeps_awaitAll hI entries) fun outcomes => ?_
    exact .bind (keeps_emitToolResults hI outcomes) fun _ => .pure _

theorem keeps_turnToolCalls : Keeps I (turnToolCalls env config message) := by
  have hpush : ∀ results : List ToolResultMessage,
      Keeps I (pushToolResults results : Loop σ Unit) := by
    intro results
    induction results with
    | nil => exact .pure _
    | cons result rest ih =>
      exact .bind (.modify fun _ => rfl) fun _ =>
        .bind (.modify fun _ => rfl) fun _ => ih
  unfold turnToolCalls
  refine .ite (.pure _) ?_
  refine .bind (keeps_executeToolCalls hI message) fun batch => ?_
  exact .bind (hpush _) fun _ => .pure _

-- ======== the response

theorem keeps_finishMessage : Keeps I (finishMessage env message) := by
  unfold finishMessage
  refine .bind (.read _) fun _ => .ite ?_ ?_
  · refine .bind (.modify fun _ => rfl) fun _ => ?_
    exact .bind (keeps_emit hI trivial) fun _ => .pure _
  · refine .bind (.modify fun _ => rfl) fun _ => ?_
    refine .bind (keeps_emit hI trivial) fun _ => ?_
    exact .bind (keeps_emit hI trivial) fun _ => .pure _

theorem keeps_terminalMessage (response : Response)
    (message : AssistantMessage) :
    Keeps I (terminalMessage env response message) :=
  .tryCatch (keeps_maybePromiseWithAbort hI fun _ h => h) fun _ =>
    .bind keeps_aborted fun _ => .ite (.throw _) (.pure _)

theorem keeps_readStream (response : Response) (fuel n : Nat) :
    Keeps I (readStream env response fuel n) := by
  induction fuel generalizing n with
  | zero => exact .diverge
  | succ fuel ih =>
    unfold readStream
    refine .bind (keeps_maybePromiseWithAbort hI fun _ h => h)
      fun event => ?_
    have hlast : ∀ message : AssistantMessage, Keeps I (do
        finishMessage env (← terminalMessage env response message)) :=
      fun message => .bind (keeps_terminalMessage hI response message)
        fun m => keeps_finishMessage hI m
    cases event with
    | none =>
      exact .bind (keeps_maybePromiseWithAbort hI fun _ h => h)
        fun m => keeps_finishMessage hI m
    | some event =>
      cases event with
      | start partialMessage =>
        refine .bind (.modify fun _ => rfl) fun _ => ?_
        refine .bind (.modify fun _ => rfl) fun _ => ?_
        refine .bind (.modify fun _ => rfl) fun _ => ?_
        exact .bind (keeps_emit hI trivial) fun _ => ih (n + 1)
      | update part partialMessage =>
        refine .bind (.read _) fun _ => .ite ?_ (ih (n + 1))
        refine .bind (.modify fun _ => rfl) fun _ => ?_
        refine .bind (.modify fun _ => rfl) fun _ => ?_
        exact .bind (keeps_emit hI trivial) fun _ => ih (n + 1)
      | done message => exact hlast message
      | error message => exact hlast message

theorem keeps_requestResponse : Keeps I (requestResponse env config) := by
  unfold requestResponse
  refine .bind keeps_throwIfAborted fun _ => .bind (.read _) fun context => ?_
  refine .bind ?_ fun messages => ?_
  · split
    · exact .pure _
    · rename_i c hc
      exact keeps_maybePromiseWithAbort hI (hI.transformContext c hc _)
  · refine .bind (keeps_maybePromiseWithAbort hI (hI.convertToLlm _))
      fun llmMessages => ?_
    refine .bind ?_ fun resolvedApiKey => ?_
    · split
      · exact .pure _
      · rename_i c hc
        exact keeps_maybePromiseWithAbort hI (hI.getApiKey c hc)
    · refine .bind (.read _) fun systemPrompt => ?_
      exact keeps_maybePromiseWithAbort hI (hI.streamFunction _)

theorem keeps_streamAssistantResponse (fuel : Nat) :
    Keeps I (streamAssistantResponse env config fuel) := by
  unfold streamAssistantResponse
  refine .bind (.modify fun _ => rfl) fun _ => .tryCatch ?_ fun error => ?_
  · exact .bind (keeps_requestResponse hI) fun response =>
      keeps_readStream hI response fuel 0
  · refine .bind keeps_aborted fun _ => .ite ?_ (.throw _)
    refine .bind (.read _) fun _ => .bind (.read _) fun _ => ?_
    exact keeps_finishMessage hI _

-- ======== the loop

theorem keeps_emitAgentEnd : Keeps I (emitAgentEnd env) :=
  .bind (.read _) fun _ => keeps_emit hI trivial

theorem keeps_shouldStopBeforeTurn (firstTurn : Bool) :
    Keeps I (shouldStopBeforeTurn config firstTurn) := by
  unfold shouldStopBeforeTurn
  refine .ite (.pure _) ?_
  split
  · exact .pure _
  · rename_i c hc
    intro w h r w' hw
    have hkept := hI.shouldStopBeforeTurn c hc w.outside h
    cases hw
    split <;> exact hkept

end Surroundings

end OneHarness.Agent
