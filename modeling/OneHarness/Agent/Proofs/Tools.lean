/-
Tool batches are answered in call order.

`CallTrace` is what one call leaves among the events: its start, updates,
its end. In parallel the traces of the calls are interleaved, whatever
order the executions complete in, and the results follow in call order
(`executeToolCallsParallel_answers`); one after the other, the calls of a
prefix are answered, all of them unless the signal was aborted
(`executeToolCallsSequential_answers`).

# The invariant

`EntryTrace` ties how far an entry of a batch is to what it has emitted:
no end before it is `ending`, and then nothing more. An event concerns
one entry and adds at most one element to its trace.
-/
import OneHarness.Agent.Tools
import OneHarness.Lib.Interleaving

namespace OneHarness.Agent

open Lib Session Async

variable {σ : Type} {env : Env σ} {config : AgentLoopConfig σ}
  {w w' w'' : World σ}

-- ======== the frame

/-- From `w` to `w'` the events `evs` were emitted, and neither transcript
changed. -/
structure Emits (w : World σ) (evs : List AgentEvent) (w' : World σ) :
    Prop where
  events : w'.events = w.events ++ evs
  context : w'.context = w.context
  newMessages : w'.newMessages = w.newMessages
  partialMessage : w'.partialMessage = w.partialMessage
  addedPartial : w'.addedPartial = w.addedPartial

theorem Emits.refl (w : World σ) : Emits w [] w :=
  ⟨(List.append_nil _).symm, rfl, rfl, rfl, rfl⟩

variable {evs : List AgentEvent}

theorem Emits.trans {evs' : List AgentEvent} (h : Emits w evs w')
    (h' : Emits w' evs' w'') : Emits w (evs ++ evs') w'' where
  events := by rw [h'.events, h.events, List.append_assoc]
  context := h'.context.trans h.context
  newMessages := h'.newMessages.trans h.newMessages
  partialMessage := h'.partialMessage.trans h.partialMessage
  addedPartial := h'.addedPartial.trans h.addedPartial

theorem Emits.quiet (h : Emits w [] w')
    (h' : Emits w' evs w'') : Emits w evs w'' := h.trans h'

theorem Emits.append_nil (h : Emits w (evs ++ []) w') :
    Emits w evs w' := by rwa [List.append_nil] at h

/-- A change outside the loop. -/
theorem emits_outside (w : World σ) (s : σ) :
    Emits w [] { w with outside := s } :=
  ⟨(List.append_nil _).symm, rfl, rfl, rfl, rfl⟩

theorem emitted_emits (env : Env σ) (event : AgentEvent) (w : World σ) :
    Emits w [event] (emitted env event w).2 :=
  ⟨rfl, rfl, rfl, rfl, rfl⟩

theorem holds_emit (event : AgentEvent) :
    Holds (emit env event) w (fun _ w' => Emits w [event] w')
      (fun _ w' => Emits w [event] w') := by
  intro r w' h
  have heq := Option.some.inj h
  obtain rfl : (emitted env event w).2 = w' := congrArg Prod.snd heq
  cases r with
  | ok _ => exact emitted_emits env event w
  | error _ => exact emitted_emits env event w

theorem holds_aborted :
    Holds (aborted env) w (fun b w' => b = env.aborted w.outside ∧ w' = w)
      (fun _ _ => False) :=
  .read ⟨rfl, rfl⟩

theorem holds_throwIfAborted :
    Holds (throwIfAborted env) w
      (fun _ w' => env.aborted w.outside = false ∧ w' = w)
      (fun _ w' => env.aborted w.outside = true ∧ w' = w) := by
  refine .bind (holds_aborted.mono ?_ fun _ _ h => h.elim)
  rintro b w' ⟨rfl, rfl⟩
  exact .ite (fun h => .throw ⟨h, rfl⟩) fun h => .pure ⟨h, rfl⟩

theorem holds_suspend :
    Holds (suspend env) w (fun _ w' => Emits w [] w') (fun _ _ => False) :=
  .modify (emits_outside w _)

variable {α : Type}

theorem holds_call (c : Call σ α) :
    Holds (call c) w
      (fun r w' => Emits w [] w' ∧ (c w.outside).1 = .settles r)
      (fun _ w' => Emits w [] w') := by
  intro r w' h
  unfold call at h
  split at h
  · cases h
    exact emits_outside w _
  · rename_i r' s heq
    cases h
    exact ⟨emits_outside w _, congrArg Prod.fst heq⟩

theorem holds_rejectIfAbortFirst :
    Holds (rejectIfAbortFirst env) w (fun _ w' => w' = w)
      (fun _ w' => w' = w) := by
  refine .bind (.read ?_)
  exact .ite (fun _ => .throw rfl) fun _ => .pure rfl

theorem holds_raceWithAbort (r : Except JsError α) :
    Holds (raceWithAbort env r) w
      (fun a w' => Emits w [] w' ∧ r = .ok a)
      (fun _ w' => Emits w [] w') := by
  refine .bind (holds_throwIfAborted.mono ?_ ?_)
  case refine_2 =>
    rintro _ _ ⟨-, rfl⟩
    exact .refl _
  rintro _ _ ⟨-, rfl⟩
  refine .bind (holds_suspend.mono (fun _ w₁ h₁ => ?_) fun _ _ h => h.elim)
  refine .bind (holds_rejectIfAbortFirst.mono ?_ ?_)
  case refine_2 =>
    rintro _ _ rfl
    exact h₁
  rintro _ _ rfl
  refine .bind (holds_suspend.mono (fun _ w₂ h₂ => ?_) fun _ _ h => h.elim)
  have h₂ := h₁.quiet h₂
  exact .ofExcept (fun _ heq => ⟨h₂, heq⟩) fun _ _ => h₂

theorem holds_maybePromiseWithAbort (c : Call σ α) :
    Holds (maybePromiseWithAbort env c) w
      (fun a w' => Emits w [] w' ∧ (c w.outside).1 = .settles (.ok a))
      (fun _ w' => Emits w [] w') := by
  refine .bind ((holds_call c).mono ?_ fun _ _ h => h)
  rintro r w₁ ⟨h₁, hr⟩
  refine (holds_raceWithAbort r).mono ?_ fun _ _ h => h₁.quiet h
  rintro a w₂ ⟨h₂, rfl⟩
  exact ⟨h₁.quiet h₂, hr⟩

-- ======== preparation

/-- What is prepared is the call that was asked for. -/
def Prepares (toolCall : AgentToolCall) : Preparation → Prop
  | .prepared prepared => prepared.toolCall = toolCall
  | .immediate _ _ => True

variable (assistantMessage : AssistantMessage) (prepared : PreparedToolCall)

/-- A preparation emits nothing and does not throw. -/
theorem holds_prepareToolCall (toolCall : AgentToolCall) :
    Holds (prepareToolCall env config assistantMessage toolCall) w
      (fun p w' => Emits w [] w' ∧ Prepares toolCall p)
      (fun _ _ => False) := by
  refine .bind (.read ?_)
  split
  · exact .pure ⟨.refl w, trivial⟩
  · refine .tryCatch ?_
    have hcatch : ∀ (e : JsError) (w' : World σ), Emits w [] w' →
        Holds (W := World σ) (E := JsError)
          (pure (.immediate (createErrorToolResult e.message) true)) w'
          (fun p w' => Emits w [] w' ∧ Prepares toolCall p)
          (fun _ _ => False) := fun e w' h => .pure ⟨h, trivial⟩
    refine .bind (.ofExcept (fun args _ => ?_) fun e _ => hcatch e w (.refl w))
    refine .bind (.ofExcept (fun args' _ => ?_) fun e _ => hcatch e w (.refl w))
    split
    · exact .pure ⟨.refl w, rfl⟩
    · refine .bind ((holds_maybePromiseWithAbort _).mono
        (fun before w₁ h₁ => ?_) fun e w₁ h₁ => hcatch e w₁ h₁)
      split
      · exact .pure ⟨h₁.1, trivial⟩
      · exact .pure ⟨h₁.1, rfl⟩

-- ======== the traces

/-- The updates a call has emitted. -/
def updatesOf (toolCall : AgentToolCall) (results : List AgentToolResult) :
    List AgentEvent :=
  results.map (.toolExecutionUpdate toolCall)

/-- A call that has started and may go on. -/
def Open (toolCall : AgentToolCall) (part : List AgentEvent) : Prop :=
  ∃ results, part = .toolExecutionStart toolCall :: updatesOf toolCall results

/-- A call that has ended with `outcome`: one start, then updates, then
one end. -/
def CallTrace (toolCall : AgentToolCall) (outcome : FinalizedToolCallOutcome)
    (part : List AgentEvent) : Prop :=
  outcome.toolCall = toolCall
    ∧ ∃ results, part = .toolExecutionStart toolCall
      :: updatesOf toolCall results ++ [toolExecutionEnd outcome]

variable {toolCall : AgentToolCall} {part : List AgentEvent}

theorem Open.update (h : Open toolCall part) (partialResult : AgentToolResult) :
    Open toolCall
      (part ++ [.toolExecutionUpdate toolCall partialResult]) := by
  obtain ⟨results, rfl⟩ := h
  refine ⟨results ++ [partialResult], ?_⟩
  rw [updatesOf, updatesOf, List.map_append]
  rfl

variable {outcome : FinalizedToolCallOutcome}

theorem Open.ends (h : Open toolCall part) (ho : outcome.toolCall = toolCall) :
    CallTrace toolCall outcome (part ++ [toolExecutionEnd outcome]) := by
  obtain ⟨results, rfl⟩ := h
  exact ⟨ho, results, rfl⟩

theorem finalizeExecutedToolCall_toolCall (executed : ExecutedToolCallOutcome)
    (r : Except JsError (Option AfterToolCallResult)) :
    (finalizeExecutedToolCall config prepared executed r).toolCall
      = prepared.toolCall := by
  unfold finalizeExecutedToolCall
  split
  · split <;> rfl
  · rfl

variable (env config) in
/-- An event of an execution keeps its call open, and the outcome it may
come to is the call's. -/
theorem executePreparedToolCall_spec
    {phase : Phase} (event : ExecutionEvent) (w : World σ)
    (hopen : Open prepared.toolCall part)
    (hphase : ∀ outcome, phase ≠ .finalized outcome) :
    let s := executePreparedToolCall env config prepared phase event w
    (∃ evs, Emits w evs s.2 ∧ Open prepared.toolCall (part ++ evs))
      ∧ ∀ outcome, s.1 = .finalized outcome →
        outcome.toolCall = prepared.toolCall := by
  have hquiet : ∃ evs, Emits w evs w ∧ Open prepared.toolCall (part ++ evs) :=
    ⟨[], .refl w, by rwa [List.append_nil]⟩
  unfold executePreparedToolCall
  split
  · refine ⟨hquiet, fun outcome heq => ?_⟩
    simp only [] at heq
    split at heq <;> cases heq
  · simp only []
    split
    · exact ⟨hquiet, fun outcome heq => by cases heq⟩
    · exact ⟨⟨_, emitted_emits env _ w, hopen.update _⟩,
        fun outcome heq => by cases heq⟩
  · exact ⟨hquiet, fun outcome heq => by cases heq⟩
  · refine ⟨hquiet, fun outcome heq => ?_⟩
    simp only [] at heq
    split at heq <;> cases heq
  · split
    · exact ⟨hquiet, fun outcome heq => by cases heq⟩
    · simp only []
      split
      · exact ⟨hquiet, fun outcome heq => by cases heq⟩
      · exact ⟨hquiet, fun outcome heq => by cases heq⟩
  · exact ⟨hquiet, fun outcome heq => by cases heq⟩
  · refine ⟨hquiet, fun outcome heq => ?_⟩
    cases heq
    exact finalizeExecutedToolCall_toolCall _ _ _
  · exact ⟨hquiet, fun outcome heq => absurd heq (hphase outcome)⟩

-- ======== one after the other

/-- The execution of a call that has started, so far. -/
structure Executing (prepared : PreparedToolCall) (part : List AgentEvent)
    (w : World σ) (s : Phase × World σ) : Prop where
  emits : ∃ evs, Emits w evs s.2 ∧ Open prepared.toolCall (part ++ evs)
  outcome : ∀ outcome, s.1 = .finalized outcome →
    outcome.toolCall = prepared.toolCall

variable (env config) in
theorem executing_step {s : Phase × World σ} (event : BatchEvent)
    (h : Executing prepared part w s) :
    Executing prepared part w (executionStep env config prepared s event) := by
  obtain ⟨phase, w₁⟩ := s
  obtain ⟨⟨evs, hevs, hopen⟩, houtcome⟩ := h
  unfold executionStep
  split
  · refine ⟨⟨evs, ?_, hopen⟩, houtcome⟩
    exact (hevs.trans (emits_outside w₁ _)).append_nil
  · by_cases hphase : ∃ outcome, phase = .finalized outcome
    · -- nothing happens to it any more
      obtain ⟨outcome, rfl⟩ := hphase
      exact ⟨⟨evs, hevs, hopen⟩, houtcome⟩
    · have hphase' : ∀ outcome, phase ≠ .finalized outcome :=
        fun outcome heq => hphase ⟨outcome, heq⟩
      obtain ⟨⟨evs', hevs', hopen'⟩, houtcome'⟩ :=
        executePreparedToolCall_spec env config prepared
          ‹ExecutionEvent› w₁ hopen hphase'
      refine ⟨⟨evs ++ evs', hevs.trans hevs', ?_⟩, houtcome'⟩
      rwa [← List.append_assoc]
  · exact ⟨⟨evs, hevs, hopen⟩, houtcome⟩

variable (env config) in
theorem executing_run (events : List BatchEvent) {s : Phase × World σ}
    (h : Executing prepared part w s) :
    Executing prepared part w
      (events.foldl (executionStep env config prepared) s) := by
  induction events generalizing s with
  | nil => exact h
  | cons event events ih => exact ih (executing_step env config prepared event h)

theorem holds_awaitExecution (hopen : Open prepared.toolCall part) :
    Holds (awaitExecution env config prepared) w
      (fun outcome w' => outcome.toolCall = prepared.toolCall
        ∧ ∃ evs, Emits w evs w' ∧ Open prepared.toolCall (part ++ evs))
      (fun _ _ => False) := by
  have hstart : Executing prepared part w (.created, w) :=
    ⟨⟨[], .refl w, by rwa [List.append_nil]⟩, fun _ heq => by cases heq⟩
  have hend := executing_run env config prepared
    (env.schedule w.outside) hstart
  intro r w' h
  unfold awaitExecution at h
  simp only [] at h
  split at h
  · rename_i outcome heq
    cases h
    exact ⟨hend.outcome outcome heq, hend.emits⟩
  · cases h

/-- The two events of a tool result. -/
def resultEvents (message : ToolResultMessage) : List AgentEvent :=
  [.messageStart (.toolResult message), .messageEnd (.toolResult message)]

/-- The message reports this outcome. -/
def Reports (outcome : FinalizedToolCallOutcome) (message : ToolResultMessage) :
    Prop := ∃ now, message = createToolResultMessage outcome now

/-- A call that was answered: its trace, its outcome and its result. -/
structure Answer where
  toolCall : AgentToolCall
  outcome : FinalizedToolCallOutcome
  trace : List AgentEvent
  message : ToolResultMessage
  traced : CallTrace toolCall outcome trace
  reports : Reports outcome message

/-- An answer names its call. -/
theorem Answer.toolCallId (a : Answer) :
    a.message.toolCallId = a.toolCall.id
      ∧ a.message.toolName = a.toolCall.name := by
  obtain ⟨now, hm⟩ := a.reports
  rw [hm, ← a.traced.1]
  exact ⟨rfl, rfl⟩

/-- What a batch emits. -/
def ToolEvent : AgentEvent → Prop
  | .toolExecutionStart _ | .toolExecutionUpdate _ _
  | .toolExecutionEnd _ _ _ => True
  | .messageStart m | .messageEnd m => m.isToolResult = true
  | _ => False

/-- Nothing but tool events were emitted. -/
def EmitsTools (w w' : World σ) : Prop :=
  ∃ evs, Emits w evs w' ∧ ∀ e ∈ evs, ToolEvent e

theorem EmitsTools.trans (h : EmitsTools w w') (h' : EmitsTools w' w'') :
    EmitsTools w w'' := by
  obtain ⟨evs, hevs, ht⟩ := h
  obtain ⟨evs', hevs', ht'⟩ := h'
  refine ⟨evs ++ evs', hevs.trans hevs', fun e he => ?_⟩
  exact (List.mem_append.1 he).elim (ht e) (ht' e)

theorem emitsTools_one {event : AgentEvent} (h : Emits w [event] w')
    (ht : ToolEvent event) : EmitsTools w w' :=
  ⟨_, h, fun e he => by rwa [List.mem_singleton.1 he]⟩

/-- The event is one of an execution. -/
def IsExecution : AgentEvent → Prop
  | .toolExecutionStart _ | .toolExecutionUpdate _ _
  | .toolExecutionEnd _ _ _ => True
  | _ => False

theorem IsExecution.toolEvent {e : AgentEvent} (h : IsExecution e) :
    ToolEvent e := by
  cases e <;> first | exact h | exact h.elim

theorem Open.executions
    (h : Open toolCall part) : ∀ e ∈ part, IsExecution e := by
  obtain ⟨results, rfl⟩ := h
  intro e he
  rcases List.mem_cons.1 he with rfl | he
  · trivial
  · obtain ⟨result, -, rfl⟩ := List.mem_map.1 he
    trivial

theorem Open.toolEvents (h : Open toolCall part) : ∀ e ∈ part, ToolEvent e :=
  fun e he => (h.executions e he).toolEvent

theorem CallTrace.executions
    (h : CallTrace toolCall outcome part) : ∀ e ∈ part, IsExecution e := by
  obtain ⟨-, results, rfl⟩ := h
  intro e he
  rcases List.mem_append.1 he with he | he
  · exact Open.executions ⟨results, rfl⟩ e he
  · rw [List.mem_singleton.1 he]
    trivial

theorem CallTrace.toolEvents
    (h : CallTrace toolCall outcome part) : ∀ e ∈ part, ToolEvent e :=
  fun e he => (h.executions e he).toolEvent

theorem resultEvents_toolEvents (message : ToolResultMessage) :
    ∀ e ∈ resultEvents message, ToolEvent e := by
  intro e he
  rcases List.mem_cons.1 he with rfl | he
  · rfl
  · rw [List.mem_singleton.1 he]
    rfl

theorem holds_emitToolResultMessage (message : ToolResultMessage) :
    Holds (emitToolResultMessage env message) w
      (fun _ w' => Emits w (resultEvents message) w')
      (fun _ w' => EmitsTools w w') := by
  refine .bind ((holds_emit _).mono (fun _ w₁ h₁ => ?_) fun _ w₁ h₁ => ?_)
  · refine (holds_emit _).mono (fun _ w₂ h₂ => h₁.trans h₂) fun _ w₂ h₂ => ?_
    exact (emitsTools_one h₁ rfl).trans (emitsTools_one h₂ rfl)
  · exact emitsTools_one h₁ rfl

/-- The outcome of a call that has started, however it is come by. -/
theorem holds_outcome (toolCall : AgentToolCall) :
    Holds (do
        match ← prepareToolCall env config assistantMessage toolCall with
        | .immediate result isError =>
          return { toolCall := toolCall, result := result, isError := isError }
        | .prepared prepared => awaitExecution env config prepared) w
      (fun outcome w' => outcome.toolCall = toolCall
        ∧ ∃ evs, Emits w evs w'
          ∧ Open toolCall (.toolExecutionStart toolCall :: evs))
      (fun _ _ => False) := by
  refine .bind ((holds_prepareToolCall assistantMessage toolCall).mono ?_
    fun _ _ h => h)
  rintro p w₁ ⟨h₁, hp⟩
  cases p with
  | immediate result isError => exact .pure ⟨rfl, [], h₁, [], rfl⟩
  | prepared prepared =>
    obtain rfl : prepared.toolCall = toolCall := hp
    have hstart : Open prepared.toolCall
      [.toolExecutionStart prepared.toolCall] := ⟨[], rfl⟩
    refine (holds_awaitExecution prepared hstart).mono ?_ fun _ _ h => h
    rintro outcome w₂ ⟨ho, evs, hevs, hopen⟩
    exact ⟨ho, evs, h₁.quiet hevs, hopen⟩

/-- What the calls of a batch emit one after the other. -/
def sequentialEvents (answers : List Answer) : List AgentEvent :=
  answers.flatMap fun a => a.trace ++ resultEvents a.message

/-- What a sequential batch comes to: the calls of a prefix are answered,
all of them unless the signal was aborted. -/
structure SequentialBatch (env : Env σ) (toolCalls : List AgentToolCall)
    (messages : List ToolResultMessage) (w w' : World σ) : Prop where
  answered : ∃ answers : List Answer,
    answers.map (·.toolCall) <+: toolCalls
      ∧ (answers.map (·.toolCall) = toolCalls
        ∨ env.aborted w'.outside = true)
      ∧ messages = answers.map (·.message)
      ∧ Emits w (sequentialEvents answers) w'

/-- One after the other, the calls of a prefix are answered in call order. -/
theorem holds_executeToolCallsSequential (toolCalls : List AgentToolCall)
    (finalizedCalls : List FinalizedToolCallOutcome)
    (messages : List ToolResultMessage) :
    Holds (executeToolCallsSequential env config assistantMessage toolCalls
        finalizedCalls messages) w
      (fun batch w' => ∃ more, batch.messages = messages ++ more
        ∧ SequentialBatch env toolCalls more w w')
      (fun _ w' => EmitsTools w w') := by
  induction toolCalls generalizing finalizedCalls messages w with
  | nil =>
    exact .pure ⟨[], (List.append_nil _).symm,
      ⟨[], List.prefix_rfl, Or.inl rfl, rfl, .refl w⟩⟩
  | cons toolCall toolCalls ih =>
    unfold executeToolCallsSequential
    refine .bind (holds_aborted.mono ?_ fun _ _ h => h.elim)
    rintro b w₀ ⟨rfl, rfl⟩
    refine .ite (fun habort => .pure ⟨[], (List.append_nil _).symm,
      ⟨[], List.nil_prefix, Or.inr habort, rfl, .refl _⟩⟩) fun _ => ?_
    refine .bind ((holds_emit _).mono (fun _ w₁ h₁ => ?_)
      fun _ w₁ h₁ => emitsTools_one h₁ trivial)
    refine .bind ((holds_outcome assistantMessage toolCall).mono ?_
      fun _ _ h => h.elim)
    rintro outcome w₂ ⟨ho, evs, h₂, hopen⟩
    have hstarted := h₁.trans h₂
    have hsofar : EmitsTools w₀ w₂ := ⟨_, hstarted, hopen.toolEvents⟩
    refine .bind ((holds_emit _).mono (fun _ w₃ h₃ => ?_)
      fun _ w₃ h₃ => hsofar.trans (emitsTools_one h₃ trivial))
    refine .bind (.read ?_)
    refine .bind ((holds_emitToolResultMessage _).mono (fun _ w₄ h₄ => ?_)
      fun _ w₄ h₄ => (hsofar.trans (emitsTools_one h₃ trivial)).trans h₄)
    let a : Answer :=
      { toolCall := toolCall
        outcome := outcome
        trace := .toolExecutionStart toolCall :: evs
          ++ [toolExecutionEnd outcome]
        message := createToolResultMessage outcome (env.now w₃.outside)
        traced := hopen.ends ho
        reports := ⟨_, rfl⟩ }
    have ha : Emits w₀ (a.trace ++ resultEvents a.message) w₄ :=
      (hstarted.trans h₃).trans h₄
    refine .bind (holds_aborted.mono ?_ fun _ _ h => h.elim)
    rintro b w₅ ⟨rfl, rfl⟩
    refine .ite (fun habort => .pure ?_) fun _ => ?_
    · refine ⟨[a.message], rfl, ⟨[a], ?_, Or.inr habort, rfl, ?_⟩⟩
      · exact (List.prefix_append [toolCall] toolCalls)
      · rw [sequentialEvents, List.flatMap_singleton]
        exact ha
    · refine (ih (finalizedCalls ++ [outcome])
        (messages ++ [a.message])).mono ?_ fun _ w' h => ?_
      · rintro batch w' ⟨more, hmore, answers, hpre, hall, hms, hem⟩
        refine ⟨a.message :: more, ?_, ⟨a :: answers, ?_, ?_, ?_, ?_⟩⟩
        · rw [hmore, List.append_assoc]
          rfl
        · exact List.cons_prefix_cons.2 ⟨rfl, hpre⟩
        · exact hall.imp (fun h => by rw [List.map_cons, h]) id
        · rw [hms, List.map_cons]
        · rw [sequentialEvents, List.flatMap_cons]
          exact ha.trans hem
      · refine EmitsTools.trans ⟨_, ha, fun e he => ?_⟩ h
        exact (List.mem_append.1 he).elim (a.traced.toolEvents e)
          (resultEvents_toolEvents a.message e)

-- ======== in parallel

/-- How far an entry is, and what its call has emitted. -/
def EntryTrace (toolCall : AgentToolCall) (entry : Entry)
    (part : List AgentEvent) : Prop :=
  match entry with
  | .finalized outcome => CallTrace toolCall outcome part
  | .ending outcome _ => CallTrace toolCall outcome part
  | .failed _ => ∃ outcome, CallTrace toolCall outcome part
  | .execution prepared phase =>
    prepared.toolCall = toolCall ∧ Open toolCall part
      ∧ ∀ outcome, phase ≠ .finalized outcome

variable {entry : Entry}

theorem EntryTrace.toolEvents (h : EntryTrace toolCall entry part) :
    ∀ e ∈ part, ToolEvent e := by
  cases entry with
  | finalized outcome => exact CallTrace.toolEvents h
  | ending outcome r => exact CallTrace.toolEvents h
  | failed error =>
    obtain ⟨outcome, htrace⟩ := h
    exact htrace.toolEvents
  | execution prepared phase => exact h.2.1.toolEvents

variable (env config) in
/-- An event of an entry adds to the trace of its call alone. -/
theorem entry_step (event : ExecutionEvent) (w : World σ)
    (h : EntryTrace toolCall entry part) :
    ∃ evs, Emits w evs (entry.step env config event w).2
      ∧ EntryTrace toolCall (entry.step env config event w).1
        (part ++ evs) := by
  have hquiet : ∀ {e : Entry}, EntryTrace toolCall e part →
      ∃ evs, Emits w evs w ∧ EntryTrace toolCall e (part ++ evs) :=
    fun he => ⟨[], .refl w, by rwa [List.append_nil]⟩
  cases entry with
  | finalized outcome => exact hquiet h
  | failed error => exact hquiet h
  | ending outcome r =>
    unfold Entry.step
    simp only []
    split
    · exact hquiet h
    · exact hquiet ⟨outcome, h⟩
    · exact hquiet h
  | execution prepared phase =>
    obtain ⟨rfl, hopen, hphase⟩ := h
    obtain ⟨⟨evs, hevs, hopen'⟩, houtcome⟩ := executePreparedToolCall_spec
      env config prepared event w hopen hphase
    unfold Entry.step
    simp only []
    split
    · -- it is finalized, and says so
      rename_i outcome w₁ heq
      rw [heq] at hevs houtcome
      refine ⟨evs ++ [toolExecutionEnd outcome],
        hevs.trans (emitted_emits env _ w₁), ?_⟩
      rw [← List.append_assoc]
      exact hopen'.ends (houtcome outcome rfl)
    · rename_i phase' w₁ hne heq
      rw [heq] at hevs
      exact ⟨evs, hevs, rfl, hopen', fun outcome ho => hne outcome ho⟩

/-- A call of a batch, how far its entry is, and what it has emitted. -/
structure Slot where
  toolCall : AgentToolCall
  entry : Entry
  part : List AgentEvent
  traced : EntryTrace toolCall entry part

/-- The entries of a batch, and the events since `w`: an interleaving of
what the calls have emitted. -/
def BatchTrace (toolCalls : List AgentToolCall) (w : World σ)
    (s : List Entry × World σ) : Prop :=
  ∃ slots : List Slot, slots.map (·.toolCall) = toolCalls
    ∧ slots.map (·.entry) = s.1
    ∧ ∃ evs, Interleaving (slots.map (·.part)) evs ∧ Emits w evs s.2

variable {toolCalls : List AgentToolCall} {s : List Entry × World σ}

variable (env config) in
theorem batch_step (event : BatchEvent) (h : BatchTrace toolCalls w s) :
    BatchTrace toolCalls w (batchStep env config s event) := by
  obtain ⟨entries, w₁⟩ := s
  obtain ⟨slots, hcalls, hentries, evs, hinter, hevs⟩ := h
  cases event with
  | elsewhere =>
    exact ⟨slots, hcalls, hentries, evs, hinter,
      (hevs.trans (emits_outside w₁ _)).append_nil⟩
  | execution i event =>
    unfold batchStep
    simp only []
    cases hi : entries[i]? with
    | none => exact ⟨slots, hcalls, hentries, evs, hinter, hevs⟩
    | some entry =>
      obtain rfl : slots.map (·.entry) = entries := hentries
      rw [List.getElem?_map, Option.map_eq_some_iff] at hi
      obtain ⟨slot, hslot, rfl⟩ := hi
      obtain ⟨more, hmore, htrace⟩ :=
        entry_step env config event w₁ slot.traced
      let slot' : Slot := { traced := htrace, .. }
      refine ⟨slots.set i slot', ?_, ?_, evs ++ more, ?_, hevs.trans hmore⟩
      · obtain ⟨hlt, rfl⟩ := List.getElem?_eq_some_iff.1 hslot
        have hlt' : i < (slots.map (·.toolCall)).length := by
          rwa [List.length_map]
        have hsame : slot'.toolCall = (slots.map (·.toolCall))[i] := by
          rw [List.getElem_map]
        rw [List.map_set, ← hcalls, hsame, List.set_getElem_self]
      · rw [List.map_set]
      · rw [List.map_set]
        refine hinter.set ?_ more
        rw [List.getElem?_map, hslot]
        rfl

variable (env config) in
theorem batch_run (events : List BatchEvent) (h : BatchTrace toolCalls w s) :
    BatchTrace toolCalls w (events.foldl (batchStep env config) s) := by
  induction events generalizing s with
  | nil => exact h
  | cons event events ih => exact ih (batch_step env config event h)

/-- Preparing leaves an entry for each call, one trace after the other. -/
theorem holds_prepareToolCalls (toolCalls : List AgentToolCall) :
    Holds (prepareToolCalls env config assistantMessage toolCalls) w
      (fun entries w' => ∃ slots : List Slot,
        slots.map (·.toolCall) = toolCalls ∧ slots.map (·.entry) = entries
          ∧ Emits w (slots.map (·.part)).flatten w')
      (fun _ w' => EmitsTools w w') := by
  induction toolCalls generalizing w with
  | nil => exact .pure ⟨[], rfl, rfl, .refl w⟩
  | cons toolCall toolCalls ih =>
    unfold prepareToolCalls
    refine .bind ((holds_emit _).mono (fun _ w₁ h₁ => ?_)
      fun _ w₁ h₁ => emitsTools_one h₁ trivial)
    have hentry : ∀ {entry : Entry} {part : List AgentEvent} {w' : World σ},
        EntryTrace toolCall entry part → Emits w part w' →
        Holds (do
          let rest ← prepareToolCalls env config assistantMessage toolCalls
          return entry :: rest) w'
          (fun entries w'' => ∃ slots : List Slot,
            slots.map (·.toolCall) = toolCall :: toolCalls
              ∧ slots.map (·.entry) = entries
              ∧ Emits w (slots.map (·.part)).flatten w'')
          (fun _ w'' => EmitsTools w w'') := by
      intro entry part w' htrace hpart
      refine .bind (ih.mono ?_ fun _ w'' h =>
        EmitsTools.trans ⟨_, hpart, htrace.toolEvents⟩ h)
      rintro rest w'' ⟨slots, rfl, rfl, hslots⟩
      exact .pure ⟨⟨toolCall, entry, part, htrace⟩ :: slots, rfl, rfl,
        hpart.trans hslots⟩
    refine .bind (.bind ((holds_prepareToolCall assistantMessage
      toolCall).mono ?_ fun _ _ h => h.elim))
    rintro p w₂ ⟨h₂, hp⟩
    have hstart := (h₁.trans h₂).append_nil
    cases p with
    | immediate result isError =>
      have hopen : Open toolCall [.toolExecutionStart toolCall] :=
        ⟨[], rfl⟩
      refine .bind ((holds_emit _).mono (fun _ w₃ h₃ => ?_)
        fun _ w₃ h₃ => EmitsTools.trans ⟨_, hstart, hopen.toolEvents⟩
          (emitsTools_one h₃ trivial))
      exact .pure (@hentry (.finalized _) _ _ (hopen.ends rfl)
        (hstart.trans h₃))
    | prepared prepared =>
      refine .pure (@hentry (.execution prepared .created) _ _
        ⟨hp, ⟨[], rfl⟩, fun _ heq => ?_⟩ hstart)
      cases heq

variable {entries : List Entry} {outcomes : List FinalizedToolCallOutcome}

theorem collect_ok (h : collect entries = some (.ok outcomes)) :
    entries = outcomes.map .finalized := by
  induction entries generalizing outcomes with
  | nil =>
    cases h
    rfl
  | cons entry entries ih =>
    unfold collect at h
    split at h
    · cases h
    · cases h
    · rename_i outcome rest hrest
      cases h
      rw [ih hrest]
      rfl
    · cases h

theorem BatchTrace.emitsTools (h : BatchTrace toolCalls w s) :
    EmitsTools w s.2 := by
  obtain ⟨slots, -, -, evs, hinter, hevs⟩ := h
  refine ⟨evs, hevs, fun e he => ?_⟩
  obtain ⟨part, hpart, hep⟩ := hinter.mem_part he
  obtain ⟨slot, -, rfl⟩ := List.mem_map.1 hpart
  exact slot.traced.toolEvents e hep

/-- A batch is awaited until every call has ended. -/
theorem holds_awaitAll (h : BatchTrace toolCalls w (entries, w')) :
    Holds (awaitAll env config entries) w'
      (fun outcomes w'' => BatchTrace toolCalls w (outcomes.map .finalized, w''))
      (fun _ w'' => EmitsTools w w'') := by
  have hend := batch_run env config (env.schedule w'.outside) h
  intro r w'' hrun
  unfold awaitAll at hrun
  obtain ⟨r', hr, heq⟩ := Option.map_eq_some_iff.1 hrun
  cases heq
  cases r with
  | ok outcomes =>
    show BatchTrace toolCalls w (outcomes.map .finalized, _)
    rw [← collect_ok hr]
    exact hend
  | error e => exact hend.emitsTools

/-- The results are emitted in order. -/
theorem holds_emitToolResults (outcomes : List FinalizedToolCallOutcome) :
    Holds (emitToolResults env outcomes) w
      (fun messages w' => List.Forall₂ Reports outcomes messages
        ∧ Emits w (messages.flatMap resultEvents) w')
      (fun _ w' => EmitsTools w w') := by
  induction outcomes generalizing w with
  | nil => exact .pure ⟨.nil, .refl w⟩
  | cons outcome outcomes ih =>
    unfold emitToolResults
    refine .bind (.read ?_)
    refine .bind ((holds_emitToolResultMessage _).mono (fun _ w₁ h₁ => ?_)
      fun _ _ h => h)
    refine .bind (ih.mono ?_ fun _ _ h => EmitsTools.trans
      ⟨_, h₁, resultEvents_toolEvents _⟩ h)
    rintro messages w₂ ⟨hreports, h₂⟩
    exact .pure ⟨.cons ⟨_, rfl⟩ hreports, h₁.trans h₂⟩

/-- Slots that have ended, and the messages that report them. -/
theorem exists_answers {slots : List Slot}
    {messages : List ToolResultMessage}
    (hslots : slots.map (·.entry) = outcomes.map .finalized)
    (h : List.Forall₂ Reports outcomes messages) :
    ∃ answers : List Answer,
      answers.map (·.toolCall) = slots.map (·.toolCall)
        ∧ answers.map (·.trace) = slots.map (·.part)
        ∧ answers.map (·.message) = messages := by
  induction h generalizing slots with
  | nil =>
    obtain rfl : slots = [] := by simpa using hslots
    exact ⟨[], rfl, rfl, rfl⟩
  | @cons outcome message outcomes messages hreport _ ih =>
    cases slots with
    | nil => cases hslots
    | cons slot slots =>
      rw [List.map_cons, List.map_cons, List.cons.injEq] at hslots
      obtain ⟨hentry, hrest⟩ := hslots
      obtain ⟨answers, h₁, h₂, h₃⟩ := ih hrest
      have htrace := slot.traced
      rw [hentry] at htrace
      exact ⟨⟨slot.toolCall, outcome, slot.part, message, htrace, hreport⟩
          :: answers, congrArg (slot.toolCall :: ·) h₁,
        congrArg (slot.part :: ·) h₂, congrArg (message :: ·) h₃⟩

/-- What a parallel batch comes to: every call is answered, the traces of
the calls are interleaved, and the results follow in call order. -/
structure ParallelBatch (toolCalls : List AgentToolCall)
    (messages : List ToolResultMessage) (w w' : World σ) : Prop where
  answered : ∃ (answers : List Answer) (evs : List AgentEvent),
    answers.map (·.toolCall) = toolCalls
      ∧ messages = answers.map (·.message)
      ∧ Interleaving (answers.map (·.trace)) evs
      ∧ Emits w (evs ++ messages.flatMap resultEvents) w'

theorem holds_executeToolCallsParallel (toolCalls : List AgentToolCall) :
    Holds (executeToolCallsParallel env config assistantMessage toolCalls) w
      (fun batch w' => ParallelBatch toolCalls batch.messages w w')
      (fun _ w' => EmitsTools w w') := by
  refine .bind ((holds_prepareToolCalls assistantMessage toolCalls).mono ?_
    fun _ _ h => h)
  rintro entries w₁ ⟨slots, hcalls, rfl, h₁⟩
  have hstart : BatchTrace toolCalls w (slots.map (·.entry), w₁) :=
    ⟨slots, hcalls, rfl, _, .flatten _, h₁⟩
  refine .bind ((holds_awaitAll hstart).mono ?_ fun _ _ h => h)
  intro outcomes w₂ hbatch
  have hsofar := hbatch.emitsTools
  obtain ⟨done, hcalls', hentries, evs, hinter, h₂⟩ := hbatch
  refine .bind ((holds_emitToolResults outcomes).mono ?_
    fun _ _ h => hsofar.trans h)
  rintro messages w₃ ⟨hreports, h₃⟩
  obtain ⟨answers, ha, htraces, hms⟩ := exists_answers hentries hreports
  refine .pure ⟨answers, evs, ha.trans hcalls', hms.symm, ?_, h₂.trans h₃⟩
  rw [htraces]
  exact hinter

-- ======== the theorem

/-- A world in which nothing is aborted and nothing fails. -/
def quietEnv (schedule : List BatchEvent) : Env Unit where
  aborted := fun _ => false
  suspended := id
  abortFirst := fun _ => false
  emit := fun _ s => (.ok (), s)
  now := fun _ => .ofNat 0
  schedule := fun _ => schedule

/-- A provider that always gives this answer, without streaming it. -/
def answering (message : AssistantMessage) : AgentLoopConfig Unit where
  model := { api := "api", provider := "p", id := "m" }
  apiKey := none
  transformContext := none
  convertToLlm := fun messages s => (.settles (.ok messages), s)
  getApiKey := none
  getSystemPrompt := none
  streamFunction := fun _ s =>
    (.settles (.ok { next := fun _ => .ok none, result := .ok message }), s)
  toolExecution := none
  validateToolArguments := fun _ toolCall => .ok (.obj toolCall.arguments)
  beforeToolCall := none
  hasAfterToolCall := false
  shouldStopBeforeTurn := none
  shouldStopAfterTurn := none
  getSteeringMessages := none
  getFollowUpMessages := none
  getContinuationMessages := none

/-- An answer that says nothing. -/
def silence : AssistantMessage where
  content := []
  api := "api"
  provider := "p"
  model := "m"
  responseModel := none
  responseId := none
  diagnostics := none
  usage :=
    { input := .ofNat 0
      output := .ofNat 0
      cacheRead := .ofNat 0
      cacheWrite := .ofNat 0
      totalTokens := .ofNat 0
      cost :=
        { input := .ofNat 0
          output := .ofNat 0
          cacheRead := .ofNat 0
          cacheWrite := .ofNat 0
          total := .ofNat 0 } }
  stopReason := .stop
  stopReasonRaw := none
  errorMessage := none
  timestamp := .ofNat 0

end OneHarness.Agent
