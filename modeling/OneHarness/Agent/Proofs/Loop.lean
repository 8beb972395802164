/-
The three views of a run agree: the events, `newMessages`, and the
context.

`view` reads the events: whether a message or a turn is open, and the
messages that have ended. At every point of the loop the messages that
have ended are `newMessages`, and the context is the initial one followed
by them; while a response is streamed, a partial message may come after
them (`Streaming`). Each function of the loop takes one such state to
another, so a run that emits `agent_end` ends in agreement
(`views_agree`).

# What is asked of a provider

A stream starts a message at most once before it ends. One that starts it
twice opens a message inside a message (`nested_start`).
-/
import OneHarness.Agent.Loop
import OneHarness.Agent.Proofs.Tools

namespace OneHarness.Agent

open Lib Session Async

variable {σ : Type} {env : Env σ} {config : AgentLoopConfig σ}
  {w w' w'' : World σ} {initial : List AgentMessage}

-- ======== the view

/-- What the events so far say: whether a message is open, the messages
that have ended, whether a turn is open, and what `agent_end` carried. -/
structure View where
  inMessage : Bool
  ended : List AgentMessage
  inTurn : Bool
  agentEnd : Option (List AgentMessage)

/-- One more event; `none` where it does not fit. -/
def View.step (v : View) (event : AgentEvent) : Option View :=
  if v.agentEnd.isSome then none
  else
    match event with
    | .agentEnd messages =>
      if v.inMessage || v.inTurn then none
      else some { v with agentEnd := some messages }
    | .turnStart => if v.inTurn then none else some { v with inTurn := true }
    | .turnEnd _ _ =>
      if v.inTurn && !v.inMessage then some { v with inTurn := false }
      else none
    | .messageStart _ =>
      if v.inMessage then none else some { v with inMessage := true }
    | .messageEnd message =>
      if v.inMessage then
        some { v with inMessage := false, ended := v.ended ++ [message] }
      else none
    | _ => some v

/-- Read events, from a view on. -/
def View.run : View → List AgentEvent → Option View
  | v, [] => some v
  | v, event :: events => (v.step event).bind fun v => v.run events

/-- Between messages. -/
abbrev View.between (ended : List AgentMessage) (inTurn : Bool) : View where
  inMessage := false
  ended := ended
  inTurn := inTurn
  agentEnd := none

def View.init : View where
  inMessage := false
  ended := []
  inTurn := false
  agentEnd := none

/-- The view of events; `none` where messages nest, a turn is not matched,
or anything follows `agent_end`. -/
def view (events : List AgentEvent) : Option View := View.init.run events

theorem View.run_append (v : View) (evs evs' : List AgentEvent) :
    v.run (evs ++ evs') = (v.run evs).bind fun v => v.run evs' := by
  induction evs generalizing v with
  | nil => rfl
  | cons event evs ih =>
    rw [List.cons_append, View.run, View.run, Option.bind_assoc]
    exact congrArg _ (funext ih)

variable {evs : List AgentEvent} {v : View}

theorem view_append {evs' : List AgentEvent}
    (h : view evs = some v) : view (evs ++ evs') = v.run evs' := by
  rw [view, View.run_append]
  exact (congrArg (·.bind fun v => v.run evs') h).trans rfl

variable {event : AgentEvent}

theorem view_concat
    (h : view evs = some v) : view (evs ++ [event]) = v.step event := by
  rw [view_append h, View.run]
  cases v.step event <;> rfl

/-- The messages carried by `message_end`. -/
def endedMessages (events : List AgentEvent) : List AgentMessage :=
  events.filterMap fun
    | .messageEnd message => some message
    | _ => none

/-- What a view says of the messages that have ended, and of `agent_end`. -/
structure Says (events : List AgentEvent) (v : View) : Prop where
  ended : v.ended = endedMessages events
  running : v.agentEnd = none → ∀ ms, .agentEnd ms ∉ events
  finished : ∀ ms, v.agentEnd = some ms → ∃ evs, events = evs ++ [.agentEnd ms]
    ∧ ∀ ms', .agentEnd ms' ∉ evs

theorem Says.step {events : List AgentEvent} {v' : View}
    (h : Says events v) (hstep : v.step event = some v') :
    Says (events ++ [event]) v' := by
  have hmem : ∀ ms, v.agentEnd = none → event ≠ .agentEnd ms →
      .agentEnd ms ∉ events ++ [event] := by
    intro ms hnone hne hm
    rcases List.mem_append.1 hm with hm | hm
    · exact h.running hnone ms hm
    · exact hne (List.mem_singleton.1 hm).symm
  have hended : endedMessages (events ++ [event])
      = v.ended ++ endedMessages [event] := by
    rw [endedMessages, List.filterMap_append, h.ended]
    rfl
  have hplain : ∀ {u : View}, u.agentEnd = none → v.agentEnd = none →
      (∀ ms, event ≠ .agentEnd ms) →
      u.ended = v.ended ++ endedMessages [event] →
      Says (events ++ [event]) u := by
    intro u hu hv hne hend
    refine ⟨hend.trans hended.symm, fun _ ms => hmem ms hv (hne ms),
      fun ms heq => ?_⟩
    rw [hu] at heq
    cases heq
  unfold View.step at hstep
  split at hstep
  · cases hstep
  · rename_i hnone
    have hv : v.agentEnd = none := by simpa using hnone
    have hnil : v.ended = v.ended ++ [] := (List.append_nil _).symm
    cases event with
    | agentEnd messages =>
      simp only [] at hstep
      split at hstep
      · cases hstep
      · cases hstep
        refine ⟨?_, nofun, fun ms heq => ?_⟩
        · rw [hended]
          exact hnil
        · cases heq
          exact ⟨events, rfl, h.running hv⟩
    | turnStart =>
      simp only [] at hstep
      split at hstep
      · cases hstep
      · cases hstep
        exact hplain hv hv nofun hnil
    | turnEnd message results =>
      simp only [] at hstep
      split at hstep
      · cases hstep
        exact hplain hv hv nofun hnil
      · cases hstep
    | messageStart message =>
      simp only [] at hstep
      split at hstep
      · cases hstep
      · cases hstep
        exact hplain hv hv nofun hnil
    | messageEnd message =>
      simp only [] at hstep
      split at hstep
      · cases hstep
        exact hplain hv hv nofun rfl
      · cases hstep
    | _ =>
      cases hstep
      exact hplain hv hv nofun hnil

theorem says_of_view {events : List AgentEvent}
    (h : view events = some v) : Says events v := by
  induction events using List.reverseRecOn generalizing v with
  | nil =>
    cases h
    exact ⟨rfl, nofun, nofun⟩
  | append_singleton events event ih =>
    rw [view, View.run_append] at h
    obtain ⟨u, hu, hstep⟩ := Option.bind_eq_some_iff.1 h
    refine (ih hu).step ?_
    rw [View.run] at hstep
    obtain ⟨u', hu', heq⟩ := Option.bind_eq_some_iff.1 hstep
    cases heq
    exact hu'

-- ======== the states

/-- Listeners do not reject. -/
def EmitOk (env : Env σ) : Prop := ∀ event s, (env.emit event s).1 = .ok ()

theorem holds_emit_ok (hemit : EmitOk env) (event : AgentEvent) :
    Holds (emit env event) w (fun _ w' => Emits w [event] w')
      (fun _ _ => False) := by
  intro r w' h
  obtain rfl : w' = (emitted env event w).2 :=
    (congrArg Prod.snd (Option.some.inj h)).symm
  obtain rfl : r = .ok () :=
    (congrArg Prod.fst (Option.some.inj h)).symm.trans (hemit event w.outside)
  exact emitted_emits env event w

/-- Between messages: those that have ended are `newMessages`, and the
context is the initial one followed by them. -/
structure Between (initial : List AgentMessage) (inTurn : Bool)
    (w : World σ) : Prop where
  view : view w.events = some
    (.between w.newMessages inTurn)
  context : w.context.messages = initial ++ w.newMessages

/-- While a response is streamed, a partial message may follow them. -/
structure Streaming (initial : List AgentMessage) (w : World σ) : Prop where
  view : view w.events = some
    { inMessage := w.addedPartial, ended := w.newMessages, inTurn := true,
      agentEnd := none }
  context : ∃ partials, w.context.messages
      = initial ++ w.newMessages ++ partials
    ∧ partials.length = if w.addedPartial then 1 else 0
  started : w.partialMessage.isSome = w.addedPartial

/-- A response has ended, and is not yet in `newMessages`. -/
structure Responded (initial : List AgentMessage) (message : AssistantMessage)
    (w : World σ) : Prop where
  view : view w.events = some
    (.between (w.newMessages ++ [.assistant message]) true)
  context : w.context.messages
    = initial ++ w.newMessages ++ [.assistant message]

/-- The run is over, in agreement. -/
structure Ended (initial : List AgentMessage) (w : World σ) : Prop where
  view : view w.events = some
    { inMessage := false, ended := w.newMessages, inTurn := false,
      agentEnd := some w.newMessages }
  context : w.context.messages = initial ++ w.newMessages

/-- No `agent_end` was emitted. -/
def Running (w : World σ) : Prop := ∀ ms, .agentEnd ms ∉ w.events

variable {inTurn : Bool}

theorem Between.running (h : Between initial inTurn w) :
    Running w := (says_of_view h.view).running rfl

theorem Streaming.running (h : Streaming initial w) : Running w :=
  (says_of_view h.view).running rfl

theorem Between.quiet (h : Between initial inTurn w)
    (hq : Emits w [] w') : Between initial inTurn w' where
  view := by
    rw [hq.events, List.append_nil, hq.newMessages]
    exact h.view
  context := by
    rw [hq.context, hq.newMessages]
    exact h.context

theorem Streaming.quiet (h : Streaming initial w) (hq : Emits w [] w') :
    Streaming initial w' where
  view := by
    rw [hq.events, List.append_nil, hq.newMessages, hq.addedPartial]
    exact h.view
  context := by
    rw [hq.context, hq.newMessages, hq.addedPartial]
    exact h.context
  started := by
    rw [hq.partialMessage, hq.addedPartial]
    exact h.started

/-- An event between messages that opens none and ends nothing. -/
theorem Between.emits {inTurn' : Bool}
    (h : Between initial inTurn w) (he : Emits w [event] w')
    (hstep : ∀ ended, View.step
      (.between ended inTurn) event
      = some (.between ended inTurn')) : Between initial inTurn' w' where
  view := by
    rw [he.events, view_concat h.view, hstep, he.newMessages]
  context := by
    rw [he.context, he.newMessages]
    exact h.context

-- ======== the response

/-- The place of the partial message, or a new one, is taken by the final
message, which ends. -/
theorem holds_finishMessage (hemit : EmitOk env) (message : AssistantMessage)
    (h : Streaming initial w) :
    Holds (finishMessage env message) w
      (fun m w' => m = message ∧ Responded initial message w')
      (fun _ _ => False) := by
  obtain ⟨hview, ⟨partials, hctx, hlen⟩, -⟩ := h
  refine .bind (.read ?_)
  refine .ite (fun hadded => ?_) fun hadded => ?_
  · rw [hadded, if_pos rfl] at hlen
    rw [hadded] at hview
    obtain ⟨p, rfl⟩ := List.length_eq_one_iff.1 hlen
    refine .bind (.modify ?_)
    refine .bind ((holds_emit_ok hemit _).mono (fun _ w' he => ?_)
      fun _ _ h => h)
    refine .pure ⟨rfl, ?_, ?_⟩
    · rw [he.events, view_concat hview, he.newMessages]
      rfl
    · rw [he.context, he.newMessages]
      show w.context.messages.dropLast ++ _ = _
      rw [hctx, List.dropLast_concat]
  · rw [hadded] at hlen hview
    obtain rfl : partials = [] := List.length_eq_zero_iff.1 (by simpa using hlen)
    refine .bind (.modify ?_)
    refine .bind ((holds_emit_ok hemit _).mono (fun _ w₁ h₁ => ?_)
      fun _ _ h => h)
    refine .bind ((holds_emit_ok hemit _).mono (fun _ w₂ h₂ => ?_)
      fun _ _ h => h)
    have he := h₁.trans h₂
    refine .pure ⟨rfl, ?_, ?_⟩
    · rw [he.events, view_append hview, he.newMessages]
      rfl
    · rw [he.context, he.newMessages]
      show w.context.messages ++ _ = _
      rw [hctx, List.append_nil]

theorem holds_finishAbortedMessage (hemit : EmitOk env)
    (h : Streaming initial w) :
    Holds (finishAbortedMessage env config) w
      (fun m w' => Responded initial m w') (fun _ _ => False) := by
  refine .bind (.read (.bind (.read ?_)))
  refine (holds_finishMessage hemit _ h).mono ?_ fun _ _ h => h
  rintro m w' ⟨rfl, hr⟩
  exact hr

/-- The iteration goes on after this outcome of `next`. -/
def GoesOn : Except JsError (Option AssistantMessageEvent) → Prop
  | .ok (some (.start _)) | .ok (some (.update _ _)) => True
  | _ => False

def IsStart : Except JsError (Option AssistantMessageEvent) → Prop
  | .ok (some (.start _)) => True
  | _ => False

/-- The stream starts a message at most once before it ends. -/
def StartsOnce (response : Response) : Prop :=
  ∀ i j, i < j → (∀ k < j, GoesOn (response.next k)) →
    IsStart (response.next i) → ¬ IsStart (response.next j)

/-- Before the `n`th event of a stream. -/
structure Reading (initial : List AgentMessage) (response : Response)
    (n : Nat) (w : World σ) : Prop where
  streaming : Streaming initial w
  goesOn : ∀ k < n, GoesOn (response.next k)
  started : w.addedPartial = true → ∃ i < n, IsStart (response.next i)

theorem Reading.next {response : Response} {n : Nat}
    (h : Reading initial response n w) (hs : Streaming initial w')
    (hadded : w'.addedPartial = w.addedPartial ∨ IsStart (response.next n))
    (hgoes : GoesOn (response.next n)) :
    Reading initial response (n + 1) w' where
  streaming := hs
  goesOn := by
    intro k hk
    rcases Nat.lt_succ_iff_lt_or_eq.1 hk with hk | rfl
    · exact h.goesOn k hk
    · exact hgoes
  started := by
    intro ha
    rcases hadded with hadded | hstart
    · obtain ⟨i, hi, hstart⟩ := h.started (hadded ▸ ha)
      exact ⟨i, Nat.lt_succ_of_lt hi, hstart⟩
    · exact ⟨n, Nat.lt_succ_self n, hstart⟩

/-- A start opens the message, and puts its partial into the context. -/
theorem Streaming.start (h : Streaming initial w)
    (hadded : w.addedPartial = false) (message : AssistantMessage)
    (he : Emits
      { w with
        partialMessage := some message
        context := { w.context with
          messages := w.context.messages ++ [.assistant message] }
        addedPartial := true }
      [.messageStart (.assistant message)] w') : Streaming initial w' := by
  obtain ⟨hview, ⟨partials, hctx, hlen⟩, -⟩ := h
  rw [hadded] at hview hlen
  obtain rfl : partials = [] := List.length_eq_zero_iff.1 (by simpa using hlen)
  refine ⟨?_, ⟨[.assistant message], ?_, ?_⟩, ?_⟩
  · rw [he.events, view_concat hview, he.newMessages, he.addedPartial]
    rfl
  · rw [he.context, he.newMessages]
    show w.context.messages ++ _ = _
    rw [hctx, List.append_nil]
  · rw [he.addedPartial]
    rfl
  · rw [he.partialMessage, he.addedPartial]
    rfl

/-- An update takes the place of the partial message. -/
theorem Streaming.update (h : Streaming initial w)
    (hsome : w.partialMessage.isSome = true) (message : AssistantMessage)
    (part : StreamPart)
    (he : Emits
      { w with
        partialMessage := some message
        context := { w.context with
          messages := w.context.messages.dropLast ++ [.assistant message] } }
      [.messageUpdate message part] w') : Streaming initial w' := by
  obtain ⟨hview, ⟨partials, hctx, hlen⟩, hstarted⟩ := h
  have hadded : w.addedPartial = true := hstarted ▸ hsome
  rw [hadded, if_pos rfl] at hlen
  obtain ⟨p, rfl⟩ := List.length_eq_one_iff.1 hlen
  refine ⟨?_, ⟨[.assistant message], ?_, ?_⟩, ?_⟩
  · rw [he.events, view_concat hview, he.newMessages, he.addedPartial]
    rfl
  · rw [he.context, he.newMessages]
    show w.context.messages.dropLast ++ _ = _
    rw [hctx, List.dropLast_concat]
  · rw [he.addedPartial]
    exact (if_pos hadded).symm
  · rw [he.partialMessage, he.addedPartial]
    exact hadded.symm

theorem holds_nextEvent (response : Response) (n : Nat) :
    Holds (nextEvent env response n) w
      (fun event w' => Emits w [] w' ∧ response.next n = .ok event)
      (fun _ w' => Emits w [] w') := by
  refine (holds_maybePromiseWithAbort _).mono ?_ fun _ _ h => h
  rintro event w' ⟨hq, heq⟩
  exact ⟨hq, Started.settles.inj heq⟩

theorem holds_terminalMessage (response : Response)
    (message : AssistantMessage) :
    Holds (terminalMessage env response message) w
      (fun _ w' => Emits w [] w') (fun _ w' => Emits w [] w') := by
  refine .tryCatch ((holds_maybePromiseWithAbort _).mono
    (fun _ _ h => h.1) fun error w₁ h₁ => ?_)
  refine .bind (holds_aborted.mono ?_ fun _ _ h => h.elim)
  rintro b w₂ ⟨-, rfl⟩
  exact .ite (fun _ => .throw h₁) fun _ => .pure h₁

/-- Reading a stream ends its message, or leaves it open. -/
theorem holds_readStream (hemit : EmitOk env) {response : Response}
    (honce : StartsOnce response) (fuel n : Nat)
    (h : Reading initial response n w) :
    Holds (readStream env response fuel n) w
      (fun m w' => Responded initial m w')
      (fun _ w' => Streaming initial w') := by
  have hfinish : ∀ {message : AssistantMessage} {w' : World σ},
      Streaming initial w' → Holds (finishMessage env message) w'
        (fun m w' => Responded initial m w')
        (fun _ w' => Streaming initial w') := by
    intro message w' hs
    refine (holds_finishMessage hemit message hs).mono ?_ fun _ _ h => h.elim
    rintro m w' ⟨rfl, hr⟩
    exact hr
  induction fuel generalizing n w with
  | zero => exact .diverge
  | succ fuel ih =>
    have hs := h.streaming
    refine .bind ((holds_nextEvent response n).mono ?_
      fun _ w₁ h₁ => hs.quiet h₁)
    rintro event w₁ ⟨h₁, hnext⟩
    have hs₁ := hs.quiet h₁
    cases event with
    | none =>
      refine .bind ((holds_maybePromiseWithAbort _).mono
        (fun m w₂ h₂ => hfinish (hs₁.quiet h₂.1))
        fun _ w₂ h₂ => hs₁.quiet h₂)
    | some event =>
      cases event with
      | start message =>
        have hstart : IsStart (response.next n) := by
          rw [hnext]
          trivial
        have hadded : w₁.addedPartial = false := by
          rw [h₁.addedPartial, Bool.eq_false_iff]
          intro hadded
          obtain ⟨i, hi, histart⟩ := h.started hadded
          exact honce i n hi h.goesOn histart hstart
        refine .bind (.modify (.bind (.modify (.bind (.modify ?_)))))
        refine .bind ((holds_emit_ok hemit _).mono (fun _ w₂ h₂ => ?_)
          fun _ _ h => h.elim)
        refine ih (n + 1) (h.next (hs₁.start hadded message h₂)
          (Or.inr hstart) ?_)
        rw [hnext]
        trivial
      | update part message =>
        have hgoes : GoesOn (response.next n) := by
          rw [hnext]
          trivial
        refine .bind (.read ?_)
        refine .ite (fun hsome => ?_) fun _ => ?_
        · refine .bind (.modify (.bind (.modify ?_)))
          refine .bind ((holds_emit_ok hemit _).mono (fun _ w₂ h₂ => ?_)
            fun _ _ h => h.elim)
          refine ih (n + 1) (h.next (hs₁.update hsome message part h₂)
            (Or.inl ?_) hgoes)
          rw [h₂.addedPartial]
          exact h₁.addedPartial
        · exact ih (n + 1) (h.next hs₁ (Or.inl h₁.addedPartial) hgoes)
      | done message =>
        exact .bind ((holds_terminalMessage response message).mono
          (fun m w₂ h₂ => hfinish (hs₁.quiet h₂))
          fun _ w₂ h₂ => hs₁.quiet h₂)
      | error message =>
        exact .bind ((holds_terminalMessage response message).mono
          (fun m w₂ h₂ => hfinish (hs₁.quiet h₂))
          fun _ w₂ h₂ => hs₁.quiet h₂)

/-- Every stream of the provider starts its message at most once. -/
def StreamsStartOnce (config : AgentLoopConfig σ) : Prop :=
  ∀ context s response,
    (config.streamFunction context s).1 = .settles (.ok response) →
    StartsOnce response

theorem holds_requestResponse (hstreams : StreamsStartOnce config) :
    Holds (requestResponse env config) w
      (fun response w' => Emits w [] w' ∧ StartsOnce response)
      (fun _ w' => Emits w [] w') := by
  refine .bind (holds_throwIfAborted.mono ?_ ?_)
  case refine_2 =>
    rintro _ _ ⟨-, rfl⟩
    exact .refl _
  rintro _ w₀ ⟨-, rfl⟩
  refine .bind (.read ?_)
  refine .bind (.mono (Q := fun _ w' => Emits w₀ [] w')
    (R := fun _ w' => Emits w₀ [] w') ?transform (fun messages w₁ h₁ => ?_)
    fun _ _ h => h)
  case transform =>
    split
    · exact .pure (.refl _)
    · exact (holds_maybePromiseWithAbort _).mono (fun _ _ h => h.1)
        fun _ _ h => h
  refine .bind ((holds_maybePromiseWithAbort _).mono (fun _ w₂ h₂ => ?_)
    fun _ _ h => h₁.quiet h)
  have h₂ := h₁.quiet h₂.1
  refine .bind (.mono (Q := fun _ w' => Emits w₀ [] w')
    (R := fun _ w' => Emits w₀ [] w') ?key (fun key w₃ h₃ => ?_)
    fun _ _ h => h)
  case key =>
    split
    · exact .pure h₂
    · exact (holds_maybePromiseWithAbort _).mono (fun _ _ h => h₂.quiet h.1)
        fun _ _ h => h₂.quiet h
  refine .bind (.read ?_)
  refine (holds_maybePromiseWithAbort _).mono ?_ fun _ _ h => h₃.quiet h
  rintro response w₄ ⟨h₄, hresponse⟩
  exact ⟨h₃.quiet h₄, hstreams _ _ _ hresponse⟩

/-- A response ends as one message, or throws while it may be open. -/
theorem holds_streamAssistantResponse (hemit : EmitOk env)
    (hstreams : StreamsStartOnce config) (fuel : Nat)
    (h : Between initial true w) :
    Holds (streamAssistantResponse env config fuel) w
      (fun m w' => Responded initial m w')
      (fun _ w' => Running w') := by
  have hfresh : Streaming initial
      { w with partialMessage := none, addedPartial := false } :=
    ⟨h.view, ⟨[], by rw [List.append_nil]; exact h.context, rfl⟩, rfl⟩
  refine .bind (.modify ?_)
  refine .tryCatch ?_
  have hcatch : ∀ error w', Streaming initial w' →
      Holds (do
        if (← aborted env) && isAbortError error then
          finishAbortedMessage env config
        else throw error) w'
        (fun m w' => Responded initial m w') (fun _ w' => Running w') := by
    intro error w' hs
    refine .bind (holds_aborted.mono ?_ fun _ _ h => h.elim)
    rintro b w₁ ⟨-, rfl⟩
    exact .ite (fun _ => (holds_finishAbortedMessage hemit hs).mono
      (fun _ _ h => h) fun _ _ h => h.elim) fun _ => .throw hs.running
  refine .bind ((holds_requestResponse hstreams).mono ?_
    fun error w' hq => hcatch error w' (hfresh.quiet hq))
  rintro response w₁ ⟨hq, honce⟩
  have hs₁ := hfresh.quiet hq
  refine (holds_readStream hemit honce fuel 0 ⟨hs₁, nofun, fun hadded => ?_⟩).mono
    (fun _ _ h => h) fun error w' hs => hcatch error w' hs
  rw [hq.addedPartial] at hadded
  cases hadded

-- ======== the turns

/-- Messages between others: each starts and ends, and is pushed. -/
theorem holds_deliverPending (hemit : EmitOk env)
    (pending : List AgentMessage) (h : Between initial true w) :
    Holds (deliverPending env pending) w
      (fun _ w' => Between initial true w') (fun _ _ => False) := by
  induction pending generalizing w with
  | nil => exact .pure h
  | cons message rest ih =>
    refine .bind ((holds_emit_ok hemit _).mono (fun _ w₁ h₁ => ?_)
      fun _ _ h => h)
    refine .bind ((holds_emit_ok hemit _).mono (fun _ w₂ h₂ => ?_)
      fun _ _ h => h)
    have he := h₁.trans h₂
    refine .bind (.modify (.bind (.modify (ih ⟨?_, ?_⟩))))
    · show view w₂.events = _
      rw [he.events, view_append h.view, he.newMessages]
      rfl
    · show w₂.context.messages ++ [message]
        = initial ++ (w₂.newMessages ++ [message])
      rw [he.context, he.newMessages, h.context, List.append_assoc]

/-- Tool results have ended, and are not yet pushed. -/
structure Returned (initial : List AgentMessage)
    (results : List ToolResultMessage) (w : World σ) : Prop where
  view : view w.events = some
    (.between (w.newMessages ++ results.map .toolResult) true)
  context : w.context.messages = initial ++ w.newMessages

theorem holds_pushToolResults (results : List ToolResultMessage)
    (h : Returned initial results w) :
    Holds (pushToolResults results) w
      (fun _ w' => Between initial true w') (fun _ _ => False) := by
  induction results generalizing w with
  | nil =>
    refine .pure ⟨?_, h.context⟩
    have hview := h.view
    rwa [List.map_nil, List.append_nil] at hview
  | cons result rest ih =>
    refine .bind (.modify (.bind (.modify (ih ⟨?_, ?_⟩))))
    · show view w.events = _
      rw [h.view, List.map_cons, List.append_assoc]
      rfl
    · show w.context.messages ++ [_] = initial ++ (w.newMessages ++ [_])
      rw [h.context, List.append_assoc]

/-- Executions leave the view alone. -/
theorem run_executions (hv : v.agentEnd = none) (h : ∀ e ∈ evs, IsExecution e) :
    v.run evs = some v := by
  induction evs with
  | nil => rfl
  | cons event evs ih =>
    have hstep : v.step event = some v := by
      have hevent := h event List.mem_cons_self
      cases event <;> first
        | exact hevent.elim
        | (unfold View.step; rw [hv]; rfl)
    rw [View.run, hstep]
    exact ih fun e he => h e (List.mem_cons_of_mem _ he)

/-- Tool results end one after the other. -/
theorem run_results (messages : List ToolResultMessage)
    (ended : List AgentMessage) :
    View.run (.between ended true) (messages.flatMap resultEvents)
      = some (.between (ended ++ messages.map .toolResult) true) := by
  induction messages generalizing ended with
  | nil => rw [List.map_nil, List.append_nil]; rfl
  | cons message messages ih =>
    have hcons : ended ++ (message :: messages).map AgentMessage.toolResult
        = ended ++ [.toolResult message] ++ messages.map .toolResult := by
      rw [List.append_assoc]
      rfl
    rw [hcons, ← ih]
    rfl

theorem run_sequential (answers : List Answer) (ended : List AgentMessage) :
    View.run (.between ended true) (sequentialEvents answers)
      = some (.between (ended
        ++ (answers.map (·.message)).map .toolResult) true) := by
  induction answers generalizing ended with
  | nil => rw [List.map_nil, List.map_nil, List.append_nil]; rfl
  | cons a answers ih =>
    have hone := run_results [a.message] ended
    rw [List.flatMap_singleton] at hone
    have hsplit : sequentialEvents (a :: answers)
        = a.trace ++ (resultEvents a.message ++ sequentialEvents answers) := by
      rw [sequentialEvents, List.flatMap_cons, List.append_assoc]
      rfl
    have htrace := run_executions
      (v := .between ended true) rfl a.traced.executions
    rw [hsplit, View.run_append, htrace, Option.bind_some, View.run_append,
      hone, Option.bind_some, ih, List.map_cons, List.map_cons,
      List.append_assoc]
    rfl

theorem Between.returned
    {messages : List ToolResultMessage} (h : Between initial true w)
    (he : Emits w evs w')
    (hrun : ∀ ended, View.run (.between ended true) evs
      = some (.between (ended ++ messages.map .toolResult) true)) :
    Returned initial messages w' where
  view := by rw [he.events, view_append h.view, hrun, he.newMessages]
  context := by
    rw [he.context, he.newMessages]
    exact h.context

theorem Running.emitsTools (h : Running w) (he : EmitsTools w w') :
    Running w' := by
  obtain ⟨evs, hevs, ht⟩ := he
  intro ms hm
  rw [hevs.events] at hm
  rcases List.mem_append.1 hm with hm | hm
  · exact h ms hm
  · exact ht _ hm

theorem holds_executeToolCalls (message : AssistantMessage)
    (h : Between initial true w) :
    Holds (executeToolCalls env config message) w
      (fun batch w' => Returned initial batch.messages w')
      (fun _ w' => Running w') := by
  refine .bind (.read ?_)
  refine .ite (fun _ => ?_) fun _ => ?_
  · refine (holds_executeToolCallsSequential message _ [] []).mono ?_
      fun _ _ he => h.running.emitsTools he
    rintro batch w' ⟨more, hmore, answers, -, -, hms, he⟩
    obtain rfl : batch.messages = more := hmore
    refine h.returned he fun ended => ?_
    rw [run_sequential, hms]
  · refine (holds_executeToolCallsParallel message _).mono ?_
      fun _ _ he => h.running.emitsTools he
    rintro batch w' ⟨answers, evs, -, hms, hinter, he⟩
    have hevs : ∀ e ∈ evs, IsExecution e := by
      intro e hmem
      obtain ⟨part, hpart, hep⟩ := hinter.mem_part hmem
      obtain ⟨a, -, rfl⟩ := List.mem_map.1 hpart
      exact a.traced.executions e hep
    refine h.returned he fun ended => ?_
    have hquiet := run_executions
      (v := .between ended true) rfl hevs
    rw [View.run_append, hquiet, Option.bind_some, run_results]

theorem holds_turnToolCalls (message : AssistantMessage)
    (h : Between initial true w) :
    Holds (turnToolCalls env config message) w
      (fun _ w' => Between initial true w') (fun _ w' => Running w') := by
  refine .ite (fun _ => .pure h) fun _ => ?_
  refine .bind ((holds_executeToolCalls message h).mono (fun batch w₁ h₁ => ?_)
    fun _ _ h => h)
  exact .bind ((holds_pushToolResults _ h₁).mono (fun _ _ h₂ => .pure h₂)
    fun _ _ h => h.elim)

-- ======== the loop

theorem holds_settlePostTurn {α : Type} {operation : Loop σ α}
    (h : Holds operation w (fun _ w' => Emits w [] w')
      (fun _ w' => Emits w [] w')) :
    Holds (settlePostTurn env operation) w (fun _ w' => Emits w [] w')
      (fun _ w' => Emits w [] w') := by
  refine .tryCatch (.map (h.mono (fun _ _ h => h) fun error w₁ h₁ => ?_))
  refine .bind (holds_aborted.mono ?_ fun _ _ h => h.elim)
  rintro b w₂ ⟨-, rfl⟩
  exact .ite (fun _ => .pure h₁) fun _ => .throw h₁

theorem holds_pollMessagesUnlessAborted
    (poll : Option (Call σ (List AgentMessage))) :
    Holds (pollMessagesUnlessAborted env poll) w (fun _ w' => Emits w [] w')
      (fun _ w' => Emits w [] w') := by
  cases poll with
  | none => exact .pure (.refl w)
  | some poll =>
    refine .bind (holds_aborted.mono ?_ fun _ _ h => h.elim)
    rintro b w₁ ⟨-, rfl⟩
    exact .ite (fun _ => .pure (.refl _)) fun _ =>
      (holds_maybePromiseWithAbort poll).mono (fun _ _ h => h.1)
        fun _ _ h => h

theorem holds_shouldStopBeforeTurn (firstTurn : Bool) :
    Holds (shouldStopBeforeTurn config firstTurn) w
      (fun _ w' => Emits w [] w') (fun _ w' => Emits w [] w') := by
  unfold shouldStopBeforeTurn
  refine .ite (fun _ => .pure (.refl w)) fun _ => ?_
  split
  · exact .pure (.refl w)
  · intro r w' hrun
    cases hrun
    split
    · exact emits_outside w _
    · exact emits_outside w _

theorem holds_emitAgentEnd (hemit : EmitOk env) (h : Between initial false w) :
    Holds (emitAgentEnd env) w (fun _ w' => Ended initial w')
      (fun _ _ => False) := by
  refine .bind (.read ?_)
  refine (holds_emit_ok hemit _).mono (fun _ w' he => ⟨?_, ?_⟩) fun _ _ h => h
  · rw [he.events, view_concat h.view, he.newMessages]
    rfl
  · rw [he.context, he.newMessages]
    exact h.context

/-- Where a round of a loop leaves the run: ended, or between messages,
and no longer in its first turn. -/
def Continues (initial : List AgentMessage) (next : Option LoopVars)
    (w : World σ) : Prop :=
  match next with
  | none => Ended initial w
  | some v => v.firstTurn = false ∧ Between initial false w

theorem holds_ended (hemit : EmitOk env) (h : Between initial false w) :
    Holds (do
        emitAgentEnd env
        return none) w
      (Continues initial) (fun _ w' => Running w') :=
  .bind ((holds_emitAgentEnd hemit h).mono (fun _ _ h => .pure h)
    fun _ _ h => h.elim)

theorem holds_afterTurn (hemit : EmitOk env) (message : AssistantMessage)
    (toolResults : List ToolResultMessage) (hasMoreToolCalls : Bool)
    (h : Between initial false w) :
    Holds (afterTurn env config message toolResults hasMoreToolCalls) w
      (Continues initial) (fun _ w' => Running w') := by
  refine .bind (holds_aborted.mono ?_ fun _ _ h => h.elim)
  rintro b w₀ ⟨-, rfl⟩
  refine .ite (fun _ => holds_ended hemit h) fun _ => ?_
  refine .bind (.read (.bind (.read ?_)))
  refine .bind ((holds_call _).mono (fun stop w₁ hq => ?_)
    fun _ _ hq => (h.quiet hq).running)
  have h₁ := h.quiet hq.1
  refine .bind ((holds_settlePostTurn ((holds_raceWithAbort stop).mono
    (fun _ _ h => h.1) fun _ _ h => h)).mono (fun stop w₂ hq => ?_)
    fun _ _ hq => (h₁.quiet hq).running)
  have h₂ := h₁.quiet hq
  split
  · exact holds_ended hemit h₂
  · exact holds_ended hemit h₂
  · refine .bind ((holds_shouldStopBeforeTurn false).mono
      (fun stop w₃ hq => ?_) fun _ _ hq => (h₂.quiet hq).running)
    have h₃ := h₂.quiet hq
    refine .ite (fun _ => holds_ended hemit h₃) fun _ => ?_
    refine .bind ((holds_settlePostTurn (holds_pollMessagesUnlessAborted
      _)).mono (fun polled w₄ hq => ?_) fun _ _ hq => (h₃.quiet hq).running)
    have h₄ := h₃.quiet hq
    split
    · exact holds_ended hemit h₄
    · refine .bind ((holds_shouldStopBeforeTurn false).mono
        (fun stop w₅ hq => ?_) fun _ _ hq => (h₄.quiet hq).running)
      have h₅ := h₄.quiet hq
      exact .ite (fun _ => holds_ended hemit h₅) fun _ => .pure ⟨rfl, h₅⟩
    · exact .pure ⟨rfl, h₄⟩

theorem Responded.pushed {message : AssistantMessage}
    (h : Responded initial message w) :
    Between initial true { w with
      newMessages := w.newMessages ++ [.assistant message] } where
  view := h.view
  context := h.context.trans (List.append_assoc ..)

section
variable (hemit : EmitOk env) (hstreams : StreamsStartOnce config)
include hemit hstreams

theorem holds_turn
    (fuel : Nat) (v : LoopVars) (h : Between initial v.firstTurn w) :
    Holds (turn env config fuel v) w (Continues initial)
      (fun _ w' => Running w') := by
  refine .bind (holds_throwIfAborted.mono ?_ ?_)
  case refine_2 =>
    rintro _ _ ⟨-, rfl⟩
    exact h.running
  rintro _ w₀ ⟨-, rfl⟩
  refine .joined (Between initial true) ?start ?first fun w₁ h₁ => ?_
  case start =>
    intro hfirst
    rw [Bool.not_eq_true'] at hfirst
    rw [hfirst] at h
    exact (holds_emit_ok hemit _).mono
      (fun _ w₁ he => h.emits he fun _ => rfl) fun _ _ h => h.elim
  case first =>
    intro hfirst
    rw [Bool.not_eq_false'] at hfirst
    rw [hfirst] at h
    exact h
  refine .bind ((holds_deliverPending hemit _ h₁).mono (fun _ w₂ h₂ => ?_)
    fun _ _ h => h.elim)
  refine .bind ((holds_streamAssistantResponse hemit hstreams fuel h₂).mono
    (fun message w₃ hr => ?_) fun _ _ h => h)
  have h₃ := hr.pushed
  refine .bind (.modify ?_)
  split
  · refine .bind ((holds_emit_ok hemit _).mono (fun _ w₄ he => ?_)
      fun _ _ h => h.elim)
    exact holds_ended hemit (h₃.emits he fun _ => rfl)
  · refine .bind ((holds_turnToolCalls message h₃).mono (fun r w₄ h₄ => ?_)
      fun _ _ h => h)
    refine .bind ((holds_emit_ok hemit _).mono (fun _ w₅ he => ?_)
      fun _ _ h => h.elim)
    exact holds_afterTurn hemit message _ _ (h₄.emits he fun _ => rfl)

theorem holds_innerLoop (fuel rounds : Nat) (v : LoopVars)
    (h : Between initial v.firstTurn w)
    (hwork : v.firstTurn = true → v.hasMoreToolCalls = true) :
    Holds (innerLoop env config fuel rounds v) w (Continues initial)
      (fun _ w' => Running w') := by
  induction rounds generalizing v w with
  | zero => exact .diverge
  | succ rounds ih =>
    refine .ite (fun _ => ?_) fun hidle => .pure ?_
    · refine .bind ((holds_turn hemit hstreams fuel v h).mono
        (fun next w₁ h₁ => ?_) fun _ _ h => h)
      cases next with
      | none => exact .pure h₁
      | some v' =>
        obtain ⟨hfirst, hb⟩ := h₁
        refine ih v' (hfirst ▸ hb) fun hf => ?_
        rw [hfirst] at hf
        cases hf
    · -- the first turn always has something to do
      have hfirst : v.firstTurn = false := by
        rw [Bool.eq_false_iff]
        intro hf
        rw [hwork hf] at hidle
        cases hidle
      exact ⟨hfirst, hfirst ▸ h⟩

omit hemit hstreams in
theorem holds_pollContinuation (lastTurn : Option TurnContext) :
    Holds (pollContinuation env config lastTurn) w
      (fun _ w' => Emits w [] w') (fun _ w' => Emits w [] w') := by
  cases lastTurn with
  | none => exact .pure (.refl w)
  | some lastTurn =>
    refine .bind ((holds_call _).mono (fun r w₁ h₁ => ?_) fun _ _ h => h)
    refine (holds_settlePostTurn ((holds_raceWithAbort r).mono
      (fun _ _ h => h.1) fun _ _ h => h)).mono
      (fun _ _ h => h₁.1.quiet h) fun _ _ h => h₁.1.quiet h

omit hemit hstreams in
theorem holds_whenIdle (hemit : EmitOk env) (v : LoopVars)
    (hfirst : v.firstTurn = false) (h : Between initial false w) :
    Holds (whenIdle env config v) w (Continues initial)
      (fun _ w' => Running w') := by
  refine .bind ((holds_shouldStopBeforeTurn _).mono (fun stop w₁ hq => ?_)
    fun _ _ hq => (h.quiet hq).running)
  have h₁ := h.quiet hq
  refine .ite (fun _ => holds_ended hemit h₁) fun _ => ?_
  refine .bind ((holds_settlePostTurn (holds_pollMessagesUnlessAborted
    _)).mono (fun polled w₂ hq => ?_) fun _ _ hq => (h₁.quiet hq).running)
  have h₂ := h₁.quiet hq
  split
  · exact holds_ended hemit h₂
  · exact .pure ⟨hfirst, h₂⟩
  · refine .bind ((holds_shouldStopBeforeTurn _).mono (fun stop w₃ hq => ?_)
      fun _ _ hq => (h₂.quiet hq).running)
    have h₃ := h₂.quiet hq
    refine .ite (fun _ => holds_ended hemit h₃) fun _ => ?_
    refine .bind ((holds_pollContinuation _).mono (fun polled w₄ hq => ?_)
      fun _ _ hq => (h₃.quiet hq).running)
    have h₄ := h₃.quiet hq
    split
    · exact holds_ended hemit h₄
    · exact holds_ended hemit h₄
    · exact .pure ⟨hfirst, h₄⟩

theorem holds_outerLoop (fuel rounds : Nat) (v : LoopVars)
    (h : Between initial v.firstTurn w) :
    Holds (outerLoop env config fuel rounds v) w
      (fun _ w' => Ended initial w') (fun _ w' => Running w') := by
  induction rounds generalizing v w with
  | zero => exact .diverge
  | succ rounds ih =>
    refine .bind (holds_throwIfAborted.mono ?_ ?_)
    case refine_2 =>
      rintro _ _ ⟨-, rfl⟩
      exact h.running
    rintro _ w₀ ⟨-, rfl⟩
    refine .bind ((holds_innerLoop hemit hstreams fuel fuel
      { v with hasMoreToolCalls := true } h fun _ => rfl).mono
      (fun next w₁ h₁ => ?_) fun _ _ h => h)
    cases next with
    | none => exact .pure h₁
    | some v' =>
      obtain ⟨hfirst, hb⟩ := h₁
      refine .bind ((holds_whenIdle hemit v' hfirst hb).mono
        (fun next w₂ h₂ => ?_) fun _ _ h => h)
      cases next with
      | none => exact .pure h₂
      | some v'' =>
        obtain ⟨hfirst', hb'⟩ := h₂
        exact ih v'' (hfirst' ▸ hb')

theorem holds_runLoop (fuel : Nat) (h : Between initial true w) :
    Holds (runLoop env config fuel) w (fun _ w' => Ended initial w')
      (fun _ w' => Running w') := by
  refine .bind ((holds_pollMessagesUnlessAborted _).mono
    (fun pending w₁ hq => ?_) fun _ _ hq => (h.quiet hq).running)
  exact holds_outerLoop hemit hstreams fuel fuel _ (h.quiet hq)

end

-- ======== the runs

/-- Announcing prompts ends them. -/
theorem holds_emitPrompts (hemit : EmitOk env) (prompts : List AgentMessage)
    {ended : List AgentMessage}
    (hview : view w.events = some (.between ended true)) :
    Holds (emitPrompts env prompts) w
      (fun _ w' => view w'.events = some (.between (ended ++ prompts) true)
        ∧ w'.context = w.context ∧ w'.newMessages = w.newMessages)
      (fun _ _ => False) := by
  induction prompts generalizing ended w with
  | nil => exact .pure ⟨by rwa [List.append_nil], rfl, rfl⟩
  | cons prompt rest ih =>
    refine .bind ((holds_emit_ok hemit _).mono (fun _ w₁ h₁ => ?_)
      fun _ _ h => h)
    refine .bind ((holds_emit_ok hemit _).mono (fun _ w₂ h₂ => ?_)
      fun _ _ h => h)
    have he := h₁.trans h₂
    have hview₂ : view w₂.events
        = some (.between (ended ++ [prompt]) true) := by
      rw [he.events, view_append hview]
      rfl
    refine (ih hview₂).mono ?_ fun _ _ h => h
    rintro _ w₃ ⟨hv, hc, hn⟩
    rw [List.append_assoc] at hv
    exact ⟨hv, hc.trans he.context, hn.trans he.newMessages⟩

theorem holds_runAgentLoop (hemit : EmitOk env)
    (hstreams : StreamsStartOnce config) (prompts : List AgentMessage)
    (fuel : Nat) (context : AgentContext) (outside : σ) :
    Holds (runAgentLoop env config prompts fuel) (initialWorld context outside)
      (fun _ w' => Ended context.messages w') (fun _ w' => Running w') := by
  refine .bind (.modify ?_)
  refine .bind ((holds_emit_ok hemit _).mono (fun _ w₁ h₁ => ?_)
    fun _ _ h => h.elim)
  refine .bind ((holds_emit_ok hemit _).mono (fun _ w₂ h₂ => ?_)
    fun _ _ h => h.elim)
  have he := h₁.trans h₂
  have hview : view w₂.events = some (.between [] true) := by
    rw [he.events]
    rfl
  refine .bind ((holds_emitPrompts hemit prompts hview).mono ?_
    fun _ _ h => h.elim)
  rintro _ w₃ ⟨hv, hc, hn⟩
  have hb : Between context.messages true w₃ := by
    refine ⟨?_, ?_⟩
    · rw [hv, hn, he.newMessages]
      rfl
    · rw [hc, hn, he.context, he.newMessages]
      rfl
  exact .bind ((holds_runLoop hemit hstreams fuel hb).mono
    (fun _ _ h => .read h) fun _ _ h => h)

theorem holds_runAgentLoopContinue (hemit : EmitOk env)
    (hstreams : StreamsStartOnce config) (fuel : Nat) (context : AgentContext)
    (outside : σ) :
    Holds (runAgentLoopContinue env config fuel) (initialWorld context outside)
      (fun _ w' => Ended context.messages w') (fun _ w' => Running w') := by
  refine .bind (.read ?_)
  split
  · exact .throw nofun
  · exact .throw nofun
  · refine .bind (.modify ?_)
    refine .bind ((holds_emit_ok hemit _).mono (fun _ w₁ h₁ => ?_)
      fun _ _ h => h.elim)
    refine .bind ((holds_emit_ok hemit _).mono (fun _ w₂ h₂ => ?_)
      fun _ _ h => h.elim)
    have he := h₁.trans h₂
    have hb : Between context.messages true w₂ := by
      refine ⟨?_, ?_⟩
      · rw [he.events, he.newMessages]
        rfl
      · rw [he.context, he.newMessages]
        exact (List.append_nil _).symm
    exact .bind ((holds_runLoop hemit hstreams fuel hb).mono
      (fun _ _ h => .read h) fun _ _ h => h)

/-- The events, `agent_end` and the context agree on the messages `ms` of a
run: `agent_end` carries them, comes last and once; messages and turns
alternate before it, and the messages that ended are `ms`; and the context
is the initial one followed by them. -/
structure Agreement (initial ms : List AgentMessage) (w : World σ) :
    Prop where
  last : ∃ evs, w.events = evs ++ [.agentEnd ms] ∧ ∀ ms', .agentEnd ms' ∉ evs
  matched : view w.events = some
    { inMessage := false, ended := ms, inTurn := false, agentEnd := some ms }
  ended : endedMessages w.events = ms
  context : w.context.messages = initial ++ ms

theorem Ended.agreement (h : Ended initial w) :
    Agreement initial w.newMessages w where
  last := (says_of_view h.view).finished _ rfl
  matched := h.view
  ended := (says_of_view h.view).ended.symm
  context := h.context

/-- A run that emits `agent_end`, prompted or continued, ends with its
views in agreement. -/
theorem views_agree (hemit : EmitOk env) (hstreams : StreamsStartOnce config)
    (prompts : List AgentMessage) (fuel : Nat) (context : AgentContext)
    (outside : σ) {r : Except JsError (List AgentMessage)}
    (hrun : runAgentLoop env config prompts fuel (initialWorld context outside)
        = some (r, w')
      ∨ runAgentLoopContinue env config fuel (initialWorld context outside)
        = some (r, w'))
    {ms : List AgentMessage} (hend : .agentEnd ms ∈ w'.events) :
    Agreement context.messages ms w' := by
  have hok : Holds (fun _ => some (r, w')) (initialWorld context outside)
      (fun _ w' => Ended context.messages w') (fun _ w' => Running w') := by
    rcases hrun with hrun | hrun
    · rw [← hrun]
      exact holds_runAgentLoop hemit hstreams prompts fuel context outside
    · rw [← hrun]
      exact holds_runAgentLoopContinue hemit hstreams fuel context outside
  have hres := hok r w' rfl
  cases r with
  | error e => exact absurd hend (hres ms)
  | ok ret =>
    have hagree : Agreement context.messages w'.newMessages w' :=
      Ended.agreement hres
    obtain ⟨evs, hevs, hnone⟩ := hagree.last
    rw [hevs] at hend
    rcases List.mem_append.1 hend with hmem | hmem
    · exact absurd hmem (hnone ms)
    · cases List.mem_singleton.1 hmem
      exact hagree

-- ======== small examples

theorem emitOk_quietEnv (schedule : List BatchEvent) :
    EmitOk (quietEnv schedule) := fun _ _ => rfl

def emptyContext : AgentContext where
  systemPrompt := ""
  messages := []
  tools := []

def isAgentEnd : AgentEvent → Bool
  | .agentEnd _ => true
  | _ => false

/-- A run that ends, and what it emitted. -/
def endsWith (x : Loop Unit (List AgentMessage))
    (p : List AgentEvent → Bool) : Bool :=
  match x (initialWorld emptyContext ()) with
  | some (.ok _, w') => w'.events.any isAgentEnd && p w'.events
  | _ => false

theorem exists_of_endsWith {x : Loop Unit (List AgentMessage)}
    {p : List AgentEvent → Bool} (h : endsWith x p = true) :
    ∃ r ms w', x (initialWorld emptyContext ()) = some (.ok r, w')
      ∧ .agentEnd ms ∈ w'.events ∧ p w'.events = true := by
  unfold endsWith at h
  split at h
  · rename_i r w' hrun
    rw [Bool.and_eq_true, List.any_eq_true] at h
    obtain ⟨⟨event, hmem, hevent⟩, hp⟩ := h
    cases event with
    | agentEnd ms => exact ⟨r, ms, w', hrun, hmem, hp⟩
    | _ => cases hevent
  · cases h

/-- A question, and an answer that was not streamed. -/
theorem views_agree_answered :
    ∃ r ms w', runAgentLoop (quietEnv []) (answering silence)
        [.assistant silence] 3 (initialWorld emptyContext ()) = some (.ok r, w')
      ∧ Agreement [] ms w' := by
  have hstreams : StreamsStartOnce (answering silence) := by
    intro context s response hresponse
    cases hresponse
    intro i j _ _ hi
    exact hi.elim
  obtain ⟨r, ms, w', hrun, hend, -⟩ := exists_of_endsWith
    (x := runAgentLoop (quietEnv []) (answering silence) [.assistant silence] 3)
    (p := fun _ => true) (by decide +kernel)
  exact ⟨r, ms, w', hrun, views_agree (emitOk_quietEnv []) hstreams
    [.assistant silence] 3 emptyContext () (Or.inl hrun) hend⟩

/-- A provider whose stream starts its message twice. -/
def startingTwice : AgentLoopConfig Unit :=
  { answering silence with
    streamFunction := fun _ s =>
      (.settles (.ok
        { next := fun n =>
            if n < 2 then .ok (some (.start silence))
            else .ok (some (.done silence))
          result := .ok silence }), s) }

/-- Its run ends, and has started a message inside a message. -/
theorem nested_start :
    EmitOk (quietEnv []) ∧ ∃ r ms w',
      runAgentLoop (quietEnv []) startingTwice [] 4
          (initialWorld emptyContext ()) = some (.ok r, w')
        ∧ .agentEnd ms ∈ w'.events ∧ (view w'.events).isNone = true :=
  ⟨emitOk_quietEnv [], exists_of_endsWith
    (x := runAgentLoop (quietEnv []) startingTwice [] 4)
    (p := fun events => (view events).isNone) (by decide +kernel)⟩

end OneHarness.Agent
