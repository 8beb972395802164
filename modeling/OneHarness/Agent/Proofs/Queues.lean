/-
Queued messages are delivered once, in order, unless they are cut off.

Draining takes messages out of a queue before the transcript has them.
From then on they are carried by the loop: through the race with the
abort signal, the checks of the signal at the head of a turn, and the
events that announce them one by one. `Awaits b` says that the account is
balanced with the batch `b` in the loop's hands, and `Polled b` that, up
to the next event, nobody has aborted the run. Each function of the loop
takes one such state to another, or hands nothing over and keeps
`Awaits []`.

# Where it breaks

An abort that comes after a batch was drained and before the loop has
announced anything takes the batch with it: the race rejects, or the
check at the head of the turn throws, and nobody puts the batch back
(`abandoned_followUp`). So does a listener that rejects while messages
are still to be announced.
-/
import OneHarness.Lib.Conserved
import OneHarness.Agent.Agent
import OneHarness.Agent.Proofs.Frame
import OneHarness.Agent.Proofs.Tools

namespace OneHarness.Agent

open Lib Session Async

variable {ρ : Type} {origin : Origin} {options : AgentOptions origin ρ}
  {a a' a₀ : Agent ρ} {b : List AgentMessage} {name : QueueName}

-- ======== the queues

/-- The messages that are for a queue. -/
def ofQueue (origin : Origin) (name : QueueName)
    (messages : List AgentMessage) : List AgentMessage :=
  messages.filter fun m => origin.queueOf m = some name

/-- The messages in a queue, oldest first. -/
def PendingMessageQueue.messages (q : PendingMessageQueue) :
    List AgentMessage := q.batches.flatten

theorem ofQueue_append (messages messages' : List AgentMessage) :
    ofQueue origin name (messages ++ messages')
      = ofQueue origin name messages ++ ofQueue origin name messages' :=
  List.filter_append ..

variable {messages : List AgentMessage}

theorem ofQueue_self (h : ∀ m ∈ messages, origin.queueOf m = some name) :
    ofQueue origin name messages = messages :=
  List.filter_eq_self.2 fun m hm => decide_eq_true (h m hm)

/-- Messages for another queue, or for none. -/
theorem ofQueue_other (h : ∀ m ∈ messages, origin.queueOf m ≠ some name) :
    ofQueue origin name messages = [] :=
  List.filter_eq_nil_iff.2 fun m hm => by simpa using h m hm

theorem ofQueue_own (h : ∀ m ∈ messages, origin.queueOf m = none) :
    ofQueue origin name messages = [] :=
  ofQueue_other fun m hm => by
    rw [h m hm]
    nofun

/-- One queue and what went through it. -/
structure Tracked (origin : Origin) (name : QueueName)
    (q : PendingMessageQueue) (enqueued removed drained : List AgentMessage) :
    Prop where
  conserved : Conserved enqueued (drained ++ q.messages) removed
  kind : ∀ m ∈ q.messages, origin.queueOf m = some name

variable {batch : List AgentMessage}

namespace Tracked

variable {q : PendingMessageQueue}
  {enqueued removed drained : List AgentMessage}

section
variable (h : Tracked origin name q enqueued removed drained)
include h

theorem enqueue (hbatch : ∀ m ∈ batch, origin.queueOf m = some name) :
    Tracked origin name (q.enqueue batch) (enqueued ++ batch) removed
      drained := by
  have hmessages : (q.enqueue batch).messages = q.messages ++ batch := by
    unfold PendingMessageQueue.enqueue PendingMessageQueue.messages
    by_cases hlen : batch.length > 0
    · rw [if_pos hlen, List.flatten_append, List.flatten_singleton]
    · obtain rfl : batch = [] := List.length_eq_zero_iff.1 (by omega)
      exact (List.append_nil _).symm
  constructor
  · rw [hmessages, ← List.append_assoc]
    exact h.conserved.enter batch
  · rw [hmessages]
    intro m hm
    rcases List.mem_append.1 hm with hm | hm
    · exact h.kind m hm
    · exact hbatch m hm

theorem drain :
    Tracked origin name q.drain.2 enqueued removed (drained ++ q.drain.1)
      ∧ ∀ m ∈ q.drain.1, origin.queueOf m = some name := by
  have hparts : q.drain.1 ++ q.drain.2.messages = q.messages := by
    unfold PendingMessageQueue.drain PendingMessageQueue.messages
    cases q.mode with
    | all => exact List.append_nil _
    | oneAtATime =>
      cases hbatches : q.batches with
      | nil =>
        show [] ++ q.batches.flatten = _
        rw [hbatches]
        rfl
      | cons first rest => rfl
  refine ⟨⟨?_, fun m hm => h.kind m ?_⟩, fun m hm => h.kind m ?_⟩
  · rw [List.append_assoc, hparts]
    exact h.conserved
  · rw [← hparts]
    exact List.mem_append_right _ hm
  · rw [← hparts]
    exact List.mem_append_left _ hm

theorem removeWhere (predicate : AgentMessage → Bool) :
    Tracked origin name (q.removeWhere predicate).2 enqueued
      (removed ++ (q.removeWhere predicate).1) drained := by
  have hsub := flatten_filter_sublist (fun batch => !batch.any predicate)
    q.batches
  have hperm := flatten_filter_perm (·.any predicate) q.batches
  refine ⟨h.conserved.leave (hsub.append_left drained) ?_, fun m hm => ?_⟩
  · rw [List.append_assoc]
    exact hperm.append_left drained
  · exact h.kind m (hsub.subset hm)

theorem clear :
    Tracked origin name q.clear enqueued (removed ++ q.messages) drained := by
  refine ⟨h.conserved.leave ?_ ?_, fun _ hm => (List.not_mem_nil hm).elim⟩
  · exact (List.nil_sublist q.messages).append_left drained
  · show (drained ++ [] ++ q.messages).Perm _
    rw [List.append_nil]

theorem setMode (mode : QueueMode) :
    Tracked origin name { q with mode := mode } enqueued removed drained :=
  ⟨h.conserved, h.kind⟩

end

end Tracked

-- ======== the account

/-- The books are balanced: what was drained is in the transcript, or
among the undelivered. -/
structure Account (origin : Origin) (a : Agent ρ) : Prop where
  tracked : ∀ name, Tracked origin name (a.queues name)
    (a.ledger.enqueued name) (a.ledger.removed name) (a.ledger.drained name)
  delivered : ∀ name,
    ofQueue origin name (a.state.messages ++ a.ledger.undelivered)
      = a.ledger.drained name

/-- The loop has a batch in its hands, drained from a queue or its own. -/
def Carries (origin : Origin) (b : List AgentMessage) (a : Agent ρ) : Prop :=
  a.ledger.undelivered = b
    ∨ a.ledger.undelivered = [] ∧ ∀ m ∈ b, origin.queueOf m = none

/-- Up to the next event, an abort would be noted. -/
def Live (a : Agent ρ) : Prop :=
  a.ledger.undelivered ≠ [] →
    a.ledger.inFlight = true ∧ a.activeRun ≠ some true

/-- The batch `b` is to be announced. -/
def Awaits (origin : Origin) (b : List AgentMessage) (a : Agent ρ) : Prop :=
  a.ledger.cutOff = true ∨ Account origin a ∧ Carries origin b a

/-- The batch `b` was polled, and nothing announced since. -/
def Polled (origin : Origin) (b : List AgentMessage) (a : Agent ρ) : Prop :=
  a.ledger.cutOff = true ∨ Account origin a ∧ Carries origin b a ∧ Live a

/-- The account is about the transcript, the queues and the ledger. -/
theorem Account.same (h : Account origin a)
    (hmessages : a'.state.messages = a.state.messages)
    (hqueues : a'.queues = a.queues) (hledger : a'.ledger = a.ledger) :
    Account origin a' where
  tracked name := by
    rw [hqueues, hledger]
    exact h.tracked name
  delivered name := by
    rw [hmessages, hledger]
    exact h.delivered name

theorem Awaits.same (h : Awaits origin b a)
    (hmessages : a'.state.messages = a.state.messages)
    (hqueues : a'.queues = a.queues) (hledger : a'.ledger = a.ledger) :
    Awaits origin b a' := by
  rcases h with hcut | ⟨hacc, hcar⟩
  · refine .inl ?_
    rw [hledger]
    exact hcut
  · refine .inr ⟨hacc.same hmessages hqueues hledger, ?_⟩
    unfold Carries
    rw [hledger]
    exact hcar

theorem Polled.awaits (h : Polled origin b a) : Awaits origin b a := by
  rcases h with hcut | ⟨hacc, hcar, -⟩
  · exact .inl hcut
  · exact .inr ⟨hacc, hcar⟩

theorem Awaits.undelivered (h : Awaits origin [] a) :
    a.ledger.cutOff = true ∨ a.ledger.undelivered = [] := by
  rcases h with hcut | ⟨-, hcar | ⟨hnil, -⟩⟩
  · exact .inl hcut
  · exact .inr hcar
  · exact .inr hnil

/-- With nothing drained in its hands, the loop may forget its batch. -/
theorem Awaits.forget (h : Awaits origin b a)
    (hnil : a.ledger.undelivered = []) : Awaits origin [] a := by
  rcases h with hcut | ⟨hacc, -⟩
  · exact .inl hcut
  · exact .inr ⟨hacc, .inl hnil⟩

/-- The loop may take up a batch of its own. -/
theorem Awaits.takeUp (h : Awaits origin [] a)
    (hown : ∀ m ∈ b, origin.queueOf m = none) : Polled origin b a := by
  rcases h.undelivered with hcut | hnil
  · exact .inl hcut
  · rcases h with hcut | ⟨hacc, -⟩
    · exact .inl hcut
    · exact .inr ⟨hacc, .inr ⟨hnil, hown⟩, fun hne => (hne hnil).elim⟩

/-- The loop's hands are empty. -/
theorem Awaits.polled (h : Awaits origin [] a) : Polled origin [] a :=
  h.takeUp fun _ hm => (List.not_mem_nil hm).elim

/-- An abort before anything was announced leaves a batch of the loop's
own, or none. -/
theorem Polled.aborted (h : Polled origin b a)
    (haborted : a.activeRun = some true) : Awaits origin [] a := by
  rcases h with hcut | ⟨hacc, -, hlive⟩
  · exact .inl hcut
  · by_cases hnil : a.ledger.undelivered = []
    · exact .inr ⟨hacc, .inl hnil⟩
    · exact ((hlive hnil).2 haborted).elim

-- ======== calls of others

section
variable (h : Account origin a)
include h

/-- A change to one queue keeps the books balanced when its own books
are. -/
theorem Account.change (name : QueueName)
    {a' : Agent ρ} (hmessages : a'.state.messages = a.state.messages)
    (hundelivered : a'.ledger.undelivered = a.ledger.undelivered)
    (hdrained : a'.ledger.drained = a.ledger.drained)
    (hone : Tracked origin name (a'.queues name) (a'.ledger.enqueued name)
      (a'.ledger.removed name) (a'.ledger.drained name))
    (hrest : ∀ other, other ≠ name → a'.queues other = a.queues other
      ∧ a'.ledger.enqueued other = a.ledger.enqueued other
      ∧ a'.ledger.removed other = a.ledger.removed other) :
    Account origin a' where
  tracked other := by
    by_cases heq : other = name
    · rw [heq]
      exact hone
    · obtain ⟨hq, he, hr⟩ := hrest other heq
      rw [hq, he, hr, hdrained]
      exact h.tracked other
  delivered other := by
    rw [hmessages, hundelivered, hdrained]
    exact h.delivered other

theorem account_enqueue (hbatch : ∀ m ∈ batch, origin.queueOf m = some name) :
    Account origin (a.enqueue name batch) := by
  refine h.change name rfl rfl rfl ?_ fun other hne => ?_
  · show Tracked origin name (Function.update a.queues name _ name)
      (Function.update a.ledger.enqueued name _ name) _ _
    rw [Function.update_self, Function.update_self]
    exact (h.tracked name).enqueue hbatch
  · exact ⟨Function.update_of_ne hne .., Function.update_of_ne hne .., rfl⟩

theorem account_removeWhere (predicate : AgentMessage → Bool) :
    Account origin (a.removeWhere name predicate) := by
  refine h.change name rfl rfl rfl ?_ fun other hne => ?_
  · show Tracked origin name (Function.update a.queues name _ name) _
      (Function.update a.ledger.removed name _ name) _
    rw [Function.update_self, Function.update_self]
    exact (h.tracked name).removeWhere predicate
  · exact ⟨Function.update_of_ne hne .., rfl, Function.update_of_ne hne ..⟩

theorem account_clear : Account origin (a.clear name) := by
  refine h.change name rfl rfl rfl ?_ fun other hne => ?_
  · show Tracked origin name (Function.update a.queues name _ name) _
      (Function.update a.ledger.removed name _ name) _
    rw [Function.update_self, Function.update_self]
    exact (h.tracked name).clear
  · exact ⟨Function.update_of_ne hne .., rfl, Function.update_of_ne hne ..⟩

theorem account_setMode (mode : QueueMode) :
    Account origin (a.setMode name mode) := by
  refine h.change name rfl rfl rfl ?_ fun other hne => ?_
  · show Tracked origin name (Function.update a.queues name _ name) _ _ _
    rw [Function.update_self]
    exact (h.tracked name).setMode mode
  · exact ⟨Function.update_of_ne hne .., rfl, rfl⟩

end

/-- A call of others balances the books, and takes nothing out of the
loop's hands. -/
structure Outward (origin : Origin) (a a' : Agent ρ) : Prop where
  account : Account origin a → Account origin a'
  undelivered : a'.ledger.undelivered = a.ledger.undelivered
  cutOff : a.ledger.cutOff = true → a'.ledger.cutOff = true
  live : Live a → a'.ledger.cutOff = true ∨ Live a'
  idle : a.activeRun = none → a'.activeRun = none

theorem Outward.refl (a : Agent ρ) : Outward origin a a :=
  ⟨id, rfl, id, .inr, id⟩

theorem Outward.trans {a'' : Agent ρ} (h : Outward origin a a')
    (h' : Outward origin a' a'') : Outward origin a a'' where
  account hacc := h'.account (h.account hacc)
  undelivered := h'.undelivered.trans h.undelivered
  cutOff hcut := h'.cutOff (h.cutOff hcut)
  live hlive := (h.live hlive).elim (fun hcut => .inl (h'.cutOff hcut)) h'.live
  idle hidle := h'.idle (h.idle hidle)

theorem act_outward (a : Agent ρ) (c : AgentCall origin) :
    Outward origin a (a.act c) := by
  cases c with
  | enqueue name batch hbatch =>
    exact ⟨fun h => account_enqueue h hbatch, rfl, id, .inr, id⟩
  | removeQueuedMessages predicate =>
    exact ⟨fun h => account_removeWhere (account_removeWhere h predicate)
      predicate, rfl, id, .inr, id⟩
  | clear name => exact ⟨account_clear, rfl, id, .inr, id⟩
  | setMode name mode =>
    exact ⟨fun h => account_setMode h mode, rfl, id, .inr, id⟩
  | abort =>
    refine ⟨fun h => ⟨h.tracked, h.delivered⟩, rfl, fun h => ?_,
      fun h => ?_, fun h => ?_⟩
    · show (a.ledger.cutOff || _) = true
      rw [h]
      rfl
    · by_cases hnil : a.ledger.undelivered = []
      · exact .inr fun hne => (hne hnil).elim
      · obtain ⟨hflight, -⟩ := h hnil
        cases hrun : a.activeRun with
        | none =>
          refine .inr fun _ => ⟨hflight, ?_⟩
          show a.activeRun.map _ ≠ some true
          rw [hrun]
          nofun
        | some _ =>
          refine .inl ?_
          show (_ || (a.activeRun.isSome && a.ledger.inFlight)) = true
          rw [hflight, hrun]
          exact Bool.or_true _
    · show a.activeRun.map _ = none
      rw [h]
      rfl

theorem goOn_outward (a : Agent ρ) (others : ρ)
    (calls : List (AgentCall origin)) :
    Outward origin a (a.goOn others calls) := by
  have hrun : ∀ (calls : List (AgentCall origin)) (a : Agent ρ),
      Outward origin a (calls.foldl act a) := by
    intro calls
    induction calls with
    | nil => exact .refl
    | cons c calls ih => exact fun a => (act_outward a c).trans (ih _)
  have hothers : Outward origin a { a with others := others } :=
    ⟨fun h => h.same rfl rfl rfl, rfl, id, .inr, id⟩
  exact hothers.trans (hrun calls _)

theorem Awaits.outward (h : Awaits origin b a) (ho : Outward origin a a') :
    Awaits origin b a' := by
  rcases h with hcut | ⟨hacc, hcar⟩
  · exact .inl (ho.cutOff hcut)
  · refine .inr ⟨ho.account hacc, ?_⟩
    unfold Carries
    rw [ho.undelivered]
    exact hcar

theorem Polled.outward (h : Polled origin b a) (ho : Outward origin a a') :
    Polled origin b a' := by
  rcases h with hcut | ⟨hacc, hcar, hlive⟩
  · exact .inl (ho.cutOff hcut)
  · rcases ho.live hlive with hcut | hlive
    · exact .inl hcut
    · refine .inr ⟨ho.account hacc, ?_, hlive⟩
      unfold Carries
      rw [ho.undelivered]
      exact hcar

-- ======== the events

/-- A listener that rejects cuts off what is undelivered. -/
theorem Awaits.rejected (h : Awaits origin b a) :
    Awaits origin [] a.rejected := by
  by_cases hnil : a.ledger.undelivered = []
  · rcases h.forget hnil with hcut | ⟨hacc, hcar⟩
    · refine .inl ?_
      show (a.ledger.cutOff || _) = true
      rw [hcut]
      rfl
    · exact .inr ⟨⟨hacc.tracked, hacc.delivered⟩, hcar⟩
  · refine .inl ?_
    show (_ || !a.ledger.undelivered.isEmpty) = true
    rw [List.isEmpty_eq_false_iff.2 hnil]
    exact Bool.or_true _

variable {event : AgentEvent}

variable (options) in
/-- The listeners are called once the event is reduced. -/
theorem processEvents_awaits (h : Awaits origin b (a.reduce event)) :
    ((processEvents options event a).1 = .ok () →
        Awaits origin b (processEvents options event a).2)
      ∧ ((processEvents options event a).1 ≠ .ok () →
        Awaits origin [] (processEvents options event a).2) := by
  unfold processEvents
  simp only []
  split
  · exact ⟨nofun, fun _ => h.rejected⟩
  · split
    · rename_i others calls _
      exact ⟨fun _ => h.outward (goOn_outward _ others calls),
        fun hne => (hne rfl).elim⟩
    · rename_i error others calls _
      exact ⟨nofun, fun _ => (h.outward (goOn_outward _ others calls)).rejected⟩

/-- An event that ends no message. -/
def EndsNone : AgentEvent → Prop
  | .messageEnd _ => False
  | _ => True

theorem Awaits.reduce_other (h : Awaits origin b a)
    (hevent : EndsNone event) : Awaits origin b (a.reduce event) := by
  have hsame : (a.reduce event).queues = a.queues
      ∧ (a.reduce event).state.messages = a.state.messages
      ∧ (a.reduce event).ledger = { a.ledger with inFlight := false } := by
    cases event with
    | messageEnd message => exact hevent.elim
    | _ => exact ⟨rfl, rfl, rfl⟩
  obtain ⟨hqueues, hmessages, hledger⟩ := hsame
  rcases h with hcut | ⟨hacc, hcar⟩
  · refine .inl ?_
    rw [hledger]
    exact hcut
  · refine .inr ⟨⟨fun name => ?_, fun name => ?_⟩, ?_⟩
    · rw [hqueues, hledger]
      exact hacc.tracked name
    · rw [hmessages, hledger]
      exact hacc.delivered name
    · unfold Carries
      rw [hledger]
      exact hcar

/-- The end of the first message of the batch delivers it. -/
theorem Awaits.reduce_end {message : AgentMessage}
    (h : Awaits origin (message :: b) a) :
    Awaits origin b (a.reduce (.messageEnd message)) := by
  rcases h with hcut | ⟨hacc, hcar | ⟨hnil, hown⟩⟩
  · exact .inl hcut
  · refine .inr ⟨⟨hacc.tracked, fun name => ?_⟩, .inl ?_⟩
    · show ofQueue origin name
        (a.state.messages ++ [message] ++ a.ledger.undelivered.tail) = _
      have hbefore := hacc.delivered name
      rw [hcar] at hbefore ⊢
      rw [List.append_assoc]
      exact hbefore
    · show a.ledger.undelivered.tail = b
      rw [hcar]
      rfl
  · refine .inr ⟨⟨hacc.tracked, fun name => ?_⟩, .inr ⟨?_, fun m hm => ?_⟩⟩
    · show ofQueue origin name
        (a.state.messages ++ [message] ++ a.ledger.undelivered.tail) = _
      have hone : ofQueue origin name [message] = [] := by
        refine ofQueue_own fun m hm => ?_
        rw [List.mem_singleton.1 hm]
        exact hown message List.mem_cons_self
      have hbefore := hacc.delivered name
      rw [hnil, List.append_nil] at hbefore
      rw [hnil, List.tail_nil, List.append_nil, ofQueue_append, hone,
        List.append_nil]
      exact hbefore
    · show a.ledger.undelivered.tail = []
      rw [hnil]
      rfl
    · exact hown m (List.mem_cons_of_mem message hm)

/-- An event of the loop's own, with nothing in its hands. -/
theorem Awaits.reduce_own (h : Awaits origin [] a)
    (hown : IsOwn event) : Awaits origin [] (a.reduce event) := by
  have holds_over : ∀ message : AgentMessage, origin.queueOf message = none →
      Awaits origin [] (a.reduce (.messageEnd message)) := by
    intro message hnone
    refine Awaits.reduce_end ?_
    refine (h.takeUp (b := [message]) fun m hm => ?_).awaits
    rw [List.mem_singleton.1 hm]
    exact hnone
  cases event with
  | messageEnd message =>
    cases message with
    | assistant m => exact holds_over _ (origin.assistant m)
    | toolResult m => exact holds_over _ (origin.toolResult m)
    | _ => exact hown.elim
  | _ => exact h.reduce_other trivial

/-- With nothing in the loop's hands, it does not matter what the listeners
answer. -/
theorem processEvents_own (h : Awaits origin [] a) (hown : IsOwn event) :
    Awaits origin [] (processEvents options event a).2 := by
  obtain ⟨hok, herror⟩ :=
    processEvents_awaits options (h.reduce_own hown)
  by_cases heq : (processEvents options event a).1 = .ok ()
  · exact hok heq
  · exact herror heq

/-- The surroundings of the agent's loop keep the books balanced. -/
theorem kept_awaits (options : AgentOptions origin ρ) (a₀ : Agent ρ) :
    Kept (Awaits origin []) (loopEnv options) (createLoopConfig options a₀) := by
  have hgoOn : ∀ (a : Agent ρ) (others : ρ) (calls : List (AgentCall origin)),
      Awaits origin [] a → Awaits origin [] (a.goOn others calls) :=
    fun a others calls h => h.outward (goOn_outward a others calls)
  have hremote : ∀ {α : Type} (r : Remote origin ρ α) (a : Agent ρ),
      Awaits origin [] a → Awaits origin [] (remote r a).2 :=
    fun r a h => hgoOn a _ _ h
  have hasync : ∀ {α : Type} (c : Call (Agent ρ) α) (a : Agent ρ),
      Awaits origin [] (c a).2 → Awaits origin [] (asyncFunction c a).2 := by
    intro α c a h
    unfold asyncFunction
    split
    · rename_i error a' heq
      rw [heq] at h
      exact h
    · exact h
  have hmap : ∀ {α β : Type} (f : α → β) (c : Call (Agent ρ) α) (a : Agent ρ),
      Awaits origin [] (c a).2 → Awaits origin [] (mapCall f c a).2 := by
    intro α β f c a h
    unfold mapCall
    split <;>
    · rename_i heq
      rw [heq] at h
      exact h
  constructor
  · exact fun a h => hgoOn a _ _ h
  · exact fun event a hown h => processEvents_own h hown
  · intro c hc messages a h
    obtain ⟨transformContext, -, rfl⟩ := Option.map_eq_some_iff.1 hc
    exact hremote _ a h
  · exact fun messages a h => hremote _ a h
  · intro c hc a h
    obtain ⟨getApiKey, -, rfl⟩ := Option.map_eq_some_iff.1 hc
    exact hremote _ a h
  · exact fun context a h => hremote _ a h
  · intro c hc context a h
    obtain ⟨beforeToolCall, -, rfl⟩ := Option.map_eq_some_iff.1 hc
    exact hremote _ a h
  · intro c hc a h
    cases hc
    simp only []
    split
    · exact h
    · exact hgoOn a _ _ h
  · intro c hc context a h
    cases hc
    cases options.shouldStopAfterTurn with
    | none => exact h
    | some shouldStopAfterTurn => exact hasync _ a (hremote _ a h)
  · intro c hc context a h
    cases hc
    cases options.getContinuationMessages with
    | none => exact h
    | some getContinuationMessages =>
      exact hasync _ a (hmap _ _ a (hremote _ a h))

-- ======== the polls

/-- Draining puts the batch into the loop's hands. -/
theorem Awaits.drain (h : Awaits origin [] a) (name : QueueName)
    (hrun : a.activeRun ≠ some true) :
    Polled origin (a.drain name).1 (a.drain name).2 := by
  rcases h.undelivered with hcut | hnil
  · exact .inl hcut
  rcases h with hcut | ⟨hacc, -⟩
  · exact .inl hcut
  obtain ⟨hone, hkind⟩ := (hacc.tracked name).drain
  have hundelivered : (a.drain name).2.ledger.undelivered
      = (a.queues name).drain.1 := by
    show a.ledger.undelivered ++ (a.queues name).drain.1 = _
    rw [hnil]
    rfl
  refine .inr ⟨⟨fun other => ?_, fun other => ?_⟩, .inl hundelivered,
    fun hne => ⟨?_, hrun⟩⟩
  · show Tracked origin other
      (Function.update a.queues name (a.queues name).drain.2 other) _ _
      (Function.update a.ledger.drained name
        (a.ledger.drained name ++ (a.queues name).drain.1) other)
    by_cases heq : other = name
    · rw [heq, Function.update_self, Function.update_self]
      exact hone
    · rw [Function.update_of_ne heq, Function.update_of_ne heq]
      exact hacc.tracked other
  · have hbefore := hacc.delivered other
    rw [hnil, List.append_nil] at hbefore
    rw [hundelivered, ofQueue_append]
    show ofQueue origin other a.state.messages ++ _
      = Function.update a.ledger.drained name
        (a.ledger.drained name ++ (a.queues name).drain.1) other
    rw [hbefore]
    by_cases heq : other = name
    · rw [heq, Function.update_self, ofQueue_self hkind]
    · rw [Function.update_of_ne heq, ofQueue_other, List.append_nil]
      intro m hm hother
      exact heq (Option.some.inj (hother.symm.trans (hkind m hm)))
  · rw [hundelivered] at hne
    show (a.ledger.inFlight || !(a.queues name).drain.1.isEmpty) = true
    rw [List.isEmpty_eq_false_iff.2 hne]
    exact Bool.or_true _

/-- A poll of one of the queues, as the loop calls it. -/
def Polls (origin : Origin) (c : Call (Agent ρ) (List AgentMessage)) : Prop :=
  ∀ a, Awaits origin [] a → a.activeRun ≠ some true →
    ∃ b, (c a).1 = .settles (.ok b) ∧ Polled origin b (c a).2

theorem polls_getSteeringMessages :
    Polls origin (getSteeringMessages : Call (Agent ρ) _) := by
  intro a h hrun
  unfold getSteeringMessages
  by_cases hskip : a.skipInitialSteeringPoll = true
  · rw [if_pos hskip]
    refine ⟨[], rfl, ?_⟩
    exact Awaits.polled (h.same rfl rfl rfl)
  · rw [if_neg hskip]
    exact ⟨_, rfl, h.drain .steering hrun⟩

theorem polls_getFollowUpMessages :
    Polls origin (getFollowUpMessages : Call (Agent ρ) _) :=
  fun _ h hrun => ⟨_, rfl, h.drain .followUp hrun⟩

variable {c : Call (Agent ρ) (List AgentMessage)}

section Run

variable {w : World (Agent ρ)} {fuel : Nat}

/-- The loop's part of what is awaited, of a world. -/
abbrev AwaitsIn (origin : Origin) (b : List AgentMessage)
    (w : World (Agent ρ)) : Prop := Awaits origin b w.outside

abbrev PolledIn (origin : Origin) (b : List AgentMessage)
    (w : World (Agent ρ)) : Prop := Polled origin b w.outside

theorem activeRun_of_not_aborted
    (h : (loopEnv options).aborted a = false) : a.activeRun ≠ some true := by
  intro heq
  have htrue : (loopEnv options).aborted a = true := by
    show (a.activeRun == some true) = true
    rw [heq]
    rfl
  rw [htrue] at h
  cases h

theorem activeRun_of_aborted
    (h : (loopEnv options).aborted a = true) : a.activeRun = some true :=
  beq_iff_eq.1 h

theorem holds_poll (hc : Polls origin c) (h : AwaitsIn origin [] w) :
    Holds (pollMessagesUnlessAborted (loopEnv options) (some c)) w
      (fun b w' => PolledIn origin b w') (fun _ w' => AwaitsIn origin [] w') := by
  refine .bind (holds_aborted.mono ?_ fun _ _ h => h.elim)
  rintro _ w₀ ⟨rfl, rfl⟩
  refine .ite (fun _ => .pure (h.polled)) fun hrun => ?_
  obtain ⟨b, hr, hpolled⟩ := hc w₀.outside h (activeRun_of_not_aborted hrun)
  have hcall : Holds (call c) w₀
      (fun r w' => r = .ok b ∧ PolledIn origin b w') (fun _ _ => False) := by
    intro r w' hw
    unfold call at hw
    cases hcw : c w₀.outside with
    | mk started s =>
      rw [hcw] at hw hr hpolled
      obtain rfl : started = .settles (.ok b) := hr
      cases hw
      exact ⟨rfl, hpolled⟩
  refine .bind (hcall.mono ?_ fun _ _ h => h.elim)
  rintro _ w₁ ⟨rfl, h₁⟩
  refine .bind (holds_throwIfAborted.mono ?_ ?_)
  case refine_2 =>
    rintro _ _ ⟨haborted, rfl⟩
    exact h₁.aborted (activeRun_of_aborted haborted)
  rintro _ w₂ ⟨-, rfl⟩
  refine .bind (.modify ?_)
  have h₂ : Polled origin b ((loopEnv options).suspended w₂.outside) :=
    h₁.outward (goOn_outward _ _ _)
  refine .bind (.bind (.read (.ite (fun hfirst => .throw ?_) fun _ => .pure ?_)))
  · exact h₂.aborted (activeRun_of_aborted (Bool.and_eq_true_iff.1 hfirst).1)
  · refine .bind (.modify (.ofExcept (fun m hm => ?_) nofun))
    cases hm
    exact h₂.outward (goOn_outward _ _ _)

/-- A poll that is cut short hands nothing over. -/
theorem holds_pollPostTurn (hc : Polls origin c) (h : AwaitsIn origin [] w) :
    Holds (settlePostTurn (loopEnv options)
        (pollMessagesUnlessAborted (loopEnv options) (some c))) w
      (fun r w' => PolledIn origin (r.getD []) w')
      (fun _ w' => AwaitsIn origin [] w') := by
  refine .tryCatch (.map ((holds_poll hc h).mono (fun _ _ h => h)
    fun error w₁ h₁ => ?_))
  refine .bind (holds_aborted.mono ?_ fun _ _ h => h.elim)
  rintro _ w₂ ⟨-, rfl⟩
  exact .ite (fun _ => .pure (h₁.polled)) fun _ => .throw h₁

-- ======== the delivery

/-- An event is announced: the listeners may reject it, and then nothing is
left in the loop's hands but what is cut off. -/
theorem holds_announce (h : Awaits origin b (w.outside.reduce event)) :
    Holds (emit (loopEnv options) event) w
      (fun _ w' => AwaitsIn origin b w')
      (fun _ w' => AwaitsIn origin [] w') := by
  intro r w' hw
  have heq := Option.some.inj hw
  obtain ⟨hok, herror⟩ := processEvents_awaits options h
  obtain rfl : (emitted (loopEnv options) event w).2 = w' :=
    congrArg Prod.snd heq
  have hr : (processEvents options event w.outside).1 = r :=
    congrArg Prod.fst heq
  cases r with
  | ok _ => exact hok hr
  | error e =>
    refine herror ?_
    rw [hr]
    nofun

theorem holds_deliver (h : AwaitsIn origin b w) :
    Holds (deliverPending (loopEnv options) b) w
      (fun _ w' => AwaitsIn origin [] w')
      (fun _ w' => AwaitsIn origin [] w') := by
  induction b generalizing w with
  | nil => exact .pure h
  | cons message rest ih =>
    have hstart : EndsNone (.messageStart message) := trivial
    refine .bind ((holds_announce (h.reduce_other hstart)).mono
      (fun _ w₁ h₁ => ?_) fun _ _ h => h)
    refine .bind ((holds_announce h₁.reduce_end).mono
      (fun _ w₂ h₂ => ?_) fun _ _ h => h)
    exact .bind (.modify (.bind (.modify (ih h₂))))

theorem holds_prompts (h : AwaitsIn origin b w) :
    Holds (emitPrompts (loopEnv options) b) w
      (fun _ w' => AwaitsIn origin [] w')
      (fun _ w' => AwaitsIn origin [] w') := by
  induction b generalizing w with
  | nil => exact .pure h
  | cons message rest ih =>
    have hstart : EndsNone (.messageStart message) := trivial
    refine .bind ((holds_announce (h.reduce_other hstart)).mono
      (fun _ w₁ h₁ => ?_) fun _ _ h => h)
    exact .bind ((holds_announce h₁.reduce_end).mono (fun _ _ h₂ => ih h₂)
      fun _ _ h => h)

-- ======== the loop

/-- What comes next: the run is over, or it has polled a batch. -/
def Follows (origin : Origin) (next : Option LoopVars)
    (w : World (Agent ρ)) : Prop :=
  PolledIn origin ((next.map (·.pendingMessages)).getD []) w

theorem holds_over (h : AwaitsIn origin [] w) :
    Holds (do
        emitAgentEnd (loopEnv options)
        return none) w (Follows origin)
      (fun _ w' => AwaitsIn origin [] w') :=
  .bind ((keeps_emitAgentEnd (kept_awaits options w.outside) w h).mono
    (fun _ _ h => .pure (h.polled)) fun _ _ h => h)

variable (options a₀)

theorem holds_afterTurn_polled (message : AssistantMessage)
    (toolResults : List ToolResultMessage) (hasMoreToolCalls : Bool)
    (h : AwaitsIn origin [] w) :
    Holds (afterTurn (loopEnv options) (createLoopConfig options a₀) message
        toolResults hasMoreToolCalls) w (Follows origin)
      (fun _ w' => AwaitsIn origin [] w') := by
  have hI := kept_awaits options a₀
  refine .bind (holds_aborted.mono ?_ fun _ _ h => h.elim)
  rintro _ w₀ ⟨-, rfl⟩
  refine .ite (fun _ => holds_over h) fun _ => .bind (.read (.bind (.read ?_)))
  refine .bind ((keeps_call (hI.shouldStopAfterTurn _ rfl _) w₀ h).mono
    (fun stop w₁ h₁ => ?_) fun _ _ h => h)
  refine .bind ((keeps_settlePostTurn (keeps_raceWithAbort hI stop) w₁ h₁).mono
    (fun stop w₂ h₂ => ?_) fun _ _ h => h)
  split
  · exact holds_over h₂
  · exact holds_over h₂
  · refine .bind ((keeps_shouldStopBeforeTurn hI false w₂ h₂).mono
      (fun stop w₃ h₃ => ?_) fun _ _ h => h)
    refine .ite (fun _ => holds_over h₃) fun _ => ?_
    refine .bind ((holds_pollPostTurn polls_getSteeringMessages h₃).mono
      (fun polled w₄ h₄ => ?_) fun _ _ h => h)
    split
    · exact holds_over h₄.awaits
    · refine .bind ((keeps_shouldStopBeforeTurn hI false w₄ h₄.awaits).mono
        (fun stop w₅ h₅ => ?_) fun _ _ h => h)
      exact .ite (fun _ => holds_over h₅) fun _ => .pure (h₅.polled)
    · exact .pure h₄

theorem holds_turn_polled (v : LoopVars)
    (h : PolledIn origin v.pendingMessages w) :
    Holds (turn (loopEnv options) (createLoopConfig options a₀) fuel v) w
      (Follows origin) (fun _ w' => AwaitsIn origin [] w') := by
  have hI := kept_awaits options a₀
  refine .bind (holds_throwIfAborted.mono ?_ ?_)
  case refine_2 =>
    rintro _ _ ⟨haborted, rfl⟩
    exact h.aborted (activeRun_of_aborted haborted)
  rintro _ w₀ ⟨-, rfl⟩
  refine .joined (AwaitsIn origin v.pendingMessages) ?start
    (fun _ => h.awaits) fun w₁ h₁ => ?_
  case start =>
    intro _
    have hstart : EndsNone .turnStart := trivial
    exact holds_announce (h.awaits.reduce_other hstart)
  refine .bind ((holds_deliver h₁).mono (fun _ w₂ h₂ => ?_) fun _ _ h => h)
  refine .bind ((keeps_streamAssistantResponse hI fuel w₂ h₂).mono
    (fun message w₃ h₃ => ?_) fun _ _ h => h)
  have hpushed : AwaitsIn origin [] { w₃ with
      newMessages := w₃.newMessages ++ [.assistant message] } := h₃
  have hend : ∀ results, IsOwn (.turnEnd message results) := fun _ => trivial
  refine .bind (.modify ?_)
  split
  · exact .bind ((keeps_emit hI (hend []) _ hpushed).mono
      (fun _ _ h => holds_over h) fun _ _ h => h)
  · refine .bind ((keeps_turnToolCalls hI message _ hpushed).mono
      (fun r w₄ h₄ => ?_) fun _ _ h => h)
    refine .bind ((keeps_emit hI (hend r.1) _ h₄).mono (fun _ w₅ h₅ => ?_)
      fun _ _ h => h)
    exact holds_afterTurn_polled options a₀ message _ _ h₅

theorem holds_innerLoop_polled (rounds : Nat) (v : LoopVars)
    (h : PolledIn origin v.pendingMessages w) :
    Holds (innerLoop (loopEnv options) (createLoopConfig options a₀) fuel rounds
        v) w (fun _ w' => AwaitsIn origin [] w')
      (fun _ w' => AwaitsIn origin [] w') := by
  induction rounds generalizing v w with
  | zero => exact .diverge
  | succ rounds ih =>
    refine .ite (fun _ => ?_) fun hidle => .pure ?_
    · refine .bind ((holds_turn_polled options a₀ v h).mono
        (fun next w₁ h₁ => ?_) fun _ _ h => h)
      cases next with
      | none => exact .pure h₁.awaits
      | some v' => exact ih v' h₁
    · -- it stops once nothing is pending
      have hnil : v.pendingMessages = [] := by
        simp at hidle
        exact hidle.2
      rw [hnil] at h
      exact h.awaits

/-- Continuation messages are the loop's own. -/
theorem holds_continuation (lastTurn : Option TurnContext)
    (h : AwaitsIn origin [] w) :
    Holds (pollContinuation (loopEnv options) (createLoopConfig options a₀)
        lastTurn) w
      (fun r w' => PolledIn origin (r.getD []) w')
      (fun _ w' => AwaitsIn origin [] w') := by
  have hI := kept_awaits options a₀
  cases lastTurn with
  | none => exact .pure (h.polled)
  | some lastTurn =>
    -- what is answered is for no queue
    have hown : ∀ c ∈ (createLoopConfig options a₀).getContinuationMessages,
        ∀ messages (a : Agent ρ),
          (c lastTurn a).1 = .settles (.ok messages) →
          ∀ m ∈ messages, origin.queueOf m = none := by
      intro c hc messages a heq
      cases hc
      cases hoption : options.getContinuationMessages with
      | none =>
        rw [hoption] at heq
        cases heq
        exact fun _ hm => (List.not_mem_nil hm).elim
      | some getContinuationMessages =>
        rw [hoption] at heq
        simp only [asyncFunction, mapCall, remote] at heq
        cases hstarted : (getContinuationMessages lastTurn a).1 with
        | threw error =>
          rw [hstarted] at heq
          cases heq
        | settles r =>
          rw [hstarted] at heq
          cases r with
          | error error => cases heq
          | ok own =>
            cases heq
            intro m hm
            obtain ⟨m', -, rfl⟩ := List.mem_map.1 hm
            exact m'.2
    refine .bind ?_
    intro r w₁ hw
    have h₁ := keeps_call (hI.getContinuationMessages _ rfl lastTurn) w h
      r w₁ hw
    cases r with
    | error error => exact h₁
    | ok r =>
      have hr := ((holds_call _) _ _ hw).2
      refine .tryCatch (.map ?_)
      intro r' w₂ hw₂
      have h₂ := keeps_raceWithAbort hI r w₁ h₁ r' w₂ hw₂
      have hval := holds_raceWithAbort r r' w₂ hw₂
      cases r' with
      | ok messages =>
        refine h₂.takeUp (hown _ rfl messages w.outside ?_)
        rw [← hval.2]
        exact hr
      | error error =>
        refine .bind (holds_aborted.mono ?_ fun _ _ h => h.elim)
        rintro _ w₃ ⟨-, rfl⟩
        exact .ite (fun _ => .pure (h₂.polled)) fun _ => .throw h₂

theorem holds_whenIdle_polled (v : LoopVars) (h : AwaitsIn origin [] w) :
    Holds (whenIdle (loopEnv options) (createLoopConfig options a₀) v) w
      (Follows origin) (fun _ w' => AwaitsIn origin [] w') := by
  have hI := kept_awaits options a₀
  refine .bind ((keeps_shouldStopBeforeTurn hI _ w h).mono
    (fun stop w₁ h₁ => ?_) fun _ _ h => h)
  refine .ite (fun _ => holds_over h₁) fun _ => ?_
  refine .bind ((holds_pollPostTurn polls_getFollowUpMessages h₁).mono
    (fun polled w₂ h₂ => ?_) fun _ _ h => h)
  split
  · exact holds_over h₂.awaits
  · exact .pure h₂
  · refine .bind ((keeps_shouldStopBeforeTurn hI _ w₂ h₂.awaits).mono
      (fun stop w₃ h₃ => ?_) fun _ _ h => h)
    refine .ite (fun _ => holds_over h₃) fun _ => ?_
    refine .bind ((holds_continuation options a₀ _ h₃).mono
      (fun polled w₄ h₄ => ?_) fun _ _ h => h)
    split
    · exact holds_over h₄.awaits
    · exact holds_over h₄.awaits
    · exact .pure h₄

theorem holds_outerLoop_polled (rounds : Nat) (v : LoopVars)
    (h : PolledIn origin v.pendingMessages w) :
    Holds (outerLoop (loopEnv options) (createLoopConfig options a₀) fuel rounds
        v) w (fun _ w' => AwaitsIn origin [] w')
      (fun _ w' => AwaitsIn origin [] w') := by
  induction rounds generalizing v w with
  | zero => exact .diverge
  | succ rounds ih =>
    refine .bind (holds_throwIfAborted.mono ?_ ?_)
    case refine_2 =>
      rintro _ _ ⟨haborted, rfl⟩
      exact h.aborted (activeRun_of_aborted haborted)
    rintro _ w₀ ⟨-, rfl⟩
    refine .bind ((holds_innerLoop_polled options a₀ fuel
      { v with hasMoreToolCalls := true } h).mono (fun next w₁ h₁ => ?_)
      fun _ _ h => h)
    cases next with
    | none => exact .pure h₁
    | some v' =>
      refine .bind ((holds_whenIdle_polled options a₀ v' h₁).mono
        (fun next w₂ h₂ => ?_) fun _ _ h => h)
      cases next with
      | none => exact .pure h₂.awaits
      | some v'' => exact ih v'' h₂

theorem holds_runLoop_polled (h : AwaitsIn origin [] w) :
    Holds (runLoop (loopEnv options) (createLoopConfig options a₀) fuel) w
      (fun _ w' => AwaitsIn origin [] w')
      (fun _ w' => AwaitsIn origin [] w') :=
  .bind ((holds_poll polls_getSteeringMessages h).mono
    (fun _ _ h₁ => holds_outerLoop_polled options a₀ fuel _ h₁) fun _ _ h => h)

theorem holds_runAgentLoop_polled (h : AwaitsIn origin b w) :
    Holds (runAgentLoop (loopEnv options) (createLoopConfig options a₀) b fuel)
      w (fun _ w' => AwaitsIn origin [] w')
      (fun _ w' => AwaitsIn origin [] w') := by
  have hagent : EndsNone .agentStart := trivial
  have hturn : EndsNone .turnStart := trivial
  have hworld : AwaitsIn origin b { w with
      newMessages := b
      context := { w.context with
        messages := w.context.messages ++ b } } := h
  refine .bind (.modify ?_)
  refine .bind ((holds_announce (hworld.reduce_other hagent)).mono
    (fun _ w₁ h₁ => ?_) fun _ _ h => h)
  refine .bind ((holds_announce (h₁.reduce_other hturn)).mono
    (fun _ w₂ h₂ => ?_) fun _ _ h => h)
  refine .bind ((holds_prompts h₂).mono (fun _ w₃ h₃ => ?_) fun _ _ h => h)
  exact .bind ((holds_runLoop_polled options a₀ h₃).mono
    (fun _ _ h => .read h) fun _ _ h => h)

theorem holds_runAgentLoopContinue_polled (h : AwaitsIn origin [] w) :
    Holds (runAgentLoopContinue (loopEnv options) (createLoopConfig options a₀)
        fuel) w (fun _ w' => AwaitsIn origin [] w')
      (fun _ w' => AwaitsIn origin [] w') := by
  have hagent : EndsNone .agentStart := trivial
  have hturn : EndsNone .turnStart := trivial
  have hworld : AwaitsIn origin [] { w with newMessages := [] } := h
  refine .bind (.read ?_)
  split
  · exact .throw h
  · exact .throw h
  · refine .bind (.modify ?_)
    refine .bind ((holds_announce (hworld.reduce_other hagent)).mono
      (fun _ w₁ h₁ => ?_) fun _ _ h => h)
    refine .bind ((holds_announce (h₁.reduce_other hturn)).mono
      (fun _ w₂ h₂ => ?_) fun _ _ h => h)
    exact .bind ((holds_runLoop_polled options a₀ h₂).mono
      (fun _ _ h => .read h) fun _ _ h => h)

end Run

-- ======== the runs

theorem handleRunFailure_awaits (error : JsError) (h : Awaits origin [] a) :
    Awaits origin [] (handleRunFailure options error a) := by
  have hstate : Awaits origin [] { a with
      state := { a.state with
        errorMessage := (failureMessage options error a).errorMessage } } :=
    h.same rfl rfl rfl
  exact processEvents_own (processEvents_own (processEvents_own hstate trivial)
    trivial) trivial

theorem finishRun_awaits (h : Awaits origin [] a) :
    Awaits origin [] a.finishRun := h.same rfl rfl rfl

/-- An agent between runs, with its books balanced or cut off. -/
structure Rests (origin : Origin) (a : Agent ρ) : Prop where
  idle : a.activeRun = none
  awaits : Awaits origin [] a

/-- A run whose loop hands everything over leaves the agent at rest. -/
theorem runWithLifecycle_rests {executor : Loop (Agent ρ) (List AgentMessage)}
    (h : Awaits origin b a)
    (hexecutor : ∀ w : World (Agent ρ), Awaits origin b w.outside →
      Holds executor w (fun _ w' => Awaits origin [] w'.outside)
        (fun _ w' => Awaits origin [] w'.outside))
    (hrun : runWithLifecycle options executor a = some a') :
    Rests origin a' := by
  have hstarted : Awaits origin b { a with
      activeRun := some false
      state := { a.state with
        isStreaming := true
        streamingMessage := none
        errorMessage := none } } :=
    h.same rfl rfl rfl
  unfold runWithLifecycle at hrun
  simp only [] at hrun
  split at hrun
  · cases hrun
  · rename_i messages w heq
    cases hrun
    exact ⟨rfl, finishRun_awaits (hexecutor (initialWorld _ _) hstarted _ _ heq)⟩
  · rename_i error w heq
    cases hrun
    exact ⟨rfl, finishRun_awaits (handleRunFailure_awaits error
      (hexecutor (initialWorld _ _) hstarted _ _ heq))⟩

theorem runPromptMessages_rests {fuel : Nat} {skip : Bool}
    (h : Awaits origin b a)
    (hrun : runPromptMessages options fuel b skip a = some a') :
    Rests origin a' := by
  have hskip : Awaits origin b { a with skipInitialSteeringPoll := skip } :=
    h.same rfl rfl rfl
  exact runWithLifecycle_rests hskip
    (fun w hw => holds_runAgentLoop_polled options _ hw) hrun

theorem runContinuation_rests {fuel : Nat} (h : Awaits origin [] a)
    (hrun : runContinuation options fuel a = some a') : Rests origin a' := by
  have hskip : Awaits origin [] { a with skipInitialSteeringPoll := false } :=
    h.same rfl rfl rfl
  exact runWithLifecycle_rests hskip
    (fun w hw => holds_runAgentLoopContinue_polled options _ hw) hrun

theorem runQueuedMessages_rests {fuel : Nat} (h : Rests origin a)
    (hrun : runQueuedMessages options fuel a = some (some a')) :
    Rests origin a' := by
  have hsteering := h.awaits.drain .steering (by rw [h.idle]; nofun)
  unfold runQueuedMessages at hrun
  split at hrun
  · rename_i message rest a₁ heq
    rw [heq] at hsteering
    exact runPromptMessages_rests hsteering.awaits (Option.some.inj hrun)
  · rename_i a₁ heq
    have hidle : a₁.activeRun = none :=
      (congrArg (·.2.activeRun) heq).symm.trans h.idle
    rw [heq] at hsteering
    have hfollowUp := hsteering.awaits.drain .followUp (by rw [hidle]; nofun)
    split at hrun
    · rename_i message rest a₂ heq
      rw [heq] at hfollowUp
      exact runPromptMessages_rests hfollowUp.awaits (Option.some.inj hrun)
    · cases hrun

variable {r : Except JsError Unit}

theorem prompt_rests {fuel : Nat} {messages : List (Own origin)}
    (h : Rests origin a)
    (hrun : a.prompt options fuel messages = some (r, a')) :
    Rests origin a' := by
  unfold prompt at hrun
  rw [h.idle] at hrun
  obtain ⟨a₁, hprompt, heq⟩ := Option.map_eq_some_iff.1 hrun
  cases heq
  refine runPromptMessages_rests (h.awaits.takeUp fun m hm => ?_).awaits hprompt
  obtain ⟨m', -, rfl⟩ := List.mem_map.1 hm
  exact m'.2

theorem continueRun_rests {fuel : Nat}
    (h : Rests origin a)
    (hrun : a.continueRun options fuel = some (r, a')) : Rests origin a' := by
  have hcontinuation :
      (runContinuation options fuel a).map (fun a => (.ok (), a)) = some (r, a') →
      Rests origin a' := by
    intro heq
    obtain ⟨a₁, hrun, heq⟩ := Option.map_eq_some_iff.1 heq
    cases heq
    exact runContinuation_rests h.awaits hrun
  have hqueued : ∀ run, runQueuedMessages options fuel a = some run →
      run.map (fun a => (.ok (), a)) = some (r, a') → Rests origin a' := by
    intro run hqueued heq
    obtain ⟨a₁, rfl, heq⟩ := Option.map_eq_some_iff.1 heq
    cases heq
    exact runQueuedMessages_rests h hqueued
  have hsame : ∀ error : JsError,
      some ((.error error : Except JsError Unit), a) = some (r, a') →
      Rests origin a' := by
    intro error heq
    cases heq
    exact h
  unfold continueRun at hrun
  simp only [] at hrun
  rw [h.idle] at hrun
  simp only [] at hrun
  split at hrun
  · split at hrun
    · exact hqueued _ ‹_› hrun
    · exact hsame _ hrun
  · split at hrun
    · exact hqueued _ ‹_› hrun
    · exact hsame _ hrun
  · split at hrun
    · exact hqueued _ ‹_› hrun
    · exact hcontinuation hrun
  · exact hcontinuation hrun

/-- Agents are made at rest, and every call and every run leaves them so. -/
theorem atRest_rests (h : AtRest origin a) : Rests origin a := by
  induction h with
  | create state messages modes others =>
    refine ⟨rfl, .inr ⟨⟨fun name =>
      ⟨.empty, fun _ hm => (List.not_mem_nil hm).elim⟩, fun name => ?_⟩, .inl rfl⟩⟩
    refine ofQueue_own fun m hm => ?_
    rcases List.mem_append.1 hm with hm | hm
    · obtain ⟨m', -, rfl⟩ := List.mem_map.1 hm
      exact m'.2
    · cases hm
  | @called a others calls _ ih =>
    have ho := goOn_outward a others calls
    exact ⟨ho.idle ih.idle, ih.awaits.outward ho⟩
  | prompted options fuel messages _ hrun ih => exact prompt_rests ih hrun
  | continued options fuel _ hrun ih => exact continueRun_rests ih hrun

/-- What was ever put into a queue and neither removed nor cleared is still
in it, or in the transcript, each message once and in the order in which
it was put in, in every agent at rest whose runs cut nothing off. -/
theorem queued_once (h : AtRest origin a) (hcut : a.ledger.cutOff = false)
    (name : QueueName) :
    Conserved (a.ledger.enqueued name)
      (ofQueue origin name a.state.messages ++ (a.queues name).messages)
      (a.ledger.removed name) := by
  have hawaits := (atRest_rests h).awaits
  rcases hawaits.undelivered with hcut' | hnil
  · rw [hcut] at hcut'
    cases hcut'
  rcases hawaits with hcut' | ⟨hacc, -⟩
  · rw [hcut] at hcut'
    cases hcut'
  · have hdelivered := hacc.delivered name
    rw [hnil, List.append_nil] at hdelivered
    rw [hdelivered]
    exact (hacc.tracked name).conserved

-- ======== small examples

/-- Custom messages are queued as follow-ups, others are not queued. -/
def customFollowUps : Origin where
  queueOf
    | .custom _ => some .followUp
    | _ => none
  assistant _ := rfl
  toolResult _ := rfl

/-- A follow-up. -/
def reminder : AgentMessage :=
  .custom
    { customType := "reminder"
      content := .text "go on"
      display := true
      details := none
      timestamp := none }

/-- A provider with nothing to say, and a user who aborts the run when it is
suspended for the `n`th time, if ever. -/
def abortingAt (n : Option Nat) : AgentOptions customFollowUps Nat where
  transformContext := none
  convertToLlm messages a := (.settles (.ok messages), a.others, [])
  streamFn _ a :=
    (.settles (.ok { next := fun _ => .ok none, result := .ok silence }),
      a.others, [])
  getApiKey := none
  beforeToolCall := none
  hasAfterToolCall := false
  shouldStopAfterTurn := none
  shouldStopBeforeTurn := none
  getContinuationMessages := none
  toolExecution := .parallel
  validateToolArguments _ toolCall := .ok (.obj toolCall.arguments)
  listeners _ a := (.ok (), a.others, [])
  suspended a := (a.others + 1, if some a.others = n then [.abort] else [])
  abortFirst _ := true
  now _ := .ofNat 0
  schedule _ := []
  lifecycleFailure _ := .null

/-- An agent with a follow-up in its queue. -/
def reminded : Agent Nat :=
  (Agent.create
    { systemPrompt := ""
      model := { api := "api", provider := "p", id := "m" }
      tools := []
      messages := []
      isStreaming := false
      streamingMessage := none
      pendingToolCalls := []
      errorMessage := none }
    ([] : List (Own customFollowUps)) (fun _ => .oneAtATime) 0).goOn 0
    [(.enqueue .followUp [reminder] fun _ hm => by
      rw [List.mem_singleton.1 hm]
      rfl : AgentCall customFollowUps)]

theorem reminded_atRest : AtRest customFollowUps reminded :=
  .called _ _ (.create _ _ _ _)

/-- How a prompt without messages ends. -/
def endsPrompt (options : AgentOptions customFollowUps Nat)
    (p : Agent Nat → Bool) : Bool :=
  match reminded.prompt options 3 [] with
  | some (.ok (), a) => p a
  | _ => false

theorem exists_of_endsPrompt (options : AgentOptions customFollowUps Nat)
    {p : Agent Nat → Bool} (h : endsPrompt options p = true) :
    ∃ a, AtRest customFollowUps a ∧ p a = true := by
  unfold endsPrompt at h
  split at h
  · exact ⟨_, .prompted options 3 [] reminded_atRest ‹_›, h⟩
  · cases h

/-- Left alone, the run delivers the follow-up. -/
theorem queued_once_reminder : ∃ a : Agent Nat, AtRest customFollowUps a
    ∧ (ofQueue customFollowUps .followUp a.state.messages).length = 1
    ∧ Conserved (a.ledger.enqueued .followUp)
        (ofQueue customFollowUps .followUp a.state.messages
          ++ (a.queues .followUp).messages) (a.ledger.removed .followUp) := by
  obtain ⟨a, hrest, ha⟩ := exists_of_endsPrompt (abortingAt none)
    (p := fun a => !a.ledger.cutOff
      && (ofQueue customFollowUps .followUp a.state.messages).length == 1)
    (by decide +kernel)
  rw [Bool.and_eq_true, Bool.not_eq_true', beq_iff_eq] at ha
  exact ⟨a, hrest, ha.2, queued_once hrest ha.1 .followUp⟩

/-- An abort that comes while the loop awaits its poll of the follow-ups
leaves the follow-up in no queue, and out of the transcript. -/
theorem abandoned_followUp : ∃ a : Agent Nat, AtRest customFollowUps a
    ∧ (a.ledger.enqueued .followUp).length = 1
    ∧ ¬ Conserved (a.ledger.enqueued .followUp)
        (ofQueue customFollowUps .followUp a.state.messages
          ++ (a.queues .followUp).messages) (a.ledger.removed .followUp) := by
  obtain ⟨a, hrest, ha⟩ := exists_of_endsPrompt (abortingAt (some 14))
    (p := fun a => (a.ledger.enqueued .followUp).length == 1
      && (ofQueue customFollowUps .followUp a.state.messages
        ++ (a.queues .followUp).messages
        ++ a.ledger.removed .followUp).length == 0)
    (by decide +kernel)
  rw [Bool.and_eq_true, beq_iff_eq, beq_iff_eq] at ha
  refine ⟨a, hrest, ha.1, fun h => ?_⟩
  have hlen := h.all.length_eq
  rw [ha.1, ha.2] at hlen
  cases hlen

end OneHarness.Agent
