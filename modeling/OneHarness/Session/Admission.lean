/-
Admission of session input: a follow-up with a queue key is not queued while
another with that key is still to be sent.

# What the session adds to its store

Each turn may have a queue key; a session command has none. The steps are the
places where a session touches its store (`ActionStore`): admissions, clears,
mutations of a queued message, and what the pump does between two awaits.
Messages, tickets and what is told to agents are left out.
-/
import OneHarness.Session.ActionStore

namespace OneHarness.Session.Actions

open Lib

-- ======== the state

structure SessionQueue where
  store : ActionStore
  /-- The keys of turns. -/
  turnKeys : Ref → Option String
  /-- The primary message is an agent message. -/
  agentMessage : Ref → Bool
  /-- Disposed or disposing. -/
  disposed : Bool
  admissionPauses : Nat

inductive AdmissionDisposition where
  | startsWhenAdmitted
  | queued
deriving DecidableEq

structure Admission where
  accepted : Bool
  disposition : AdmissionDisposition

structure AdmissionOptions where
  restore : Bool
  front : Bool
  preserveOrder : Bool
  immediatelyEligible : Bool

def SessionActionPayload.isTurn : SessionActionPayload → Bool
  | .turn _ => true
  | .sessionCommand => false

def defaultAgentMessageMaxPendingPerSession : Nat := 20

namespace ActionStore

variable (s : ActionStore)

def unfinishedActions : List Ref :=
  s.ownedActions.filter fun action => !terminal (s.actions action).state

/-- The action that `selectFirst` selects. -/
def firstQueued : Option Ref :=
  (s.nextTurnBoundary.find? s.isQueued).or (s.whenRunIdle.find? s.isQueued)

end ActionStore

namespace SessionQueue

variable (q : SessionQueue)

def action (action : Ref) : SessionAction := q.store.actions action

def queueKey (action : Ref) : Option String :=
  if (q.action action).payload.isTurn then q.turnKeys action else none

/-- A key that is there and not empty. -/
def hasKey (action : Ref) : Bool := (q.queueKey action).getD "" ≠ ""

-- ======== admission

def coalescedFollowUpOwner (action : Ref) : Option Ref :=
  if (q.action action).delivery ≠ .whenRunIdle
      ∨ (q.action action).payload.isTurn = false ∨ q.hasKey action = false then
    none
  else
    q.store.unfinishedActions.find? fun candidate =>
      q.queueKey candidate = q.queueKey action
        && isClearable (q.action candidate)

def placement (options : AdmissionOptions) : SessionActionPlacement :=
  if options.front then .front
  else if options.restore || options.preserveOrder then .tail
  else .priority

/-- Enqueued, and selected if it can start at once and comes first. -/
def enqueueInput (action : Ref) (options : AdmissionOptions) :
    Except String (SessionQueue × Admission) :=
  let canStartImmediately := options.immediatelyEligible
    && (q.store.unfinishedActions.isEmpty || options.front)
  match q.store.enqueue action (placement options) with
  | .error message => .error message
  | .ok store =>
    if canStartImmediately then
      match store.selectFirst with
      | .error message => .error message
      | .ok selected =>
        .ok ({ q with store := selected },
          ⟨true, if store.firstQueued = some action then
            .startsWhenAdmitted else .queued⟩)
    else .ok ({ q with store := store }, ⟨true, .queued⟩)

def admitSessionInput (action : Ref) (options : AdmissionOptions) :
    Except String (SessionQueue × Admission) :=
  let unfinished := q.store.unfinishedActions.length
  if q.disposed then
    .error ("Cannot admit a session action because the session is disposing "
      ++ "or disposed.")
  else if 0 < q.admissionPauses then
    .error ("Cannot admit a session action while session input admission is "
      ++ "paused.")
  else if options.restore = false ∧ (q.action action).payload.isTurn
      ∧ q.agentMessage action
      ∧ defaultAgentMessageMaxPendingPerSession ≤ unfinished then
    .error ("Target session has too many pending messages: "
      ++ toString unfinished ++ " unfinished, limit is "
      ++ toString defaultAgentMessageMaxPendingPerSession)
  else
    let coalescedOwner :=
      if options.restore then none else q.coalescedFollowUpOwner action
    match coalescedOwner with
    | some _ => .ok (q, ⟨false, .queued⟩)
    | none => q.enqueueInput action options

-- ======== clears

/-- A turn that the agent has already been handed is kept, cancelled, until
its dispatch ends. -/
def isDispatched (action : Ref) : Bool :=
  (q.action action).state = .committing && (q.action action).payload.isTurn

def releaseAll (store : ActionStore) (actions : List Ref) : ActionStore :=
  actions.foldl (fun s action => orElse s (s.releaseTerminal action)) store

def cancelSessionActions (predicate : Ref → SessionAction → Bool)
    (candidates : Option (List Ref)) : SessionQueue :=
  let actions := (candidates.getD q.store.clearableActions).filter
    fun action => predicate action (q.action action)
  match q.store.remove predicate candidates with
  | (store, some _) => { q with store := store }
  | (store, none) =>
    { q with
      store := releaseAll store
        (actions.filter fun action => !q.isDispatched action) }

-- ======== mutations

/-- What is queued may be deleted, swapped with its neighbor, or written anew,
maybe for the other lane: there it has no key. -/
inductive QueuedMessageMutation where
  | delete
  | move (neighbor : Ref)
  | replace (lane : DeliveryPolicy)

def moveToLane (item : Ref) (lane : DeliveryPolicy) : SessionQueue :=
  let queued := (q.store.queuedActions lane).length
  { q with
    turnKeys := fun action => if action = item then none else q.turnKeys action
    store := orElse q.store (q.store.moveQueued item lane (some queued)) }

def mutateQueuedMessage (item : Ref) :
    QueuedMessageMutation → SessionQueue
  | .delete => q.cancelSessionActions (fun action _ => action = item) none
  | .move neighbor =>
    { q with store := orElse q.store (q.store.swapQueued item neighbor) }
  | .replace lane =>
    if (q.action item).delivery = lane then q else q.moveToLane item lane

end SessionQueue

-- ======== steps

inductive QueueStep where
  | submit (action : Ref)
      (front preserveOrder immediatelyEligible : Bool)
  | cancel (predicate : Ref → SessionAction → Bool)
      (candidates : Option (List Ref))
  | mutate (item : Ref) (mutation : SessionQueue.QueuedMessageMutation)
  | select
  /-- Preparing, committing, running, completed or failed. -/
  | advance (action : Ref) (next : ActionLifecycle)
  | rollback (action : Ref) (proof : Option RollbackProof)
  | release (action : Ref)
  | gates (disposed : Bool) (admissionPauses : Nat)

/-- An admission that throws changes nothing. -/
def admitted (q : SessionQueue) :
    Except String (SessionQueue × Admission) → SessionQueue
  | .ok (q', _) => q'
  | .error _ => q

def queueStep (q : SessionQueue) : QueueStep → SessionQueue
  | .submit action front preserveOrder immediatelyEligible =>
    admitted q (q.admitSessionInput action
      ⟨false, front, preserveOrder, immediatelyEligible⟩)
  | .cancel predicate candidates => q.cancelSessionActions predicate candidates
  | .mutate item mutation =>
    if item ∈ q.store.queuedActions (q.action item).delivery then
      q.mutateQueuedMessage item mutation
    else q
  | .select => { q with store := orElse q.store q.store.selectFirst }
  | .advance action next =>
    if next.state = .queued then q
    else { q with
      store := orElse q.store (q.store.transition action next none) }
  | .rollback action proof =>
    { q with store := orElse q.store (q.store.rollback action proof) }
  | .release action =>
    { q with store := orElse q.store (q.store.releaseTerminal action) }
  | .gates disposed admissionPauses =>
    { q with disposed := disposed, admissionPauses := admissionPauses }

def SessionQueue.initial (actions : Ref → SessionAction)
    (turnKeys : Ref → Option String) (agentMessage : Ref → Bool) :
    SessionQueue :=
  ⟨.initial actions, turnKeys, agentMessage, false, 0⟩

end OneHarness.Session.Actions
