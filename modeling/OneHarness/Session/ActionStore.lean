/-
`ActionStore`: the two delivery lanes of a session, and the lifecycle of the
actions in them.

# Actions

An action is an object that its users share with the store, so it is known by
a reference; `actions` is what it is at the moment. The store is given any of
them. Texts, previews and the promises of a ticket are left out.
-/
import OneHarness.Lib.JsMap
import OneHarness.Lib.Run

namespace OneHarness.Session.Actions

open Lib

-- ======== the actions

abbrev Ref := Nat

inductive DeliveryPolicy where
  | nextTurnBoundary
  | whenRunIdle
deriving DecidableEq

inductive SessionActionPriority where
  | pinned
  | user
  | background
deriving DecidableEq

inductive SessionActionPlacement where
  | priority
  | tail
  | front
deriving DecidableEq

def priorityRank : SessionActionPriority → Nat
  | .pinned => 2
  | .user => 1
  | .background => 0

inductive DeliveryRole where
  | primary
  | prefixed
  | nextTurn
deriving DecidableEq

structure DeliveryRecord where
  role : DeliveryRole
  /-- The message object. -/
  message : Ref

inductive SessionActionPayload where
  | turn (records : List DeliveryRecord)
  | sessionCommand

inductive ActionState where
  | queued
  | selected
  | preparing
  | committing
  | running
  | completed
  | failed
  | cancelled
deriving DecidableEq

inductive Execution where
  | agentTurn
  | sessionCommand

inductive ActionLifecycle where
  | queued
  | selected
  | preparing
  | committing
  | running (execution : Execution)
  | completed
  | failed (error : String)
  | cancelled

def ActionLifecycle.state : ActionLifecycle → ActionState
  | queued => .queued
  | selected => .selected
  | preparing => .preparing
  | committing => .committing
  | running _ => .running
  | completed => .completed
  | failed _ => .failed
  | cancelled => .cancelled

structure SessionAction where
  id : String
  delivery : DeliveryPolicy
  priority : SessionActionPriority
  payload : SessionActionPayload
  lifecycle : ActionLifecycle

namespace SessionAction

def state (action : SessionAction) : ActionState := action.lifecycle.state

def rank (action : SessionAction) : Nat := priorityRank action.priority

end SessionAction

structure RollbackProof where
  dispatchSettled : Bool
  transcript : List Ref

def terminal : ActionState → Bool
  | .completed => true
  | .failed => true
  | .cancelled => true
  | _ => false

def isClearable (action : SessionAction) : Bool :=
  match action.state with
  | .queued => true
  | .selected => true
  | .preparing => true
  | _ => false

/-- `LEGAL_TRANSITIONS`. -/
def legalTransitions : ActionState → List ActionState
  | .queued => [.selected, .failed, .cancelled]
  | .selected => [.queued, .preparing, .running, .failed, .cancelled]
  | .preparing => [.queued, .committing, .failed, .cancelled]
  | .committing => [.queued, .running, .failed, .cancelled]
  | .running => [.completed, .failed, .cancelled]
  | .completed => []
  | .failed => []
  | .cancelled => []

def ActionState.name : ActionState → String
  | queued => "queued"
  | selected => "selected"
  | preparing => "preparing"
  | committing => "committing"
  | running => "running"
  | completed => "completed"
  | failed => "failed"
  | cancelled => "cancelled"

def primaryRecords (action : SessionAction) : List DeliveryRecord :=
  match action.payload with
  | .turn records => records.filter (·.role = .primary)
  | .sessionCommand => []

def transitionSessionAction (action : SessionAction) (next : ActionLifecycle)
    (rollbackProof : Option RollbackProof) : Except String SessionAction :=
  let previous := action.state
  if next.state ∉ legalTransitions previous then
    .error ("Illegal session action lifecycle transition: " ++ previous.name
      ++ " -> " ++ next.state.name)
  else if previous = .committing ∧ next.state = .queued then
    match rollbackProof with
    | none =>
      .error "Committing session action rollback requires a settled dispatch and transcript proof"
    | some proof =>
      if ¬ proof.dispatchSettled then
        .error "Committing session action rollback requires a settled dispatch and transcript proof"
      else if ∃ record ∈ primaryRecords action,
          record.message ∈ proof.transcript then
        .error "Cannot roll back a session action whose primary message is durable in the transcript"
      else .ok { action with lifecycle := next }
  else .ok { action with lifecycle := next }

-- ======== the store

structure ActionTicketController where
  id : String

structure ActionStore where
  /-- The objects that there are, owned or not. -/
  actions : Ref → SessionAction
  nextTurnBoundary : List Ref
  whenRunIdle : List Ref
  tickets : JsMap String ActionTicketController

namespace ActionStore

def initial (actions : Ref → SessionAction) : ActionStore :=
  ⟨actions, [], [], []⟩

variable (s : ActionStore)

def list : DeliveryPolicy → List Ref
  | .nextTurnBoundary => s.nextTurnBoundary
  | .whenRunIdle => s.whenRunIdle

def setList (lane : List Ref) : DeliveryPolicy → ActionStore
  | .nextTurnBoundary => { s with nextTurnBoundary := lane }
  | .whenRunIdle => { s with whenRunIdle := lane }

def setAction (action : Ref) (value : SessionAction) : ActionStore :=
  { s with actions := fun r => if r = action then value else s.actions r }

def ownedActions : List Ref := s.nextTurnBoundary ++ s.whenRunIdle

def isQueued (action : Ref) : Bool := (s.actions action).state = .queued

def queuedActions (policy : DeliveryPolicy) : List Ref :=
  (s.list policy).filter s.isQueued

def clearableActions : List Ref :=
  s.ownedActions.filter fun action => isClearable (s.actions action)

/-- From the end of the lane past the queued actions of a lower rank. -/
def priorityIndex (rank : Nat) (lane : List Ref) : Nat :=
  lane.length - (lane.reverse.takeWhile fun item =>
    s.isQueued item ∧ (s.actions item).rank < rank).length

def insertionIndex (lane : List Ref) (action : Ref) :
    SessionActionPlacement → Nat
  | .tail => lane.length
  | .front => (lane.findIdx? s.isQueued).getD lane.length
  | .priority => s.priorityIndex (s.actions action).rank lane

def enqueue (action : Ref) (placement : SessionActionPlacement) :
    Except String ActionStore :=
  let value := s.actions action
  if value.state ≠ .queued then
    .error "Only queued session actions can be enqueued"
  else if s.tickets.has value.id then
    .error ("Duplicate session action id: " ++ value.id)
  else
    let lane := s.list value.delivery
    let index := s.insertionIndex lane action placement
    .ok { s.setList (lane.take index ++ action :: lane.drop index)
        value.delivery with
      tickets := s.tickets.set value.id ⟨value.id⟩ }

def transition (action : Ref) (next : ActionLifecycle)
    (rollbackProof : Option RollbackProof) : Except String ActionStore :=
  match transitionSessionAction (s.actions action) next rollbackProof with
  | .ok value => .ok (s.setAction action value)
  | .error message => .error message

def selectFirst : Except String ActionStore :=
  match (s.nextTurnBoundary.find? s.isQueued).or
    (s.whenRunIdle.find? s.isQueued) with
  | some action => s.transition action .selected none
  | none => .ok s

/-- Each is cancelled; the first that cannot be ends it. -/
def cancelAll : ActionStore → List Ref → ActionStore × Option String
  | s, [] => (s, none)
  | s, action :: rest =>
    match s.transition action .cancelled none with
    | .ok s => cancelAll s rest
    | .error message => (s, some message)

/-- `candidates` are the clearable actions where none are given. -/
def remove (predicate : Ref → SessionAction → Bool)
    (candidates : Option (List Ref)) : ActionStore × Option String :=
  cancelAll s
    ((candidates.getD s.clearableActions).filter fun action =>
      predicate action (s.actions action))

def rollback (action : Ref) (proof : Option RollbackProof) :
    Except String ActionStore :=
  s.transition action .queued proof

def swapQueued (left right : Ref) : Except String ActionStore :=
  if (s.actions left).state ≠ .queued ∨ (s.actions right).state ≠ .queued
      ∨ (s.actions left).delivery ≠ (s.actions right).delivery then
    .error "Only queued actions in the same lane can be swapped"
  else
    let lane := s.list (s.actions left).delivery
    if left ∉ lane ∨ right ∉ lane then
      .error "Queued action is not owned by this store"
    else
      .ok (s.setList
        ((lane.set (lane.idxOf left) right).set (lane.idxOf right) left)
        (s.actions left).delivery)

/-- The queued action at an index, which is a number of any kind. -/
def queuedAt (queued : List Ref) (index : Option Rat) : Option Ref :=
  match index with
  | none => none
  | some index =>
    let index : Rat :=
      if index < 0 then 0
      else if (queued.length : Rat) < index then (queued.length : Rat)
      else index
    if index.den = 1 then queued[index.num.toNat]? else none

def moveQueued (action : Ref) (delivery : DeliveryPolicy)
    (index : Option Rat) : Except String ActionStore :=
  let value := s.actions action
  if value.state ≠ .queued then .error "Only queued actions can be moved"
  else if action ∉ s.list value.delivery then
    .error ("Session action " ++ value.id ++ " is not owned by this store")
  else
    let s := s.setList ((s.list value.delivery).erase action) value.delivery
    let s := s.setAction action { value with delivery := delivery }
    let target := s.list delivery
    let index :=
      match queuedAt (target.filter s.isQueued) index with
      | some before => target.idxOf before
      | none => target.length
    .ok (s.setList (target.take index ++ action :: target.drop index) delivery)

def releaseTerminal (action : Ref) : Except String ActionStore :=
  let value := s.actions action
  if ¬ terminal value.state then
    .error ("Cannot release nonterminal session action " ++ value.id)
  else
    .ok { s.setList ((s.list value.delivery).erase action) value.delivery with
      tickets := s.tickets.delete value.id }

end ActionStore

-- ======== the runs

inductive Op where
  | enqueue (action : Ref) (placement : SessionActionPlacement)
  | selectFirst
  | remove (predicate : Ref → SessionAction → Bool)
      (candidates : Option (List Ref))
  | rollback (action : Ref) (proof : Option RollbackProof)
  | swapQueued (left right : Ref)
  | moveQueued (action : Ref) (delivery : DeliveryPolicy) (index : Option Rat)
  | releaseTerminal (action : Ref)
  | transition (action : Ref) (next : ActionLifecycle)
      (rollbackProof : Option RollbackProof)

/-- A run: the store, and what was enqueued so far, in order. -/
structure World where
  store : ActionStore
  enqueued : List Ref

def World.initial (actions : Ref → SessionAction) : World :=
  ⟨.initial actions, []⟩

/-- What throws leaves the store. -/
def orElse (s : ActionStore) : Except String ActionStore → ActionStore
  | .ok s' => s'
  | .error _ => s

def step (w : World) : Op → World
  | .enqueue action placement =>
    match w.store.enqueue action placement with
    | .ok store => ⟨store, w.enqueued ++ [action]⟩
    | .error _ => w
  | .selectFirst => { w with store := orElse w.store w.store.selectFirst }
  | .remove predicate candidates =>
    { w with store := (w.store.remove predicate candidates).1 }
  | .rollback action proof =>
    { w with store := orElse w.store (w.store.rollback action proof) }
  | .swapQueued left right =>
    { w with store := orElse w.store (w.store.swapQueued left right) }
  | .moveQueued action delivery index =>
    { w with
      store := orElse w.store (w.store.moveQueued action delivery index) }
  | .releaseTerminal action =>
    { w with store := orElse w.store (w.store.releaseTerminal action) }
  | .transition action next rollbackProof =>
    { w with
      store := orElse w.store (w.store.transition action next rollbackProof) }

-- ======== the purpose

/-- No action is lost or twice there, and each has its ticket. -/
structure Kept (s : ActionStore) : Prop where
  once : s.ownedActions.Nodup
  delivery : ∀ policy, ∀ action ∈ s.list policy,
    (s.actions action).delivery = policy
  distinct : ∀ action ∈ s.ownedActions, ∀ action' ∈ s.ownedActions,
    (s.actions action).id = (s.actions action').id → action = action'
  tickets : ∀ id, id ∈ s.tickets.keys ↔
    ∃ action ∈ s.ownedActions, (s.actions action).id = id

/-- Moves and swaps permute. -/
def Permutes (s s' : ActionStore) : Op → Prop
  | .swapQueued _ _ => ∀ policy, (s'.list policy).Perm (s.list policy)
  | .moveQueued action delivery _ =>
    s'.ownedActions.Perm s.ownedActions
      ∧ ((s.actions action).delivery = delivery →
        ∀ policy, (s'.list policy).Perm (s.list policy))
  | _ => True

/-- The queued actions of each lane by priority and then as enqueued. -/
def Ordered (w : World) : Prop :=
  ∀ policy, (w.store.queuedActions policy).Pairwise fun a b =>
    (w.store.actions b).rank < (w.store.actions a).rank
      ∨ (w.store.actions a).rank = (w.store.actions b).rank
        ∧ w.enqueued.idxOf a < w.enqueued.idxOf b

/-- All enqueues by priority, and no move, swap or rollback. -/
def ByPriority : Op → Prop
  | .enqueue _ placement => placement = .priority
  | .rollback _ _ => False
  | .swapQueued _ _ => False
  | .moveQueued _ _ _ => False
  | .transition _ next _ => next.state ≠ .queued
  | _ => True

-- ======== the condition

/-- An action that is released is owned, or no owned one has its id. -/
def ReleasesOwned (w : World) : Op → Prop
  | .releaseTerminal action =>
    terminal (w.store.actions action).state →
      action ∈ w.store.ownedActions
        ∨ ∀ action' ∈ w.store.ownedActions,
          (w.store.actions action').id ≠ (w.store.actions action).id
  | _ => True

/-- An action that is enqueued finds no queued action of lower priority before
one that is not queued any more. -/
def FindsSuffix (w : World) : Op → Prop
  | .enqueue action _ =>
    let value := w.store.actions action
    value.state = .queued → ¬ w.store.tickets.has value.id →
      ∀ behind item ahead, w.store.list value.delivery = behind ++ item :: ahead →
        ¬ w.store.isQueued item → ∀ queued ∈ behind, w.store.isQueued queued →
          value.rank ≤ (w.store.actions queued).rank
  | _ => True

end OneHarness.Session.Actions
