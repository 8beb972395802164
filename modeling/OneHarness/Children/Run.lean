/-
One child run: its task, its cancellation, its deletion, and what its
parent is told.

# Who acts on a run

The task that was started with the run (`Task` says where it waits), the
chains of promises of a deletion, the disposal of the parent, and whoever
cancels, deletes, aborts or disposes. Each `RunEvent` is what one of them
does from one suspension point to the next; a suspension point that is
not reached or not over yet leaves the world as it is.

# Promises

A promise that somebody may wait for is an entry of a list, and its index
stands for it: the notices under way (`deferrals`), the cleanups of a
deletion with their observers (`attempts`), and the calls of
`_finishRlmRunDeletion` (`finishes`).

# Other runs

All runs of a parent share its flags and nothing else, so that one run
among events that set the flags at any time is every run.
-/

namespace OneHarness.Children

-- ======== notices

/-- What `deliverTerminalMessageToParent` is called with. -/
inductive Notice where
  /-- `kind: "completed_without_reply"`. -/
  | completedWithoutReply
  /-- `createRlmChildFailureMessage`. -/
  | failed (error : String)
  /-- `kind: "cancelled"`. -/
  | cancelled (reason : Option String)
  /-- `createRlmChildFailureMessage`, asking for a retry of the deletion. -/
  | cleanupFailed (error : String)
deriving DecidableEq

inductive NoticeType where
  | rlmChildTerminalNotice | rlmChildFailure
deriving DecidableEq

def Notice.customType : Notice → NoticeType
  | completedWithoutReply | cancelled _ => .rlmChildTerminalNotice
  | failed _ | cleanupFailed _ => .rlmChildFailure

/-- `_isRlmTerminalNotice`. -/
def isRlmTerminalNotice (notice : Notice) : Bool :=
  notice.customType = .rlmChildTerminalNotice
    ∨ notice.customType = .rlmChildFailure

inductive DeferralState where
  | waiting | dropped | received
deriving DecidableEq

/-- A call of `_deferRlmTerminalNotice`. -/
structure Deferral where
  notice : Notice
  state : DeferralState
deriving DecidableEq

-- ======== the run

inductive RlmChildAgentStatus where
  | queued | running | done | error | cancelled
deriving DecidableEq

structure RlmChildRun where
  status : RlmChildAgentStatus
  error : Option String
  settled : Bool
  suppressTerminalNotice : Bool
  /-- `session` is set. -/
  session : Bool
  detachedDeletion : Bool
  deletionCleanup : Option Nat
  deletionCleanupObserver : Option Nat
  deletionCleanupFailed : Bool
  deletionRunFinished : Bool
  deletionNeedsCompletionNotice : Bool
  deletionNotice : Option Nat
  deletionFailureNotice : Option Nat

inductive Cleanup where
  | pending | succeeded
  | failed (error : String)

/-- Where the observer of a cleanup is. -/
inductive Observer where
  | unobserved
  /-- For the cleanup. -/
  | waiting
  /-- For `session.disposeAsync`, the parent being disposed of. -/
  | disposing
  /-- For this call of `_finishRlmRunDeletion`. -/
  | finishing (call : Nat)
  /-- For a turn of the queue, before the report. -/
  | recorded (error : String)
  /-- For the report. -/
  | reporting (notice : Option Nat)
  | resolved (cleanupSucceeded : Bool)

structure CleanupAttempt where
  cleanup : Cleanup
  observer : Observer
  /-- Chains of `_continueFinishedRlmRunDeletion` that wait for it. -/
  continuations : Nat

/-- A call of `_finishRlmRunDeletion`. -/
structure Finish where
  notice : Option Nat
  settled : Bool

/-- Where the task of the run waits. -/
inductive Task where
  /-- `_createRlmSubagentRuntime`. -/
  | creating
  /-- `_currentActiveSessionId`. -/
  | preparing
  /-- `child.promptAndWait`. -/
  | prompting
  /-- `_waitWhileRlmChildLive`. -/
  | live
  /-- `child.waitForRlmQuiescence`. -/
  | quiescing
  /-- The notice of completion. -/
  | announcing (notice : Nat)
  /-- The release of a child that is not retained. -/
  | releasing
  /-- The notice of failure or cancellation. -/
  | failing (notice : Nat)
  /-- The release or deletion of the child after a failure. -/
  | cleaningUp (releases : Bool)
  /-- `childSession.disposeAsync`, the release having failed. -/
  | disposingChild
  | observing (attempt : Nat)
  | finishing (call : Nat)
  | ended
deriving DecidableEq

/-- Where `_disposeAsyncOnce` waits on behalf of the run. -/
inductive Disposer where
  | idle
  | observing (attempt : Nat)
  | cleaningUp (attempt : Nat)
  /-- `childSession.disposeAsync`, for a deletion or without one. -/
  | disposingChild (deletes : Bool)
  | finishing (call : Nat)
deriving DecidableEq

/-- Which methods the host has; `none` is a session without a host. -/
structure SubagentRuntimeHost where
  releaseRlmSubagentRuntime : Bool

structure World where
  host : Option SubagentRuntimeHost
  disposed : Bool
  disposing : Bool
  sessionInputPumpSuspended : Bool
  /-- The run is the one under its id in `_activeRlmChildRuns`. -/
  active : Bool
  /-- It is in `_unsettledRlmChildRuns`. -/
  unsettled : Bool
  /-- Its id is in `_rlmChildSessions`. -/
  retained : Bool
  /-- `_deletingRlmChildren`. -/
  deleting : Bool
  /-- `_deletedRlmChildIds`. -/
  deleted : Bool
  /-- `_rlmChildCleanupFailures`. -/
  cleanupFailure : Bool
  run : RlmChildRun
  deferrals : List Deferral
  attempts : List CleanupAttempt
  finishes : List Finish
  task : Task
  disposer : Disposer
  /-- The variables of the task. -/
  childRuntime : Bool
  childSession : Bool

namespace World

-- ======== deferrals

/-- `deliverTerminalMessageToParent`, up to its first suspension. -/
def deliver (w : World) (notice : Notice) : World × Nat :=
  ({ w with deferrals := w.deferrals ++ [⟨notice, .waiting⟩] },
    w.deferrals.length)

/-- The fence was acquired, or not. -/
def deferralSettles (w : World) (i : Nat) (fence : Bool) : World :=
  match w.deferrals[i]? with
  | some ⟨notice, .waiting⟩ =>
    if fence && !w.disposed && !w.disposing then
      { w with deferrals := w.deferrals.set i ⟨notice, .received⟩ }
    else { w with deferrals := w.deferrals.set i ⟨notice, .dropped⟩ }
  | _ => w

/-- A promise of a notice that is settled. -/
def deferralSettled (w : World) (notice : Option Nat) : Bool :=
  match notice with
  | none => true
  | some i =>
    match w.deferrals[i]? with
    | some deferral => deferral.state ≠ .waiting
    | none => false

/-- `run.completeDeletion`; `none` is `Promise.resolve()`. -/
def completeDeletion (w : World) : World × Option Nat :=
  if !w.run.deletionNeedsCompletionNotice || w.run.suppressTerminalNotice
      || w.disposed || w.disposing then (w, none)
  else
    match w.run.deletionNotice with
    | some notice => (w, some notice)
    | none =>
      let (w, notice) := w.deliver (.cancelled
        (some (w.run.error.getD "Deleted by parent orchestrator")))
      ({ w with run := { w.run with deletionNotice := some notice } },
        some notice)

/-- `run.reportDeletionCleanupFailure`. -/
def reportDeletionCleanupFailure (w : World) (error : String) :
    World × Option Nat :=
  if w.run.suppressTerminalNotice || w.disposed || w.disposing then (w, none)
  else
    match w.run.deletionFailureNotice with
    | some notice => (w, some notice)
    | none =>
      let (w, notice) := w.deliver (.cleanupFailed error)
      ({ w with run := { w.run with deletionFailureNotice := some notice } },
        some notice)

-- ======== cancellation

/-- `_abandonRlmRunForQuiescence`. -/
def abandonRlmRunForQuiescence (w : World) : World :=
  { w with
    unsettled := false
    run := { w.run with suppressTerminalNotice := true } }

/-- `_cancelRlmChildRun`, and whether it cancelled. -/
def cancelRlmChildRun (w : World) (reason : String) : World × Bool :=
  if w.run.status ≠ .running ∧ w.run.status ≠ .queued then (w, false)
  else
    let w := { w with run := { w.run with status := .cancelled } }
    let w :=
      if w.sessionInputPumpSuspended then w.abandonRlmRunForQuiescence else w
    ({ w with run := { w.run with error := some reason } }, true)

/-- `_cancelActiveRlmChildRuns`. -/
def cancelActiveRlmChildRuns (w : World) (reason : String) : World :=
  if w.active then (w.cancelRlmChildRun reason).1 else w

/-- The reason that `_waitWhileRlmChildLive` gives. -/
def stalledReason (seconds : Nat) : String :=
  "RLM child stalled for " ++ toString (max 1 seconds)
    ++ "s with no activity"

/-- The public `cancelRlmChildRun`, whose callers leave the reason out. -/
def cancelByUser (w : World) : World :=
  if !w.active then w
  else if w.run.status ≠ .running ∧ w.run.status ≠ .queued
      ∧ w.run.settled = false then
    if w.sessionInputPumpSuspended then w.abandonRlmRunForQuiescence
    else { w with run := { w.run with suppressTerminalNotice := true } }
  else (w.cancelRlmChildRun "Cancelled by user").1

-- ======== deletion

/-- `_removeRlmSubagentTracking(childId, run)`. -/
def removeRlmSubagentTracking (w : World) : World :=
  { w with
    retained := false
    cleanupFailure := false
    active := false
    run := { w.run with session := false } }

/-- `_removeRlmSubagentTracking(childId)`. -/
def removeRlmChildTracking (w : World) : World :=
  { w with retained := false, cleanupFailure := false, active := false }

/-- `_ensureRlmRunDeletionCleanup`. -/
def ensureRlmRunDeletionCleanup (w : World) : World × Nat :=
  match w.run.deletionCleanup with
  | some attempt => (w, attempt)
  | none =>
    ({ w with
        attempts := w.attempts ++ [⟨.pending, .unobserved, 0⟩]
        run := { w.run with deletionCleanup := some w.attempts.length } },
      w.attempts.length)

/-- `_observeRlmRunDeletionCleanup`. -/
def observeRlmRunDeletionCleanup (w : World) (attempt : Nat) : World × Nat :=
  match w.run.deletionCleanupObserver with
  | some observer => (w, observer)
  | none =>
    ({ w with
        attempts :=
          w.attempts.modify attempt ({ · with observer := .waiting })
        run := { w.run with deletionCleanupObserver := some attempt } },
      attempt)

/-- `_finishRlmRunDeletion`, up to its first suspension. -/
def finishRlmRunDeletion (w : World) : World × Nat :=
  let (w, notice) := w.completeDeletion
  ({ w with finishes := w.finishes ++ [⟨notice, false⟩] }, w.finishes.length)

/-- The rest of it. -/
def finishSettles (w : World) (call : Nat) : World :=
  match w.finishes[call]? with
  | some ⟨notice, false⟩ =>
    if w.deferralSettled notice then
      let w := if w.active then w.removeRlmSubagentTracking else w
      { w with
        finishes := w.finishes.set call ⟨notice, true⟩
        unsettled := false
        run := { w.run with settled := true } }
    else w
  | _ => w

def finishSettled (w : World) (call : Nat) : Bool :=
  match w.finishes[call]? with
  | some finish => finish.settled
  | none => false

/-- `_continueFinishedRlmRunDeletion`. -/
def continueFinishedRlmRunDeletion (w : World) : World :=
  let (w, cleanup) := w.ensureRlmRunDeletionCleanup
  let (w, observer) := w.observeRlmRunDeletionCleanup cleanup
  if !w.run.deletionRunFinished then w
  else
    { w with attempts := w.attempts.modify observer fun a =>
        { a with continuations := a.continuations + 1 } }

/-- The chain that it leaves behind. -/
def continuationResumes (w : World) (attempt : Nat) : World :=
  match w.attempts[attempt]? with
  | some ⟨cleanup, .resolved cleanupSucceeded, continuations + 1⟩ =>
    let w :=
      { w with
        attempts := w.attempts.set attempt
          ⟨cleanup, .resolved cleanupSucceeded, continuations⟩ }
    if cleanupSucceeded then w.finishRlmRunDeletion.1 else w
  | _ => w

def cleanupSettles (w : World) (attempt : Nat)
    (result : Except String Unit) : World :=
  match w.attempts[attempt]? with
  | some ⟨.pending, observer, continuations⟩ =>
    let cleanup :=
      match result with
      | .ok _ => Cleanup.succeeded
      | .error e => Cleanup.failed e
    { w with
      attempts := w.attempts.set attempt ⟨cleanup, observer, continuations⟩ }
  | _ => w

def setObserver (w : World) (attempt : Nat) (observer : Observer) : World :=
  { w with attempts := w.attempts.modify attempt ({ · with observer }) }

/-- `_recordRlmRunDeletionCleanupFailure`, up to its first suspension. -/
def recordRlmRunDeletionCleanupFailure (w : World) (attempt : Nat)
    (error : String) : World :=
  if w.disposed || w.disposing then
    { w with run := { w.run with suppressTerminalNotice := true } }.setObserver
      attempt .disposing
  else
    { w with
      cleanupFailure := true
      run :=
        { w.run with
          deletionCleanup := none
          deletionCleanupObserver := none
          deletionCleanupFailed := true
          session := true } }.setObserver attempt (.recorded error)

/-- The observer goes on from where it waits. -/
def observerResumes (w : World) (attempt : Nat) : World :=
  match w.attempts[attempt]? with
  | none => w
  | some a =>
    match a.observer with
    | .unobserved => w
    | .waiting =>
      match a.cleanup with
      | .pending => w
      | .succeeded => w.setObserver attempt (.resolved true)
      | .failed error => w.recordRlmRunDeletionCleanupFailure attempt error
    | .disposing =>
      if w.run.settled then w.setObserver attempt (.resolved false)
      else
        let (w, call) := w.finishRlmRunDeletion
        w.setObserver attempt (.finishing call)
    | .finishing call =>
      if w.finishSettled call then w.setObserver attempt (.resolved false)
      else w
    | .recorded error =>
      let (w, notice) := w.reportDeletionCleanupFailure error
      w.setObserver attempt (.reporting notice)
    | .reporting notice =>
      if w.deferralSettled notice then
        w.setObserver attempt (.resolved false)
      else w
    | .resolved _ => w

def observerResolved (w : World) (attempt : Nat) : Option Bool :=
  match w.attempts[attempt]? with
  | some ⟨_, .resolved cleanupSucceeded, _⟩ => some cleanupSucceeded
  | _ => none

/-- A deletion begins, or begins again after a failed cleanup: the run is
marked as deleted. -/
def markDeletion (w : World) : World :=
  let w :=
    if w.run.deletionCleanupFailed then
      { w with run :=
          { w.run with
            deletionCleanupFailed := false
            deletionFailureNotice := none } }
    else w
  { w with run := { w.run with detachedDeletion := true } }

/-- If the deletion is what cancels the run, it owes a notice. -/
def cancelForDeletion (w : World) : World :=
  let (w, cancelled) := w.cancelRlmChildRun "Deleted by parent orchestrator"
  if cancelled then
    { w with run := { w.run with deletionNeedsCompletionNotice := true } }
  else w

/-- A settled run with a session is unsettled again. -/
def unsettleForDeletion (w : World) : World :=
  if w.run.session && w.run.settled then
    { w with
      unsettled := true
      run := { w.run with deletionRunFinished := true, settled := false } }
  else w

/-- `_deleteResolvedRlmSubagent`, for a run that is active. -/
def deleteResolvedRlmSubagent (w : World) : World :=
  let w := w.markDeletion.cancelForDeletion
  if w.run.status = .error ∧ w.run.session = false ∧ w.run.settled = true then
    { w with deleted := true }.removeRlmSubagentTracking
  else
    let liveSession := w.run.session
    let w := w.unsettleForDeletion
    let w := if liveSession then w.continueFinishedRlmRunDeletion else w
    { w with deleted := true }

/-- `_deleteResolvedRlmSubagent`, for a child that is only retained, once
the host has deleted it or failed to. -/
def deleteRetained (w : World) (deleted : Bool) : World :=
  if deleted then { w with deleted := true }.removeRlmChildTracking
  else if w.disposed || w.disposing then w.removeRlmChildTracking
  else { w with cleanupFailure := true }

-- ======== the task

/-- `publishChildSession`. -/
def publishChildSession (w : World) : World :=
  let w := { w with childSession := true }
  if w.active then { w with run := { w.run with session := true } } else w

/-- `registerRlmChildSession`, with the answer of the host's
`completeRlmSubagentRuntime`, if it has one. -/
def registerRlmChildSession (w : World)
    (completion : Option (Except String Bool)) : Except String Bool × World :=
  if w.deleting || w.deleted then (.ok false, w)
  else
    match completion with
    | some (.error e) => (.error e, w)
    | some (.ok false) => (.ok false, w)
    | _ =>
      if w.disposed || w.disposing then (.ok false, w)
      else (.ok true, { w with retained := true })

/-- The `finally` of the task. -/
def settle (w : World) : World :=
  if w.run.detachedDeletion then
    let w := { w with run := { w.run with deletionRunFinished := true } }
    if w.run.settled || w.run.deletionCleanupFailed then
      { w with task := .ended }
    else if w.childRuntime then
      let (w, cleanup) := w.ensureRlmRunDeletionCleanup
      let (w, observer) := w.observeRlmRunDeletionCleanup cleanup
      { w with task := .observing observer }
    else
      let (w, call) := w.finishRlmRunDeletion
      { w with task := .finishing call }
  else
    let w :=
      if w.active then
        if w.retained then
          { w with active := false, run := { w.run with session := false } }
        else if w.run.status ≠ .error then w.removeRlmSubagentTracking
        else w
      else w
    { w with
      unsettled := false
      task := .ended
      run := { w.run with settled := true } }

/-- The end of the `try` that cleans up after a failure. -/
def cleanedUp (w : World) : World :=
  if w.run.status = .cancelled ∧ w.disposed = false ∧ w.disposing = false then
    { w with deleted := true }.removeRlmChildTracking
  else w

/-- The `catch` of the task, after its notice. -/
def cleanUp (w : World) : World :=
  let releases := w.host.any (·.releaseRlmSubagentRuntime)
  if w.run.detachedDeletion then w.settle
  else if w.childSession && releases then { w with task := .cleaningUp true }
  else if w.childRuntime && w.host.isSome || w.childSession then
    { w with task := .cleaningUp false }
  else w.cleanedUp.settle

/-- The `catch` of the task. -/
def fail (w : World) (error : String) : World :=
  let w :=
    if w.run.status ≠ .cancelled then
      { w with run := { w.run with status := .error, error := some error } }
    else w
  if w.run.detachedDeletion || w.run.suppressTerminalNotice then w.cleanUp
  else if w.run.status = .error then
    let (w, notice) :=
      w.deliver (.failed (w.run.error.getD "unknown error"))
    { w with task := .failing notice }
  else
    let (w, notice) := w.deliver (.cancelled w.run.error)
    { w with task := .failing notice }

/-- `throwIfCancelled`, and what follows if it does not throw. -/
def unlessCancelled (w : World) (next : World → World) : World :=
  if w.run.status = .cancelled then
    w.fail (w.run.error.getD "RLM child cancelled")
  else next w

/-- The runtime was created, and the child named or not. -/
def runtimeCreated (w : World) (naming : Except String Unit) : World :=
  let w := { w with childRuntime := true }
  w.unlessCancelled fun w =>
    match naming with
    | .error e => w.fail e
    | .ok _ =>
      let w := w.publishChildSession
      w.unlessCancelled fun w =>
        { w with
          task := .preparing
          run := { w.run with status := .running } }

/-- What follows the notice of completion. -/
def completed (w : World) (completion : Option (Except String Bool)) :
    World :=
  match w.registerRlmChildSession completion with
  | (.error e, w) => w.fail e
  | (.ok true, w) => w.settle
  | (.ok false, w) =>
    if w.run.detachedDeletion then w.settle
    else { w with task := .releasing }

/-- The child is quiescent; `replied` says whether it replied to its
parent itself. -/
def quiescent (w : World) (replied : Bool)
    (completion : Option (Except String Bool)) : World :=
  if w.run.error.getD "" ≠ "" then w.fail (w.run.error.getD "")
  else
    let w := { w with run := { w.run with status := .done } }
    if !w.run.detachedDeletion && !w.run.suppressTerminalNotice && !replied then
      let (w, notice) := w.deliver .completedWithoutReply
      { w with task := .announcing notice }
    else w.completed completion

-- ======== the parent

/-- `requestAbort`. -/
def requestAbort (w : World) : World :=
  let w :=
    if w.unsettled ∧ w.run.status = .cancelled then
      w.abandonRlmRunForQuiescence
    else w
  { w with sessionInputPumpSuspended := true }

/-- `dispose`. -/
def dispose (w : World) : World :=
  if w.disposed then w
  else
    let w := { w with disposed := true }
    let w :=
      if w.unsettled then
        { w with run := { w.run with suppressTerminalNotice := true } }
      else w
    let w := w.cancelActiveRlmChildRuns "Parent session disposed"
    { w with retained := false, cleanupFailure := false, deleted := false }

/-- The turn of the run in `_disposeAsyncOnce`. -/
def disposeRun (w : World) : World :=
  if w.active && w.run.session then
    if w.run.detachedDeletion then
      let w := { w with run := { w.run with suppressTerminalNotice := true } }
      match w.run.deletionCleanupObserver, w.run.deletionCleanup with
      | some attempt, _ => { w with disposer := .observing attempt }
      | none, some attempt => { w with disposer := .cleaningUp attempt }
      | none, none => { w with disposer := .disposingChild true }
    else { w with disposer := .disposingChild false }
  else w

/-- The disposal waited for a deletion. -/
def disposalWaited (w : World) : World :=
  if w.run.settled then { w with disposer := .idle }
  else
    let (w, call) := w.finishRlmRunDeletion
    { w with disposer := .finishing call }

def disposerResumes (w : World) : World :=
  match w.disposer with
  | .idle => w
  | .observing attempt =>
    if (w.observerResolved attempt).isSome then w.disposalWaited else w
  | .cleaningUp attempt =>
    match w.attempts[attempt]?.map CleanupAttempt.cleanup with
    | some .succeeded => w.disposalWaited
    | some (.failed _) => { w with disposer := .disposingChild true }
    | _ => w
  | .disposingChild true => w.disposalWaited
  | .disposingChild false => { w with disposer := .idle }
  | .finishing call =>
    if w.finishSettled call then { w with disposer := .idle } else w

/-- The rest of `_disposeAsyncOnce`. -/
def disposeRetained (w : World) : World :=
  { w with retained := false, cleanupFailure := false, deleted := false }

-- ======== events

end World

inductive RunEvent where
  -- the task
  | sessionPublished
  | runtimeCreated (naming : Except String Unit)
  | runtimeFailed (error : String)
  | spawnMessageReady
  | promptSettled (result : Except String Unit)
  | noLongerLive
  | stalled (seconds : Nat)
  | quiesced (result : Except String Unit) (replied : Bool)
      (completion : Option (Except String Bool))
  | announced (completion : Option (Except String Bool))
  | released
  | failureAnnounced
  | cleanedUp (succeeded : Bool)
  | childDisposed
  | taskObserved
  | taskFinished
  -- promises
  | deferralSettles (i : Nat) (fence : Bool)
  | cleanupSettles (attempt : Nat) (result : Except String Unit)
  | observerResumes (attempt : Nat)
  | continuationResumes (attempt : Nat)
  | finishSettles (call : Nat)
  -- cancellation and deletion
  | cancel
  | reserveDeletion
  | clearReservation
  | delete
  | deleteRetained (deleted : Bool)
  -- the parent
  | requestAbort
  | abort
  | abortForUpdateRestart
  | resume
  | startDisposal
  | disposeRun
  | disposerResumes
  | disposeRetained
  | dispose
  /-- `releaseRlmChildSession`. -/
  | releaseChildSession

namespace World

/-- The world just after the spawn. -/
def spawned (host : Option SubagentRuntimeHost)
    (disposed disposing suspended : Bool) : World where
  host := host
  disposed := disposed
  disposing := disposing
  sessionInputPumpSuspended := suspended
  active := true
  unsettled := true
  retained := false
  deleting := false
  deleted := false
  cleanupFailure := false
  run :=
    { status := .queued
      error := none
      settled := false
      suppressTerminalNotice := false
      session := false
      detachedDeletion := false
      deletionCleanup := none
      deletionCleanupObserver := none
      deletionCleanupFailed := false
      deletionRunFinished := false
      deletionNeedsCompletionNotice := false
      deletionNotice := none
      deletionFailureNotice := none }
  deferrals := []
  attempts := []
  finishes := []
  task := .creating
  disposer := .idle
  childRuntime := false
  childSession := false

/-- The task goes on from where it waits. -/
def taskStep (w : World) (event : RunEvent) : World :=
  match w.task, event with
  | .creating, .sessionPublished => w.publishChildSession
  | .creating, .runtimeCreated naming => w.runtimeCreated naming
  | .creating, .runtimeFailed e => w.fail e
  | .preparing, .spawnMessageReady =>
    w.unlessCancelled ({ · with task := .prompting })
  | .prompting, .promptSettled (.error e) => w.fail e
  | .prompting, .promptSettled (.ok _) => { w with task := .live }
  | .live, .stalled seconds =>
    (w.cancelRlmChildRun (stalledReason seconds)).1
  | .live, .noLongerLive =>
    w.unlessCancelled ({ · with task := .quiescing })
  | .quiescing, .quiesced (.error e) _ _ => w.fail e
  | .quiescing, .quiesced (.ok _) replied completion =>
    w.quiescent replied completion
  | .announcing notice, .announced completion =>
    if w.deferralSettled (some notice) then w.completed completion else w
  | .releasing, .released => w.settle
  | .failing notice, .failureAnnounced =>
    if w.deferralSettled (some notice) then w.cleanUp else w
  | .cleaningUp _, .cleanedUp true => w.cleanedUp.settle
  | .cleaningUp releases, .cleanedUp false =>
    if releases then { w with task := .disposingChild } else w.settle
  | .disposingChild, .childDisposed => w.settle
  | .observing attempt, .taskObserved =>
    match w.observerResolved attempt with
    | none => w
    | some true =>
      let (w, call) := w.finishRlmRunDeletion
      { w with task := .finishing call }
    | some false => { w with task := .ended }
  | .finishing call, .taskFinished =>
    if w.finishSettled call then { w with task := .ended } else w
  | _, _ => w

def step (w : World) (event : RunEvent) : World :=
  match event with
  | .deferralSettles i fence => w.deferralSettles i fence
  | .cleanupSettles attempt result => w.cleanupSettles attempt result
  | .observerResumes attempt => w.observerResumes attempt
  | .continuationResumes attempt => w.continuationResumes attempt
  | .finishSettles call => w.finishSettles call
  | .cancel => w.cancelByUser
  | .reserveDeletion => { w with deleting := true }
  | .clearReservation => { w with deleting := false }
  | .delete => if w.active then w.deleteResolvedRlmSubagent else w
  | .deleteRetained deleted => if w.active then w else w.deleteRetained deleted
  | .requestAbort => w.requestAbort
  | .abort =>
    w.requestAbort.cancelActiveRlmChildRuns "Parent session aborted"
  | .abortForUpdateRestart =>
    { w with sessionInputPumpSuspended := true }.cancelActiveRlmChildRuns
      "Parent session aborted for update restart"
  | .resume => { w with sessionInputPumpSuspended := false }
  | .startDisposal => { w with disposing := true }
  | .disposeRun => if w.disposing then w.disposeRun else w
  | .disposerResumes => w.disposerResumes
  | .disposeRetained => if w.disposing then w.disposeRetained else w
  | .dispose => w.dispose
  | .releaseChildSession =>
    if w.active && w.run.session && w.run.status = .done then
      { w with active := false }
    else { w with retained := false }
  | event => w.taskStep event

def runEvents (w : World) (events : List RunEvent) : World :=
  events.foldl step w

/-- What the parent has received. -/
def received (w : World) : List Notice :=
  (w.deferrals.filter (·.state = .received)).map Deferral.notice

end World

end OneHarness.Children
