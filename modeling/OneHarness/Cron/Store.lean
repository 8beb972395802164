/-
The store of the scheduled jobs: one file, or one artifact for each session
that is registered, and the operations on heartbeats.

An operation that edits jobs reads those of all files and hands `writeJobs`
the whole new list (`Edit`). There each job goes to the file of its session,
and a job of the file that is newer than the one handed in stays.

# Registration

A session's artifact has a file of its own, which is not there yet when the
session is registered.
-/
import OneHarness.Cron.Edits
import OneHarness.Lib.FreshMerge

namespace OneHarness.Cron

open Lib LocalTime Session

inductive StoreError where
  | job (error : JobError)
  | schedule (error : CronError)
  | unregistered (jobId : String)
deriving DecidableEq

def StoreError.message : StoreError → String
  | .job error => error.message
  | .schedule error => error.message
  | .unregistered jobId =>
    "Cron job " ++ jobId ++ " targets an unregistered session artifact"

inductive Store where
  | jobsFile (state : CronJobsState)
  | sessionArtifacts (files : JsMap String CronJobsState)
deriving DecidableEq

namespace Store

/-- A new store, over a file that is missing or without sessions. -/
def empty (sessionArtifactMode : Bool) : Store :=
  if sessionArtifactMode then .sessionArtifacts [] else .jobsFile ⟨[], []⟩

def registerSessionArtifact (sessionId : String) : Store → Store
  | .jobsFile state => .jobsFile state
  | .sessionArtifacts files =>
    if files.has sessionId then .sessionArtifacts files
    else .sessionArtifacts (files.set sessionId ⟨[], []⟩)

def readStates : Store → List CronJobsState
  | .jobsFile state => [state]
  | .sessionArtifacts files => files.values

def readJobs (store : Store) : List AgentCronJob :=
  store.readStates.flatMap (·.jobs)

/-- The store with these states in its files. -/
def withStates (store : Store) (states : List CronJobsState) : Store :=
  match store with
  | .jobsFile state => .jobsFile (states.headD state)
  | .sessionArtifacts files => .sessionArtifacts (files.keys.zip states)

-- ======== writing

end Store

/-- What is newer stays. -/
def mergeFreshJobs (currentJobs nextJobs : List AgentCronJob) :
    List AgentCronJob :=
  FreshMerge.merge AgentCronJob.id (·.updatedAt.1) currentJobs nextJobs

section
variable (files : JsMap String CronJobsState) (jobs : List AgentCronJob)

def incomingById : JsMap String AgentCronJob :=
  jobs.foldl (fun incoming job => incoming.set job.id job) []

/-- The jobs of an artifact that do not go to another one. -/
def retained (sessionId : String) (current : CronJobsState) :
    List AgentCronJob :=
  current.jobs.filter fun job =>
    ((incomingById jobs).get job.id).all fun incoming =>
      incoming.sessionId = sessionId

def mergedJobs (sessionId : String) (current : CronJobsState) :
    List AgentCronJob :=
  mergeFreshJobs (retained jobs sessionId current)
    (jobs.filter (·.sessionId = sessionId))

def sessionIdByJobId : JsMap String String :=
  files.foldl (fun ids (sessionId, current) =>
    (mergedJobs jobs sessionId current).foldl
      (fun ids job => ids.set job.id sessionId) ids) []

def mergedFiles : JsMap String CronJobsState :=
  let dispatches := files.values.flatMap (·.dispatches)
  files.map fun (sessionId, current) =>
    (sessionId,
      { jobs := mergedJobs jobs sessionId current
        dispatches := dispatches.filter fun dispatch =>
          (sessionIdByJobId files jobs).get dispatch.jobId = some sessionId })

end

def Store.writeJobs (store : Store) (jobs : List AgentCronJob) :
    Except StoreError Store :=
  match store with
  | .sessionArtifacts files =>
    match jobs.find? fun job => !files.has job.sessionId with
    | some unregistered => .error (.unregistered unregistered.id)
    | none => .ok (.sessionArtifacts (mergedFiles files jobs))
  | .jobsFile current =>
    .ok (.jobsFile
      { current with jobs := mergeFreshJobs current.jobs jobs })

-- ======== crashes

section
variable (files : JsMap String CronJobsState) (jobs : List AgentCronJob)

/-- The files `writeJobs` writes, one after the other, and their states. -/
def fileWrites : List (String × CronJobsState) :=
  if jobs.any fun job => !files.has job.sessionId then []
  else (mergedFiles files jobs).filter fun p => files.get p.1 ≠ some p.2

/-- The files after a crash behind so many writes. -/
def crashedAfter (writes : Nat) : JsMap String CronJobsState :=
  ((fileWrites files jobs).take writes).foldl
    (fun files p => files.set p.1 p.2) files

end

-- ======== edits

/-- What an operation hands to `writeJobs`, if anything, and returns. -/
structure Edit (ρ : Type) where
  jobs : Option (List AgentCronJob)
  returned : ρ

def Edit.none {ρ : Type} (returned : ρ) : Edit ρ := ⟨.none, returned⟩

def Store.edit {ρ : Type} (store : Store)
    (operation : List AgentCronJob → Except JobError (Edit ρ)) :
    Except StoreError (Store × ρ) :=
  match operation store.readJobs with
  | .error error => .error (.job error)
  | .ok ⟨.none, returned⟩ => .ok (store, returned)
  | .ok ⟨.some jobs, returned⟩ =>
    (store.writeJobs jobs).map fun store => (store, returned)

/-- The jobs with these updates, and those that are updated. -/
def updateJobs (update : AgentCronJob → Option AgentCronJob)
    (jobs : List AgentCronJob) : List AgentCronJob × List AgentCronJob :=
  (jobs.map fun job => (update job).getD job, jobs.filterMap update)

def isHeartbeatCronJob (job : AgentCronJob) : Bool :=
  job.source = some .heartbeat || job.source = some .rlmHeartbeat

/-- A heartbeat of the session that is active or paused. -/
def isLiveHeartbeat (activeSessionId : String) (job : AgentCronJob) : Bool :=
  job.activeSessionId = activeSessionId && job.source = some .heartbeat
    && (job.status = .active || job.status = .paused)

structure RebindInput where
  activeSessionId : String
  sessionId : String
  sessionFile : String
  cwd : String

section
variable (zone : TimeZone) (dateParse : String → Option Instant)
  (resolve : String → String) (jobs : List AgentCronJob)

/-- A job of the live session, or of the persisted one. -/
def isRebindTarget (input : RebindInput) (job : AgentCronJob) : Bool :=
  job.activeSessionId = input.activeSessionId
    || resolve job.sessionFile = resolve input.sessionFile

def rebindJob (input : RebindInput) (job : AgentCronJob) :
    Option AgentCronJob :=
  if job.activeSessionId ≠ input.activeSessionId
      ∧ resolve job.sessionFile ≠ resolve input.sessionFile then .none
  else if job.activeSessionId = input.activeSessionId
      ∧ job.sessionId = input.sessionId
      ∧ resolve job.sessionFile = resolve input.sessionFile
      ∧ job.cwd = input.cwd then .none
  else
    some { job with
      activeSessionId := input.activeSessionId
      sessionId := input.sessionId
      sessionFile := input.sessionFile
      cwd := input.cwd }

def rebindSessionJobs (input : RebindInput) :
    Except JobError (Edit (List AgentCronJob)) :=
  let (jobs, rebound) := updateJobs (rebindJob resolve input) jobs
  .ok ⟨if rebound.isEmpty then .none else some jobs, rebound⟩

/-- The live heartbeat of the session that was updated last. -/
def getHeartbeat (activeSessionId : String) : Option AgentCronJob :=
  ((jobs.filter (isLiveHeartbeat activeSessionId)).mergeSort
    fun a b => b.updatedAt.1 ≤ a.updatedAt.1).head?

def setHeartbeat (input : CreateAgentCronJobInput) (id : String)
    (now : Instant) : Except JobError (Edit AgentCronJob) := do
  let job ← createHeartbeat zone dateParse input id now
  return ⟨some (cancelHeartbeats input.activeSessionId now jobs ++ [job]), job⟩

/-- Update the current heartbeat of a session, if it has one. -/
def editHeartbeat (activeSessionId : String)
    (update : AgentCronJob → Except JobError (AgentCronJob → AgentCronJob)) :
    Except JobError (Edit (Option AgentCronJob)) :=
  match getHeartbeat jobs activeSessionId with
  | .none => .ok (.none .none)
  | some current => do
      let change ← update current
      let (jobs, updated) := updateJobs
        (fun job => if job.id = current.id then some (change job) else .none)
        jobs
      return ⟨some jobs, updated.getLast?⟩

/-- The next run of a heartbeat, which has one. -/
def heartbeatNextRun (schedule : AgentCronSchedule) (now : Instant) :
    Except JobError Instant := do
  match ← lift (storedNextRun zone schedule now) with
  | .none => .error .heartbeatNotRecurring
  | some nextRunAt => return nextRunAt

def pauseHeartbeat (activeSessionId : String) (now : Instant) :
    Except JobError (Edit (Option AgentCronJob)) :=
  editHeartbeat jobs activeSessionId fun _ =>
    .ok fun job =>
      { job with status := .paused, nextRunAt := .none, updatedAt := now }

def resumeHeartbeat (activeSessionId : String) (now : Instant) :
    Except JobError (Edit (Option AgentCronJob)) :=
  editHeartbeat jobs activeSessionId fun current => do
    let nextRunAt ← heartbeatNextRun zone current.schedule now
    return fun job =>
      { job with
        status := .active, nextRunAt := some nextRunAt, updatedAt := now }

def clearHeartbeat (activeSessionId : String) (now : Instant) :
    Except JobError (Edit (Option AgentCronJob)) :=
  editHeartbeat jobs activeSessionId fun _ =>
    .ok fun job =>
      { job with status := .cancelled, nextRunAt := .none, updatedAt := now }

inductive AgentHeartbeatManagementAction where
  | pause | resume | stop
deriving DecidableEq

def manageJob (activeSessionId id : String)
    (action : AgentHeartbeatManagementAction) (now : Instant)
    (job : AgentCronJob) : Except JobError (Option AgentCronJob) :=
  if job.id ≠ id ∨ job.activeSessionId ≠ activeSessionId
      ∨ ¬ isHeartbeatCronJob job then .ok .none
  else if job.status = .cancelled ∨ job.status = .completed then .ok .none
  else
    match action with
    | .pause =>
      .ok (withoutNextRunAt { job with status := .paused, updatedAt := now })
    | .stop =>
      .ok (withoutNextRunAt
        { job with status := .cancelled, updatedAt := now })
    | .resume => do
        let nextRunAt ← heartbeatNextRun zone job.schedule now
        return some { job with
          status := .active, nextRunAt := some nextRunAt, updatedAt := now }

def manageHeartbeat (activeSessionId id : String)
    (action : AgentHeartbeatManagementAction) (now : Instant) :
    Except JobError (Edit (Option AgentCronJob)) := do
  let updates ← jobs.mapM (manageJob zone activeSessionId id action now)
  let updated := updates.reduceOption.getLast?
  return ⟨if updated.isSome then
      some ((jobs.zip updates).map fun (job, update) => update.getD job)
    else .none, updated⟩

def cancel (id : String) (now : Instant) :
    Except JobError (Edit (Option AgentCronJob)) :=
  let (jobs, cancelled) := updateJobs
    (fun job =>
      if job.id ≠ id ∨ job.status = .cancelled then .none
      else some { job with
        status := .cancelled, nextRunAt := .none, updatedAt := now }) jobs
  .ok ⟨if cancelled.isEmpty then .none else some jobs, cancelled.getLast?⟩

end

-- ======== the results of dispatches

inductive AgentCronJobRunResult where
  | ran | skipped
deriving DecidableEq

section
variable (zone : TimeZone) (dispatchId : String) (now : Instant)
  (outcome : AgentCronJobRunResult) (error : Option String)

/-- A job after a run of it, or after one that was skipped. -/
def settleJob (jobId : String) (job : AgentCronJob) :
    Except CronError (Option AgentCronJob) :=
  if job.id ≠ jobId ∨ job.status ≠ .active then .ok none
  else
    let status := if job.schedule.kind = .once then .completed else job.status
    if outcome = .skipped ∧ error = none then do
      let nextRunAt ← storedNextRun zone job.schedule now
      return some { job with
        status := status
        nextRunAt := nextRunAt
        lastSkippedAt := some now
        updatedAt := now }
    else
      .ok (some { job with
        status := status
        lastRunAt := some now
        lastError := error
        runCount := job.runCount + 1
        updatedAt := now })

def recordDispatchInState (state : CronJobsState) :
    Except CronError (CronJobsState × Option AgentCronJob) :=
  match state.dispatches.find? (·.id = dispatchId) with
  | none => .ok (state, none)
  | some dispatch => do
      let updates ← state.jobs.mapM
        (settleJob zone now outcome error dispatch.jobId)
      return ({ jobs := (state.jobs.zip updates).map fun (job, update) =>
                  update.getD job
                dispatches := state.dispatches.filter (·.id ≠ dispatchId) },
        updates.reduceOption.getLast?)

/-- Over the files one after the other: a throw leaves the files from its own
on as they were. -/
def recordDispatchResult : List CronJobsState →
    List CronJobsState × Except CronError (Option AgentCronJob)
  | [] => ([], .ok none)
  | state :: states =>
    match recordDispatchInState zone dispatchId now outcome error state with
    | .error e => (state :: states, .error e)
    | .ok (state, updated) =>
      let (states, later) := recordDispatchResult states
      (state :: states, later.map (·.or updated))

end

-- ======== operations

inductive Operation where
  | registerSessionArtifact (sessionId : String)
  | createHeartbeat (input : CreateAgentCronJobInput) (now : Instant)
  | pauseHeartbeat (activeSessionId : String) (now : Instant)
  | resumeHeartbeat (activeSessionId : String) (now : Instant)
  | clearHeartbeat (activeSessionId : String) (now : Instant)
  | manageHeartbeat (activeSessionId id : String)
      (action : AgentHeartbeatManagementAction) (now : Instant)
  | rebindSessionJobs (input : RebindInput)
  | cancel (id : String) (now : Instant)
  | claimDue (dueAt claimedAt : Instant) (uuid : Nat → String)
  | recordDispatchResult (dispatchId : String) (now : Instant)
      (outcome : AgentCronJobRunResult) (error : Option String)

/-- The store, and how many ids of jobs are drawn. -/
structure StoreState where
  store : Store
  drawn : Nat

/-- A store after an edit; a throw leaves it as it was. -/
def Store.edited {ρ : Type} (store : Store)
    (operation : List AgentCronJob → Except JobError (Edit ρ)) : Store :=
  match store.edit operation with
  | .ok (store, _) => store
  | .error _ => store

section
variable (zone : TimeZone) (dateParse : String → Option Instant)
  (resolve : String → String) (uuid : Nat → String)

/-- A store after an operation, which may have thrown; `uuid k` is the id of
the `k`th job. -/
def step (s : StoreState) : Operation → StoreState
  | .registerSessionArtifact sessionId =>
    { s with store := s.store.registerSessionArtifact sessionId }
  | .createHeartbeat input now =>
    { store := s.store.edited fun jobs =>
        setHeartbeat zone dateParse jobs input (uuid s.drawn) now
      drawn := s.drawn + 1 }
  | .pauseHeartbeat activeSessionId now =>
    { s with
      store := s.store.edited fun jobs =>
        pauseHeartbeat jobs activeSessionId now }
  | .resumeHeartbeat activeSessionId now =>
    { s with
      store := s.store.edited fun jobs =>
        resumeHeartbeat zone jobs activeSessionId now }
  | .clearHeartbeat activeSessionId now =>
    { s with
      store := s.store.edited fun jobs =>
        clearHeartbeat jobs activeSessionId now }
  | .manageHeartbeat activeSessionId id action now =>
    { s with
      store := s.store.edited fun jobs =>
        manageHeartbeat zone jobs activeSessionId id action now }
  | .rebindSessionJobs input =>
    { s with
      store := s.store.edited fun jobs =>
        rebindSessionJobs resolve jobs input }
  | .cancel id now =>
    { s with store := s.store.edited fun jobs => cancel jobs id now }
  | .claimDue dueAt claimedAt ids =>
    { s with
      store := s.store.withStates
        (claimDue zone dueAt claimedAt ids 0 s.store.readStates).1 }
  | .recordDispatchResult dispatchId now outcome error =>
    { s with
      store := s.store.withStates
        (recordDispatchResult zone dispatchId now outcome error
          s.store.readStates).1 }

end
end OneHarness.Cron
