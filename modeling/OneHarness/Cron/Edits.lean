/-
The operations that edit jobs. Each reads the list of jobs, outside of any
lock, and either throws, or leaves the jobs alone, or hands a whole new list
to `writeJobs`.

A new job's id is drawn by the caller of the model; `resolve` makes a path
absolute.
-/
import OneHarness.Cron.Jobs

namespace OneHarness.Cron

open Lib LocalTime Session

/-- What an operation on jobs throws. -/
inductive JobError where
  | schedule (error : CronError)
  | emptyPrompt
  | emptyHeartbeatInstruction
  | emptyRlmHeartbeatInstruction
  | heartbeatNotRecurring
  | rlmHeartbeatNotRecurring
deriving DecidableEq

def JobError.message : JobError → String
  | .schedule error => error.message
  | .emptyPrompt => "Cron job prompt cannot be empty"
  | .emptyHeartbeatInstruction => "Heartbeat instruction cannot be empty"
  | .emptyRlmHeartbeatInstruction =>
    "RLM heartbeat instruction cannot be empty"
  | .heartbeatNotRecurring => "Heartbeat schedule must be recurring"
  | .rlmHeartbeatNotRecurring => "RLM heartbeat schedule must be recurring"

/-- A throw of the schedule is a throw of the operation. -/
def lift {α : Type} : Except CronError α → Except JobError α
  | .ok a => .ok a
  | .error error => .error (.schedule error)

structure CreateAgentCronJobInput where
  activeSessionId : String
  sessionId : String
  sessionFile : String
  cwd : String
  label : Option String
  prompt : String
  scheduleText : String
  source : Option AgentCronJobSource
  runtimeKind : Option AgentCronJobRuntimeKind
  deliveryMode : Option AgentHeartbeatDeliveryMode

def normalizeOptionalLabel (label : Option String) : Option String :=
  match label with
  | some label => if trim label = "" then none else some (trim label)
  | none => none

/-- A job that starts out. -/
def newJob (input : CreateAgentCronJobInput) (id prompt : String)
    (source : AgentCronJobSource)
    (deliveryMode : Option AgentHeartbeatDeliveryMode)
    (schedule : AgentCronSchedule) (nextRunAt now : Instant) : AgentCronJob where
  id := id
  status := .active
  source := some source
  runtimeKind := input.runtimeKind
  deliveryMode := deliveryMode
  activeSessionId := input.activeSessionId
  sessionId := input.sessionId
  sessionFile := input.sessionFile
  cwd := input.cwd
  label := normalizeOptionalLabel input.label
  prompt := prompt
  schedule := schedule
  createdAt := now
  updatedAt := now
  nextRunAt := some nextRunAt
  lastRunAt := none
  lastSkippedAt := none
  lastError := none
  runCount := 0

section
variable (zone : TimeZone) (dateParse : String → Option Instant)

-- ======== creation

def create (input : CreateAgentCronJobInput) (id : String) (now : Instant) :
    Except JobError AgentCronJob := do
  let prompt := trim input.prompt
  if prompt = "" then .error .emptyPrompt
  else
    let parsed ← lift (parseAgentCronSchedule zone dateParse input.scheduleText
      now)
    let nextRunAt ← lift (toISOString parsed.2)
    return newJob input id prompt (input.source.getD .cron) none parsed.1
      nextRunAt now

/-- A heartbeat's schedule is recurring. -/
def parseRecurring (notRecurring : JobError) (scheduleText : String)
    (now : Instant) : Except JobError (AgentCronSchedule × Int) := do
  let parsed ← lift (parseAgentCronSchedule zone dateParse scheduleText now)
  if parsed.1.kind = .once then .error notRecurring else return parsed

def createHeartbeat (input : CreateAgentCronJobInput) (id : String)
    (now : Instant) : Except JobError AgentCronJob := do
  let parsed ← parseRecurring zone dateParse .heartbeatNotRecurring
    input.scheduleText now
  let prompt := trim input.prompt
  if prompt = "" then .error .emptyHeartbeatInstruction
  else
    let nextRunAt ← lift (toISOString parsed.2)
    return newJob input id prompt .heartbeat
      (some (input.deliveryMode.getD .steer)) parsed.1 nextRunAt now

/-- The heartbeats of a session, as a new one leaves them. -/
def cancelHeartbeats (activeSessionId : String) (now : Instant)
    (jobs : List AgentCronJob) : List AgentCronJob :=
  jobs.map fun job =>
    if job.activeSessionId = activeSessionId && job.source = some .heartbeat
        && (job.status = .active || job.status = .paused) then
      { job with status := .cancelled, nextRunAt := none, updatedAt := now }
    else job

def createRlmHeartbeat (input : CreateAgentCronJobInput) (id : String)
    (now : Instant) : Except JobError AgentCronJob := do
  let parsed ← parseRecurring zone dateParse .rlmHeartbeatNotRecurring
    input.scheduleText now
  let prompt := trim input.prompt
  if prompt = "" then .error .emptyRlmHeartbeatInstruction
  else
    let nextRunAt ← lift (toISOString parsed.2)
    return newJob input id prompt .rlmHeartbeat
      (some (input.deliveryMode.getD .steer)) parsed.1 nextRunAt now

end
end OneHarness.Cron
