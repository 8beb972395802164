/-
`AgentRoster`: the entries of the agents that the supervisor knows, with an
index by the active session and one by the session file.

# Paths

`canonicalPath` is a parameter. An empty id or path is none, as the source
tests them.
-/
import OneHarness.Lib.Run
import OneHarness.Lib.SecondaryIndex

namespace OneHarness.Daemon

open Lib

namespace AgentRoster

-- ======== the entries

inductive AgentRosterStatus where
  | running
  | idle
  | inactive
deriving DecidableEq

structure AgentStatusInput where
  resident : Bool
  queuedChild : Bool
  busy : Bool

def classifyAgentStatus (input : AgentStatusInput) : AgentRosterStatus :=
  if input.queuedChild then .running
  else if ¬ input.resident then .inactive
  else if input.busy then .running
  else .idle

inductive SessionActivity where
  | working
  | idle
deriving DecidableEq

structure RosterSessionSummary where
  activity : SessionActivity
  isSessionActive : Bool
  activeSessionId : Option String
  sessionFile : Option String
deriving DecidableEq

def classifySessionRosterStatus (summary : RosterSessionSummary)
    (queuedChild : Bool) : AgentRosterStatus :=
  classifyAgentStatus
    { resident := summary.activeSessionId.getD "" ≠ ""
      queuedChild := queuedChild
      busy := summary.activity = .working ∨ summary.isSessionActive }

inductive StatusLabel where
  | queued
  | recovering
  | failed
deriving DecidableEq

structure WorkerRosterEntry where
  agentId : String
  queuedChild : Bool
  summary : RosterSessionSummary

/-- What a stored entry has that is written again as it is. -/
structure Marks where
  statusLabel : Option StatusLabel
  lastHeardFromAt : Option String
  workerId : Option String

structure AgentRosterEntry extends WorkerRosterEntry, Marks where
  status : AgentRosterStatus

inductive AgentRosterMutation where
  | write (agentId : String)
  | delete (agentId : String)
deriving DecidableEq

end AgentRoster

-- ======== the roster

structure AgentRoster where
  entries : JsMap String AgentRoster.AgentRosterEntry
  agentIdByActiveSessionId : JsMap String String
  agentIdBySessionFile : JsMap String String
  /-- What `onMutation` was called with. -/
  mutations : List AgentRoster.AgentRosterMutation

namespace AgentRoster

def empty : AgentRoster := ⟨[], [], [], []⟩

def activeSessionId (entry : AgentRosterEntry) : Option String :=
  entry.summary.activeSessionId.filter (· ≠ "")

section
variable (canonicalPath : String → String) (roster : AgentRoster)

def sessionFile (entry : AgentRosterEntry) : Option String :=
  (entry.summary.sessionFile.filter (· ≠ "")).map canonicalPath

def get (agentId : String) : Option AgentRosterEntry :=
  roster.entries.get agentId

def byActiveSessionId (activeSessionId : String) : Option AgentRosterEntry :=
  (roster.agentIdByActiveSessionId.get activeSessionId).bind roster.get

def bySessionFile (path : String) : Option AgentRosterEntry :=
  (roster.agentIdBySessionFile.get path).bind roster.get

def onMutation (mutation : AgentRosterMutation) : AgentRoster :=
  { roster with mutations := roster.mutations ++ [mutation] }

def dropIndexes (entry : AgentRosterEntry) : AgentRoster :=
  { roster with
    agentIdByActiveSessionId :=
      SecondaryIndex.drop activeSessionId roster.agentIdByActiveSessionId
        entry.agentId entry
    agentIdBySessionFile :=
      SecondaryIndex.drop (sessionFile canonicalPath)
        roster.agentIdBySessionFile entry.agentId entry }

def delete (agentId : String) : AgentRoster :=
  match roster.entries.get agentId with
  | none => roster
  | some entry =>
    let roster := roster.dropIndexes canonicalPath entry
    { roster with entries := roster.entries.delete agentId }.onMutation
      (.delete agentId)

/-- The entry as `write` stores it. -/
def stored (entry : WorkerRosterEntry) (carried : Marks)
    (workerId : Option String) (statusLabel : Option StatusLabel) :
    AgentRosterEntry :=
  { entry with
    status := classifySessionRosterStatus entry.summary entry.queuedChild
    statusLabel :=
      if entry.queuedChild then some .queued
      else statusLabel.or carried.statusLabel
    lastHeardFromAt := carried.lastHeardFromAt
    workerId := workerId.or carried.workerId }

/-- The other entry of the file is deleted. -/
def displace (file agentId : String) : AgentRoster :=
  match roster.agentIdBySessionFile.get file with
  | some existingAgentId =>
    if existingAgentId ≠ agentId then
      roster.delete canonicalPath existingAgentId
    else roster
  | none => roster

/-- The index for the file of what is stored. -/
def claimFile (stored : AgentRosterEntry) : AgentRoster :=
  match sessionFile canonicalPath stored with
  | none => roster
  | some file =>
    let roster := roster.displace canonicalPath file stored.agentId
    { roster with
      agentIdBySessionFile :=
        roster.agentIdBySessionFile.set file stored.agentId }

def write (entry : WorkerRosterEntry) (carried : Marks)
    (workerId : Option String) (statusLabel : Option StatusLabel) :
    AgentRoster :=
  let stored := stored entry carried workerId statusLabel
  let roster :=
    match roster.entries.get entry.agentId with
    | some previous => roster.dropIndexes canonicalPath previous
    | none => roster
  let roster := roster.claimFile canonicalPath stored
  { roster with
    agentIdByActiveSessionId :=
      SecondaryIndex.point activeSessionId roster.agentIdByActiveSessionId
        entry.agentId stored
    entries := roster.entries.set entry.agentId stored }.onMutation
      (.write entry.agentId)

/-- A mark that is given, as a value or as none. -/
def amend (agentId : String) (statusLabel : Option (Option StatusLabel))
    (lastHeardFromAt : Option (Option String)) : AgentRoster :=
  match roster.entries.get agentId with
  | none => roster
  | some entry =>
    let entry :=
      { entry with
        statusLabel := statusLabel.getD entry.statusLabel
        lastHeardFromAt := lastHeardFromAt.getD entry.lastHeardFromAt }
    { roster with entries := roster.entries.set agentId entry }.onMutation
      (.write agentId)

end

-- ======== the runs

inductive Op where
  | write (entry : WorkerRosterEntry) (carried : Marks)
      (workerId : Option String) (statusLabel : Option StatusLabel)
  | delete (agentId : String)
  | amend (agentId : String) (statusLabel : Option (Option StatusLabel))
      (lastHeardFromAt : Option (Option String))

variable (canonicalPath : String → String)

def step (roster : AgentRoster) : Op → AgentRoster
  | .write entry carried workerId statusLabel =>
    roster.write canonicalPath entry carried workerId statusLabel
  | .delete agentId => roster.delete canonicalPath agentId
  | .amend agentId statusLabel lastHeardFromAt =>
    roster.amend agentId statusLabel lastHeardFromAt

/-- The ids that a listener knows who follows the mutations. -/
def replay (ids : List String) : AgentRosterMutation → List String
  | .write agentId => if agentId ∈ ids then ids else ids ++ [agentId]
  | .delete agentId => ids.filter (· ≠ agentId)

/-- The indexes answer for the entries, and the mutations tell the ids. -/
structure Exact (roster : AgentRoster) : Prop where
  distinct : ∀ agentId agentId' entry entry' file,
    roster.get agentId = some entry → roster.get agentId' = some entry' →
    sessionFile canonicalPath entry = some file →
    sessionFile canonicalPath entry' = some file → agentId = agentId'
  bySessionFile : ∀ file entry, roster.bySessionFile file = some entry ↔
    ∃ agentId, roster.get agentId = some entry
      ∧ sessionFile canonicalPath entry = some file
  sound : ∀ id entry, roster.byActiveSessionId id = some entry →
    activeSessionId entry = some id
      ∧ ∃ agentId, roster.get agentId = some entry
  complete : ∀ agentId entry id, roster.get agentId = some entry →
    activeSessionId entry = some id →
      ∃ entry', roster.byActiveSessionId id = some entry'
  replayed : ∀ agentId,
    agentId ∈ roster.mutations.foldl replay [] ↔ agentId ∈ roster.entries.keys

/-- The other agent that has the file, which a `write` deletes. -/
def Displaced (roster : AgentRoster) (stored : AgentRosterEntry)
    (agentId : String) : Prop :=
  agentId ≠ stored.agentId ∧ ∃ file entry,
    sessionFile canonicalPath stored = some file
      ∧ roster.get agentId = some entry
      ∧ sessionFile canonicalPath entry = some file

/-- The index of an active session never loses the entry that it names while
another entry of the session stays. -/
def KeepsActive (roster : AgentRoster) : Op → Prop
  | .amend _ _ _ => True
  | .delete agentId => ∀ id, roster.agentIdByActiveSessionId.get id = some agentId →
      ∀ agentId' entry, roster.get agentId' = some entry →
        activeSessionId entry = some id → agentId' = agentId
  | .write entry carried workerId statusLabel =>
    let stored := stored entry carried workerId statusLabel
    let Leaves := fun agentId =>
      agentId = entry.agentId ∨ Displaced canonicalPath roster stored agentId
    ∀ id agentId, roster.agentIdByActiveSessionId.get id = some agentId →
      Leaves agentId → activeSessionId stored ≠ some id →
      ∀ agentId' entry', roster.get agentId' = some entry' →
        activeSessionId entry' = some id → Leaves agentId'

end AgentRoster

end OneHarness.Daemon
