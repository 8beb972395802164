/-
The operations of a session as data, so that runs of them can be
quantified over.

An `AppendCall` is a call of an append method with its arguments, and a
`Call` any operation that changes the session or its file; the last one,
`deleteFile`, is not the manager's own but somebody else deleting the
file. A call returns or throws, and either way leaves a machine behind.
-/
import OneHarness.Session.Manager

namespace OneHarness.Session

open Lib

/-- A call of an append method. -/
inductive AppendCall where
  | appendMessage (message : AgentMessage)
  | appendThinkingLevelChange (thinkingLevel : String)
  | appendServiceTierChange (serviceTier : ServiceTier)
  | appendModelChange (provider modelId : String)
  | appendCompaction (c : CompactionEntry)
  | appendCustomEntry (customType : String) (data : Option Json)
  | appendChildUsageAttribution (a : ChildUsageAttributionEntry)
  | appendSessionInfo (name : String)
  | appendSessionState (status : SessionStateStatus)
  | appendAgentStatus (status : AgentStatus)
  | appendGitState (git : GitContext)
  | appendCustomMessageEntry (c : CustomMessageEntry)
  | appendLabelChange (targetId : String) (label : Option String)
  | branchWithSummary (branchFromId : Option String) (summary : String)
      (details : Option Json) (fromHook : Option Bool) (usage : Option Usage)

def AppendCall.run (io : Io) : AppendCall → Op String
  | appendMessage message => Session.appendMessage io message
  | appendThinkingLevelChange thinkingLevel =>
    Session.appendThinkingLevelChange io thinkingLevel
  | appendServiceTierChange serviceTier =>
    Session.appendServiceTierChange io serviceTier
  | appendModelChange provider modelId =>
    Session.appendModelChange io provider modelId
  | appendCompaction c => Session.appendCompaction io c
  | appendCustomEntry customType data =>
    Session.appendCustomEntry io customType data
  | appendChildUsageAttribution a => Session.appendChildUsageAttribution io a
  | appendSessionInfo name => Session.appendSessionInfo io name
  | appendSessionState status => Session.appendSessionState io status
  | appendAgentStatus status => Session.appendAgentStatus io status
  | appendGitState git => Session.appendGitState io git
  | appendCustomMessageEntry c => Session.appendCustomMessageEntry io c
  | appendLabelChange targetId label =>
    Session.appendLabelChange io targetId label
  | branchWithSummary branchFromId summary details fromHook usage =>
    Session.branchWithSummary io branchFromId summary details fromHook usage

/-- A call that changes the session or its file. -/
inductive Call where
  | append (call : AppendCall)
  | appendCustomEntryWithRollback (customType : String) (data : Option Json)
  | appendCustomMessageEntryWithRollback (c : CustomMessageEntry)
  | newSession (options : NewSessionOptions)
  | branch (branchFromId : String)
  | resetLeaf
  | createBranchedSession (leafId : String)
  | flushNow
  | deleteFile

/-- How a call ended, without its result. -/
abbrev Outcome := EStateM.Result String Machine Unit

def outcome {α : Type} : EStateM.Result String Machine α → Outcome
  | .ok _ m => .ok () m
  | .error e m => .error e m

/-- The machine a call leaves behind. -/
def Outcome.machine : Outcome → Machine
  | .ok _ m => m
  | .error _ m => m

/-- A call; `none` is one that never ends. -/
def Call.run (io : Io) (call : Call) (m : Machine) : Option Outcome :=
  match call with
  | append call => some (outcome (call.run io m))
  | appendCustomEntryWithRollback customType data =>
    some (outcome (Session.appendCustomEntryWithRollback io customType data m))
  | appendCustomMessageEntryWithRollback c =>
    some (outcome (Session.appendCustomMessageEntryWithRollback io c m))
  | newSession options => some (outcome (Session.newSession io options m))
  | branch branchFromId => some (Session.branch branchFromId m)
  | resetLeaf => some (Session.resetLeaf m)
  | createBranchedSession leafId =>
    (Session.createBranchedSession io leafId m).map outcome
  | flushNow => some (Session.flushNow (io.writeFileAtomicSync 0) m)
  | deleteFile =>
    some (.ok () (match m.manager.sessionFile with
      | some file => { m with disk := m.disk.remove file }
      | none => m))

end OneHarness.Session
