/-
How a session retries a turn whose response failed: quick retries, waits for
the provider to recover, a switch to the backup model, and one compaction when
the context overflows; and what the user selects meanwhile.

# Steps

A step is what runs between two awaits. The events of the agent are taken when
the session processes them. Marking credentials stale, the texts of the
events, and what the session does when it is settled (goals, refinement) are
left out.
-/
import OneHarness.Session.ProviderRetry

namespace OneHarness.Session.Retries

-- ======== selections

/-- `standard` is `default`, and `absent` is `null`. -/
inductive ServiceTier where
  | auto
  | standard
  | flex
  | scale
  | priority
  | absent
deriving DecidableEq

/-- What the session reads of models, which are known by provider and id. -/
structure ModelFeatures (M L : Type) where
  clampThinkingLevel : M → L → L
  supportsThinking : M → Bool
  supportsFastMode : M → Bool
  contextWindow : M → Rat
  /-- `off`, and the level without any settings. -/
  off : L
  defaultThinkingLevel : L

/-- `model`, `thinkingLevel` and `serviceTier` are the state of the agent. -/
structure Selection (M L : Type) where
  model : M
  thinkingLevel : L
  serviceTier : ServiceTier
  serviceTierPreference : ServiceTier
  /-- Of the settings. -/
  defaultThinkingLevel : Option L
deriving DecidableEq

section
variable {M L : Type} [DecidableEq M] [DecidableEq L]
  (features : ModelFeatures M L)

def effectiveServiceTier (model : M) (tier : ServiceTier) : ServiceTier :=
  if tier = .priority ∧ features.supportsFastMode model = false then .standard
  else tier

namespace Selection

variable (selection : Selection M L)

def setThinkingLevel (level : L) : Selection M L :=
  let effective := features.clampThinkingLevel selection.model level
  let isChanging := effective ≠ selection.thinkingLevel
  { selection with
    thinkingLevel := effective
    defaultThinkingLevel :=
      if isChanging ∧ (features.supportsThinking selection.model
          ∨ effective ≠ features.off) then some effective
      else selection.defaultThinkingLevel }

def setServiceTier (tier : ServiceTier) : Selection M L :=
  let effective := effectiveServiceTier features selection.model tier
  { selection with
    serviceTier := effective, serviceTierPreference := effective }

def clampServiceTier (tier : ServiceTier) : Selection M L :=
  { selection with
    serviceTier := effectiveServiceTier features selection.model tier }

def thinkingLevelForModelSwitch (explicitLevel : Option L) : L :=
  match explicitLevel with
  | some level => level
  | none =>
    if features.supportsThinking selection.model then selection.thinkingLevel
    else selection.defaultThinkingLevel.getD features.defaultThinkingLevel

/-- `setModel`, and `cycleModel` to a model that may come with a level. -/
def setModel (model : M) (explicitLevel : Option L) : Selection M L :=
  let level := selection.thinkingLevelForModelSwitch features explicitLevel
  (({ selection with model := model }).setThinkingLevel features
    level).clampServiceTier features selection.serviceTierPreference

end Selection

/-- What the user selects. -/
inductive UserChange (M L : Type) where
  | setModel (model : M) (explicitLevel : Option L)
  | setThinkingLevel (level : L)
  | setServiceTier (tier : ServiceTier)

def UserChange.apply (selection : Selection M L) :
    UserChange M L → Selection M L
  | .setModel model explicitLevel =>
    selection.setModel features model explicitLevel
  | .setThinkingLevel level => selection.setThinkingLevel features level
  | .setServiceTier tier => selection.setServiceTier features tier

-- ======== the backup model

structure BackupRouting (M L : Type) where
  backup : M
  primary : M
  thinkingLevel : L
  serviceTier : ServiceTier

/-- Routed to the backup, with what the backup supports. -/
def Selection.routedTo (selection : Selection M L) (backup : M) :
    Selection M L :=
  ({ selection with
    model := backup
    thinkingLevel := features.clampThinkingLevel backup
      selection.thinkingLevel }).clampServiceTier features selection.serviceTier

def Selection.routing (selection : Selection M L) (backup : M) :
    BackupRouting M L where
  backup := backup
  primary := selection.model
  thinkingLevel := selection.thinkingLevel
  serviceTier := selection.serviceTier

/-- What the restore makes of a selection: nothing, if the user has switched
models. -/
def BackupRouting.restored (routing : BackupRouting M L)
    (selection : Selection M L) : Selection M L :=
  if selection.model = routing.backup then
    ({ selection with
      model := routing.primary
      thinkingLevel := routing.thinkingLevel }).clampServiceTier features
        routing.serviceTier
  else selection

-- ======== settings

structure RetryConfig (M L : Type) where
  features : ModelFeatures M L
  settings : RetrySettings
  waitPolicy : ProviderWaitPolicy
  /-- The backup model, if one is set, known and has credentials. -/
  backupModel : Option M
  compactionEnabled : Bool

-- ======== state

inductive OverflowRecovery where
  | idle
  | attempted
  | reported
deriving DecidableEq

inductive RetryReason where
  | backup
  | usage
  | unavailable
deriving DecidableEq

inductive RetryEvent (M : Type) where
  | autoRetryStart (attempt : Nat) (delayMs : Rat) (reason : Option RetryReason)
  | autoRetryEnd (success : Bool) (attempt : Nat) (restoredModel : Option M)

structure ProviderWait where
  attempts : Nat
  startedAtMs : Rat

/-- The delay before a retry. -/
structure RetrySleep (M : Type) where
  message : Response M
  untilMs : Rat
  aborted : Bool

structure RetryState (M L : Type) where
  selection : Selection M L
  retryAttempt : Nat
  retryGeneration : Nat
  /-- There is a retry promise. -/
  retrying : Bool
  providerWait : Option ProviderWait
  backupModel : Option (BackupRouting M L)
  overflowRecovery : OverflowRecovery
  lastAssistantMessage : Option (Response M)
  sleeping : Option (RetrySleep M)
  /-- Scheduled starts, by their generation. -/
  timers : List Nat
  /-- A compaction is awaited, of an overflow or not. -/
  compacting : Option Bool
  postCompactionContinue : Bool
  /-- A run of the agent is on. -/
  running : Bool
  /-- The runs that were started to try again. -/
  reissued : Nat
  events : List (RetryEvent M)

namespace RetryState

variable (config : RetryConfig M L) (s : RetryState M L)

def emit (event : RetryEvent M) : RetryState M L :=
  { s with events := s.events ++ [event] }

def resolveRetry : RetryState M L :=
  { s with retryGeneration := s.retryGeneration + 1, retrying := false }

def restorePrimaryModelAfterBackup : RetryState M L × Option M :=
  match s.backupModel with
  | none => (s, none)
  | some routing =>
    ({ s with
        backupModel := none
        selection := routing.restored config.features s.selection },
      if s.selection.model = routing.backup then some routing.primary
      else none)

/-- The end of a retry, after which the attempts start anew. -/
def endRetry (success : Bool) (attempt : Nat) : RetryState M L :=
  let (restored, restoredModel) := s.restorePrimaryModelAfterBackup config
  { restored.emit (.autoRetryEnd success attempt restoredModel) with
    retryAttempt := 0 }

def withoutWait : RetryState M L := { s with providerWait := none }

def finishActiveRetryWithFailure : RetryState M L :=
  if s.retryAttempt = 0 then s
  else (s.endRetry config false s.retryAttempt).withoutWait

-- ======== the retries

/-- Up to the delay; the boolean of the source is whether there is one. -/
def retryAfterDelay (message : Response M) (attempt : Nat) (delayMs : Rat)
    (reason : Option RetryReason) (now : Rat) : RetryState M L :=
  { s.emit (.autoRetryStart attempt delayMs reason) with
    sleeping := some ⟨message, now + delayMs, false⟩ }

def handleBackupModelRetry (message : Response M) (backup : M) (now : Rat) :
    RetryState M L :=
  let attempt := s.retryAttempt + 1
  ({ s with
    selection := s.selection.routedTo config.features backup
    backupModel := some (s.selection.routing backup)
    retryAttempt := attempt
    providerWait := none }).retryAfterDelay message attempt 0 (some .backup) now

def handleProviderWait (message : Response M) (reason : RetryReason)
    (now random : Rat) : RetryState M L :=
  let startedAtMs := (s.providerWait.map (·.startedAtMs)).getD now
  let pingAttempt := (s.providerWait.map (·.attempts)).getD 0 + 1
  let s := { s with providerWait := some ⟨pingAttempt, startedAtMs⟩ }
  match providerWaitDecision pingAttempt (now - startedAtMs)
      (message.retryAfterMs.or message.resetMs) config.waitPolicy random with
  | .abort _ =>
    (s.endRetry config false (pingAttempt - 1)).withoutWait.resolveRetry
  | .wait delayMs =>
    s.retryAfterDelay message pingAttempt delayMs (some reason) now

def quickRetry (message : Response M) (now : Rat) : RetryState M L :=
  match providerRetryDelay s.retryAttempt message.retryAfterMs
      config.settings with
  | .exceedsCap _ =>
    (s.endRetry config false (s.retryAttempt - 1)).resolveRetry
  | .wait delayMs => s.retryAfterDelay message s.retryAttempt delayMs none now

def handleRetryableError (message : Response M) (now random : Rat) :
    RetryState M L :=
  if config.settings.enabled = false then s.resolveRetry
  else
    let s := { s with retrying := true }
    let waitClass := providerWaitClass message.kind message.status
    match config.backupModel.filter fun backup =>
        waitClass ≠ .permanent && s.selection.model ≠ backup with
    | some backup => s.handleBackupModelRetry config message backup now
    | none =>
      let s := { s with retryAttempt := s.retryAttempt + 1 }
      if waitClass = .quota ∧ config.waitPolicy.enabled then
        s.handleProviderWait config message .usage now random
      else if config.settings.maxRetries < s.retryAttempt then
        if waitClass = .transient ∧ config.waitPolicy.enabled then
          s.handleProviderWait config message .unavailable now random
        else (s.endRetry config false (s.retryAttempt - 1)).resolveRetry
      else s.quickRetry config message now

-- ======== the end of a run

def isPermanentRetryExhausted (message : Response M) : Bool :=
  isPermanentProviderFailureKind message.kind s.retryAttempt message.status

def isRetryableError (message : Response M) : Bool :=
  message.failed
    && !isContextOverflow message (config.features.contextWindow
      s.selection.model)
    && !message.fauxQueueExhausted && !message.lifecycleFailure
    && !s.isPermanentRetryExhausted message

def isConcreteProviderAuthFailure (message : Response M) : Bool :=
  message.failed && message.kind = some "auth"

/-- Up to the compaction, where there is one. -/
def checkCompaction (message : Response M) (requested : Bool) :
    RetryState M L :=
  if message.stopReason = .aborted then { s with compacting := some false }
  else if message.beforeCompaction = false
      ∧ (config.compactionEnabled ∨ requested)
      ∧ message.model = s.selection.model
      ∧ isContextOverflow message (config.features.contextWindow
        s.selection.model) then
    match s.overflowRecovery with
    | .idle =>
      { s with overflowRecovery := .attempted, compacting := some true }
    | .attempted =>
      { s with overflowRecovery := .reported, compacting := some false }
    | .reported => { s with compacting := some false }
  else { s with compacting := some false }

/-- What follows the check, which says whether the compaction retries. -/
def finishCheck (compactionWillRetry : Bool) : RetryState M L :=
  let s := { s with
    compacting := none
    postCompactionContinue := s.postCompactionContinue || compactionWillRetry }
  if compactionWillRetry ∧ 0 < s.retryAttempt then s
  else (s.finishActiveRetryWithFailure config).resolveRetry

/-- A response of the model. -/
def messageEnd (message : Response M) : RetryState M L :=
  let s := { s with lastAssistantMessage := some message }
  if message.stopReason = .error then s
  else
    let s := { s with overflowRecovery := .idle }
    if 0 < s.retryAttempt then
      (s.endRetry config true s.retryAttempt).withoutWait
    else s

/-- `found` is the last response among the messages of the run. -/
def agentEnd (found : Option (Response M)) (requested : Bool)
    (now random : Rat) : RetryState M L :=
  let retrying := s.retrying || (config.settings.enabled
    && found.any fun message => s.isRetryableError config message
      || isConcreteProviderAuthFailure message)
  let s := { s with running := false, retrying := retrying }
  let message := s.lastAssistantMessage.or (if retrying then found else none)
  let s := { s with lastAssistantMessage := none }
  match message with
  | none => s.resolveRetry
  | some message =>
    if s.isRetryableError config message
        ∨ isConcreteProviderAuthFailure message
          ∧ s.isPermanentRetryExhausted message = false then
      let s := s.handleRetryableError config message now random
      if s.sleeping.isSome then s
      else s.checkCompaction config message requested
    else s.checkCompaction config message requested

-- ======== timers and aborts

/-- The delay is over: a start is scheduled. -/
def sleepDone : RetryState M L :=
  { s with sleeping := none, timers := s.timers ++ [s.retryGeneration] }

/-- The delay was aborted. -/
def sleepRejected (message : Response M) (requested : Bool) :
    RetryState M L :=
  let s := { s with sleeping := none }
  ((s.endRetry config false s.retryAttempt).withoutWait.resolveRetry)
    |>.checkCompaction config message requested

def abortRetry : RetryState M L :=
  match s.sleeping with
  | some sleep => { s with sleeping := some { sleep with aborted := true } }
  | none =>
    if 0 < s.retryAttempt then
      ({ s with postCompactionContinue := false }).endRetry config false
        s.retryAttempt |>.withoutWait.resolveRetry
    else s.resolveRetry

def startRun : RetryState M L :=
  { s with running := true, reissued := s.reissued + 1 }

/-- A scheduled start that a newer retry has overtaken does nothing. -/
def timerFires (generation : Nat) : RetryState M L :=
  let s := { s with timers := s.timers.erase generation }
  if s.retryGeneration = generation ∧ s.retrying then s.startRun else s

/-- The run could not be started. -/
def continueFails (generation : Nat) : RetryState M L :=
  if s.retryGeneration = generation ∧ s.retrying then
    (({ s with running := false }).endRetry config false
      s.retryAttempt).withoutWait.resolveRetry
  else s

end RetryState

-- ======== steps

inductive RetryStep (M L : Type) where
  /-- A turn is accepted, with a message that starts a run of its own or not. -/
  | prompt (startsAgentRun : Bool)
  | messageEnd (message : Response M)
  | agentEnd (found : Option (Response M)) (requested : Bool)
      (now random : Rat)
  | sleepDone (now : Rat)
  | sleepRejected (requested : Bool)
  | timerFires (generation : Nat)
  | continueFails (generation : Nat)
  | compacted (success : Bool)
  | continueAfterCompaction
  | cancelPostCompactionContinue
  | abortRetry
  | user (change : UserChange M L)

variable (config : RetryConfig M L)

/-- The events of the agent are processed one after the other, and wait while
the last one is awaited. -/
def RetryState.processing (s : RetryState M L) : Bool :=
  s.running && s.sleeping.isNone && s.compacting.isNone

/-- A step that is not there to be taken changes nothing. -/
def retryStep (s : RetryState M L) : RetryStep M L → RetryState M L
  | .prompt startsAgentRun =>
    { s with
      running := true
      overflowRecovery :=
        if startsAgentRun then .idle else s.overflowRecovery }
  | .messageEnd message =>
    if s.processing then s.messageEnd config message else s
  | .agentEnd found requested now random =>
    if s.processing then s.agentEnd config found requested now random else s
  | .sleepDone now =>
    match s.sleeping with
    | some sleep => if sleep.aborted = false ∧ sleep.untilMs ≤ now then
        s.sleepDone else s
    | none => s
  | .sleepRejected requested =>
    match s.sleeping with
    | some sleep =>
      if sleep.aborted then s.sleepRejected config sleep.message requested
      else s
    | none => s
  | .timerFires generation =>
    if generation ∈ s.timers then s.timerFires generation else s
  | .continueFails generation =>
    if s.processing then s.continueFails config generation else s
  | .compacted success =>
    match s.compacting with
    | some overflow => s.finishCheck config (overflow && success)
    | none => s
  | .continueAfterCompaction =>
    if s.postCompactionContinue ∧ s.retrying = false then
      { s.startRun with postCompactionContinue := false }
    else s
  | .cancelPostCompactionContinue => { s with postCompactionContinue := false }
  | .abortRetry => s.abortRetry config
  | .user change =>
    { s with selection := change.apply config.features s.selection }

end

end OneHarness.Session.Retries
