/-
`SessionManager`: the session in memory, its file, and the operations on
both.

An operation runs on a `Machine`, the manager together with the disk,
and either returns or throws; a throw keeps whatever was changed before
it, as an exception does, so nothing is rolled back unless the code does
it. What a call meets outside (the clock, drawn ids, git, whether a write
gets through) is its `Io`: `appendFileSync` may throw after any number of
bytes, `writeFileAtomicSync` replaces the file whole or throws.

# What is shared

An entry object sits in `fileEntries` and in `byId` at once, so a change
of its usage shows in both. Ids are distinct among the entries of a
session, so the model changes it in both by id.

Persist listeners, symbolic links and directory creation have no effect
on what is stored and are left out.
-/
import OneHarness.Session.Context
import OneHarness.Session.Store

namespace OneHarness.Session

open Lib

-- ======== the machine

/-- The fields of the class that hold the session. -/
structure SessionManager where
  sessionId : String
  sessionFile : Option String
  sessionDir : String
  cwd : String
  persist : Bool
  flushed : Bool
  hasAssistantEntry : Bool
  fileEntries : List FileEntry
  byId : Index
  labelsById : JsMap String String
  labelTimestampsById : JsMap String String
  leafId : Option String

structure Machine where
  disk : Disk
  manager : SessionManager

/-- An operation: it returns, or throws with the state it left behind. -/
abbrev Op (α : Type) := EStateM String Machine α

/-- What one call meets outside the manager. -/
structure Io where
  /-- `new Date().toISOString()` -/
  now : String
  /-- `randomUUID()`: the draws of each `generateId` call -/
  randomUUID : Nat → Nat → String
  /-- `createSessionId()`, draw by draw -/
  createSessionId : Nat → String
  /-- `captureGitContext(cwd)` -/
  captureGitContext : String → Option GitContext
  /-- the depth a new session gets; the environment variable may be bad -/
  newRlmDepth : Except String (Option Numeral)
  /-- `resolveSessionRlmDepth(header, path)` -/
  resolveSessionRlmDepth : Option SessionHeader → String → Numeral
  /-- how many bytes `appendFileSync` writes before it throws, if it does -/
  appendFileSync : Option Nat
  /-- whether the `n`th `writeFileAtomicSync` throws -/
  writeFileAtomicSync : Nat → Bool

/-- `generateId`: the first of a hundred short draws that is not taken,
else a whole one. -/
def generateId (has : String → Bool) (randomUUID : Nat → String) : String :=
  let short := (List.range 100).map fun i =>
    String.ofList ((randomUUID i).toList.take 8)
  (short.find? fun id => !has id).getD (randomUUID 100)

/-- `CURRENT_SESSION_VERSION`. -/
def currentSessionVersion : Numeral := Numeral.ofNat 3

/-- `getSessionFilePath`. -/
def getSessionFilePath (sessionDir sessionId : String) : String :=
  sessionDir ++ "/" ++ sessionId ++ ".jsonl"

/-- `createUniqueSessionFileTarget`: the first of a hundred ids whose
file does not exist. -/
def createUniqueSessionFileTarget (disk : Disk) (sessionDir : String)
    (createSessionId : Nat → String) : Option (String × String) :=
  ((List.range 100).map fun i =>
      (createSessionId i, getSessionFilePath sessionDir (createSessionId i))).find?
    fun target => (disk target.2).isNone

-- ======== the index

namespace SessionManager

/-- `labelsById` and `labelTimestampsById` after a label change. -/
def applyLabel (targetId : String) (label : Option String)
    (timestamp : String) (s : SessionManager) : SessionManager :=
  match label.filter (· ≠ "") with
  | some label =>
    { s with
      labelsById := s.labelsById.set targetId label
      labelTimestampsById := s.labelTimestampsById.set targetId timestamp }
  | none =>
    { s with
      labelsById := s.labelsById.delete targetId
      labelTimestampsById := s.labelTimestampsById.delete targetId }

/-- One step of `_buildIndex`. -/
def indexEntry (s : SessionManager) : FileEntry → SessionManager
  | .session _ => s
  | .entry e =>
    let s := { s with
      byId := s.byId.set e.id e
      leafId := some e.id }
    match e.body with
    | .label targetId label => s.applyLabel targetId label e.timestamp
    | _ => s

/-- `_buildIndex`. -/
def buildIndex (s : SessionManager) : SessionManager :=
  s.fileEntries.foldl indexEntry
    { s with
      byId := []
      labelsById := []
      labelTimestampsById := []
      leafId := none }

/-- `_refreshHasAssistantEntry`. -/
def refreshHasAssistantEntry (s : SessionManager) : SessionManager :=
  { s with
    hasAssistantEntry :=
      (entriesOf s.fileEntries).any fun e => e.assistant?.isSome }

/-- `getHeader`. -/
def getHeader (s : SessionManager) : Option SessionHeader :=
  s.fileEntries.findSome? FileEntry.header?

/-- `getEntries`. -/
def getEntries (s : SessionManager) : List SessionEntry :=
  entriesOf s.fileEntries

/-- `getBranch`; `none` is a walk that never ends. -/
def getBranch (s : SessionManager) (fromId : Option String) :
    Option (List SessionEntry) :=
  match fromId.or s.leafId with
  | none => some []
  | some id =>
    if id = "" then some []
    else
      match s.byId.get id with
      | none => some []
      | some e => walk s.byId e

/-- The method `buildSessionContext`. -/
def buildSessionContext (s : SessionManager) : Option SessionContext :=
  Session.buildSessionContext s.fileEntries
    (match s.leafId with
      | none => .null
      | some id => .id id)
    (some s.byId)

/-- The in-memory part of `_appendEntry`. -/
def pushEntry (entry : SessionEntry) (s : SessionManager) : SessionManager :=
  { s with
    fileEntries := s.fileEntries ++ [.entry entry]
    hasAssistantEntry := s.hasAssistantEntry || entry.assistant?.isSome
    byId := s.byId.set entry.id entry
    leafId := some entry.id }

/-- `target.message.usage = usage` on the entry object of that id. -/
def mutateUsage (targetId : String) (usage : Usage) (s : SessionManager) :
    SessionManager :=
  let mutate := fun e : SessionEntry =>
    if e.id = targetId then setUsage usage e else e
  { s with
    fileEntries := s.fileEntries.map fun
      | .session h => .session h
      | .entry e => .entry (mutate e)
    byId := s.byId.map fun p => (p.1, mutate p.2) }

end SessionManager

-- ======== writing

/-- `_rewriteFile`. -/
def rewriteFile (throws : Bool) : Op Unit := fun m =>
  match m.manager.persist, m.manager.sessionFile with
  | true, some file =>
    if throws then .error "writeFileAtomicSync" m
    else
      .ok () { m with disk := m.disk.write file (fileText m.manager.fileEntries) }
  | _, _ => .ok () m

/-- `this.flushed = flushed`. -/
def setFlushed (flushed : Bool) : Op Unit :=
  modify fun m => { m with manager := { m.manager with flushed := flushed } }

/-- `flushNow`. -/
def flushNow (throws : Bool) : Op Unit := do
  let m ← get
  match m.manager.persist, m.manager.sessionFile with
  | true, some file =>
    if m.manager.flushed && (m.disk file).isSome then pure ()
    else
      rewriteFile throws
      setFlushed true
  | _, _ => pure ()

/-- `session_state` and `session_info` are written before the first
assistant message. -/
def persistsWithoutAssistant (entry : SessionEntry) : Bool :=
  match entry.body with
  | .sessionState _ => true
  | .sessionInfo _ => true
  | _ => false

/-- `appendFileSync(file, line)`: on a throw some prefix of the line has
been written. -/
def appendFile (throws : Option Nat) (file : String) (line : List UInt8) :
    Op Unit := fun m =>
  let before := (m.disk file).getD []
  match throws with
  | none => .ok () { m with disk := m.disk.write file (before ++ line) }
  | some n =>
    .error "appendFileSync"
      { m with disk := m.disk.write file (before ++ line.take n) }

/-- `_persist`. -/
def persistEntry (io : Io) (entry : SessionEntry) : Op Unit := do
  let m ← get
  match m.manager.persist, m.manager.sessionFile with
  | true, some file =>
    if !m.manager.hasAssistantEntry && !persistsWithoutAssistant entry then
      setFlushed false
    else if !m.manager.flushed || (m.disk file).isNone then
      rewriteFile (io.writeFileAtomicSync 0)
      setFlushed true
    else
      appendFile io.appendFileSync file (entryLine (.entry entry))
  | _, _ => pure ()

-- ======== the appends

/-- Change the manager. -/
def modifyManager (f : SessionManager → SessionManager) : Op Unit :=
  modify fun m => { m with manager := f m.manager }

/-- `_appendEntry`. -/
def appendEntry (io : Io) (entry : SessionEntry) : Op Unit := do
  modifyManager (·.pushEntry entry)
  persistEntry io entry

/-- The entry an append builds. -/
def newEntry (io : Io) (body : EntryBody) (s : SessionManager) :
    SessionEntry where
  id := generateId s.byId.has (io.randomUUID 0)
  parentId := s.leafId
  timestamp := io.now
  body := body

/-- Build an entry under the leaf and append it: what the append methods
share. -/
def appendBody (io : Io) (body : EntryBody) : Op String := do
  let m ← get
  let entry := newEntry io body m.manager
  appendEntry io entry
  return entry.id

def appendMessage (io : Io) (message : AgentMessage) : Op String :=
  appendBody io (.message message)

def appendThinkingLevelChange (io : Io) (thinkingLevel : String) : Op String :=
  appendBody io (.thinkingLevelChange thinkingLevel)

def appendServiceTierChange (io : Io) (serviceTier : ServiceTier) :
    Op String :=
  appendBody io (.serviceTierChange serviceTier)

def appendModelChange (io : Io) (provider modelId : String) : Op String :=
  appendBody io (.modelChange provider modelId)

def appendCompaction (io : Io) (c : CompactionEntry) : Op String :=
  appendBody io (.compaction c)

def appendCustomEntry (io : Io) (customType : String) (data : Option Json) :
    Op String :=
  appendBody io (.custom customType data)

/-- White space as `trim` takes it. -/
def isTrimmed (c : Char) : Bool :=
  c.toNat ∈ [0x9, 0xA, 0xB, 0xC, 0xD, 0x20, 0xA0, 0x1680, 0x2028, 0x2029,
    0x202F, 0x205F, 0x3000, 0xFEFF] || (0x2000 ≤ c.toNat && c.toNat ≤ 0x200A)

/-- `name.trim()`. -/
def trim (s : String) : String :=
  String.ofList
    ((s.toList.dropWhile isTrimmed).reverse.dropWhile isTrimmed).reverse

def appendSessionInfo (io : Io) (name : String) : Op String :=
  appendBody io (.sessionInfo (some (trim name)))

def appendSessionState (io : Io) (status : SessionStateStatus) : Op String :=
  appendBody io (.sessionState status)

def appendAgentStatus (io : Io) (status : AgentStatus) : Op String :=
  appendBody io (.agentStatus status)

def appendGitState (io : Io) (git : GitContext) : Op String :=
  appendBody io (.gitState git)

def appendCustomMessageEntry (io : Io) (c : CustomMessageEntry) : Op String :=
  appendBody io (.customMessage c)

/-- The target's usage changes in memory before the entry is appended. -/
def appendChildUsageAttribution (io : Io) (a : ChildUsageAttributionEntry) :
    Op String := do
  let m ← get
  match (m.manager.byId.get a.targetId).bind SessionEntry.assistant? with
  | none => throw ("Assistant message entry " ++ a.targetId ++ " not found")
  | some _ =>
    modifyManager (·.mutateUsage a.targetId (cloneUsage a.aggregateUsage))
    appendBody io (.childUsageAttributed
      { a with
        childUsage := cloneUsage a.childUsage
        aggregateUsage := cloneUsage a.aggregateUsage })

/-- The label index changes only once the entry is persisted. -/
def appendLabelChange (io : Io) (targetId : String) (label : Option String) :
    Op String := do
  let m ← get
  if !m.manager.byId.has targetId then
    throw ("Entry " ++ targetId ++ " not found")
  else
    let id ← appendBody io (.label targetId label)
    modifyManager (·.applyLabel targetId label io.now)
    return id

/-- The undo of `_appendEntryWithRollback`. -/
def undoAppend (previousLeafId : Option String) (s : SessionManager) :
    SessionManager :=
  match s.leafId with
  | none => s
  | some leafId =>
    { s with
      byId := s.byId.delete leafId
      fileEntries := s.fileEntries.dropLast
      leafId := previousLeafId
      flushed := false }.refreshHasAssistantEntry

/-- `_appendEntryWithRollback`. -/
def appendEntryWithRollback (io : Io) (append : Op String) : Op String := do
  let m ← get
  let previousLeafId := m.manager.leafId
  tryCatch
    (do
      let entryId ← append
      flushNow (io.writeFileAtomicSync 1)
      return entryId)
    fun error => do
      let m ← get
      if m.manager.leafId ≠ none ∧ m.manager.leafId ≠ previousLeafId then
        modifyManager (undoAppend previousLeafId)
        tryCatch (flushNow (io.writeFileAtomicSync 2))
          fun _ => setFlushed false
      throw error

def appendCustomEntryWithRollback (io : Io) (customType : String)
    (data : Option Json) : Op String :=
  appendEntryWithRollback io (appendCustomEntry io customType data)

def appendCustomMessageEntryWithRollback (io : Io) (c : CustomMessageEntry) :
    Op String :=
  appendEntryWithRollback io (appendCustomMessageEntry io c)

-- ======== the branches

/-- `branch`. -/
def branch (branchFromId : String) : Op Unit := do
  let m ← get
  if !m.manager.byId.has branchFromId then
    throw ("Entry " ++ branchFromId ++ " not found")
  else
    modifyManager fun s => { s with leafId := some branchFromId }

/-- `resetLeaf`. -/
def resetLeaf : Op Unit :=
  modifyManager fun s => { s with leafId := none }

/-- `branchWithSummary`. -/
def branchWithSummary (io : Io) (branchFromId : Option String)
    (summary : String) (details : Option Json) (fromHook : Option Bool)
    (usage : Option Usage) : Op String := do
  let m ← get
  if branchFromId.any fun id => !m.manager.byId.has id then
    throw ("Entry " ++ branchFromId.getD "" ++ " not found")
  else
    modifyManager fun s => { s with leafId := branchFromId }
    appendBody io (.branchSummary
      { fromId := branchFromId.getD "root"
        summary := summary
        details := details
        fromHook := fromHook
        usage := usage })

/-- The label entries a branched session starts with, chained after its
last entry; `taken` are the ids in use. -/
def branchLabelEntries (randomUUID : Nat → Nat → String) :
    Nat → List String → Option String → List (String × String × String) →
      List SessionEntry
  | _, _, _, [] => []
  | n, taken, parentId, (targetId, label, timestamp) :: labels =>
    let id := generateId taken.contains (randomUUID n)
    { id := id
      parentId := parentId
      timestamp := timestamp
      body := .label targetId (some label) }
      :: branchLabelEntries randomUUID (n + 1) (taken ++ [id]) (some id) labels

/-- The labels of the entries that are kept, in the order of the label
index. -/
def labelsToWrite (s : SessionManager) (pathEntryIds : List String) :
    List (String × String × String) :=
  (s.labelsById.filter fun p => pathEntryIds.contains p.1).map fun p =>
    (p.1, p.2, (s.labelTimestampsById.get p.1).getD "")

/-- The entries of the session branched off at `path`: the path without
its labels, then one label entry for every labelled entry kept. -/
def branchedEntries (io : Io) (s : SessionManager)
    (path : List SessionEntry) : List SessionEntry :=
  let pathWithoutLabels := path.filter fun e => !e.isLabel
  let pathEntryIds := pathWithoutLabels.map (·.id)
  let lastEntryId := (pathWithoutLabels.getLast?.map (·.id)).filter (· ≠ "")
  pathWithoutLabels
    ++ branchLabelEntries io.randomUUID 0 pathEntryIds lastEntryId
      (labelsToWrite s pathEntryIds)

/-- The manager switched to the session branched off at `path`. -/
def branchedManager (io : Io) (s : SessionManager) (path : List SessionEntry)
    (newSessionId : String) (newSessionFile : Option String) :
    SessionManager :=
  let header : SessionHeader :=
    { version := some currentSessionVersion
      id := newSessionId
      timestamp := io.now
      cwd := s.cwd
      parentSession := if s.persist then s.sessionFile else none
      rlmDepth := some (io.resolveSessionRlmDepth s.getHeader
        ((s.sessionFile.or newSessionFile).getD ""))
      git := if s.persist then io.captureGitContext s.cwd else none }
  { s with
    fileEntries := .session header :: (branchedEntries io s path).map .entry
    sessionId := newSessionId
    sessionFile := if s.persist then newSessionFile else s.sessionFile
    }.refreshHasAssistantEntry.buildIndex

/-- The id and file of the branched session. -/
def branchTarget (io : Io) (m : Machine) : Option (String × Option String) :=
  if m.manager.persist then
    (createUniqueSessionFileTarget m.disk m.manager.sessionDir
      io.createSessionId).map fun t => (t.1, some t.2)
  else some (io.createSessionId 0, none)

/-- `createBranchedSession`; `none` is a walk that never ends. The file
is written now only if it holds an assistant message. -/
def createBranchedSession (io : Io) (leafId : String) (m : Machine) :
    Option (EStateM.Result String Machine (Option String)) :=
  (m.manager.getBranch (some leafId)).map fun path =>
    if path.isEmpty then .error ("Entry " ++ leafId ++ " not found") m
    else
      match branchTarget io m with
      | none => .error "Unable to create a unique session file" m
      | some (newSessionId, newSessionFile) =>
        let s := branchedManager io m.manager path newSessionId newSessionFile
        if !m.manager.persist then .ok none { m with manager := s }
        else if s.hasAssistantEntry then
          (do
            rewriteFile (io.writeFileAtomicSync 0)
            setFlushed true
            return newSessionFile : Op (Option String))
            { m with manager := s }
        else
          .ok newSessionFile { m with manager := { s with flushed := false } }

-- ======== new sessions

structure NewSessionOptions where
  id : Option String
  parentSession : Option String
  rlmDepth : Option (Option Numeral)

/-- The id and file a new session takes. -/
def newSessionTarget (io : Io) (options : NewSessionOptions) (m : Machine) :
    Except String (String × Option String) :=
  let s := m.manager
  let sessionId := options.id.getD (io.createSessionId 0)
  if !s.persist then .ok (sessionId, none)
  else if options.id.any (· ≠ "") then
    let file := getSessionFilePath s.sessionDir sessionId
    if (m.disk file).isSome then
      .error ("Session file already exists for id \"" ++ sessionId ++ "\": "
        ++ file)
    else .ok (sessionId, some file)
  else
    match createUniqueSessionFileTarget m.disk s.sessionDir
        (fun i => io.createSessionId (i + 1)) with
    | some (id, file) => .ok (id, some file)
    | none => .error "Unable to create a unique session file"

/-- `newSession`. -/
def newSession (io : Io) (options : NewSessionOptions) :
    Op (Option String) := fun m =>
  match newSessionTarget io options m with
  | .error e => .error e m
  | .ok (sessionId, sessionFile) =>
    let s := { m.manager with sessionId := sessionId }
    let rlmDepth : Except String (Option Numeral) :=
      match options.rlmDepth with
      | some depth => .ok depth
      | none => io.newRlmDepth
    match rlmDepth with
    | .error e => .error e { m with manager := s }
    | .ok rlmDepth =>
      let header : SessionHeader :=
        { version := some currentSessionVersion
          id := sessionId
          timestamp := io.now
          cwd := s.cwd
          parentSession := options.parentSession
          rlmDepth := rlmDepth
          git := if s.persist then io.captureGitContext s.cwd else none }
      let s' := { s with
        fileEntries := [.session header]
        hasAssistantEntry := false
        byId := []
        labelsById := []
        labelTimestampsById := []
        leafId := none
        flushed := false
        sessionFile := if s.persist then sessionFile else s.sessionFile }
      .ok s'.sessionFile { m with manager := s' }

end OneHarness.Session
