/-
Opening a session file: repair, load, migrate, index; and forking one
into a new file.

A file that holds a JSON value that is no entry has no typed reading, and
opening it answers `none`; so does a fork whose search for a surviving
parent never ends.

# Versions

A file of version 1 has no ids: the migration draws one for every entry
and chains them in file order. Version 2 differs from 3 in the name of
one role that no type here has, so its migration only raises the version.
-/
import OneHarness.Session.Manager

namespace OneHarness.Session

open Lib

-- ======== migration

/-- `migrateV1ToV2` on the entries after the ones already chained. -/
def migrateV1ToV2 (randomUUID : Nat → Nat → String) :
    Nat → Option String → List FileEntry → List FileEntry
  | _, _, [] => []
  | n, prevId, .session h :: fs =>
    .session { h with version := some (.ofNat 2) }
      :: migrateV1ToV2 randomUUID n prevId fs
  | n, prevId, .entry e :: fs =>
    let id := generateId (fun _ => false) (randomUUID n)
    .entry { e with
      id := id
      parentId := prevId }
      :: migrateV1ToV2 randomUUID (n + 1) (some id) fs

/-- `migrateV2ToV3`. -/
def migrateV2ToV3 (fs : List FileEntry) : List FileEntry :=
  fs.map fun
    | .session h => .session { h with version := some (.ofNat 3) }
    | .entry e => .entry e

/-- The version of a file: its header's, or 1. -/
def versionOf (fs : List FileEntry) : ℚ :=
  (((fs.findSome? FileEntry.header?).bind (·.version)).getD
    (.ofNat 1)).toRat

/-- `migrateToCurrentVersion`: the entries, and whether they changed. -/
def migrateToCurrentVersion (io : Io) (fs : List FileEntry) :
    List FileEntry × Bool :=
  if versionOf fs ≥ 3 then (fs, false)
  else
    let fs' :=
      if versionOf fs < 2 then migrateV1ToV2 io.randomUUID 0 none fs else fs
    (migrateV2ToV3 fs', true)

-- ======== opening

/-- `isValidRlmDepth`: a safe non-negative integer. -/
def isValidRlmDepth : Option Numeral → Bool
  | none => false
  | some n => n.toRat.den == 1 && 0 ≤ n.toRat && n.toRat ≤ 9007199254740991

/-- Change the first header. -/
def mapHeader (f : SessionHeader → SessionHeader) :
    List FileEntry → List FileEntry
  | [] => []
  | .session h :: fs => .session (f h) :: fs
  | .entry e :: fs => .entry e :: mapHeader f fs

/-- `setSessionFile` on entries that were loaded. -/
def adoptEntries (io : Io) (sessionFile : String)
    (fileEntries : List FileEntry) : Op Unit := do
  modifyManager fun s =>
    { s with fileEntries := fileEntries }.refreshHasAssistantEntry
  if fileEntries.isEmpty then
    let _ ← newSession io { id := none, parentSession := none, rlmDepth := none }
    modifyManager fun s => { s with sessionFile := some sessionFile }
    rewriteFile (io.writeFileAtomicSync 0)
    setFlushed true
  else
    let header := fileEntries.findSome? FileEntry.header?
    let (migrated, changed) := migrateToCurrentVersion io fileEntries
    let needsDepth := match header with
      | some h => h.parentSession.any (· ≠ "") && !isValidRlmDepth h.rlmDepth
      | none => false
    let depth := some (io.resolveSessionRlmDepth header sessionFile)
    modifyManager fun s =>
      { s with
        sessionId := (header.map (·.id)).getD (io.createSessionId 0)
        fileEntries :=
          if needsDepth then mapHeader (fun h => { h with rlmDepth := depth })
            migrated
          else migrated }
    if changed || needsDepth then
      rewriteFile (io.writeFileAtomicSync 0)
    modifyManager SessionManager.buildIndex
    setFlushed true

/-- `setSessionFile`; `none` is a file without a typed reading. -/
def setSessionFile (io : Io) (sessionFile : String) (m : Machine) :
    Option (EStateM.Result String Machine Unit) :=
  let m := { m with
    manager := { m.manager with sessionFile := some sessionFile } }
  if (m.disk sessionFile).isSome then
    let disk :=
      if m.manager.persist then repairJsonlDamage m.disk sessionFile
      else m.disk
    (loadEntriesFromFile disk sessionFile).map fun fileEntries =>
      adoptEntries io sessionFile fileEntries { m with disk := disk }
  else
    some ((do
      let _ ← newSession io
        { id := none, parentSession := none, rlmDepth := none }
      modifyManager fun s => { s with sessionFile := some sessionFile }
      : Op Unit) m)

/-- The fields before the constructor fills them. -/
def freshManager (cwd sessionDir : String) (persist : Bool) :
    SessionManager where
  sessionId := ""
  sessionFile := none
  sessionDir := sessionDir
  cwd := cwd
  persist := persist
  flushed := false
  hasAssistantEntry := false
  fileEntries := []
  byId := []
  labelsById := []
  labelTimestampsById := []
  leafId := none

/-- `new SessionManager(cwd, sessionDir, sessionFile, true)`. -/
def openSession (io : Io) (cwd sessionDir sessionFile : String)
    (disk : Disk) : Option (EStateM.Result String Machine Unit) :=
  setSessionFile io sessionFile
    { disk := disk
      manager := freshManager cwd sessionDir true }

-- ======== forking

/-- `droppedParent`: the parent of every `git_state` entry. -/
def droppedParents (entries : List SessionEntry) : JsMap String (Option String) :=
  (entries.filter SessionEntry.isGitState).foldl
    (fun m e => m.set e.id e.parentId) []

/-- `liveParent`: climb out of the dropped entries; `none` is a climb
that never ends. -/
def liveParent (dropped : JsMap String (Option String)) :
    Nat → Option String → Option (Option String)
  | _, none => some none
  | 0, some _ => none
  | fuel + 1, some pid =>
    match dropped.get pid with
    | none => some (some pid)
    | some parentId => liveParent dropped fuel parentId

/-- The entries a fork writes: the survivors, each under its nearest
surviving ancestor. No climb is longer than the file. -/
def forkEntries (entries : List SessionEntry) : Option (List SessionEntry) :=
  (entries.filter fun e => !e.isGitState).mapM fun e =>
    (liveParent (droppedParents entries) (entries.length + 1)
      e.parentId).map fun parentId => { e with parentId := parentId }

/-- `forkFrom`: `none` where a file has no typed reading or the search
for a parent never ends. `io` is met while the fork is written, `io'`
while it is opened. -/
def forkFrom (io io' : Io) (sourcePath targetCwd dir : String) (disk : Disk) :
    Option (EStateM.Result String Machine Unit) := do
  let m : Machine := { disk := disk, manager := freshManager targetCwd dir true }
  let sourceEntries ← loadEntriesFromFile disk sourcePath
  match sourceEntries.findSome? FileEntry.header? with
  | none =>
    some (.error (if sourceEntries.isEmpty then
        "Cannot fork: source session file is empty or invalid: " ++ sourcePath
      else "Cannot fork: source session has no header: " ++ sourcePath) m)
  | some sourceHeader =>
    let (migrated, _) := migrateToCurrentVersion io sourceEntries
    match createUniqueSessionFileTarget disk dir io.createSessionId with
    | none => some (.error "Unable to create a unique session file" m)
    | some (newSessionId, newSessionFile) =>
      let newHeader : SessionHeader :=
        { version := some currentSessionVersion
          id := newSessionId
          timestamp := io.now
          cwd := targetCwd
          parentSession := some sourcePath
          rlmDepth :=
            some (io.resolveSessionRlmDepth (some sourceHeader) sourcePath)
          git := io.captureGitContext targetCwd }
      let out ← forkEntries (entriesOf migrated)
      let content :=
        (FileEntry.session newHeader :: out.map .entry).flatMap entryLine
      openSession io' targetCwd dir newSessionFile
        (disk.write newSessionFile content)

end OneHarness.Session
