/-
Opening a session: what the manager holds and what is on the disk.

Opening repairs the file, loads it, and goes on with the entries it
loaded, migrated to the current version and with a rewritten depth where
the header needs one (`openedEntries`). Only then is the file written
again (`openRewrites`), so a file of the current version is left as the
repair left it: `openSession_eq`, `openSession_current`.

Entries of version 2 and later pass through unchanged
(`entriesOf_openedEntries`), and the opened manager stands on the last
one (`OpenedOn`).
-/
import OneHarness.Session.Open
import OneHarness.Session.Proofs.Index
import OneHarness.Session.Proofs.Ops
import OneHarness.Session.Proofs.Repair

namespace OneHarness.Session

open Lib Lib.Lines

-- ======== the entries

/-- A subsession whose depth is missing or bad gets one. -/
def needsDepth (fs : List FileEntry) : Bool :=
  match fs.findSome? FileEntry.header? with
  | some h => h.parentSession.any (· ≠ "") && !isValidRlmDepth h.rlmDepth
  | none => false

/-- The entries a manager holds after opening a file of `fs`. -/
def openedEntries (io : Io) (path : String) (fs : List FileEntry) :
    List FileEntry :=
  let migrated := (migrateToCurrentVersion io fs).1
  if needsDepth fs then
    mapHeader (fun h => { h with
      rlmDepth := some (io.resolveSessionRlmDepth
        (fs.findSome? FileEntry.header?) path) }) migrated
  else migrated

/-- Whether opening a file of `fs` writes it again. -/
def openRewrites (io : Io) (fs : List FileEntry) : Bool :=
  (migrateToCurrentVersion io fs).2 || needsDepth fs

/-- The manager before it indexes what it loaded. -/
def loadedManager (io : Io) (path : String) (fs : List FileEntry)
    (s : SessionManager) : SessionManager :=
  let header := fs.findSome? FileEntry.header?
  { { s with fileEntries := fs }.refreshHasAssistantEntry with
    sessionId := (header.map (·.id)).getD (io.createSessionId 0)
    fileEntries := openedEntries io path fs }

/-- The manager after opening a file of `fs`. -/
def openedManager (io : Io) (path : String) (fs : List FileEntry)
    (s : SessionManager) : SessionManager :=
  { (loadedManager io path fs s).buildIndex with flushed := true }

theorem adoptEntries_eq {io : Io} {path : String} {fs : List FileEntry}
    {m : Machine} (hm : PersistedAt m.manager path) (hne : fs ≠ []) :
    adoptEntries io path fs m
      = if openRewrites io fs && io.writeFileAtomicSync 0 then
          .error "writeFileAtomicSync"
            { m with manager := loadedManager io path fs m.manager }
        else .ok ()
          { disk :=
              if openRewrites io fs then
                m.disk.write path (fileText (openedEntries io path fs))
              else m.disk
            manager := openedManager io path fs m.manager } := by
  have hne' : fs.isEmpty = false := by simpa using hne
  have hloaded : PersistedAt (loadedManager io path fs m.manager) path :=
    ⟨hm.persist, hm.sessionFile⟩
  have hrun : adoptEntries io path fs m
      = (if openRewrites io fs then (do
            rewriteFile (io.writeFileAtomicSync 0)
            modifyManager SessionManager.buildIndex
            setFlushed true : Op Unit)
          else (do
            modifyManager SessionManager.buildIndex
            setFlushed true))
          { m with manager := loadedManager io path fs m.manager } := by
    unfold adoptEntries
    rw [modifyManager_bind, hne']
    rfl
  rw [hrun]
  cases hw : openRewrites io fs with
  | false => rfl
  | true =>
    simp only [if_true, Bool.true_and]
    cases ht : io.writeFileAtomicSync 0 with
    | true => exact bind_of_error (rewriteFile_eq hloaded true)
    | false => exact bind_of_ok (rewriteFile_eq hloaded false)

-- ======== what stays the same

theorem versionOf_current {h : SessionHeader} (fs : List FileEntry)
    (hv : h.version = some currentSessionVersion) :
    versionOf (.session h :: fs) = 3 := by
  simp only [versionOf, List.findSome?_cons, FileEntry.header?,
    Option.bind_some, hv, Option.getD_some]
  decide +kernel

theorem entriesOf_mapHeader (f : SessionHeader → SessionHeader)
    (fs : List FileEntry) : entriesOf (mapHeader f fs) = entriesOf fs := by
  induction fs with
  | nil => rfl
  | cons x fs ih =>
    cases x with
    | session h => rfl
    | entry e => rw [mapHeader, entriesOf_entry, entriesOf_entry, ih]

theorem entriesOf_migrateV2ToV3 (fs : List FileEntry) :
    entriesOf (migrateV2ToV3 fs) = entriesOf fs := by
  induction fs with
  | nil => rfl
  | cons x fs ih =>
    cases x with
    | session h => exact ih
    | entry e => exact congrArg (e :: ·) ih

/-- Migration leaves the entries of version 2 and later alone. -/
theorem entriesOf_migrate (io : Io) {fs : List FileEntry}
    (hv : 2 ≤ versionOf fs) :
    entriesOf (migrateToCurrentVersion io fs).1 = entriesOf fs := by
  unfold migrateToCurrentVersion
  split
  · rfl
  · simp only [if_neg (not_lt.2 hv)]
    exact entriesOf_migrateV2ToV3 fs

theorem entriesOf_openedEntries (io : Io) (path : String)
    {fs : List FileEntry} (hv : 2 ≤ versionOf fs) :
    entriesOf (openedEntries io path fs) = entriesOf fs := by
  unfold openedEntries
  simp only []
  split
  · rw [entriesOf_mapHeader, entriesOf_migrate io hv]
  · exact entriesOf_migrate io hv

/-- A file of the current version whose header has its depth is opened
as it was loaded. -/
theorem openedEntries_current (io : Io) (path : String)
    {fs : List FileEntry} (hv : 3 ≤ versionOf fs)
    (hd : needsDepth fs = false) : openedEntries io path fs = fs := by
  simp only [openedEntries, migrateToCurrentVersion, if_pos hv, hd,
    Bool.false_eq_true, if_false]

theorem openRewrites_current (io : Io) {fs : List FileEntry}
    (hv : 3 ≤ versionOf fs) (hd : needsDepth fs = false) :
    openRewrites io fs = false := by
  rw [openRewrites, migrateToCurrentVersion, if_pos hv, hd]
  rfl

theorem migrate_cons_session (io : Io) (h : SessionHeader)
    (fs : List FileEntry) :
    ∃ h' fs', (migrateToCurrentVersion io (.session h :: fs)).1
      = .session h' :: fs' := by
  unfold migrateToCurrentVersion
  split
  · exact ⟨h, fs, rfl⟩
  · simp only []
    split
    · exact ⟨_, _, rfl⟩
    · exact ⟨_, _, rfl⟩

/-- The header stays in front. -/
theorem openedEntries_cons_session (io : Io) (path : String)
    (h : SessionHeader) (fs : List FileEntry) :
    ∃ h' fs', openedEntries io path (.session h :: fs)
      = .session h' :: fs' := by
  obtain ⟨h', fs', heq⟩ := migrate_cons_session io h fs
  unfold openedEntries
  simp only [heq]
  split
  · exact ⟨_, _, rfl⟩
  · exact ⟨_, _, rfl⟩

-- ======== the opened manager

/-- The manager holds the entries of the file at `path`, indexed, and
stands on the last one. -/
structure OpenedOn (s : SessionManager) (path : String)
    (fs : List FileEntry) : Prop where
  persistedAt : PersistedAt s path
  flushed : s.flushed = true
  fileEntries : s.fileEntries = fs
  byId : s.byId = indexOf (entriesOf fs)
  leafId : s.leafId = (entriesOf fs).getLast?.map (·.id)
  labelMaps : s.labelMaps
    = (entriesOf fs).foldl SessionManager.labelStep ([], [])

section Opened

variable {io : Io} {cwd dir path : String} {fs : List FileEntry}
  {s : SessionManager} {disk : Disk} {m : Machine}

theorem openedOn (io : Io) (fs : List FileEntry) (hs : PersistedAt s path) :
    OpenedOn (openedManager io path fs s) path (openedEntries io path fs) where
  persistedAt :=
    ⟨(SessionManager.buildIndex_persist _).trans hs.persist,
      (SessionManager.buildIndex_sessionFile _).trans hs.sessionFile⟩
  flushed := rfl
  fileEntries := SessionManager.buildIndex_fileEntries _
  byId := SessionManager.buildIndex_byId _
  leafId := SessionManager.buildIndex_leafId _
  labelMaps := SessionManager.buildIndex_labelMaps _

theorem openedManager_hasAssistantEntry :
    (openedManager io path fs s).hasAssistantEntry
      = (entriesOf fs).any fun e => e.assistant?.isSome :=
  SessionManager.buildIndex_hasAssistantEntry _

/-- Opening a file that is loaded as `fs`. -/
theorem openSession_eq (io : Io) (cwd dir : String)
    (hexists : (disk path).isSome = true)
    (hload : loadEntriesFromFile (repairJsonlDamage disk path) path = some fs)
    (hne : fs ≠ []) :
    ∃ s, PersistedAt s path
      ∧ openSession io cwd dir path disk
        = if openRewrites io fs && io.writeFileAtomicSync 0 then
            some (.error "writeFileAtomicSync"
              { disk := repairJsonlDamage disk path
                manager := loadedManager io path fs s })
          else some (.ok ()
            { disk :=
                if openRewrites io fs then
                  (repairJsonlDamage disk path).write path
                    (fileText (openedEntries io path fs))
                else repairJsonlDamage disk path
              manager := openedManager io path fs s }) := by
  refine ⟨{ freshManager cwd dir true with sessionFile := some path },
    ⟨rfl, rfl⟩, ?_⟩
  unfold openSession setSessionFile
  simp only [hexists, if_true, freshManager, hload, Option.map_some]
  rw [adoptEntries_eq ⟨rfl, rfl⟩ hne, apply_ite some]

/-- A file of the current version whose header has its depth opens as it
is loaded, and is not written again. -/
theorem openSession_current (io : Io) (cwd dir : String)
    (hexists : (disk path).isSome = true)
    (hload : loadEntriesFromFile (repairJsonlDamage disk path) path = some fs)
    (hne : fs ≠ []) (hv : 3 ≤ versionOf fs) (hd : needsDepth fs = false) :
    ∃ m, openSession io cwd dir path disk = some (.ok () m)
      ∧ m.disk = repairJsonlDamage disk path ∧ OpenedOn m.manager path fs
      ∧ m.manager.hasAssistantEntry
        = (entriesOf fs).any fun e => e.assistant?.isSome := by
  obtain ⟨s, hs, heq⟩ := openSession_eq io cwd dir hexists hload hne
  have hon := openedOn io fs hs
  rw [openedEntries_current io path hv hd] at hon
  rw [openRewrites_current io hv hd] at heq
  exact ⟨_, heq, rfl, hon, openedManager_hasAssistantEntry⟩

end Opened

end OneHarness.Session
