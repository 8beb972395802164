/-
`acquireSessionLease`: the lease of a session is a directory that its owner
renames into place, and that is renamed away when the owner is gone or
releases it.

The world is that of one canonical session path, with the directories
beside its lease. A section runs under the guard of the lease, so sections
do not interleave; a process that crashes leaves its section after any of
its steps, or within the write of `owner.json`. A UUID is the number of its
draw. A process is known by its id and its start, and no two have both.
-/
import OneHarness.Lib.JsMap
import OneHarness.Lib.Steps

namespace OneHarness.Session.Lease

open Lib

structure SessionLeaseOwner where
  token : Nat
  pid : Nat
  processStartId : Option String
  activeSessionId : Option String
  sessionPath : String
  createdAt : Int
deriving DecidableEq

/-- What `owner.json` is read as; a corrupt one with what is wrong with it. -/
inductive OwnerFile where
  | absent
  | unreadable
  | corrupt (reason : String)
  | owner (owner : SessionLeaseOwner)
deriving DecidableEq

/-- The lease, `<lease>.candidate-<pid>-<token>`, and
`<lease>.stale-<pid>-<uuid>`. -/
inductive DirectoryName where
  | lease
  | candidate (pid token : Nat)
  | stale (pid uuid : Nat)
deriving DecidableEq

structure Disk where
  directories : JsMap DirectoryName OwnerFile
  drawn : Nat

inductive LeaseError where
  | sessionAlreadyActive (sessionPath : String)
      (activeSessionId : Option String)
  | error (text : String)
  | ENOENT
  | EEXIST
  | ENOTEMPTY
  | EPERM
deriving DecidableEq

def LeaseError.message : LeaseError → String
  | .sessionAlreadyActive sessionPath activeSessionId =>
    match activeSessionId.filter (· ≠ "") with
    | some activeSessionId =>
      s!"Session is already active in {activeSessionId}: {sessionPath}"
    | none =>
      s!"Session is already active in another process: {sessionPath}"
  | .error text => text
  | .ENOENT => "ENOENT"
  | .EEXIST => "EEXIST"
  | .ENOTEMPTY => "ENOTEMPTY"
  | .EPERM => "EPERM"

/-- What a section sees of the system, and the path of the lease. -/
structure Machine where
  running : JsMap Nat String
  now : Int
  win32 : Bool
  directory : String

abbrev Fs (α : Type) := Steps Disk LeaseError α

-- ======== the file system

def Disk.get (disk : Disk) (name : DirectoryName) : Option OwnerFile :=
  disk.directories.get name

def Disk.put (disk : Disk) (name : DirectoryName) (file : OwnerFile) : Disk :=
  { disk with directories := disk.directories.set name file }

def Disk.drop (disk : Disk) (name : DirectoryName) : Disk :=
  { disk with directories := disk.directories.delete name }

def randomUUID : Fs Nat := do
  let uuid ← Steps.read Disk.drawn
  Steps.step fun disk => { disk with drawn := disk.drawn + 1 }
  pure uuid

/-- A rename onto a directory fails: on Windows always, elsewhere when the
directory holds a file. -/
def renameSync (m : Machine) (source target : DirectoryName) : Fs Unit := do
  let found ← Steps.read fun disk => (disk.get source, disk.get target)
  match found with
  | (none, _) => Steps.throw .ENOENT
  | (some file, none) =>
    Steps.step fun disk => (disk.drop source).put target file
  | (some file, some existing) =>
    if m.win32 then Steps.throw .EPERM
    else if existing = .absent then
      Steps.step fun disk => (disk.drop source).put target file
    else Steps.throw .ENOTEMPTY

/-- `rmSync(name, { recursive: true, force: true })`: the file goes before
the directory. -/
def rmSync (name : DirectoryName) : Fs Unit := do
  Steps.step fun disk =>
    if (disk.get name).isSome then disk.put name .absent else disk
  Steps.step fun disk => disk.drop name

def mkdirSync (name : DirectoryName) : Fs Unit := do
  let existing ← Steps.read fun disk => disk.get name
  if existing.isSome then Steps.throw .EEXIST
  else Steps.step fun disk => disk.put name .absent

/-- The file is cut short until it is written. -/
def writeOwner (name : DirectoryName) (owner : SessionLeaseOwner) :
    Fs Unit := do
  Steps.step fun disk => disk.put name (.corrupt "Unexpected end of JSON input")
  Steps.step fun disk => disk.put name (.owner owner)

-- ======== the judgement

/-- `readLeaseOwner`; a corrupt file throws. -/
inductive LeaseOwner where
  | absent
  | unreadable
  | owner (owner : SessionLeaseOwner)

def corruptOwner (m : Machine) (reason : String) : LeaseError :=
  .error ("Corrupt session lease owner file: " ++ m.directory
    ++ "/owner.json - " ++ reason)

def readLeaseOwner (m : Machine) : Fs LeaseOwner := do
  let file ← Steps.read fun disk => disk.get .lease
  match file with
  | none => pure .absent
  | some .absent => pure .absent
  | some .unreadable => pure .unreadable
  | some (.corrupt reason) => Steps.throw (corruptOwner m reason)
  | some (.owner o) => pure (.owner o)

def isProcessAlive (m : Machine) (pid : Nat) : Bool := m.running.has pid

def getProcessStartId (m : Machine) (pid : Nat) : Option String :=
  m.running.get pid

def isLeaseOwnerAlive (m : Machine) (owner : SessionLeaseOwner) : Bool :=
  isProcessAlive m owner.pid &&
    match owner.processStartId.filter (· ≠ "") with
    | none => true
    | some startId => (getProcessStartId m owner.pid).all (· == startId)

/-- `isRenameTargetContention`, or a refusal while the lease exists. -/
def isContention (disk : Disk) : LeaseError → Bool
  | .ENOTEMPTY => true
  | .EPERM => (disk.get .lease).isSome
  | _ => false

/-- Rename the lease away and remove it; false when the rename is refused. -/
def reclaimStaleLease (m : Machine) (pid : Nat) : Fs Bool := do
  let uuid ← randomUUID
  let r ← Steps.attempt (renameSync m .lease (.stale pid uuid))
  match r with
  | .ok () => do
      rmSync (.stale pid uuid)
      pure true
  | .error .ENOENT => pure true
  | .error _ => pure false

-- ======== the lease

/-- The lease in memory. -/
structure SessionLease where
  sessionPath : String
  token : Nat
  released : Bool

/-- The variables of the environment that a lease looks at. -/
structure Environment where
  leases : Option String
  leaseOwnerId : Option String

def leasesEnabled (environment : Environment) : Bool :=
  match environment.leases with
  | none => false
  | some value =>
    value.toLower = "1" || value.toLower = "true" || value.toLower = "yes"

/-- The owner, if it is one and its process is alive. -/
def LeaseOwner.live (m : Machine) : LeaseOwner → Option SessionLeaseOwner
  | .owner o => if isLeaseOwnerAlive m o then some o else none
  | _ => none

def alreadyActive (sessionPath : String) (owner : SessionLeaseOwner) :
    LeaseError :=
  .sessionAlreadyActive sessionPath owner.activeSessionId

def couldNotAcquire (sessionPath : String) : LeaseError :=
  .error ("Could not acquire session lease: " ++ sessionPath)

def couldNotReclaim (m : Machine) : LeaseError :=
  .error ("Could not reclaim stale session lease: " ++ m.directory)

/-- What follows the last attempt. -/
def giveUp (m : Machine) (sessionPath : String) : Fs SessionLease := do
  let owner ← readLeaseOwner m
  match owner.live m with
  | some o => Steps.throw (alreadyActive sessionPath o)
  | none => Steps.throw (couldNotAcquire sessionPath)

def newOwner (m : Machine) (environment : Environment) (pid : Nat)
    (sessionPath : String) (token : Nat) : SessionLeaseOwner :=
  { token := token
    pid := pid
    processStartId := getProcessStartId m pid
    activeSessionId := environment.leaseOwnerId
    sessionPath := sessionPath
    createdAt := m.now }

/-- The candidate of an attempt; its token. -/
def makeCandidate (m : Machine) (environment : Environment) (pid : Nat)
    (sessionPath : String) : Fs Nat := do
  let token ← randomUUID
  mkdirSync (.candidate pid token)
  writeOwner (.candidate pid token)
    (newOwner m environment pid sessionPath token)
  pure token

/-- The rename of the candidate failed: `continue`, or throw. -/
def renameFailed (m : Machine) (pid : Nat) (sessionPath : String)
    (candidate : DirectoryName) (again : Fs SessionLease)
    (error : LeaseError) : Fs SessionLease := do
  rmSync candidate
  let contention ← Steps.read fun disk => isContention disk error
  if error = .ENOENT then again
  else if contention then do
    let existingOwner ← readLeaseOwner m
    match existingOwner with
    | .unreadable => again
    | existing =>
      match existing.live m with
      | some o => Steps.throw (alreadyActive sessionPath o)
      | none => do
          let reclaimed ← reclaimStaleLease m pid
          if reclaimed then again else Steps.throw (couldNotReclaim m)
  else Steps.throw error

/-- The attempts that are left. -/
def acquireAttempts (m : Machine) (environment : Environment) (pid : Nat)
    (sessionPath : String) : Nat → Fs SessionLease
  | 0 => giveUp m sessionPath
  | left + 1 => do
      let token ← makeCandidate m environment pid sessionPath
      let r ← Steps.attempt (renameSync m (.candidate pid token) .lease)
      match r with
      | .ok () => pure ⟨sessionPath, token, false⟩
      | .error error =>
        renameFailed m pid sessionPath (.candidate pid token)
          (acquireAttempts m environment pid sessionPath left) error

def acquireSessionLease (m : Machine) (environment : Environment) (pid : Nat)
    (sessionPath : Option String) : Fs (Option SessionLease) :=
  match sessionPath.filter (· ≠ "") with
  | none => pure none
  | some sessionPath =>
    if leasesEnabled environment then do
      let lease ← acquireAttempts m environment pid sessionPath 3
      pure (some lease)
    else pure none

/-- The section of `SessionLease.release`; what it throws is dropped. -/
def SessionLease.releaseGuarded (m : Machine) (pid : Nat)
    (lease : SessionLease) : Fs Unit := do
  let owner ← readLeaseOwner m
  match owner with
  | .owner o =>
    if o.token = lease.token then do
      let _ ← reclaimStaleLease m pid
      pure ()
    else pure ()
  | _ => pure ()

def SessionLease.release (m : Machine) (pid : Nat) (lease : SessionLease) :
    Fs SessionLease :=
  if lease.released then pure lease
  else do
    let _ ← Steps.attempt (lease.releaseGuarded m pid)
    pure { lease with released := true }

-- ======== the world

/-- A lease and the process that has it. -/
structure Held where
  pid : Nat
  lease : SessionLease

structure World where
  disk : Disk
  running : JsMap Nat String
  /-- Every process so far. -/
  started : List (Nat × String)
  now : Int
  held : List Held

inductive Event where
  | start (pid : Nat) (processStartId : String)
  | crash (pid : Nat)
  | clock (now : Int)
  /-- A call, and after how many of its steps its process crashes. -/
  | acquire (pid : Nat) (environment : Environment) (cut : Option Nat)
  | release (i : Nat) (cut : Option Nat)

namespace World

variable (win32 : Bool) (directory sessionPath : String)

def machine (w : World) : Machine := ⟨w.running, w.now, win32, directory⟩

/-- The process is gone, and what it had in memory with it. -/
def crash (w : World) (pid : Nat) : World :=
  { w with
    running := w.running.delete pid
    held := w.held.filter fun h => h.pid ≠ pid }

/-- A call of a process that runs to its end, or that the process does not
survive. -/
def call {α : Type} (w : World) (pid : Nat) (program : Fs α)
    (cut : Option Nat) (returns : World → α → World) : World :=
  let r := program w.disk
  match cut with
  | some k => { w with disk := r.after k }.crash pid
  | none =>
    match r.result with
    | .ok a => returns { w with disk := r.state } a
    | .error _ => { w with disk := r.state }

/-- A returned lease is kept. -/
def keep (pid : Nat) (w : World) : Option SessionLease → World
  | some lease => { w with held := w.held ++ [⟨pid, lease⟩] }
  | none => w

def step (w : World) : Event → World
  | .start pid processStartId =>
    if w.running.has pid || (pid, processStartId) ∈ w.started ||
        processStartId = "" then w
    else { w with
      running := w.running.set pid processStartId
      started := (pid, processStartId) :: w.started }
  | .crash pid => w.crash pid
  | .clock now => { w with now := now }
  | .acquire pid environment cut =>
    if w.running.has pid then
      w.call pid
        (acquireSessionLease (w.machine win32 directory) environment pid
          (some sessionPath))
        cut (keep pid)
    else w
  | .release i cut =>
    match w.held[i]? with
    | some h =>
      w.call h.pid (h.lease.release (w.machine win32 directory) h.pid) cut
        fun w lease => { w with held := w.held.set i ⟨h.pid, lease⟩ }
    | none => w

def run (w : World) (events : List Event) : World :=
  events.foldl (step win32 directory sessionPath) w

/-- No process, no directory. -/
def initial : World := ⟨⟨[], 0⟩, [], [], 0, []⟩

end World

end OneHarness.Session.Lease
