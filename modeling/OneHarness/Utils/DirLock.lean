/-
`tryAcquireDirLock`: a lock file that is published by a link to a candidate
born with its owner's pid, and reclaimed from a dead owner by a rename.

# The directory

Names lead to files, files are numbered in the order they were made
(`World.nodes`). The inode number is another thing: the system picks one
that nothing uses (`World.inUse`), and may give a number again once the
file it belonged to has no name and is not held open.

# The steps

Each event is one call of the file system by one attempt, or something
that happens to a process. A call may fail, and over a network it may take
effect and still report a failure (`Reply`). An attempt ends when it has
cleaned up its candidate.
-/
import OneHarness.Lib.JsMap
import OneHarness.Session.Manager

namespace OneHarness.Utils.DirLock

open Lib Session

def CANDIDATE_SWEEP_AGE_MS : Int := 60 * 60 * 1000

-- ======== the directory

/-- What reading the owner gives. -/
inductive OwnerRaw where
  | raw (text : String)
  | absent
  | unreadable

inductive Content where
  | file (text : String)
  | emptyDir
  /-- A directory that holds something: a lock of the old protocol, and
  what reading its `pid` gives. -/
  | dir (pid : OwnerRaw)

def Content.isDirectory : Content → Bool
  | .file _ => false
  | _ => true

def Content.isEmptyDir : Content → Bool
  | .emptyDir => true
  | _ => false

structure Node where
  ino : Nat
  mtimeMs : Int
  content : Content

/-- The token of an attempt; that of its second candidate is another. -/
structure Token where
  attempt : Nat
  retried : Bool
deriving DecidableEq

inductive Name where
  | lock
  | candidate (token : Token)
  | stale (token : Token)
deriving DecidableEq

-- ======== the attempts

inductive DirLockAttempt where
  | acquired | held | reclaimed
deriving DecidableEq

inductive Ended where
  | returned (result : DirLockAttempt)
  | threw
deriving DecidableEq

/-- The code of an error of `linkSync`. -/
inductive LinkError where
  | EEXIST | other
deriving DecidableEq

structure Captured where
  ino : Nat
  isDir : Bool
deriving DecidableEq

/-- What an attempt does next. -/
inductive Phase where
  | sweeping
  | writing
  | linking
  | rechecking (error : LinkError)
  | capturing
  | pinning (captured : Captured)
  | reading (captured : Captured)
  /-- `ownerAlive` is asked for this owner. -/
  | judging (captured : Captured) (owner : Option Nat)
  | reclaiming (captured : Captured)
  /-- The rename failed; is there still something at the path? -/
  | probing (captured : Captured)
  | verifying (captured : Captured)
  | removing
  | restoring (isDir : Bool)
  | unlinking
  | cleaning (ended : Ended)
  | done (ended : Ended)
  /-- It acquired the lock and has removed it. -/
  | released
  /-- Its process is no more. -/
  | gone
deriving DecidableEq

structure Attempt where
  pid : Nat
  retryOnSweptCandidate : Bool
  /-- The candidate that it wrote last. -/
  file : Option Nat
  /-- The file that it keeps open. -/
  pinned : Option Nat
  phase : Phase

/-- Its answer is `acquired`, and it has not removed the lock. -/
def Phase.holds : Phase → Bool
  | .cleaning (.returned .acquired) => true
  | .done (.returned .acquired) => true
  | _ => false

structure World where
  nodes : List Node
  names : JsMap Name Nat
  attempts : List Attempt
  /-- The processes that are alive. -/
  running : List Nat

/-- How a call of the file system ends. -/
inductive Reply where
  | ok
  /-- It fails, and has done nothing. -/
  | failed
  /-- It has taken effect, and fails; a link then may say `EEXIST`. -/
  | lost (eexist : Bool)
deriving DecidableEq

inductive Event where
  | start (pid : Nat)
  | crash (pid : Nat)
  | call (pid : Nat)
  /-- One candidate of `sweepAbandonedCandidates`. -/
  | sweep (attempt : Nat) (token : Token) (now : Int)
  /-- `writeFileSync(tempPath, …)`. -/
  | write (attempt ino : Nat) (now : Int) (reply : Reply)
  | step (attempt : Nat) (reply : Reply)
  /-- The holder removes the lock path. -/
  | release (attempt : Nat)

-- ======== the pieces

/-- An exact positive integer owns; nothing else does. -/
def strictPid (raw : Option String) : Option Nat :=
  match raw with
  | none => none
  | some raw =>
    let trimmed := (trim raw).toList
    if trimmed.isEmpty || !trimmed.all Char.isDigit then none
    else
      let parsed := trimmed.foldl
        (fun n digit => 10 * n + (digit.toNat - '0'.toNat)) 0
      if 0 < parsed then some parsed else none

/-- The text of a process's candidate. -/
def ownerText (pid : Nat) : String :=
  String.ofList (Nat.toDigits 10 pid ++ ['\n'])

namespace World

/-- The file of a name, and what it is. -/
def stat (w : World) (name : Name) : Option Node :=
  (w.names.get name).bind fun file => w.nodes[file]?

def nlink (w : World) (file : Nat) : Nat :=
  (w.names.filter fun entry => entry.2 = file).length

/-- Some file that has a name or is kept open has that number. -/
def inUse (w : World) (ino : Nat) : Bool :=
  (w.names.any fun entry => (w.nodes[entry.2]?.map Node.ino) = some ino)
    || w.attempts.any fun attempt =>
      (attempt.pinned.bind fun file => w.nodes[file]?.map Node.ino) = some ino

/-- An exact judgement: nobody owns a lock without a pid. -/
def ownerAlive (w : World) : Option Nat → Bool
  | none => false
  | some pid => w.running.contains pid

/-- What reading the owner at the lock path gives. -/
def readOwnerRaw (w : World) (legacyDir : Bool) (reply : Reply) : OwnerRaw :=
  match reply with
  | .ok =>
    match w.stat .lock with
    | none => .absent
    | some node =>
      match legacyDir, node.content with
      | false, .file text => .raw text
      | true, .emptyDir => .absent
      | true, .dir pid => pid
      | _, _ => .unreadable
  | _ => .unreadable

def goto (w : World) (a : Nat) (attempt : Attempt) (phase : Phase) : World :=
  { w with attempts := w.attempts.set a { attempt with phase := phase } }

/-- The attempt has its answer; what it kept open is closed. -/
def settle (w : World) (a : Nat) (attempt : Attempt) (ended : Ended) : World :=
  w.goto a { attempt with pinned := none } (.cleaning ended)

def token (a : Nat) (attempt : Attempt) : Token :=
  ⟨a, !attempt.retryOnSweptCandidate⟩

/-- A directory with this lock, or none, before the first attempt. -/
def found (lock : Option Node) (running : List Nat) : World :=
  match lock with
  | none => ⟨[], [], [], running⟩
  | some node => ⟨[node], [(.lock, 0)], [], running⟩

-- ======== acquireAttempt

/-- `linkSync(tempPath, lockPath)`. -/
def link (w : World) (a : Nat) (attempt : Attempt) (reply : Reply) : World :=
  match reply with
  | .failed => w.goto a attempt (.rechecking .other)
  | _ =>
    match w.names.get (.candidate (token a attempt)), w.names.get .lock with
    | none, _ => w.goto a attempt (.rechecking .other)
    | some _, some _ => w.goto a attempt (.rechecking .EEXIST)
    | some file, none =>
      let w := { w with names := w.names.set .lock file }
      match reply with
      | .lost eexist =>
        w.goto a attempt
          (.rechecking (if eexist then .EEXIST else .other))
      | _ => w.settle a attempt (.returned .acquired)

/-- After a link that failed: the candidate may have landed all the same,
or have been swept. -/
def recheck (w : World) (a : Nat) (attempt : Attempt) (error : LinkError)
    (reply : Reply) : World :=
  match reply with
  | .ok =>
    match w.names.get (.candidate (token a attempt)) with
    | some file =>
      if w.nlink file = 2 then w.settle a attempt (.returned .acquired)
      else if error = .EEXIST then w.goto a attempt .capturing
      else w.settle a attempt .threw
    | none =>
      if attempt.retryOnSweptCandidate then
        w.goto a { attempt with retryOnSweptCandidate := false } .writing
      else if error = .EEXIST then w.goto a attempt .capturing
      else w.settle a attempt .threw
  | _ => w.settle a attempt .threw

def capture (w : World) (a : Nat) (attempt : Attempt) (reply : Reply) :
    World :=
  match reply with
  | .ok =>
    match w.stat .lock with
    | none => w.settle a attempt (.returned .reclaimed)
    | some node =>
      if node.ino = 0 then w.settle a attempt (.returned .held)
      else w.goto a attempt
        (.pinning ⟨node.ino, node.content.isDirectory⟩)
  -- a lock that cannot be judged may be live
  | _ => w.settle a attempt (.returned .held)

def pin (w : World) (a : Nat) (attempt : Attempt) (captured : Captured)
    (reply : Reply) : World :=
  match reply with
  | .ok =>
    match w.names.get .lock with
    | none => w.goto a attempt (.reading captured)
    | some file =>
      if (w.nodes[file]?.map Node.ino) = some captured.ino then
        w.goto a { attempt with pinned := some file } (.reading captured)
      else w.settle a attempt (.returned .held)
  | _ => w.goto a attempt (.reading captured)

-- ======== judgeAndReclaim

def read (w : World) (a : Nat) (attempt : Attempt) (captured : Captured)
    (reply : Reply) : World :=
  match w.readOwnerRaw captured.isDir reply with
  | .unreadable => w.settle a attempt (.returned .held)
  | .absent => w.goto a attempt (.judging captured (strictPid none))
  | .raw text => w.goto a attempt (.judging captured (strictPid (some text)))

def judge (w : World) (a : Nat) (attempt : Attempt) (captured : Captured)
    (owner : Option Nat) : World :=
  if w.ownerAlive owner then w.settle a attempt (.returned .held)
  else w.goto a attempt (.reclaiming captured)

/-- `renameSync(lockPath, asidePath)`. -/
def reclaim (w : World) (a : Nat) (attempt : Attempt) (captured : Captured)
    (reply : Reply) : World :=
  match reply with
  | .failed => w.goto a attempt (.probing captured)
  | _ =>
    match w.names.get .lock with
    | none => w.settle a attempt (.returned .reclaimed)
    | some file =>
      let w := { w with
        names := (w.names.delete .lock).set (.stale (token a attempt))
          file }
      match reply with
      | .lost _ => w.goto a attempt (.probing captured)
      | _ => w.goto a attempt (.verifying captured)

def probe (w : World) (a : Nat) (attempt : Attempt) (captured : Captured)
    (reply : Reply) : World :=
  match reply, w.stat .lock with
  | .ok, some _ => w.settle a attempt .threw
  | _, _ => w.goto a attempt (.verifying captured)

def verify (w : World) (a : Nat) (attempt : Attempt) (captured : Captured)
    (reply : Reply) : World :=
  match reply, w.stat (.stale (token a attempt)) with
  | .ok, some aside =>
    if aside.ino = captured.ino then w.goto a attempt .removing
    else w.goto a attempt (.restoring aside.content.isDirectory)
  | _, _ => w.goto a attempt (.restoring false)

/-- `rmSync(asidePath, …)` of the judged lock. -/
def remove (w : World) (a : Nat) (attempt : Attempt) (reply : Reply) : World :=
  let removed := { w with
    names := w.names.delete (.stale (token a attempt)) }
  match reply with
  | .ok => removed.settle a attempt (.returned .reclaimed)
  | .failed => w.settle a attempt .threw
  | .lost _ => removed.settle a attempt .threw

/-- The lock that was not the judged one goes back. A directory is renamed
back, which replaces an empty one; anything else is linked back. -/
def restore (w : World) (a : Nat) (attempt : Attempt) (isDir : Bool)
    (reply : Reply) : World :=
  let aside := Name.stale (token a attempt)
  let held := w.settle a attempt (.returned .held)
  match reply, w.names.get aside with
  | .failed, _ => held
  | _, none => held
  | reply, some file =>
    let back := { held with names := (w.names.delete aside).set .lock file }
    match isDir, w.names.get .lock with
    | true, none => back
    | true, some other =>
      if (w.nodes[other]?.map fun node => node.content.isEmptyDir)
          = some true then back
      else held
    | false, none =>
      -- a directory cannot be linked
      if (w.nodes[file]?.map fun node => node.content.isDirectory)
          = some false then
        let w := { w with names := w.names.set .lock file }
        match reply with
        | .lost _ => w.settle a attempt (.returned .held)
        | _ => w.goto a attempt .unlinking
      else held
    | false, some _ => held

/-- `rmSync(asidePath, …)` after the link back. -/
def unlink (w : World) (a : Nat) (attempt : Attempt) (reply : Reply) : World :=
  match reply with
  | .failed => w.settle a attempt (.returned .held)
  | _ =>
    { w with names := w.names.delete (.stale (token a attempt)) }.settle a
      attempt (.returned .held)

/-- `rmSync(tempPath, …)` at the end of an attempt. -/
def cleanup (w : World) (a : Nat) (attempt : Attempt) (ended : Ended)
    (reply : Reply) : World :=
  match reply with
  | .failed => w.goto a attempt (.done ended)
  | _ =>
    { w with names := w.names.delete (.candidate (token a attempt)) }.goto a
      attempt (.done ended)

-- ======== the runs

/-- `writeFileSync(tempPath, …)`: a new file under a new name. -/
def write (w : World) (a : Nat) (attempt : Attempt) (ino : Nat) (now : Int)
    (reply : Reply) : World :=
  match reply with
  | .ok =>
    if w.inUse ino then w
    else
      let file := w.nodes.length
      let node : Node := ⟨ino, now, .file (ownerText attempt.pid)⟩
      let w := { w with
        nodes := w.nodes ++ [node]
        names := w.names.set (.candidate (token a attempt)) file }
      w.goto a { attempt with file := some file } .linking
  | _ => w.goto a attempt (.done .threw)

def stepAttempt (w : World) (a : Nat) (attempt : Attempt) (reply : Reply) :
    World :=
  match attempt.phase with
  | .linking => w.link a attempt reply
  | .rechecking error => w.recheck a attempt error reply
  | .capturing => w.capture a attempt reply
  | .pinning captured => w.pin a attempt captured reply
  | .reading captured => w.read a attempt captured reply
  | .judging captured owner => w.judge a attempt captured owner
  | .reclaiming captured => w.reclaim a attempt captured reply
  | .probing captured => w.probe a attempt captured reply
  | .verifying captured => w.verify a attempt captured reply
  | .removing => w.remove a attempt reply
  | .restoring isDir => w.restore a attempt isDir reply
  | .unlinking => w.unlink a attempt reply
  | .cleaning ended => w.cleanup a attempt ended reply
  | _ => w

def step (w : World) : Event → World
  | .start pid => { w with running := pid :: w.running }
  | .crash pid =>
    { w with
        attempts := w.attempts.map fun attempt =>
          if attempt.pid = pid then
            { attempt with pinned := none, phase := .gone }
          else attempt
        running := w.running.filter fun p => p ≠ pid }
  | .call pid =>
    if w.running.contains pid then
      let attempt : Attempt := ⟨pid, true, none, none, .sweeping⟩
      { w with attempts := w.attempts ++ [attempt] }
    else w
  | .sweep a token now =>
    match w.attempts[a]?, w.stat (.candidate token) with
    | some { phase := .sweeping, .. }, some node =>
      if node.mtimeMs < now - CANDIDATE_SWEEP_AGE_MS then
        { w with names := w.names.delete (.candidate token) }
      else w
    | _, _ => w
  | .write a ino now reply =>
    match w.attempts[a]? with
    | some attempt =>
      match attempt.phase with
      | .sweeping => w.write a attempt ino now reply
      | .writing => w.write a attempt ino now reply
      | _ => w
    | none => w
  | .step a reply =>
    match w.attempts[a]? with
    | some attempt => w.stepAttempt a attempt reply
    | none => w
  | .release a =>
    match w.attempts[a]? with
    | some attempt =>
      match attempt.phase with
      | .done (.returned .acquired) =>
        { w with names := w.names.delete .lock }.goto a attempt .released
      | _ => w
    | none => w

end World
end OneHarness.Utils.DirLock
