/-
The orphan process journal: what children of a crashed process are still
there.

# The file

is shared by a worker and every process it has started that runs this code.
Each record is one line, written by one call behind what the file holds, so
no record of another writer comes between its bytes. A write may stop after
any number of them: the process dies, or the call puts down less than it was
given, which nobody looks at.

# History

`Journal.completed` are the records whose line was written to its end, in
the order of the file. No code reads it.
-/
import OneHarness.Daemon.CommandJournal
import OneHarness.Daemon.EventLog
import OneHarness.Lib.JsMap

namespace OneHarness.Daemon.OrphanProcessJournal

open Lib EventLog

-- ======== recording

/-- What `recordOrphanProcessState` is given, and what it asks for. -/
structure RecordInput where
  pid : ℤ
  active : Bool
  /-- `undefined`, `null` or an id. -/
  knownProcessStartId : Option (Option String)
  /-- `process.pid`. -/
  ownerPid : ℤ
  /-- What `getProcessStartId(pid)` answers. -/
  queriedStartId : Option String
  /-- `new Date().toISOString()`. -/
  recordedAt : String

/-- The start id of the record, unless it is falsy. -/
def RecordInput.processStartId (input : RecordInput) : Option String :=
  let processStartId :=
    if input.active then
      match input.knownProcessStartId with
      | some known => known
      | none => input.queriedStartId
    else none
  processStartId.filter fun id => id ≠ ""

def RecordInput.record (input : RecordInput) : Json :=
  .obj ([("version", .num (Numeral.ofNat 1)),
      ("pid", .num (Numeral.ofInt input.pid)),
      ("ownerPid", .num (Numeral.ofInt input.ownerPid))]
    ++ (match input.processStartId with
      | some processStartId => [("processStartId", .str processStartId)]
      | none => [])
    ++ [("active", .bool input.active), ("recordedAt", .str input.recordedAt)])

/-- How far a call gets: not to an open file, or to this many bytes of the
line in it. -/
inductive Reach where
  | unopened
  | written (bytes : Nat)

/-- The file after a call of `recordOrphanProcessState`, with the journal's
path in the environment. -/
def recordOrphanProcessState (file : Option (List UInt8)) (input : RecordInput)
    (reach : Reach) : Option (List UInt8) :=
  if input.pid ≤ 0 then file
  else
    match reach with
    | .unopened => file
    | .written bytes =>
      some (file.getD [] ++ (payload [input.record]).take bytes)

-- ======== reading

structure ActiveOrphanProcess where
  pid : ℤ
  kernelPid : Option ℤ
  processStartId : Option String
deriving DecidableEq

/-- The value, if `Number.isInteger(value)`. -/
def integer? : Option Json → Option ℤ
  | some (.num n) => if n.toRat.den = 1 then some n.toRat.num else none
  | _ => none

/-- `typeof value === "boolean"`. -/
def bool? : Option Json → Option Bool
  | some (.bool b) => some b
  | _ => none

/-- The record of a line, under its pid, if it is one of this owner. -/
def recordOf (ownerPid : ℤ) (line : List Char) : Option (ℤ × Json) :=
  match Json.parse line with
  | none => none
  | some record =>
    match integer? (record.get "pid") with
    | none => none
    | some pid =>
      if isNumber (record.get "version") 1 && decide (0 < pid)
          && isNumber (record.get "ownerPid") ownerPid
          && (bool? (record.get "active")).isSome
          && (string? (record.get "recordedAt")).isSome then
        some (pid, record)
      else none

/-- `latest`, after one more line. -/
def readLine (ownerPid : ℤ) (latest : JsMap ℤ Json) (line : List Char) :
    JsMap ℤ Json :=
  if line.isEmpty then latest
  else
    match recordOf ownerPid line with
    | none => latest
    | some (pid, record) => latest.set pid record

/-- The entry of a last record, if it is active. -/
def activeOrphan (record : Json) : Option ActiveOrphanProcess :=
  if bool? (record.get "active") = some true
      && ((record.get "processStartId").isNone
        || (string? (record.get "processStartId")).isSome) then
    some {
      pid := (integer? (record.get "pid")).getD 0
      kernelPid := integer? (record.get "kernelPid")
      processStartId := string? (record.get "processStartId") }
  else none

def readActiveOrphanProcesses (file : Option (List UInt8)) (ownerPid : ℤ) :
    List ActiveOrphanProcess :=
  match file with
  | none => []
  | some bytes =>
    let latest := ((Utf8.decode bytes).splitOn '\n').foldl
      (readLine ownerPid) []
    latest.values.filterMap activeOrphan

-- ======== reaping

section
variable (getProcessStartId : ℤ → Option String)

def isOrphanProcessIdentityCurrent (orphan : ActiveOrphanProcess) : Bool :=
  orphan.processStartId.isSome
    && getProcessStartId orphan.pid = orphan.processStartId

def shouldReapOrphanProcess (win32 : Bool) (orphan : ActiveOrphanProcess) :
    Bool :=
  match orphan.processStartId with
  | none => !win32
  | some _ => isOrphanProcessIdentityCurrent getProcessStartId orphan

/-- The children of an owner that a reaper kills. -/
def reaped (win32 : Bool) (file : Option (List UInt8)) (ownerPid : ℤ) :
    List ActiveOrphanProcess :=
  (readActiveOrphanProcesses file ownerPid).filter
    (shouldReapOrphanProcess getProcessStartId win32)

/-- What `reapKernelOrphanProcesses` kills. -/
def reapedOfKernel (win32 : Bool) (file : Option (List UInt8))
    (ownerPid kernelPid : ℤ) : List ActiveOrphanProcess :=
  if kernelPid ≤ 0 then []
  else
    (readActiveOrphanProcesses file ownerPid).filter fun orphan =>
      orphan.kernelPid = some kernelPid && orphan.pid ≠ kernelPid
        && shouldReapOrphanProcess getProcessStartId win32 orphan

end

-- ======== the runs

/-- A call of one of the writers. -/
structure Append where
  input : RecordInput
  reach : Reach

/-- The line of the record is in the file to its end. -/
def Append.completes (append : Append) : Bool :=
  match append.reach with
  | .unopened => false
  | .written bytes =>
    decide (0 < append.input.pid)
      && decide ((payload [append.input.record]).length ≤ bytes)

structure Journal where
  file : Option (List UInt8)
  completed : List RecordInput

def Journal.init : Journal := ⟨none, []⟩

def Journal.step (journal : Journal) (append : Append) : Journal where
  file := recordOrphanProcessState journal.file append.input append.reach
  completed :=
    if append.completes then journal.completed ++ [append.input]
    else journal.completed

end OneHarness.Daemon.OrphanProcessJournal
