/-
`WorkerRecoveryJournal`: the last record of every session of a worker, in a
file that several processes append to.

# The file and the maps

Each instance reads the file once and then goes by its own map. What it
does to the file is done under a lock, each time after a repair that cuts
off an unfinished line. Between the append of a record and the compaction
that may follow, other instances may have the lock.

# History

`World.accepted` are the records whose line was written, the last one of
each session; `World.misled` tells whether a record was suppressed although
the file had another one. No code reads them.
-/
import OneHarness.Daemon.CommandJournal
import OneHarness.Daemon.EventLog

namespace OneHarness.Daemon.WorkerRecovery

open Lib EventLog

-- ======== the records

/-- What `record` is given. -/
structure RecordInput where
  activeSessionId : String
  sessionId : String
  sessionFile : Option String
  busy : Bool
  operation : String

/-- The record that is written. -/
def RecordInput.record (input : RecordInput) (recordedAt : String) : Json :=
  .obj ([("version", .num (Numeral.ofNat 1)),
      ("activeSessionId", .str input.activeSessionId),
      ("sessionId", .str input.sessionId)]
    ++ (match input.sessionFile with
      | some sessionFile => [("sessionFile", .str sessionFile)]
      | none => [])
    ++ [("busy", .bool input.busy), ("operation", .str input.operation),
      ("recordedAt", .str recordedAt)])

/-- `typeof value === "boolean"`. -/
def bool? : Option Json → Option Bool
  | some (.bool b) => some b
  | _ => none

/-- The session that a line is the record of; `none` is the `TypeError` of
a property of `null`. -/
def sessionOf (record : Json) : Option (Option String) :=
  match record with
  | .null => none
  | _ =>
    some (match string? (record.get "activeSessionId") with
      | some activeSessionId =>
        if isNumber (record.get "version") 1
            && (string? (record.get "sessionId")).isSome
            && (bool? (record.get "busy")).isSome
            && (string? (record.get "operation")).isSome then
          some activeSessionId
        else none
      | none => none)

/-- The lines, one after the other; one that is not JSON is skipped. -/
def parseLines (latest : JsMap String Json) :
    List (List Char) → Option (JsMap String Json)
  | [] => some latest
  | line :: lines =>
    if line.isEmpty then parseLines latest lines
    else
      match Json.parse line with
      | none => parseLines latest lines
      | some record =>
        match sessionOf record with
        | none => none
        | some none => parseLines latest lines
        | some (some activeSessionId) =>
          parseLines (latest.set activeSessionId record) lines

/-- The previous record says the same. -/
def unchanged (previous : Option Json) (input : RecordInput) : Bool :=
  match previous with
  | none => false
  | some previous =>
    bool? (previous.get "busy") = some input.busy
      && isString (previous.get "operation") input.operation
      && match previous.get "sessionFile", input.sessionFile with
        | some (.str sessionFile), some other => sessionFile = other
        | none, none => true
        | _, _ => false

/-- `entry.busy`. -/
def isBusy (entry : Json) : Bool := (bool? (entry.get "busy")).getD false

-- ======== the file

/-- The file less an unfinished line. -/
def repair (bytes : List UInt8) : List UInt8 :=
  if bytes = [] ∨ bytes.getLast? = some 0x0a then bytes
  else (bytes.reverse.dropWhile fun b => b != 0x0a).reverse

def readAndRepairRecoveryJournal (file : Option (List UInt8)) :
    Option (List UInt8) × List Char :=
  match file with
  | none => (none, [])
  | some bytes => (some (repair bytes), Utf8.decode (repair bytes))

def parseRecords (file : Option (List UInt8)) : Option (JsMap String Json) :=
  parseLines [] ((readAndRepairRecoveryJournal file).2.splitOn '\n')

/-- How an append ends; `written` bytes of the line are there when the
process dies. -/
inductive AppendEnd where
  | done
  | crashes (written : Nat)

/-- How a replacement ends; the process may die before and after it. -/
inductive ReplaceEnd where
  | done
  | crashes (replaced : Bool)

/-- `append`, under the lock. -/
def append (file : Option (List UInt8)) (record : Json) (ended : AppendEnd) :
    List UInt8 :=
  let old := ((readAndRepairRecoveryJournal file).1).getD []
  match ended with
  | .done => old ++ payload [record]
  | .crashes written => old ++ (payload [record]).take written

/-- `${lines.join("\n")}\n`. -/
def compactText (records : List Json) : List Char :=
  ['\n'].intercalate (records.map Json.stringify) ++ ['\n']

/-- `compact`, under the lock. -/
def compact (file : Option (List UInt8)) (latest : JsMap String Json)
    (ended : ReplaceEnd) : Option (List UInt8) :=
  match ended with
  | .crashes false => (readAndRepairRecoveryJournal file).1
  | _ => some (Utf8.encode (compactText latest.values))

-- ======== the runs

inductive Doing where
  | idle
  /-- Its record is appended, the compaction is to come. -/
  | compacting
  | gone
deriving DecidableEq

structure Instance where
  latest : JsMap String Json
  doing : Doing

structure World where
  file : Option (List UInt8)
  instances : List Instance
  accepted : JsMap String Json
  misled : Bool

inductive Event where
  /-- `new WorkerRecoveryJournal(path)`. -/
  | open
  /-- `readLatest(path)`. -/
  | read
  | record (i : Nat) (input : RecordInput) (recordedAt : String)
    (ended : AppendEnd)
  | compact (i : Nat) (ended : ReplaceEnd)
  | crash (i : Nat)

namespace World

def init : World := ⟨none, [], [], false⟩

def put (w : World) (i : Nat) (latest : JsMap String Json) (doing : Doing) :
    World :=
  { w with instances := w.instances.set i ⟨latest, doing⟩ }

/-- What `readLatest` returns; nothing of a file that cannot be read. -/
def readLatest (w : World) : JsMap String Json :=
  (parseRecords w.file).getD []

/-- The record is equal to the new one, its time apart. -/
def sameRecord (record : Option Json) (input : RecordInput) : Bool :=
  unchanged record input
    && (record.map fun r => isString (r.get "sessionId") input.sessionId)
      = some true

/-- The line of a record is in the file as a whole. -/
def AppendEnd.wrote (ended : AppendEnd) (record : Json) : Bool :=
  match ended with
  | .done => true
  | .crashes written => (payload [record]).length ≤ written

def record (w : World) (i : Nat) (instance_ : Instance) (input : RecordInput)
    (recordedAt : String) (ended : AppendEnd) : World :=
  if unchanged (instance_.latest.get input.activeSessionId) input then
    { w with misled := w.misled
        || !sameRecord (w.readLatest.get input.activeSessionId) input }
  else
    let record := input.record recordedAt
    let w := { w with
      file := some (append w.file record ended)
      accepted :=
        if AppendEnd.wrote ended record then
          w.accepted.set input.activeSessionId record
        else w.accepted }
    match ended with
    | .crashes _ => w.put i instance_.latest .gone
    | .done =>
      let latest := instance_.latest.set input.activeSessionId record
      if latest.values.all fun entry => !isBusy entry then
        w.put i latest .compacting
      else w.put i latest .idle

def step (w : World) : Event → World
  | .open =>
    let file := (readAndRepairRecoveryJournal w.file).1
    match parseRecords w.file with
    | some latest =>
      { w with
          file := file
          instances := w.instances ++ [⟨latest, .idle⟩] }
    | none => { w with file := file }
  | .read => { w with file := (readAndRepairRecoveryJournal w.file).1 }
  | .record i input recordedAt ended =>
    match w.instances[i]? with
    | some ⟨latest, .idle⟩ =>
      w.record i ⟨latest, .idle⟩ input recordedAt ended
    | _ => w
  | .compact i ended =>
    match w.instances[i]? with
    | some ⟨latest, .compacting⟩ =>
      { w with
          file := WorkerRecovery.compact w.file latest ended }.put i latest
        (match ended with
        | .done => .idle
        | .crashes _ => .gone)
    | _ => w
  | .crash i =>
    match w.instances[i]? with
    | some ⟨latest, _⟩ => w.put i latest .gone
    | none => w

end World
end OneHarness.Daemon.WorkerRecovery
