/-
The command journal of the daemon's supervisor: a received record is
durable before a command is dispatched, its result follows, and an
acknowledged command is forgotten.

# The file and the map

The map of entries lives in the process; the file is appended to, and
rewritten as a whole when there is nothing left to remember or it has
grown long. A new process reads the file, drops a line that was cut off
and skips what is not JSON.

# What may go wrong

An append writes some bytes of its record and then throws, or the process
dies; once all of them are written it may still throw (the flush, the
close). A replacement of the file happens or does not.

# History

`World.dispatched` are the commands whose `begin` returned `new` and that
were not acknowledged since; no code reads it.
-/
import OneHarness.Lib.JsMap
import OneHarness.Lib.Json.Numeral
import OneHarness.Lib.Utf8

namespace OneHarness.Daemon

open Lib

-- ======== the records

/-- The value is that string. -/
def isString (value : Option Json) (text : String) : Bool :=
  match value with
  | some (.str s) => s = text
  | _ => false

/-- `typeof value === "string"`. -/
def string? (value : Option Json) : Option String :=
  match value with
  | some (.str s) => some s
  | _ => none

/-- The value is that number. -/
def isNumber (value : Option Json) (number : ℚ) : Bool :=
  match value with
  | some (.num n) => n.toRat = number
  | _ => false

theorem isNumber_one : isNumber (some (.num (Numeral.ofNat 1))) 1 = true := by
  decide +kernel

/-- A response of the daemon: a value whose `type` is `response`. -/
structure DaemonResponse where
  json : Json
  isResponse : isString (json.get "type") "response" = true

structure JournalEntry where
  received : Json
  response : Option DaemonResponse

inductive CommandJournalBeginResult where
  | new
  | pending
  | complete (response : DaemonResponse)

def compactAfterRecords : Nat := 4096

def createCommandIdempotencyKey (clientId commandId : String) : String :=
  String.ofList (Json.stringify (.arr [.str clientId, .str commandId]))

def receivedRecord (key clientId commandId commandType recordedAt : String) :
    Json :=
  .obj [("version", .num (Numeral.ofNat 1)), ("type", .str "received"),
    ("key", .str key), ("clientId", .str clientId),
    ("commandId", .str commandId), ("commandType", .str commandType),
    ("recordedAt", .str recordedAt)]

def resultRecord (key : String) (response : DaemonResponse)
    (recordedAt : String) : Json :=
  .obj [("version", .num (Numeral.ofNat 1)), ("type", .str "result"),
    ("key", .str key), ("response", response.json),
    ("recordedAt", .str recordedAt)]

def acknowledgedRecord (key recordedAt : String) : Json :=
  .obj [("version", .num (Numeral.ofNat 1)), ("type", .str "acknowledged"),
    ("key", .str key), ("recordedAt", .str recordedAt)]

-- ======== the journal

structure CommandRecoveryJournal where
  entries : JsMap String JournalEntry
  recordCount : Nat

namespace CommandRecoveryJournal

def empty : CommandRecoveryJournal := ⟨[], 0⟩

def lookup (journal : CommandRecoveryJournal) (clientId commandId : String) :
    Option CommandJournalBeginResult :=
  match journal.entries.get
      (createCommandIdempotencyKey clientId commandId) with
  | some { response := some response, .. } => some (.complete response)
  | some _ => some .pending
  | none => none

/-- `record.response?.type === "response"`. -/
def response? (record : Json) : Option DaemonResponse :=
  match record.get "response" with
  | some json =>
    if h : isString (json.get "type") "response" = true then
      some ⟨json, h⟩
    else none
  | none => none

/-- What `load` makes of a line that is JSON; `none` is the `TypeError` of
a property of `null`. -/
def loadRecord (journal : CommandRecoveryJournal) (record : Json) :
    Option CommandRecoveryJournal :=
  match record with
  | .null => none
  | _ =>
    match isNumber (record.get "version") 1, string? (record.get "key") with
    | true, some key =>
      let recordCount := journal.recordCount + 1
      if isString (record.get "type") "received" then
        if (string? (record.get "clientId")).isSome
            && (string? (record.get "commandId")).isSome
            && (string? (record.get "commandType")).isSome then
          some ⟨journal.entries.set key ⟨record, none⟩, recordCount⟩
        else some ⟨journal.entries, recordCount⟩
      else if isString (record.get "type") "acknowledged" then
        some ⟨journal.entries.delete key, recordCount⟩
      else
        match journal.entries.get key, response? record with
        | some entry, some response =>
          some ⟨journal.entries.set key
            { entry with response := some response }, recordCount⟩
        | _, _ => some ⟨journal.entries, recordCount⟩
    | _, _ => some journal

/-- The lines of the file, one after the other; one that is not JSON is
skipped. -/
def loadLines (journal : CommandRecoveryJournal) :
    List (List Char) → Option CommandRecoveryJournal
  | [] => some journal
  | line :: lines =>
    if line.isEmpty then journal.loadLines lines
    else
      match Json.parse line with
      | none => journal.loadLines lines
      | some record =>
        match journal.loadRecord record with
        | none => none
        | some journal => journal.loadLines lines

/-- Whether the last line of a text was cut off. -/
def unterminated (contents : List Char) : Bool :=
  !contents.isEmpty && contents.getLast? != some '\n'

/-- The lines that `load` reads. -/
def keptLines (contents : List Char) : List (List Char) :=
  if unterminated contents then (contents.splitOn '\n').dropLast
  else contents.splitOn '\n'

/-- The text that `load` writes when the last line was cut off. -/
def repairedText (rawLines : List (List Char)) : List Char :=
  if 0 < rawLines.length then
    ['\n'].intercalate (rawLines.filter fun line => !line.isEmpty) ++ ['\n']
  else []

/-- The entries that are read from a file; `none` is a file that cannot be
loaded. -/
def reload (file : Option (List UInt8)) : Option CommandRecoveryJournal :=
  match file with
  | none => some empty
  | some bytes => empty.loadLines (keptLines (Utf8.decode bytes))

-- ======== the file

/-- How an append ends. -/
inductive AppendOutcome where
  | done
  /-- After this many bytes of the record. -/
  | throws (written : Nat)
  | crashes (written : Nat)

/-- How a replacement of the file ends. -/
inductive ReplaceOutcome where
  | done
  | throws
  | crashes (replaced : Bool)

/-- How a call ends. -/
inductive Ended (α : Type) where
  | returned (value : α)
  | threw
  | crashed

/-- The bytes of a record's line. -/
def recordLine (record : Json) : List UInt8 :=
  Utf8.encode (record.stringify ++ ['\n'])

def append (file : Option (List UInt8)) (record : Json) :
    AppendOutcome → Option (List UInt8) × Ended Unit
  | .done => (some (file.getD [] ++ recordLine record), .returned ())
  | .throws written =>
    (some (file.getD [] ++ (recordLine record).take written), .threw)
  | .crashes written =>
    (some (file.getD [] ++ (recordLine record).take written), .crashed)

def writeFileAtomicSync (file : Option (List UInt8)) (bytes : List UInt8) :
    ReplaceOutcome → Option (List UInt8) × Ended Unit
  | .done => (some bytes, .returned ())
  | .throws => (file, .threw)
  | .crashes replaced => (if replaced then some bytes else file, .crashed)

/-- The records that `compact` writes. -/
def compactRecords (entries : JsMap String JournalEntry)
    (recordedAt : String) : List Json :=
  entries.flatMap fun p =>
    match p.2.response with
    | some response =>
      [p.2.received, resultRecord p.1 response recordedAt]
    | none => [p.2.received]

/-- The text that `compact` writes. -/
def compactText (records : List Json) : List Char :=
  ['\n'].intercalate (records.map Json.stringify) ++ ['\n']

end CommandRecoveryJournal

-- ======== the runs

open CommandRecoveryJournal

structure World where
  file : Option (List UInt8)
  /-- The journal of the process, if one is running. -/
  journal : Option CommandRecoveryJournal
  dispatched : List (String × String)

inductive Event where
  /-- The process ends, if one is running, and a new one loads. -/
  | restart (repair : ReplaceOutcome)
  | begin (clientId commandId commandType recordedAt : String)
    (append : AppendOutcome)
  | recordResult (clientId commandId : String) (response : DaemonResponse)
    (recordedAt : String) (append : AppendOutcome) (compactedAt : String)
    (replace : ReplaceOutcome)
  | acknowledge (clientId commandId recordedAt : String)
    (append : AppendOutcome) (compactedAt : String)
    (replace : ReplaceOutcome)

inductive Result where
  | loaded
  | began (status : CommandJournalBeginResult)
  | done
  | threw
  | crashed
  /-- No process is running. -/
  | idle

namespace World

def init : World := ⟨none, none, []⟩

/-- `load` in a new process. -/
def load (w : World) (repair : ReplaceOutcome) : World × Result :=
  match w.file with
  | none => ({ w with journal := some empty }, .loaded)
  | some bytes =>
    let contents := Utf8.decode bytes
    let (file, ended) :=
      if unterminated contents then
        writeFileAtomicSync w.file
          (Utf8.encode (repairedText (keptLines contents))) repair
      else (w.file, .returned ())
    match ended with
    | .returned () =>
      match empty.loadLines (keptLines contents) with
      | some journal =>
        ({ w with file := file, journal := some journal }, .loaded)
      | none => ({ w with file := file, journal := none }, .threw)
    | .threw => ({ w with file := file, journal := none }, .threw)
    | .crashed => ({ w with file := file, journal := none }, .crashed)

/-- `compact`, at the end of a call. -/
def compact (w : World) (journal : CommandRecoveryJournal)
    (recordedAt : String) (replace : ReplaceOutcome) : World × Result :=
  let records := compactRecords journal.entries recordedAt
  let (file, ended) := writeFileAtomicSync w.file
    (Utf8.encode (compactText records)) replace
  match ended with
  | .returned () =>
    ({ w with
        file := file
        journal := some { journal with recordCount := records.length } },
      .done)
  | .threw => ({ w with file := file, journal := some journal }, .threw)
  | .crashed => ({ w with file := file, journal := none }, .crashed)

def begin (w : World) (journal : CommandRecoveryJournal)
    (clientId commandId commandType recordedAt : String)
    (outcome : AppendOutcome) : World × Result :=
  match journal.lookup clientId commandId with
  | some existing => (w, .began existing)
  | none =>
    let key := createCommandIdempotencyKey clientId commandId
    let received :=
      receivedRecord key clientId commandId commandType recordedAt
    let (file, ended) := append w.file received outcome
    match ended with
    | .returned () =>
      ({ w with
          file := file
          journal := some ⟨journal.entries.set key ⟨received, none⟩,
            journal.recordCount + 1⟩
          dispatched := w.dispatched ++ [(clientId, commandId)] },
        .began .new)
    | .threw => ({ w with file := file }, .threw)
    | .crashed => ({ w with file := file, journal := none }, .crashed)

def recordResult (w : World) (journal : CommandRecoveryJournal)
    (clientId commandId : String) (response : DaemonResponse)
    (recordedAt : String) (outcome : AppendOutcome) (compactedAt : String)
    (replace : ReplaceOutcome) : World × Result :=
  let key := createCommandIdempotencyKey clientId commandId
  match journal.entries.get key with
  | none => (w, .threw)
  | some entry =>
    let (file, ended) :=
      append w.file (resultRecord key response recordedAt) outcome
    match ended with
    | .returned () =>
      let journal : CommandRecoveryJournal :=
        ⟨journal.entries.set key { entry with response := some response },
          journal.recordCount + 1⟩
      let w := { w with file := file, journal := some journal }
      if compactAfterRecords ≤ journal.recordCount then
        w.compact journal compactedAt replace
      else (w, .done)
    | .threw => ({ w with file := file }, .threw)
    | .crashed => ({ w with file := file, journal := none }, .crashed)

def acknowledge (w : World) (journal : CommandRecoveryJournal)
    (clientId commandId recordedAt : String) (outcome : AppendOutcome)
    (compactedAt : String) (replace : ReplaceOutcome) : World × Result :=
  let w := { w with
    dispatched := w.dispatched.filter fun k => k ≠ (clientId, commandId) }
  let key := createCommandIdempotencyKey clientId commandId
  if !journal.entries.has key then (w, .done)
  else
    let (file, ended) :=
      append w.file (acknowledgedRecord key recordedAt) outcome
    match ended with
    | .returned () =>
      let journal : CommandRecoveryJournal :=
        ⟨journal.entries.delete key, journal.recordCount + 1⟩
      let w := { w with file := file, journal := some journal }
      if journal.entries.length = 0
          ∨ compactAfterRecords ≤ journal.recordCount then
        w.compact journal compactedAt replace
      else (w, .done)
    | .threw => ({ w with file := file }, .threw)
    | .crashed => ({ w with file := file, journal := none }, .crashed)

def step (w : World) (event : Event) : World × Result :=
  match w.journal, event with
  | _, .restart repair => w.load repair
  | none, _ => (w, .idle)
  | some journal, .begin clientId commandId commandType recordedAt outcome =>
    w.begin journal clientId commandId commandType recordedAt outcome
  | some journal, .recordResult clientId commandId response recordedAt outcome
      compactedAt replace =>
      w.recordResult journal clientId commandId response recordedAt outcome
        compactedAt replace
  | some journal, .acknowledge clientId commandId recordedAt outcome
      compactedAt replace =>
      w.acknowledge journal clientId commandId recordedAt outcome compactedAt
        replace

def run (w : World) : List Event → World
  | [] => w
  | event :: events => (w.step event).1.run events

end World
end OneHarness.Daemon
