/-
`EventLog`: an append-only file of JSON lines.

# The tail

An append is one write of whole lines. A last line without its newline is an
append that did not get through: a read skips it, the next append cuts it
off. A blank line is skipped; every other line goes through the reader's
`parse`, which may throw.

# The bounds

`maxBytes` and `maxRecords` are checked by every read, and `maxBytes` when
an append looks at the tail. An append does not check what it leaves behind.

# Appends that stop

An append may stop at any of its calls, thrown out of or with its process
(`attemptSync`). What its write put down stays in the file: a short write is
an error and is neither completed nor taken back.
-/
import OneHarness.Lib.Json.Basic
import OneHarness.Lib.Utf8
import OneHarness.Session.Manager

namespace OneHarness.Daemon.EventLog

open Lib Session

structure EventLogOptions where
  maxBytes : Option Nat
  maxRecords : Option Nat

/-- What a read or an append throws; `rejected` is a throw of `parse`. -/
inductive EventLogError (ε : Type) where
  | tooManyBytes (maxBytes size : Nat)
  | tooManyRecords (maxRecords : Nat)
  | rejected (error : ε)

/-- The text of an error at a path. -/
def EventLogError.message {ε : Type} (path : String)
    (messageOf : ε → String) : EventLogError ε → String
  | .tooManyBytes maxBytes size =>
    "event log " ++ path ++ " exceeds " ++ toString maxBytes ++ " bytes ("
      ++ toString size ++ "); refusing to read"
  | .tooManyRecords maxRecords =>
    "event log " ++ path ++ " exceeds " ++ toString maxRecords
      ++ " records; refusing to read"
  | .rejected error => messageOf error

/-- Whether a number is beyond a bound that is set. -/
def exceeds (bound : Option Nat) (n : Nat) : Bool :=
  match bound with
  | some bound => bound < n
  | none => false

section
variable {ε τ : Type}

-- ======== reading

/-- `readAllSync`: the bytes, unless there are too many. -/
def readAllSync (options : EventLogOptions) (bytes : List UInt8) :
    Except (EventLogError ε) (List UInt8) :=
  if exceeds options.maxBytes bytes.length then
    .error (.tooManyBytes (options.maxBytes.getD 0) bytes.length)
  else .ok bytes

/-- The lines of a file from one index on, that many records into it. -/
def replayLines (options : EventLogOptions)
    (parse : String → Nat → Except ε (Option τ)) (endsWithNewline : Bool) :
    Nat → Nat → List (List Char) → Except (EventLogError ε) (List τ)
  | _, _, [] => .ok []
  | index, recordCount, rawLine :: rawLines =>
    let line := trim (String.ofList rawLine)
    if line = "" then
      replayLines options parse endsWithNewline (index + 1) recordCount
        rawLines
    else if rawLines.isEmpty && !endsWithNewline then .ok []
    else if exceeds options.maxRecords (recordCount + 1) then
      .error (.tooManyRecords (options.maxRecords.getD 0))
    else
      match parse line index with
      | .error error => .error (.rejected error)
      | .ok event =>
        match replayLines options parse endsWithNewline (index + 1)
            (recordCount + 1) rawLines with
        | .error error => .error error
        | .ok events => .ok (event.toList ++ events)

/-- The events of a file, if there is one. -/
def replaySync (options : EventLogOptions)
    (parse : String → Nat → Except ε (Option τ)) (file : Option (List UInt8)) :
    Except (EventLogError ε) (List τ) :=
  match file with
  | none => .ok []
  | some bytes =>
    match readAllSync options bytes with
    | .error error => .error error
    | .ok bytes =>
      let contents := Utf8.decode bytes
      replayLines options parse (contents.getLast? = some '\n') 0 0
        (contents.splitOn '\n')

-- ======== appending

def serializeLine (event : Json) : List Char := event.stringify ++ ['\n']

/-- The bytes of events as lines. -/
def payload (events : List Json) : List UInt8 :=
  Utf8.encode (events.flatMap serializeLine)

/-- The file without its unterminated tail. -/
def repairTailSync (options : EventLogOptions) (bytes : List UInt8) :
    Except (EventLogError ε) (List UInt8) :=
  if bytes = [] then .ok bytes
  else
    match readAllSync options bytes with
    | .error error => .error error
    | .ok bytes =>
      if bytes.getLast? = some 0x0a then .ok bytes
      else .ok (bytes.reverse.dropWhile fun b => b != 0x0a).reverse

/-- The events in one write; `onCreate` leads when the write creates the
file. -/
def appendSync (options : EventLogOptions) (file : Option (List UInt8))
    (events onCreate : List Json) :
    Except (EventLogError ε) (List UInt8) :=
  match file with
  | some bytes =>
    match repairTailSync options bytes with
    | .error error => .error error
    | .ok bytes => .ok (bytes ++ payload events)
  | none => .ok (payload (onCreate ++ events))

end

-- ======== stopped appends

/-- Where an append stops: at a call before the tail is looked at, at one
after it and before the file is opened, in its write with that many bytes
down, or in the flush. -/
inductive Stop where
  | early
  | repaired
  | write (written : Nat)
  | flush
deriving DecidableEq

/-- A call of `appendSync`; where it stops, the process ends with it or the
call throws. -/
structure LogAppend where
  events : List Json
  onCreate : List Json
  stop : Option Stop
  dies : Bool

inductive Ending where
  | returned
  | threw
  | died
deriving DecidableEq

/-- What became of an append: the file it leaves, the events of its payload
and how many of its bytes are in the file. -/
structure Attempt where
  ending : Ending
  file : Option (List UInt8)
  batch : List Json
  written : Nat

/-- How an append ends that stops. -/
def LogAppend.stopped (append : LogAppend) : Ending :=
  if append.dies then .died else .threw

/-- `onCreate`'s records lead the payload that creates the file. -/
def LogAppend.batch (append : LogAppend) (file : Option (List UInt8)) :
    List Json :=
  if file.isSome then append.events else append.onCreate ++ append.events

/-- The file with its tail repaired, when there is one. -/
def repairFile (options : EventLogOptions) (file : Option (List UInt8)) :
    Except (EventLogError Empty) (Option (List UInt8)) :=
  match file with
  | none => .ok none
  | some bytes => (repairTailSync options bytes).map some

/-- The write, and what comes after it, on a file that was looked at. -/
def LogAppend.write (append : LogAppend) (repaired : Option (List UInt8))
    (batch : List Json) : Attempt :=
  let buffer := payload batch
  let bytes := repaired.getD []
  match append.stop with
  | none => ⟨.returned, some (bytes ++ buffer), batch, buffer.length⟩
  | some .flush =>
    ⟨append.stopped, some (bytes ++ buffer), batch, buffer.length⟩
  | some (.write written) =>
    -- a write that is not short goes through, unless the process ends
    if append.dies || written < buffer.length then
      ⟨append.stopped, some (bytes ++ buffer.take written), batch, written⟩
    else ⟨.returned, some (bytes ++ buffer), batch, buffer.length⟩
  | some .early | some .repaired => ⟨append.stopped, repaired, batch, 0⟩

/-- `appendSync` with a stop. -/
def attemptSync (options : EventLogOptions) (file : Option (List UInt8))
    (append : LogAppend) : Attempt :=
  if append.stop = some .early then
    ⟨append.stopped, file, append.batch file, 0⟩
  else
    match repairFile options file with
    | .error _ => ⟨.threw, file, append.batch file, 0⟩
    | .ok repaired => append.write repaired (append.batch file)

/-- The events of an append whose whole lines are in the file. -/
def Attempt.recorded (attempt : Attempt) : List Json :=
  attempt.batch.take
    (((payload attempt.batch).take attempt.written).count 0x0a)

/-- A log, with what became of its appends so far. -/
structure History where
  file : Option (List UInt8)
  attempts : List Attempt

def History.records (history : History) : List Json :=
  history.attempts.flatMap Attempt.recorded

def History.append (options : EventLogOptions) (history : History)
    (append : LogAppend) : History :=
  let attempt := attemptSync options history.file append
  { file := attempt.file, attempts := history.attempts ++ [attempt] }

/-- The appends of one writer after another, from no file on. -/
def run (options : EventLogOptions) (appends : List LogAppend) : History :=
  appends.foldl (History.append options) { file := none, attempts := [] }

end OneHarness.Daemon.EventLog
