/-
`RlmSpawnLedger`: who spawned which child session, as an append-only log of
spawns, renames and deletions that every daemon process appends to.

# Many instances, one file

Each process holds its own instance. An instance runs one operation at a
time; an operation reads the file, then appends, and the appends of other
instances may come between the two. An append itself is atomic. What the
file system makes of a path (`canonicalSessionPath`) may change at any time,
so every step is given the function of its moment.

# The first operation

seeds a missing file from the registries of the sessions: the walk collects
the spawns, reading one registry after the other, and publishes them as a
whole unless a file is there by then.
-/
import OneHarness.Daemon.EventLog
import OneHarness.Lib.JsMap
import OneHarness.Lib.Json.Numeral
import Mathlib.Data.List.Lex

namespace OneHarness.Daemon.RlmLedger

open Lib EventLog

def RLM_LEDGER_MAX_BYTES : Nat := 32 * 1024 * 1024
def RLM_LEDGER_MAX_RECORDS : Nat := 100000

/-- `Number.MAX_SAFE_INTEGER`. -/
def MAX_SAFE_INTEGER : Nat := 9007199254740991

/-- `Number.isSafeInteger`, of a number that is a rational. -/
def isSafeInteger (n : ℚ) : Bool :=
  n.den = 1 && n.num.natAbs ≤ MAX_SAFE_INTEGER

-- ======== the records

inductive RlmLedgerDeleteReason where
  | user | parentTeardown | revoked | gc
deriving DecidableEq

def RlmLedgerDeleteReason.text : RlmLedgerDeleteReason → String
  | .user => "user"
  | .parentTeardown => "parent-teardown"
  | .revoked => "revoked"
  | .gc => "gc"

structure RlmLedgerMetaRecord where
  at_ : String
  sessionsDir : String

structure RlmLedgerSpawnRecord where
  at_ : String
  childId : String
  parent : String
  child : String
  depth : Nat
  name : String

structure RlmLedgerRenameRecord where
  at_ : String
  childId : String
  child : String
  name : String

structure RlmLedgerDeleteRecord where
  at_ : String
  childId : String
  child : String
  reason : RlmLedgerDeleteReason

/-- A line of the ledger. -/
inductive RlmLedgerRecord where
  | metadata (record : RlmLedgerMetaRecord)
  | spawn (record : RlmLedgerSpawnRecord)
  | rename (record : RlmLedgerRenameRecord)
  | delete (record : RlmLedgerDeleteRecord)

/-- The members of a record, in the order they are written in. -/
def RlmLedgerRecord.members : RlmLedgerRecord → List (String × Json)
  | .metadata r => [("v", .num (Numeral.ofNat 1)), ("op", .str "meta"),
      ("at", .str r.at_), ("sessionsDir", .str r.sessionsDir)]
  | .spawn r => [("v", .num (Numeral.ofNat 1)), ("op", .str "spawn"),
      ("at", .str r.at_), ("childId", .str r.childId),
      ("parent", .str r.parent), ("child", .str r.child),
      ("depth", .num (Numeral.ofNat r.depth)), ("name", .str r.name)]
  | .rename r => [("v", .num (Numeral.ofNat 1)), ("op", .str "rename"),
      ("at", .str r.at_), ("childId", .str r.childId),
      ("child", .str r.child), ("name", .str r.name)]
  | .delete r => [("v", .num (Numeral.ofNat 1)), ("op", .str "delete"),
      ("at", .str r.at_), ("childId", .str r.childId),
      ("child", .str r.child), ("reason", .str r.reason.text)]

def RlmLedgerRecord.toJson (r : RlmLedgerRecord) : Json := .obj r.members

-- ======== reading a line

/-- What `parseLedgerLine` throws. -/
inductive LineError where
  /-- `JSON.parse` threw. -/
  | notJson (index : Nat)
  /-- The line is `null`, which has no property. -/
  | typeError
  | malformed (index : Nat) (what : String)

/-- `Malformed RLM ledger line …`; the engine words the rest. -/
def LineError.message : LineError → String
  | .notJson index => "Malformed RLM ledger line " ++ toString (index + 1)
  | .typeError => "TypeError"
  | .malformed index what =>
    "Malformed RLM ledger line " ++ toString (index + 1) ++ ": " ++ what

def string? : Option Json → Option String
  | some (.str s) => some s
  | _ => none

def number? : Option Json → Option ℚ
  | some (.num n) => some n.toRat
  | _ => none

def deleteReason? (value : Option Json) : Option RlmLedgerDeleteReason :=
  match string? value with
  | some "user" => some .user
  | some "parent-teardown" => some .parentTeardown
  | some "revoked" => some .revoked
  | some "gc" => some .gc
  | _ => none

/-- A depth that a spawn record may have. -/
def depth? (value : Option Json) : Option Nat :=
  match number? value with
  | some depth =>
    if isSafeInteger depth && 1 ≤ depth then some depth.num.toNat else none
  | none => none

def metaRecord? (at_ : String) (record : Json) :
    Option RlmLedgerMetaRecord := do
  let sessionsDir ← string? (record.get "sessionsDir")
  return { at_, sessionsDir }

def spawnRecord? (at_ : String) (record : Json) :
    Option RlmLedgerSpawnRecord := do
  let childId ← string? (record.get "childId")
  let parent ← string? (record.get "parent")
  let child ← string? (record.get "child")
  let name ← string? (record.get "name")
  let depth ← depth? (record.get "depth")
  return { at_, childId, parent, child, depth, name }

def renameRecord? (at_ : String) (record : Json) :
    Option RlmLedgerRenameRecord := do
  let childId ← string? (record.get "childId")
  let child ← string? (record.get "child")
  let name ← string? (record.get "name")
  return { at_, childId, child, name }

def deleteRecord? (at_ : String) (record : Json) :
    Option RlmLedgerDeleteRecord := do
  let childId ← string? (record.get "childId")
  let child ← string? (record.get "child")
  let reason ← deleteReason? (record.get "reason")
  return { at_, childId, child, reason }

/-- The record, or the complaint about the line. -/
def orMalformed {α : Type} (index : Nat) (what : String)
    (wrap : α → RlmLedgerRecord) :
    Option α → Except LineError (Option RlmLedgerRecord)
  | some record => .ok (some (wrap record))
  | none => .error (.malformed index what)

/-- A line that is JSON and has its `v` and `at`; a record of an unknown `op`
is skipped. -/
def parseOp (record : Json) (index : Nat) (at_ : String) :
    Except LineError (Option RlmLedgerRecord) :=
  match string? (record.get "op") with
  | some "meta" =>
    orMalformed index "meta without sessionsDir" .metadata
      (metaRecord? at_ record)
  | some "spawn" =>
    orMalformed index "invalid spawn record" .spawn (spawnRecord? at_ record)
  | some "rename" =>
    orMalformed index "invalid rename record" .rename
      (renameRecord? at_ record)
  | some "delete" =>
    orMalformed index "invalid delete record" .delete
      (deleteRecord? at_ record)
  | _ => .ok none

def parseLedgerLine (line : String) (index : Nat) :
    Except LineError (Option RlmLedgerRecord) :=
  match Json.parse line.toList with
  | none => .error (.notJson index)
  | some .null => .error .typeError
  | some record =>
    match number? (record.get "v"), string? (record.get "at") with
    | some v, some at_ =>
      if v = 1 then parseOp record index at_
      else .error (.malformed index "missing v/at")
    | _, _ => .error (.malformed index "missing v/at")

-- ======== the edges

/-- An edge of the family, with the reason of its deletion if there was
one. -/
structure RlmLedgerEdge where
  childId : String
  parent : String
  child : String
  depth : Nat
  name : String
  deleted : Option RlmLedgerDeleteReason

abbrev Edges := JsMap String RlmLedgerEdge

def edgeKey (canonicalSessionPath : String → String) (childId child : String) :
    String :=
  childId ++ "\u0000" ++ canonicalSessionPath child

/-- The key of the edge that a rename or a deletion is about: that of the
record, or that of the one edge with the child's id. -/
def edgeForKey (edges : Edges) (key childId : String) : Option String :=
  if edges.has key then some key
  else
    match edges.filter fun p => p.2.childId = childId with
    | [sole] => some sole.1
    | _ => none

/-- The edges after an edit of the one that a record is about. -/
def editEdge (edges : Edges) (key childId : String)
    (edit : RlmLedgerEdge → RlmLedgerEdge) : Edges :=
  match edgeForKey edges key childId with
  | none => edges
  | some key =>
    match edges.get key with
    | some existing => edges.set key (edit existing)
    | none => edges

def replayRecord (canonicalSessionPath : String → String) (edges : Edges) :
    RlmLedgerRecord → Edges
  | .metadata _ => edges
  | .spawn r =>
    edges.set (edgeKey canonicalSessionPath r.childId r.child)
      { childId := r.childId, parent := r.parent, child := r.child
        depth := r.depth, name := r.name, deleted := none }
  | .rename r =>
    editEdge edges (edgeKey canonicalSessionPath r.childId r.child) r.childId
      fun existing => { existing with name := r.name }
  | .delete r =>
    editEdge edges (edgeKey canonicalSessionPath r.childId r.child) r.childId
      fun existing => { existing with deleted := some r.reason }

def eventLogOptions : EventLogOptions where
  maxBytes := some RLM_LEDGER_MAX_BYTES
  maxRecords := some RLM_LEDGER_MAX_RECORDS

def replaySync (canonicalSessionPath : String → String)
    (file : Option (List UInt8)) : Except (EventLogError LineError) Edges :=
  match EventLog.replaySync eventLogOptions parseLedgerLine file with
  | .error error => .error error
  | .ok records =>
    .ok (records.foldl (replayRecord canonicalSessionPath) [])

-- ======== the seed

structure RlmLedgerSeedRegistryEntry where
  childId : String
  sessionName : String
  sessionFile : String
  rlmDepth : Option Nat
  deleted : Bool

/-- The walk over the registries. -/
structure SeedWalk where
  queue : List (String × Nat)
  visited : List String
  records : List RlmLedgerSpawnRecord

/-- `depth + 1`, rounded as a double is. -/
def depthBelow (depth : Nat) : Nat :=
  if depth ≤ MAX_SAFE_INTEGER then depth + 1 else depth

/-- The order of `sort()`: by UTF-16 code units. -/
def codeUnits (s : String) : List Nat :=
  s.toList.flatMap fun c =>
    if c.toNat < 0x10000 then [c.toNat]
    else [0xD800 + (c.toNat - 0x10000) / 0x400,
      0xDC00 + (c.toNat - 0x10000) % 0x400]

def startWalk (canonicalSessionPath : String → String)
    (canonicalSessionsDir : String) (rootEntries : List String) : SeedWalk :=
  let names := (rootEntries.filter fun name => name.endsWith ".jsonl").mergeSort
    fun a b => codeUnits a ≤ codeUnits b
  let queue := names.map fun name => (canonicalSessionsDir ++ "/" ++ name, 0)
  { queue, visited := queue.map fun item => canonicalSessionPath item.1
    records := [] }

/-- One entry of the registry of a session at a depth; `now k` is the time
when `k` records have been collected. -/
def seedEntry (canonicalSessionPath : String → String) (now : Nat → String)
    (sessionFile : String) (depth : Nat) (walk : SeedWalk)
    (entry : RlmLedgerSeedRegistryEntry) : SeedWalk :=
  let childPath := canonicalSessionPath entry.sessionFile
  if entry.deleted || walk.visited.contains childPath then walk
  else
    let visited := walk.visited ++ [childPath]
    let registryDepth := entry.rlmDepth.filter fun depth => 1 ≤ depth
    let childDepth := registryDepth.getD (depthBelow depth)
    if entry.childId = "" then { walk with visited := visited }
    else
      { queue := walk.queue ++ [(entry.sessionFile, childDepth)]
        visited
        records := walk.records ++
          [{ at_ := now walk.records.length, childId := entry.childId
             parent := canonicalSessionPath sessionFile, child := childPath
             depth := childDepth, name := entry.sessionName }] }

/-- The lines of a seed. -/
def seedLines (canonicalSessionsDir now : String)
    (records : List RlmLedgerSpawnRecord) : List RlmLedgerRecord :=
  .metadata { at_ := now, sessionsDir := canonicalSessionsDir }
    :: records.map .spawn

-- ======== the instances

structure Stat where
  size : Nat
  mtimeMs : Nat
  ino : Nat
deriving DecidableEq

structure LedgerFile where
  bytes : List UInt8
  mtimeMs : Nat
  ino : Nat

def LedgerFile.stat (file : LedgerFile) : Stat where
  size := file.bytes.length
  mtimeMs := file.mtimeMs
  ino := file.ino

/-- Where an instance stands in the operation it runs. -/
inductive Work where
  | idle
  | seeding (walk : SeedWalk)
  /-- About to append the record, which takes the time from then. -/
  | appending (record : String → RlmLedgerRecord)
  /-- In the loop of `appendRenameByChildPath`, these edges still to go. -/
  | renames (target name : String) (edges : List RlmLedgerEdge)

structure RlmSpawnLedger where
  canonicalSessionsDir : String
  hasSeedSource : Bool
  seedAttempted : Bool
  edgeCache : Option (Stat × Edges)
  work : Work

/-- Why an operation was rejected. -/
inductive LedgerError where
  | invalidSpawn (childId : String) (depth : ℚ)
  | duplicateChild (childPath childId : String)
  | eventLog (error : EventLogError LineError)

structure World where
  file : Option LedgerFile
  ledgers : Nat → RlmSpawnLedger

/-- No file, and instances that have done nothing. -/
def World.init (canonicalSessionsDir : Nat → String)
    (hasSeedSource : Nat → Bool) : World where
  file := none
  ledgers i :=
    { canonicalSessionsDir := canonicalSessionsDir i
      hasSeedSource := hasSeedSource i
      seedAttempted := false
      edgeCache := none
      work := .idle }

def World.bytes (w : World) : Option (List UInt8) := w.file.map (·.bytes)

def World.setLedger (w : World) (i : Nat) (ledger : RlmSpawnLedger) : World :=
  { w with ledgers := fun j => if j = i then ledger else w.ledgers j }

/-- The edges, from the cache while the file's stat is that of the cache, and
the instance's cache afterwards. -/
def replaySyncCached (canonicalSessionPath : String → String)
    (file : Option LedgerFile) (ledger : RlmSpawnLedger) :
    Except (EventLogError LineError) (Edges × RlmSpawnLedger) :=
  let cached := match file, ledger.edgeCache with
    | some file, some (stat, edges) =>
      if stat = file.stat then some edges else none
    | _, _ => none
  match cached with
  | some edges => .ok (edges, ledger)
  | none =>
    match replaySync canonicalSessionPath (file.map (·.bytes)) with
    | .error error => .error error
    | .ok edges =>
      match file with
      | some file =>
        .ok (edges, { ledger with edgeCache := some (file.stat, edges) })
      | none => .ok (edges, ledger)

-- ======== the steps

structure SpawnInput where
  childId : String
  parent : String
  child : String
  depth : ℚ
  name : String

/-- How the publication of a seed ends. -/
inductive PublishOutcome where
  /-- `link` was called, and found a file or did not. -/
  | linked
  /-- `link` is not available, or something before it threw. -/
  | failed

/-- A step of an instance. The reads of the seed and the starts of the
operations are steps of their own; so is every append. -/
inductive Event where
  /-- The seed begins; `none` is a directory that cannot be read. -/
  | seed (rootEntries : Option (List String))
  /-- The registry of the next session is read; `none` is a throw. -/
  | seedRead (now : Nat → String)
    (entries : Option (List RlmLedgerSeedRegistryEntry))
  | seedPublish (now : String) (mtimeMs ino : Nat) (outcome : PublishOutcome)
  | appendSpawn (input : SpawnInput)
  | appendRename (childId child name : String)
  | appendRenameByChildPath (child name : String)
  | appendDelete (childId child : String) (reason : RlmLedgerDeleteReason)
  | edges (includeDeleted : Bool)
  /-- The append that the operation has come to. -/
  | append (now : String) (mtimeMs ino : Nat)

/-- What a caller learns. -/
inductive Result where
  /-- The instance is not at that point. -/
  | none
  /-- The operation goes on, or nobody waits for it. -/
  | pending
  | resolved
  | edges (edges : List RlmLedgerEdge)
  | rejected (error : LedgerError)

section
variable (canonicalSessionPath : String → String)

def seed (w : World) (i : Nat) (rootEntries : Option (List String)) :
    World × Result :=
  let ledger := { w.ledgers i with seedAttempted := true }
  if !ledger.hasSeedSource || w.file.isSome then
    (w.setLedger i ledger, .pending)
  else
    match rootEntries with
    | none => (w.setLedger i ledger, .pending)
    | some rootEntries =>
      (w.setLedger i { ledger with
          work := .seeding (startWalk canonicalSessionPath
            ledger.canonicalSessionsDir rootEntries) },
        .pending)

def seedRead (w : World) (i : Nat) (walk : SeedWalk) (now : Nat → String)
    (entries : Option (List RlmLedgerSeedRegistryEntry)) : World × Result :=
  match walk.queue, entries with
  | [], _ => (w, .none)
  | _, none =>
    (w.setLedger i { w.ledgers i with work := .idle }, .pending)
  | (sessionFile, depth) :: queue, some entries =>
    (w.setLedger i { w.ledgers i with
        work := .seeding (entries.foldl
          (seedEntry canonicalSessionPath now sessionFile depth)
          { walk with queue := queue }) },
      .pending)

/-- The file that a seed leaves. -/
def published (file : Option LedgerFile) (canonicalSessionsDir now : String)
    (records : List RlmLedgerSpawnRecord) (mtimeMs ino : Nat) :
    Option LedgerFile :=
  let bytes := payload
    ((seedLines canonicalSessionsDir now records).map RlmLedgerRecord.toJson)
  if records.isEmpty then file
  else if RLM_LEDGER_MAX_RECORDS < records.length + 1
      || RLM_LEDGER_MAX_BYTES < bytes.length then file
  else
    match file with
    | some file => some file
    | none => some { bytes, mtimeMs, ino }

def seedPublish (w : World) (i : Nat) (walk : SeedWalk) (now : String)
    (mtimeMs ino : Nat) (outcome : PublishOutcome) : World × Result :=
  match walk.queue, outcome with
  | [], .linked =>
    ({ w with
        file := published w.file (w.ledgers i).canonicalSessionsDir now
          walk.records mtimeMs ino }.setLedger i
        { w.ledgers i with work := .idle },
      .pending)
  | [], .failed => (w.setLedger i { w.ledgers i with work := .idle }, .pending)
  | _, _ => (w, .none)

def appendSpawnUnlocked (w : World) (i : Nat) (input : SpawnInput) :
    World × Result :=
  if input.childId = "" || input.parent = "" || input.child = ""
      || !isSafeInteger input.depth || input.depth < 1 then
    (w, .rejected (.invalidSpawn input.childId input.depth))
  else
    let childPath := canonicalSessionPath input.child
    match replaySyncCached canonicalSessionPath w.file (w.ledgers i) with
    | .error error => (w, .rejected (.eventLog error))
    | .ok (edges, ledger) =>
      match edges.values.find? fun edge =>
          edge.deleted.isNone && canonicalSessionPath edge.child = childPath
            && edge.childId ≠ input.childId with
      | some edge =>
        (w.setLedger i ledger,
          .rejected (.duplicateChild childPath edge.childId))
      | none =>
        (w.setLedger i { ledger with
            work := .appending fun at_ => .spawn
              { at_, childId := input.childId
                parent := canonicalSessionPath input.parent
                child := childPath
                depth := input.depth.num.toNat, name := input.name } },
          .pending)

def appendRename (w : World) (i : Nat) (childId child name : String) :
    World × Result :=
  (w.setLedger i { w.ledgers i with
      work := .appending fun at_ => .rename
        { at_, childId, child := canonicalSessionPath child, name } },
    .pending)

def appendDelete (w : World) (i : Nat) (childId child : String)
    (reason : RlmLedgerDeleteReason) : World × Result :=
  (w.setLedger i { w.ledgers i with
      work := .appending fun at_ => .delete
        { at_, childId, child := canonicalSessionPath child, reason } },
    .pending)

def appendRenameByChildPath (w : World) (i : Nat) (child name : String) :
    World × Result :=
  let target := canonicalSessionPath child
  match replaySyncCached canonicalSessionPath w.file (w.ledgers i) with
  | .error error => (w, .rejected (.eventLog error))
  | .ok (edges, ledger) =>
    (w.setLedger i { ledger with
        work := .renames target name edges.values },
      .pending)

def readEdges (w : World) (i : Nat) (includeDeleted : Bool) :
    World × Result :=
  match replaySyncCached canonicalSessionPath w.file (w.ledgers i) with
  | .error error => (w, .rejected (.eventLog error))
  | .ok (edges, ledger) =>
    (w.setLedger i ledger,
      .edges (edges.values.filter fun edge =>
        includeDeleted || edge.deleted.isNone))

/-- `appendRecord`: the record is in the file, with the meta record before it
if the file is new, and the instance forgets its cache and goes on. -/
def appendRecord (w : World) (i : Nat) (record : RlmLedgerRecord)
    (now : String) (mtimeMs ino : Nat) (next : Work) : World × Result :=
  let ledger := w.ledgers i
  let onCreate := RlmLedgerRecord.metadata
    { at_ := now, sessionsDir := ledger.canonicalSessionsDir }
  match EventLog.appendSync eventLogOptions w.bytes [record.toJson]
      [onCreate.toJson] with
  | .error error =>
    (w.setLedger i { ledger with work := .idle },
      .rejected (.eventLog error))
  | .ok bytes =>
    let file : LedgerFile := match w.file with
      | some file => { file with bytes, mtimeMs }
      | none => { bytes, mtimeMs, ino }
    ({ w with file := some file }.setLedger i
        { ledger with edgeCache := none, work := next },
      .resolved)

/-- The next round of the loop over the edges. -/
def renameNext (w : World) (i : Nat) (target name : String)
    (edges : List RlmLedgerEdge) (now : String) (mtimeMs ino : Nat) :
    World × Result :=
  match edges with
  | [] => (w.setLedger i { w.ledgers i with work := .idle }, .resolved)
  | edge :: edges =>
    if edge.deleted.isNone && canonicalSessionPath edge.child = target then
      appendRecord w i
        (.rename { at_ := now, childId := edge.childId, child := target, name })
        now mtimeMs ino (.renames target name edges)
    else
      (w.setLedger i { w.ledgers i with work := .renames target name edges },
        .pending)

/-- A step of the instance `i`. An operation starts when the one before it is
through, and the seed has been attempted. -/
def World.step (w : World) (i : Nat) (event : Event) : World × Result :=
  match (w.ledgers i).work, event with
  | .idle, .seed rootEntries =>
    if (w.ledgers i).seedAttempted then (w, .none)
    else seed canonicalSessionPath w i rootEntries
  | .seeding walk, .seedRead now entries =>
    seedRead canonicalSessionPath w i walk now entries
  | .seeding walk, .seedPublish now mtimeMs ino outcome =>
    seedPublish w i walk now mtimeMs ino outcome
  | .appending record, .append now mtimeMs ino =>
    appendRecord w i (record now) now mtimeMs ino .idle
  | .renames target name edges, .append now mtimeMs ino =>
    renameNext canonicalSessionPath w i target name edges now mtimeMs ino
  | .idle, event =>
    if !(w.ledgers i).seedAttempted then (w, .none)
    else
      match event with
      | .appendSpawn input =>
        appendSpawnUnlocked canonicalSessionPath w i input
      | .appendRename childId child name =>
        appendRename canonicalSessionPath w i childId child name
      | .appendRenameByChildPath child name =>
        appendRenameByChildPath canonicalSessionPath w i child name
      | .appendDelete childId child reason =>
        appendDelete canonicalSessionPath w i childId child reason
      | .edges includeDeleted =>
        readEdges canonicalSessionPath w i includeDeleted
      | _ => (w, .none)
  | _, _ => (w, .none)

end

/-- An instance's step, and what the file system makes of a path then. -/
structure Move where
  ledger : Nat
  canonicalSessionPath : String → String
  event : Event

def World.move (w : World) (m : Move) : World :=
  (w.step m.canonicalSessionPath m.ledger m.event).1

def World.run (w : World) (moves : List Move) : World :=
  moves.foldl World.move w

end OneHarness.Daemon.RlmLedger
