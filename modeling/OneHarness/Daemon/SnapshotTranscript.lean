/-
The transcript a daemon sends to a client that attaches: messages are cut
into chunks, and a cache holds the chunks for readers that wait for them.

# Waiters

A call of `waitForChunk` is known by its number. What it captures is kept
with it: its index, its signal, and the array of waiters it was pushed to.
Arrays are known by their number too, because `onAbort` changes the array it
captured, whatever the map says by then. `settled` is the order in which
promises were settled, once for each call of a `resolve` or `reject`;
`appended` is every chunk there ever was.

# What is left out

Reading and writing files does not fail, and a file holds what was written.
An index is a natural number.
-/
import OneHarness.Lib.JsMap
import OneHarness.Lib.Json.Basic
import OneHarness.Lib.Utf8

namespace OneHarness.Daemon.Snapshot

open Lib

abbrev Buffer := List UInt8

-- ======== chunks

structure ChunkOptions where
  activeSessionId : String
  snapshotId : String
  targetChunkBytes : Nat

/-- `Buffer.byteLength(text)`. -/
def byteLength (text : List Char) : Nat := (Utf8.encode text).length

/-- `serializedMessages.join(",")`. -/
def joined (serializedMessages : List (List Char)) : List Char :=
  [','].intercalate serializedMessages

/-- The line of a chunk. -/
def chunkLine (options : ChunkOptions) (index : Nat)
    (serializedMessages : List (List Char)) : Buffer :=
  Utf8.encode
    ("\x7b\"type\":\"session_snapshot_chunk\",\"activeSessionId\":".toList
      ++ Json.stringify (.str options.activeSessionId)
      ++ ",\"snapshotId\":".toList
      ++ Json.stringify (.str options.snapshotId)
      ++ ",\"index\":".toList ++ (toString index).toList
      ++ ",\"messages\":[".toList ++ joined serializedMessages
      ++ "]\x7d\n".toList)

/-- The variables of the generator. -/
structure Encoder where
  serializedMessages : List (List Char)
  serializedBytes : Nat
  index : Nat

def flush (options : ChunkOptions) (s : Encoder) : Option Buffer × Encoder :=
  if s.serializedMessages = [] then (none, s)
  else (some (chunkLine options s.index s.serializedMessages),
    ⟨[], 0, s.index + 1⟩)

structure CacheOptions extends ChunkOptions where
  cacheRoot : String
  memoryCacheBytes : Nat

/-- A chunk in memory, or in the file of an index. -/
inductive Chunk where
  | buffer (bytes : Buffer)
  | path (fileIndex : Nat)

inductive Settlement where
  | resolved (chunk : Option Buffer)
  | rejected (reason : String)

structure Waiter where
  index : Nat
  signal : Option Nat
  /-- the array it was pushed to, unless it was settled at once -/
  array : Option Nat

/-- The cache, its files, and the promises and signals around it. -/
structure World where
  chunks : List Chunk
  cacheDirectory : Option String
  files : JsMap Nat Buffer
  totalBytes : Nat
  completed : Bool
  readers : Nat
  disposeRequested : Bool
  disposed : Bool
  failure : Option String
  chunkWaiters : JsMap Nat Nat
  arrays : List (List Nat)
  waiters : List Waiter
  /-- the waiters whose `onAbort` is registered -/
  listeners : List Nat
  /-- the signals that are aborted, with their reasons -/
  aborted : JsMap Nat String
  /-- for each function `retain` returned, whether it was called -/
  released : List Bool
  settled : List (Nat × Settlement)
  appended : List Buffer

namespace World

def empty : World where
  chunks := []
  cacheDirectory := none
  files := []
  totalBytes := 0
  completed := false
  readers := 0
  disposeRequested := false
  disposed := false
  failure := none
  chunkWaiters := []
  arrays := []
  waiters := []
  listeners := []
  aborted := []
  released := []
  settled := []
  appended := []

/-- `readChunk`; `none` throws. -/
def readChunk (w : World) (index : Nat) : Option Buffer :=
  match w.chunks[index]? with
  | none => none
  | some (.buffer bytes) => some bytes
  | some (.path fileIndex) => w.files.get fileIndex

/-- `waiter.resolve(…)` and `waiter.reject(…)`. -/
def settle (w : World) (id : Nat) (settlement : Settlement) : World :=
  { w with
    listeners := w.listeners.filter (· ≠ id)
    settled := w.settled ++ [(id, settlement)] }

def settleAll (w : World) (ids : List Nat) (settlement : Settlement) :
    World :=
  ids.foldl (fun w id => w.settle id settlement) w

/-- The waiters in an array. -/
def array (w : World) (a : Nat) : List Nat := (w.arrays[a]?).getD []

-- ------------------------------------------------------------------ storing

/-- `snapshotId.replaceAll(/[^a-zA-Z0-9_-]/g, "_")`. -/
def fileName (snapshotId : String) : String :=
  String.ofList (snapshotId.toList.map fun c =>
    if c.isAlphanum || c = '_' || c = '-' then c else '_')

/-- A chunk in memory goes to the file of its index. -/
def spillChunk (files : JsMap Nat Buffer) (p : Chunk × Nat) :
    JsMap Nat Buffer :=
  match p.1 with
  | .buffer bytes => files.set p.2 bytes
  | .path _ => files

def spill (w : World) : World :=
  { w with
    files := w.chunks.zipIdx.foldl spillChunk w.files
    chunks := w.chunks.mapIdx fun index _ => .path index }

/-- Where a chunk is put, before anybody who waits for it is told. -/
def putChunk (options : CacheOptions) (w : World) (bytes : Buffer) : World :=
  let w := { w with
    totalBytes := w.totalBytes + bytes.length
    appended := w.appended ++ [bytes] }
  let w :=
    if w.cacheDirectory = none ∧ w.totalBytes > options.memoryCacheBytes then
      { w.spill with
        cacheDirectory :=
          some (options.cacheRoot ++ "/" ++ fileName options.snapshotId) }
    else w
  if w.cacheDirectory.isSome then
    { w with
      files := w.files.set w.chunks.length bytes
      chunks := w.chunks ++ [.path w.chunks.length] }
  else { w with chunks := w.chunks ++ [.buffer bytes] }

def storeChunk (options : CacheOptions) (w : World) (bytes : Buffer) : World :=
  let w := putChunk options w bytes
  let index := w.chunks.length - 1
  match w.chunkWaiters.get index with
  | none => w
  | some a =>
    match w.readChunk index with
    | none => w
    | some stored =>
      let w := w.settleAll (w.array a) (.resolved (some stored))
      { w with chunkWaiters := w.chunkWaiters.delete index }

/-- A chunk can be appended. -/
def writable (w : World) : Bool :=
  !(w.completed || w.failure.isSome || w.disposed)

def appendEncodedChunk (options : CacheOptions) (w : World) (bytes : Buffer) :
    World :=
  if w.writable then storeChunk options w bytes else w

-- ------------------------------------------------------------------- the end

/-- The body of the loop of `markComplete`. -/
def completeIndex (w : World) (p : Nat × Nat) : World :=
  if p.1 < w.chunks.length then w
  else
    let w := w.settleAll (w.array p.2) (.resolved none)
    { w with chunkWaiters := w.chunkWaiters.delete p.1 }

def markComplete (w : World) : World :=
  if w.completed || w.failure.isSome || w.disposed then w
  else w.chunkWaiters.foldl completeIndex { w with completed := true }

def markFailed (w : World) (error : String) : World :=
  if w.failure.isSome then w
  else
    let w := { w with failure := some error }
    let w := w.chunkWaiters.foldl (fun w p =>
      w.settleAll (w.array p.2) (.rejected error)) w
    { w with chunkWaiters := [] }

def disposeNow (options : CacheOptions) (w : World) : World :=
  if w.disposed then w
  else
    let w := { w with disposed := true }
    let w := w.markFailed
      ("Snapshot transcript " ++ options.snapshotId ++ " was disposed")
    let w :=
      if w.cacheDirectory.isSome then
        { w with
          files := []
          cacheDirectory := none }
      else w
    { w with chunks := [] }

def dispose (options : CacheOptions) (w : World) : World :=
  if w.disposed || w.disposeRequested then w
  else
    let w := { w with disposeRequested := true }
    if w.readers > 0 then w else disposeNow options w

def retain (w : World) : World :=
  if w.disposed then w
  else
    { w with
      readers := w.readers + 1
      released := w.released ++ [false] }

/-- The function `retain` returned. -/
def release (options : CacheOptions) (w : World) (reader : Nat) : World :=
  match w.released[reader]? with
  | some false =>
    let w := { w with
      released := w.released.set reader true
      readers := w.readers - 1 }
    if w.readers = 0 && w.disposeRequested then disposeNow options w else w
  | _ => w

-- ------------------------------------------------------------------- waiting

/-- A promise that is settled when it is made. -/
def answer (w : World) (index : Nat) (signal : Option Nat)
    (settlement : Settlement) : World :=
  { w with
    waiters := w.waiters ++ [⟨index, signal, none⟩]
    settled := w.settled ++ [(w.waiters.length, settlement)] }

/-- A promise that waits in an array. -/
def enlist (w : World) (index : Nat) (signal : Option Nat) (a : Nat)
    (arrays : List (List Nat)) : World :=
  { w with
    waiters := w.waiters ++ [⟨index, signal, some a⟩]
    arrays := arrays
    chunkWaiters := w.chunkWaiters.set index a
    listeners :=
      if signal.isSome then w.listeners ++ [w.waiters.length]
      else w.listeners }

def waitForChunk (w : World) (index : Nat) (signal : Option Nat) : World :=
  match signal.bind w.aborted.get with
  | some reason => w.answer index signal (.rejected reason)
  | none =>
    match w.failure with
    | some error => w.answer index signal (.rejected error)
    | none =>
      if index < w.chunks.length then
        match w.readChunk index with
        | some bytes => w.answer index signal (.resolved (some bytes))
        | none => w
      else if w.completed then w.answer index signal (.resolved none)
      else
        match w.chunkWaiters.get index with
        | some a =>
          w.enlist index signal a
            (w.arrays.modify a (· ++ [w.waiters.length]))
        | none =>
          w.enlist index signal w.arrays.length
            (w.arrays ++ [[w.waiters.length]])

/-- `waiters.splice(waiters.indexOf(waiter), 1)`: an index of -1 takes the
last one. -/
def spliceOut (waiters : List Nat) (id : Nat) : List Nat :=
  match waiters.idxOf? id with
  | some i => waiters.eraseIdx i
  | none => waiters.dropLast

/-- `onAbort` of a waiter. -/
def onAbort (w : World) (id : Nat) (waiter : Waiter) (a : Nat)
    (reason : String) : World :=
  let w := { w with arrays := w.arrays.modify a (spliceOut · id) }
  let w :=
    if w.array a = [] then
      { w with chunkWaiters := w.chunkWaiters.delete waiter.index }
    else w
  { w with settled := w.settled ++ [(id, .rejected reason)] }

/-- A listener is called once, if it is still registered. -/
def dispatch (signal : Nat) (reason : String) (w : World) (id : Nat) : World :=
  if id ∈ w.listeners then
    match w.waiters[id]? with
    | some ⟨index, some signal', some a⟩ =>
      if signal' = signal then
        { w with listeners := w.listeners.filter (· ≠ id) }.onAbort id
          ⟨index, some signal', some a⟩ a reason
      else w
    | _ => w
  else w

/-- `controller.abort(reason)`. -/
def abort (w : World) (signal : Nat) (reason : String) : World :=
  if w.aborted.has signal then w
  else
    w.listeners.foldl (dispatch signal reason)
      { w with aborted := w.aborted.set signal reason }

end World

-- ======== the runs

inductive Event where
  | waitForChunk (index : Nat) (signal : Option Nat)
  | appendEncodedChunk (bytes : Buffer)
  | markComplete
  | markFailed (error : String)
  | retain
  | release (reader : Nat)
  | dispose
  | abort (signal : Nat) (reason : String)

def World.step (options : CacheOptions) (w : World) : Event → World
  | .waitForChunk index signal => w.waitForChunk index signal
  | .appendEncodedChunk bytes => w.appendEncodedChunk options bytes
  | .markComplete => w.markComplete
  | .markFailed error => w.markFailed error
  | .retain => w.retain
  | .release reader => w.release options reader
  | .dispose => w.dispose options
  | .abort signal reason => w.abort signal reason

end OneHarness.Daemon.Snapshot
