/-
The queues that order the changes a process makes to its files.

# Promises

A call of `withFileMutationQueue` is known by its number. Its `chainedQueue`
is resolved once the queue it found is and its function has settled; a call
that found none goes on at once. When a promise is resolved, those who wait
for it are told later, in an order that is left open: `chain` is the
resolution of a `chainedQueue`, `run` the start of a function. The
function of a call is in flight from its `run` to its `settle`.

# Files

What the operating system answers may change at any time. `denotes` is the
file a path leads to, whether or not it exists; a call keeps the files its
path has led to while its function ran.
-/
import OneHarness.Lib.JsMap

namespace OneHarness.Tools.FileMutationQueue

open Lib

-- ======== paths

abbrev Path := List String

structure FilePath where
  absolute : Bool
  segments : List String

/-- The operating system, for files of the type `φ`. -/
structure FileSystem (φ : Type) where
  cwd : Path
  realpath : Path → Option Path
  denotes : FilePath → φ

/-- One segment of a path, in `resolve`. -/
def resolveSegment (path : Path) (segment : String) : Path :=
  if segment = "" ∨ segment = "." then path
  else if segment = ".." then path.dropLast
  else path ++ [segment]

/-- `resolve(filePath)`. -/
def resolve (cwd : Path) (filePath : FilePath) : Path :=
  filePath.segments.foldl resolveSegment
    (if filePath.absolute then [] else cwd)

def getMutationQueueKey {φ : Type} (fs : FileSystem φ) (filePath : FilePath) :
    Path :=
  let resolvedPath := resolve fs.cwd filePath
  (fs.realpath resolvedPath).getD resolvedPath

-- ======== calls

inductive Phase where
  | queued
  | running
  | settled (threw : Bool)
  deriving DecidableEq

def Phase.isSettled : Phase → Bool
  | .settled _ => true
  | _ => false

structure Call (φ : Type) where
  filePath : FilePath
  key : Path
  /-- whose `chainedQueue` it found, if any -/
  currentQueue : Option Nat
  phase : Phase
  /-- its `chainedQueue` is resolved -/
  chained : Bool
  /-- the files its path has led to while its function ran -/
  seen : List φ

/-- What a call sees of a change of the file system. -/
def Call.after {φ : Type} (fs : FileSystem φ) (call : Call φ) : Call φ :=
  if call.phase = .running then
    { call with seen := call.seen ++ [fs.denotes call.filePath] }
  else call

structure World (φ : Type) where
  fs : FileSystem φ
  /-- the call whose `chainedQueue` is kept for a key -/
  fileMutationQueues : JsMap Path Nat
  calls : List (Call φ)
  /-- the calls whose functions were started, in that order -/
  started : List Nat

namespace World

variable {φ : Type}

def start (fs : FileSystem φ) : World φ := ⟨fs, [], [], []⟩

/-- The promise it awaits is resolved. -/
def ready (w : World φ) (call : Call φ) : Bool :=
  match call.currentQueue with
  | none => true
  | some q => (w.calls[q]?).any (·.chained)

def withFileMutationQueue (w : World φ) (filePath : FilePath) : World φ :=
  let key := getMutationQueueKey w.fs filePath
  { w with
    calls := w.calls
      ++ [⟨filePath, key, w.fileMutationQueues.get key, .queued, false, []⟩]
    fileMutationQueues := w.fileMutationQueues.set key w.calls.length }

/-- `chainedQueue` is resolved. -/
def chain (w : World φ) (id : Nat) : World φ :=
  match w.calls[id]? with
  | some call =>
    if w.ready call ∧ call.phase.isSettled then
      { w with calls := w.calls.set id { call with chained := true } }
    else w
  | none => w

/-- `fn()`, after `await currentQueue`. -/
def run (w : World φ) (id : Nat) : World φ :=
  match w.calls[id]? with
  | some call =>
    if w.ready call ∧ call.phase = .queued then
      { w with
        calls := w.calls.set id { call with
          phase := .running
          seen := [w.fs.denotes call.filePath] }
        started := w.started ++ [id] }
    else w
  | none => w

/-- The `finally` of a call, after its function has returned or thrown. -/
def settle (w : World φ) (id : Nat) (threw : Bool) : World φ :=
  match w.calls[id]? with
  | some call =>
    if call.phase = .running then
      { w with
        calls := w.calls.set id { call with phase := .settled threw }
        fileMutationQueues :=
          if w.fileMutationQueues.get call.key = some id then
            w.fileMutationQueues.delete call.key
          else w.fileMutationQueues }
    else w
  | none => w

def change (w : World φ) (fs : FileSystem φ) : World φ :=
  { w with
    fs := fs
    calls := w.calls.map (Call.after fs) }

end World

inductive Event (φ : Type) where
  | call (filePath : FilePath)
  | chain (id : Nat)
  | run (id : Nat)
  | settle (id : Nat) (threw : Bool)
  | change (fs : FileSystem φ)

def World.step {φ : Type} (w : World φ) : Event φ → World φ
  | .call filePath => w.withFileMutationQueue filePath
  | .chain id => w.chain id
  | .run id => w.run id
  | .settle id threw => w.settle id threw
  | .change fs => w.change fs

end OneHarness.Tools.FileMutationQueue
