/-
The fence that session actions are committed behind.

# Promises

An acquisition is known by its number, which stands for its owner symbol
too. It waits for the promise of the one before it (`previous`) and publishes
its own as the tail. What a promise calls when it is settled is called
later, in an order that is left open: `told` and `onAbort` settle the wait,
`proceed` and `giveUp` go on after it, `forward` is the `then` of one that
was cancelled.

An acquisition by the owner itself gets a fence that does nothing; these are
counted in `inner`.
-/
import Mathlib.Tactic.Common

namespace OneHarness.Session.CommitFence

inductive Phase where
  | waiting
  /-- the wait has ended well -/
  | admitted
  /-- the wait was aborted -/
  | rejected
  | holding
  | released
  | cancelled
  deriving DecidableEq

structure Acquisition where
  /-- whose promise was the tail; at first it is a resolved one -/
  previous : Option Nat
  signal : Option Nat
  phase : Phase
  /-- the promise it published is resolved -/
  resolved : Bool

structure Fence where
  sessionActionCommitTail : Option Nat
  sessionActionCommitOwner : Option Nat
  pendingSessionActionFenceWaiters : Int
  disposed : Bool
  /-- the signals that are aborted -/
  aborted : List Nat
  acquisitions : List Acquisition
  /-- the owners of the fences that do nothing -/
  inner : List Nat
  /-- the acquisitions that were let in, in that order -/
  entered : List Nat

namespace Fence

def start : Fence := ⟨none, none, 0, false, [], [], [], []⟩

/-- `waitSignal.aborted`. -/
def waitAborted (s : Fence) (signal : Option Nat) : Bool :=
  s.disposed || signal.any (· ∈ s.aborted)

/-- `previous` is resolved. -/
def ready (s : Fence) (acquisition : Acquisition) : Bool :=
  match acquisition.previous with
  | none => true
  | some previous => (s.acquisitions[previous]?).any (·.resolved)

/-- `_acquireSessionActionCommitFence`, until it waits. -/
def acquire (s : Fence) (inheritedOwner signal : Option Nat) : Fence :=
  if inheritedOwner.isSome ∧ inheritedOwner = s.sessionActionCommitOwner then
    { s with inner := s.inner ++ inheritedOwner.toList }
  else
    { s with
      sessionActionCommitTail := some s.acquisitions.length
      pendingSessionActionFenceWaiters := s.pendingSessionActionFenceWaiters + 1
      acquisitions := s.acquisitions ++ [⟨s.sessionActionCommitTail, signal,
        if s.waitAborted signal then .rejected else .waiting, false⟩] }

/-- Another state of an acquisition, if it is in a given one. -/
def put (s : Fence) (id : Nat) (acquisition : Acquisition) : Fence :=
  { s with acquisitions := s.acquisitions.set id acquisition }

def onAbort (s : Fence) (id : Nat) (a : Acquisition) : Fence :=
  if a.phase = .waiting ∧ s.waitAborted a.signal then
    s.put id { a with phase := .rejected }
  else s

def told (s : Fence) (id : Nat) (a : Acquisition) : Fence :=
  if a.phase = .waiting ∧ s.ready a then s.put id { a with phase := .admitted }
  else s

/-- After the wait: the fence is returned. -/
def proceed (s : Fence) (id : Nat) (a : Acquisition) : Fence :=
  if a.phase = .admitted then
    { s.put id { a with phase := .holding } with
      sessionActionCommitOwner := some id
      pendingSessionActionFenceWaiters := s.pendingSessionActionFenceWaiters - 1
      entered := s.entered ++ [id] }
  else s

/-- After the wait: the `catch`. -/
def giveUp (s : Fence) (id : Nat) (a : Acquisition) : Fence :=
  if a.phase = .rejected then
    { s.put id { a with phase := .cancelled } with
      pendingSessionActionFenceWaiters :=
        s.pendingSessionActionFenceWaiters - 1 }
  else s

/-- `previous.then(resolve, resolve)`. -/
def forward (s : Fence) (id : Nat) (a : Acquisition) : Fence :=
  if a.phase = .cancelled ∧ s.ready a then s.put id { a with resolved := true }
  else s

/-- `release()` of a fence that was returned. -/
def release (s : Fence) (id : Nat) (a : Acquisition) : Fence :=
  if a.phase = .holding then
    { s.put id { a with phase := .released, resolved := true } with
      sessionActionCommitOwner :=
        if s.sessionActionCommitOwner = some id then none
        else s.sessionActionCommitOwner }
  else s

/-- What is done with one acquisition, if there is such a one. -/
def on (s : Fence) (id : Nat) (f : Fence → Nat → Acquisition → Fence) : Fence :=
  match s.acquisitions[id]? with
  | some a => f s id a
  | none => s

end Fence

inductive Event where
  | acquire (inheritedOwner signal : Option Nat)
  | abort (signal : Nat)
  | dispose
  | onAbort (id : Nat)
  | told (id : Nat)
  | proceed (id : Nat)
  | giveUp (id : Nat)
  | forward (id : Nat)
  | release (id : Nat)
  /-- `release()` of a fence that does nothing -/
  | releaseInner (index : Nat)

def Fence.step (s : Fence) : Event → Fence
  | .acquire inheritedOwner signal => s.acquire inheritedOwner signal
  | .abort signal => { s with aborted := signal :: s.aborted }
  | .dispose => { s with disposed := true }
  | .onAbort id => s.on id onAbort
  | .told id => s.on id told
  | .proceed id => s.on id proceed
  | .giveUp id => s.on id giveUp
  | .forward id => s.on id forward
  | .release id => s.on id release
  | .releaseInner _ => s

end OneHarness.Session.CommitFence
