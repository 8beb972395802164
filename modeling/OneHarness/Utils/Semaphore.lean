/-
The semaphore that bounds how many tasks are under way.

A call of `run` is known by its number, in the order of the calls. A permit
it is given is its own from then on, although its function starts later: the
promise it awaits is resolved first (`admitted`), and the calls that were
admitted may start in any order. When a signal is aborted, its listeners run
one after the other, and anything may happen between two of them.
-/
import Mathlib.Algebra.Order.Ring.Rat

namespace OneHarness.Utils

namespace Semaphore

inductive Phase where
  | waiting
  | admitted
  | running
  | finished (threw : Bool)
  /-- `acquire` threw -/
  | rejected
  deriving DecidableEq

structure Call where
  signal : Option Nat
  phase : Phase
  /-- `onAbort` is registered -/
  listening : Bool

end Semaphore

/-- The calls that wait are known by their numbers, for their functions. -/
structure Semaphore where
  available : Nat
  waiters : List Nat
  calls : List Semaphore.Call
  /-- the signals that are aborted -/
  aborted : List Nat
  /-- the calls that were given a permit, in that order -/
  granted : List Nat

namespace Semaphore

/-- The constructor; the error tells the number it got. -/
def new (permits : ℚ) : Except ℚ Semaphore :=
  if permits.den ≠ 1 ∨ permits < 1 then .error permits
  else .ok ⟨permits.num.toNat, [], [], [], []⟩

def queueLength (s : Semaphore) : Nat := s.waiters.length

/-- `acquire`, until its first `await`. -/
def acquire (s : Semaphore) (signal : Option Nat) : Semaphore :=
  if signal.any (· ∈ s.aborted) then
    { s with calls := s.calls ++ [⟨signal, .rejected, false⟩] }
  else if 0 < s.available then
    { s with
      available := s.available - 1
      calls := s.calls ++ [⟨signal, .admitted, false⟩]
      granted := s.granted ++ [s.calls.length] }
  else
    { s with
      calls := s.calls ++ [⟨signal, .waiting, signal.isSome⟩]
      waiters := s.waiters ++ [s.calls.length] }

/-- A promise is settled once. -/
def Call.settle (call : Call) (phase : Phase) : Call :=
  { call with
    phase := if call.phase = .waiting then phase else call.phase
    listening := false }

/-- `waiter()`. -/
def admitWaiter (s : Semaphore) (id : Nat) : Semaphore :=
  match s.calls[id]? with
  | some call =>
    { s with
      calls := s.calls.set id (call.settle .admitted)
      granted := s.granted ++ [id] }
  | none => s

/-- `onAbort()`, if the listener is there and its signal is aborted. -/
def onAbort (s : Semaphore) (id : Nat) : Semaphore :=
  match s.calls[id]? with
  | some call =>
    if call.listening ∧ call.signal.any (· ∈ s.aborted) then
      { s with
        calls := s.calls.set id (call.settle .rejected)
        waiters := s.waiters.erase id }
    else s
  | none => s

def release (s : Semaphore) : Semaphore :=
  match s.waiters with
  | next :: waiters => admitWaiter { s with waiters := waiters } next
  | [] => { s with available := s.available + 1 }

/-- `fn()`, after `await this.acquire(signal)`. -/
def begin (s : Semaphore) (id : Nat) : Semaphore :=
  match s.calls[id]? with
  | some call =>
    if call.phase = .admitted then
      { s with calls := s.calls.set id { call with phase := .running } }
    else s
  | none => s

/-- The function of a call has returned or thrown; the `finally` of `run`. -/
def finish (s : Semaphore) (id : Nat) (threw : Bool) : Semaphore :=
  match s.calls[id]? with
  | some call =>
    if call.phase = .running then
      release { s with
        calls := s.calls.set id { call with phase := .finished threw } }
    else s
  | none => s

inductive Event where
  | run (signal : Option Nat)
  | abort (signal : Nat)
  | onAbort (id : Nat)
  | start (id : Nat)
  | finish (id : Nat) (threw : Bool)

def step (s : Semaphore) : Event → Semaphore
  | .run signal => s.acquire signal
  | .abort signal => { s with aborted := signal :: s.aborted }
  | .onAbort id => s.onAbort id
  | .start id => s.begin id
  | .finish id threw => s.finish id threw

end Semaphore

end OneHarness.Utils
