/-
The kernel's shared startup, and the calls of `start` that wait for it.

Calls and startups are known by their numbers. A startup ends when `doStart`
does, at any time and in any way (`ended`); that its controller was aborted
it may notice at any time after, or never. Its promise is settled later, once
the `catch` has cleared what is memoized (`settle`), and those who wait for
it are told after that (`deliver`). Aborting a signal runs its listeners at
once.

Tearing the kernel down, which clears what is memoized too, is left out.
-/
import Mathlib.Tactic.Common

namespace OneHarness.Kernel.Startup

/-- How `doStart` ends; the last is for the abort of its controller. -/
inductive Outcome where
  | started
  | failed
  | aborted
  deriving DecidableEq

structure Startup where
  /-- `controller.signal.aborted` -/
  aborted : Bool
  waiters : Int
  outcome : Option Outcome
  /-- `startPromise` is settled -/
  settled : Bool

/-- A waiter less; without any the controller is aborted. -/
def Startup.leave (startup : Startup) : Startup :=
  { startup with
    waiters := startup.waiters - 1
    aborted := startup.aborted || startup.waiters - 1 = 0 }

inductive Result where
  /-- the promise of the startup, settled so -/
  | ofStartup (outcome : Outcome)
  /-- the error for the call's own abort -/
  | aborted
  deriving DecidableEq

structure Call where
  signal : Option Nat
  /-- whose promise it waits for -/
  startup : Option Nat
  /-- it is among the waiters of that startup -/
  counted : Bool
  /-- `detach` is registered -/
  listening : Bool
  result : Option Result
  deriving DecidableEq

structure Manager where
  startPromise : Option Nat
  /-- its promise is known by the same number -/
  inFlightStart : Option Nat
  startups : List Startup
  calls : List Call
  /-- the signals that are aborted -/
  abortedSignals : List Nat

namespace Manager

def start : Manager := ⟨none, none, [], [], []⟩

def attachStartWaiter (m : Manager) (startPromise : Nat) (signal : Option Nat) :
    Manager :=
  if m.inFlightStart ≠ some startPromise then
    { m with calls := m.calls ++ [⟨signal, some startPromise, false, false, none⟩] }
  else
    { m with
      startups := m.startups.modify startPromise fun startup =>
        { startup with waiters := startup.waiters + 1 }
      calls := m.calls ++ [⟨signal, some startPromise, true, signal.isSome, none⟩] }

/-- A call of `start`. -/
def call (m : Manager) (signal : Option Nat) : Manager :=
  if signal.any (· ∈ m.abortedSignals) then
    { m with calls := m.calls ++ [⟨signal, none, false, false, some .aborted⟩] }
  else
    match m.startPromise with
    | some startPromise => m.attachStartWaiter startPromise signal
    | none =>
      attachStartWaiter { m with
        startups := m.startups ++ [⟨false, 0, none, false⟩]
        startPromise := some m.startups.length
        inFlightStart := some m.startups.length } m.startups.length signal

/-- `detach()` of a call, if it is registered. -/
def detach (m : Manager) (call : Call) : List Startup :=
  match call.startup with
  | some startup =>
    if call.listening then m.startups.modify startup Startup.leave
    else m.startups
  | none => m.startups

/-- The listeners of a call: `detach`, and then that of the race. -/
def onAbort (m : Manager) (id : Nat) : Manager :=
  match m.calls[id]? with
  | some call =>
    { m with
      startups := m.detach call
      calls := m.calls.set id { call with
        counted := call.counted && !call.listening
        listening := false
        result := call.result.or (some .aborted) } }
  | none => m

/-- `controller.abort()` of a caller. -/
def abort (m : Manager) (signal : Nat) : Manager :=
  ((List.range m.calls.length).filter fun id =>
      (m.calls[id]?).any (·.signal = some signal)).foldl onAbort
    { m with abortedSignals := signal :: m.abortedSignals }

/-- `doStart` ends. -/
def ended (m : Manager) (id : Nat) (outcome : Outcome) : Manager :=
  match m.startups[id]? with
  | some startup =>
    if startup.outcome = none ∧ (outcome = .aborted → startup.aborted) then
      { m with
        startups := m.startups.set id { startup with outcome := some outcome } }
    else m
  | none => m

/-- `startPromise` is settled, after the `catch`. -/
def settle (m : Manager) (id : Nat) : Manager :=
  match m.startups[id]? with
  | some startup =>
    if startup.outcome.isSome then
      let startups := m.startups.set id { startup with settled := true }
      if startup.outcome = some .started then { m with startups := startups }
      else
        { m with
          startups := startups
          startPromise :=
            if m.startPromise = some id then none else m.startPromise
          inFlightStart :=
            if m.inFlightStart = some id then none else m.inFlightStart }
    else m
  | none => m

/-- A call is told how the startup's promise was settled. -/
def deliver (m : Manager) (id : Nat) : Manager :=
  match m.calls[id]? with
  | some call =>
    match call.startup.bind (m.startups[·]?) with
    | some startup =>
      if startup.settled then
        { m with
          calls := m.calls.set id { call with
            result := call.result.or (startup.outcome.map .ofStartup) } }
      else m
    | none => m
  | none => m

/-- The `finally` of a call. -/
def unlisten (m : Manager) (id : Nat) : Manager :=
  match m.calls[id]? with
  | some call =>
    if call.result.isSome then
      { m with calls := m.calls.set id { call with listening := false } }
    else m
  | none => m

end Manager

inductive Event where
  | call (signal : Option Nat)
  | abort (signal : Nat)
  | ended (startup : Nat) (outcome : Outcome)
  | settle (startup : Nat)
  | deliver (call : Nat)
  | unlisten (call : Nat)

def Manager.step (m : Manager) : Event → Manager
  | .call signal => m.call signal
  | .abort signal => m.abort signal
  | .ended startup outcome => m.ended startup outcome
  | .settle startup => m.settle startup
  | .deliver call => m.deliver call
  | .unlisten call => m.unlisten call

end OneHarness.Kernel.Startup
