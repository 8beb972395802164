/-
The usage of child runs, charged to the assistant message they were
spawned from.

# Three places

A completion of a child goes at once into the usage of the parent's
message, and into a bucket of the child's run. A flush makes an
attribution row of each bucket. What the rows say was charged so far is
kept apart (`_rlmDurableParentUsage`), and so is what no row says yet
(`_rlmUnindexedChildUsage`).

All runs here are charged to one message; an entry that is neither this
message nor an attribution row for it is `other`.

# Amounts

Amounts are nonnegative rational numbers, the values of the numerals that
a session file stores.

# What no code reads

The completions of the books, of a bucket and of a row, and whether the
append of a row returned.
-/
import OneHarness.Lib.JsMap
import OneHarness.Session.Types
import Mathlib.Algebra.Order.Ring.NNRat

namespace OneHarness.Children

open Lib
open Session (UsageOrigin StopReason)

-- ======== usage

@[ext] structure UsageCost where
  input : ℚ≥0
  output : ℚ≥0
  cacheRead : ℚ≥0
  cacheWrite : ℚ≥0
  total : ℚ≥0
deriving DecidableEq

@[ext] structure Usage where
  input : ℚ≥0
  output : ℚ≥0
  cacheRead : ℚ≥0
  cacheWrite : ℚ≥0
  totalTokens : ℚ≥0
  cost : UsageCost
deriving DecidableEq

def emptyUsage : Usage := ⟨0, 0, 0, 0, 0, 0, 0, 0, 0, 0⟩

def addAssistantUsage (total usage : Usage) : Usage where
  input := total.input + usage.input
  output := total.output + usage.output
  cacheRead := total.cacheRead + usage.cacheRead
  cacheWrite := total.cacheWrite + usage.cacheWrite
  totalTokens := total.totalTokens + usage.totalTokens
  cost :=
    { input := total.cost.input + usage.cost.input
      output := total.cost.output + usage.cost.output
      cacheRead := total.cost.cacheRead + usage.cost.cacheRead
      cacheWrite := total.cost.cacheWrite + usage.cost.cacheWrite
      total := total.cost.total + usage.cost.total }

/-- Subtraction of nonnegative amounts stops at zero. -/
def subtractAssistantUsage (total usage : Usage) : Usage where
  input := total.input - usage.input
  output := total.output - usage.output
  cacheRead := total.cacheRead - usage.cacheRead
  cacheWrite := total.cacheWrite - usage.cacheWrite
  totalTokens := total.totalTokens - usage.totalTokens
  cost :=
    { input := total.cost.input - usage.cost.input
      output := total.cost.output - usage.cost.output
      cacheRead := total.cost.cacheRead - usage.cost.cacheRead
      cacheWrite := total.cost.cacheWrite - usage.cost.cacheWrite
      total := total.cost.total - usage.cost.total }

/-- `totalTokens || input + output + cacheRead + cacheWrite`. -/
def contextTokens (usage : Usage) : ℚ≥0 :=
  if usage.totalTokens = 0 then
    usage.input + usage.output + usage.cacheRead + usage.cacheWrite
  else usage.totalTokens

def attributeChildUsage (parentUsage childUsage : Usage) : Usage :=
  { addAssistantUsage parentUsage childUsage with
    totalTokens := contextTokens parentUsage }

-- ======== books

structure AttributionRow where
  childUsage : Usage
  aggregateUsage : Usage
  origin : UsageOrigin
  /-- The append of the row returned. -/
  persisted : Bool
  completions : List Usage
deriving DecidableEq

inductive SessionEntry where
  /-- The message the children are charged to. -/
  | parent
  /-- `child_usage_attributed`, for this message. -/
  | childUsageAttributed (row : AttributionRow)
  | other
deriving DecidableEq

/-- What the runs share. -/
structure Books where
  entries : List SessionEntry
  /-- `parentAssistantForUsage.usage`. -/
  liveUsage : Usage
  durableParentUsage : Option Usage
  unindexedChildUsage : Option Usage
  completions : List Usage

/-- What is pending for one origin. -/
structure Bucket where
  usage : Usage
  completions : List Usage

structure ChildRun where
  pendingChildUsage : JsMap UsageOrigin Bucket
  pendingChildUsageSince : Int
  /-- `pendingChildUsageTimer` is set. -/
  pendingChildUsageTimer : Bool
  parentEntryDrainScheduled : Bool

/-- How an append ends: the row may be indexed by then, or not. -/
inductive AppendOutcome where
  | returns | throwsBefore | throwsAfter
deriving DecidableEq

-- ======== flush

/-- `sessionManager.appendChildUsageAttribution`: the message is the
manager's own, so that its usage is set as well. -/
def appendChildUsageAttribution (outcome : AppendOutcome) (batch : Bucket)
    (aggregateUsage : Usage) (origin : UsageOrigin) (s : Books) : Books :=
  if outcome = .throwsBefore then s
  else
    { s with
      liveUsage := aggregateUsage
      entries := s.entries ++ [.childUsageAttributed
        { childUsage := batch.usage, aggregateUsage, origin
          persisted := outcome = .returns
          completions := batch.completions }] }

/-- One turn of the loop over the batches. -/
def attributeBatch (outcome : UsageOrigin → AppendOutcome) (s : Books)
    (batch : UsageOrigin × Bucket) : Books :=
  match s.durableParentUsage with
  | none => s
  | some durable =>
    let aggregateUsage := attributeChildUsage durable batch.2.usage
    let liveUsage := s.liveUsage
    let entryCount := s.entries.length
    let appended := appendChildUsageAttribution (outcome batch.1) batch.2
      aggregateUsage batch.1 s
    let recorded :=
      if outcome batch.1 = .returns then
        { appended with durableParentUsage := some aggregateUsage }
      else appended
    -- `finally`
    let restored := { recorded with liveUsage }
    match restored.entries[entryCount]? with
    | some (SessionEntry.childUsageAttributed _) =>
      { restored with
        unindexedChildUsage := restored.unindexedChildUsage.map
          (subtractAssistantUsage · batch.2.usage) }
    | _ => restored

def flushPendingChildUsageAttribution
    (outcome : UsageOrigin → AppendOutcome) (afterParentDrain : Bool)
    (s : Books) (run : ChildRun) : Books × ChildRun :=
  let run := { run with pendingChildUsageTimer := false }
  if run.pendingChildUsage.length = 0 then (s, run)
  else if SessionEntry.parent ∉ s.entries then
    -- the drain of the parent's own events owns the retry
    if !afterParentDrain && !run.parentEntryDrainScheduled then
      (s, { run with parentEntryDrainScheduled := true })
    else (s, run)
  else
    (run.pendingChildUsage.foldl (attributeBatch outcome) s,
      { run with pendingChildUsage := [] })

/-- `RLM_CHILD_USAGE_FLUSH_MAX_PENDING_MS`. -/
def flushMaxPendingMs : Int := 60000

def flushPendingChildUsageIfStale (outcome : UsageOrigin → AppendOutcome)
    (now : Int) (s : Books) (run : ChildRun) : Books × ChildRun :=
  if run.pendingChildUsage.length > 0
      ∧ now - run.pendingChildUsageSince ≥ flushMaxPendingMs then
    flushPendingChildUsageAttribution outcome false s run
  else (s, run)

-- ======== events

/-- A run that spawns. -/
def ChildRun.spawned : ChildRun where
  pendingChildUsage := []
  pendingChildUsageSince := 0
  pendingChildUsageTimer := false
  parentEntryDrainScheduled := false

/-- The `message_end` of an assistant message of the child. -/
def completed (outcome : UsageOrigin → AppendOutcome) (now : Int)
    (stopReason : StopReason) (usage : Usage) (origin : UsageOrigin)
    (s : Books) (run : ChildRun) : Books × ChildRun :=
  if stopReason = .error ∨ stopReason = .aborted then (s, run)
  else
    let (s, run) := flushPendingChildUsageIfStale outcome now s run
    let s := { s with
      liveUsage := attributeChildUsage s.liveUsage usage
      unindexedChildUsage := some (addAssistantUsage
        (s.unindexedChildUsage.getD emptyUsage) usage)
      completions := s.completions ++ [usage] }
    let run :=
      if run.pendingChildUsage.length = 0 then
        { run with
          pendingChildUsageSince := now
          pendingChildUsageTimer := true }
      else run
    let bucket := (run.pendingChildUsage.get origin).getD ⟨emptyUsage, []⟩
    let bucket : Bucket :=
      { usage := addAssistantUsage bucket.usage usage
        completions := bucket.completions ++ [usage] }
    (s, { run with
      pendingChildUsage := run.pendingChildUsage.set origin bucket })

/-- The timer calls the flush, if it was not cleared. -/
def timerFired (outcome : UsageOrigin → AppendOutcome) (s : Books)
    (run : ChildRun) : Books × ChildRun :=
  if run.pendingChildUsageTimer then
    flushPendingChildUsageAttribution outcome false s run
  else (s, run)

/-- What the parent's event queue runs, if it was scheduled. -/
def flushAfterParentDrain (outcome : UsageOrigin → AppendOutcome) (s : Books)
    (run : ChildRun) : Books × ChildRun :=
  if run.parentEntryDrainScheduled then
    flushPendingChildUsageAttribution outcome true s
      { run with parentEntryDrainScheduled := false }
  else (s, run)

inductive Event where
  /-- A child is spawned from the message. -/
  | spawn
  | completion (run : Nat) (now : Int) (stopReason : StopReason)
      (usage : Usage) (origin : UsageOrigin)
      (outcome : UsageOrigin → AppendOutcome)
  /-- `tool_execution_start` of the child. -/
  | toolStart (run : Nat) (now : Int) (outcome : UsageOrigin → AppendOutcome)
  /-- `agent_end` of the child, and the settlement of the run. -/
  | settle (run : Nat) (outcome : UsageOrigin → AppendOutcome)
  | timer (run : Nat) (outcome : UsageOrigin → AppendOutcome)
  | parentDrained (run : Nat) (outcome : UsageOrigin → AppendOutcome)
  /-- The parent's message is appended. -/
  | parentIndexed
  | otherIndexed

structure State where
  books : Books
  runs : List ChildRun

namespace State

/-- Nothing was spawned from the message yet. -/
def init (originalUsage : Usage) : State where
  books :=
    { entries := []
      liveUsage := originalUsage
      durableParentUsage := none
      unindexedChildUsage := none
      completions := [] }
  runs := []

/-- A step of one of the runs. -/
def ofRun (s : State) (run : Nat)
    (f : Books → ChildRun → Books × ChildRun) : State :=
  match s.runs[run]? with
  | none => s
  | some r =>
    { books := (f s.books r).1, runs := s.runs.set run (f s.books r).2 }

def spawn (s : State) : State where
  books :=
    { s.books with
      durableParentUsage :=
        some (s.books.durableParentUsage.getD s.books.liveUsage) }
  runs := s.runs ++ [.spawned]

def index (s : State) (entry : SessionEntry) : State :=
  { s with books := { s.books with entries := s.books.entries ++ [entry] } }

def step (s : State) : Event → State
  | .spawn => s.spawn
  | .completion run now stopReason usage origin outcome =>
    s.ofRun run (completed outcome now stopReason usage origin)
  | .toolStart run now outcome =>
    s.ofRun run (flushPendingChildUsageIfStale outcome now)
  | .settle run outcome =>
    s.ofRun run (flushPendingChildUsageAttribution outcome false)
  | .timer run outcome =>
    s.ofRun run (timerFired outcome)
  | .parentDrained run outcome =>
    s.ofRun run (flushAfterParentDrain outcome)
  | .parentIndexed => s.index .parent
  | .otherIndexed => s.index .other

def run (s : State) (events : List Event) : State := events.foldl step s

end State

end OneHarness.Children
