/-
`McpConnectionStore`: operations are queued and carried out by a flush, which
reads the file under the lock, applies its batch and writes the file again.

What a callback of an operation does is given with the flush (`Callbacks`),
and so are the clock and the position at which the flush fails (`Fault`). An
operation is known by its ticket, that of the promise it settles.

The flush remembers, as a ghost, what its batch committed (`Entry`).
-/
import OneHarness.Mcp.ConnectionRecords

namespace OneHarness.Mcp

open Lib

-- ======== the operations

inductive OperationKind where
  | upsert (record : McpConnectionRecord)
  | remove (connectionId : Text)
  | verify (record : McpConnectionRecord)
      (expectedRecord : Option McpConnectionRecord)
  /-- Possibly with a guard. -/
  | claimConnectionId (connectionId attemptId : Text) (guarded : Bool)
  | releaseClaim (connectionId attemptId : Text)
  | reserve (record : McpConnectionRecord)
  | removeReservation (connectionId attemptId : Text)
  /-- Possibly with a callback that compensates. -/
  | finalizeAttempt (connectionId attemptId : Text) (compensated : Bool)
  | removeAccountForProvider (providerId : Text)
  | removeAccount (connectionId : Text) (preserveCompletedRecord : Bool)

structure Operation where
  ticket : Nat
  kind : OperationKind
  /-- The run whose failure the caller of the operation catches. -/
  run : Option Nat

inductive McpRemoveAccountResult where
  | removed
  | preserved
  | refused
  | credentialOnly
  | loggedOut
  | missing
  | failed
deriving DecidableEq

inductive McpFinalizeResult where
  | committed
  | denied
  | compensated
  | recoveryRequired
deriving DecidableEq

inductive Outcome where
  | answer (value : Bool)
  | removal (result : McpRemoveAccountResult)
  | finalize (result : McpFinalizeResult)
deriving DecidableEq

def OperationKind.isOneShotOperation : OperationKind → Bool
  | upsert _ => false
  | remove _ => false
  | _ => true

def OperationKind.isVerify : OperationKind → Bool
  | verify _ _ => true
  | _ => false

/-- What a one-shot operation settles to when nothing was done. -/
def OperationKind.refusal : OperationKind → Outcome
  | finalizeAttempt _ _ _ => .finalize .denied
  | removeAccount _ _ => .removal .failed
  | removeAccountForProvider _ => .removal .failed
  | _ => .answer false

/-- What the callbacks of an operation return; `none` if they throw. -/
structure Callbacks where
  isStillCurrent : Nat → McpConnectionRecord → Option Bool
  verified : Nat → Option Bool
  /-- `authCleanup` and `removeVerified`. -/
  removal : Nat → Option Bool
  commit : Nat → McpConnectionRecord → Option McpConnectionRecord
  /-- Whether `compensate` returns. -/
  compensates : Nat → Bool
  /-- The time at which an operation is applied. -/
  now : Nat → ℚ

-- ======== the branches

inductive Commit where
  | upsert (record : McpConnectionRecord)
  | remove (connectionId : Text)
  | reserve (connectionId : Text) (attemptId : Option Text)
  | claim (connectionId attemptId : Text)
  | release (connectionId attemptId : Text)
  | removeReservation (connectionId attemptId : Text)
  | finalize (connectionId attemptId : Text)
  /-- A removal or a logout of the account. -/
  | removal (connectionId : Text)
  | verify (current expected : Option McpConnectionRecord)
deriving DecidableEq

/-- What becomes of an operation in the loop of a flush. -/
inductive Verdict where
  /-- It is resolved at once. -/
  | settles (outcome : Outcome)
  /-- It has no promise. -/
  | applies (records : Records) (commit : Commit)
  /-- It is resolved when the flush has committed, or failed. -/
  | defers (records : Records) (onCommit onFailure : Outcome)
      (commit : Commit) (changes : Bool)
  | finalizes (records : Records) (commit : Commit)
  /-- The loop ends with an exception. -/
  | throws

/-- A removal whose records could not be saved. -/
def unsaved (credentialRemoved : Bool) : Outcome :=
  .removal (if credentialRemoved then .loggedOut else .failed)

section
variable (callbacks : Callbacks) (records : Records) (ticket : Nat)

def claimConnectionId (connectionId attemptId : Text) (guarded : Bool) :
    Verdict :=
  match records.get connectionId with
  | none => .settles (.answer false)
  | some existing =>
    if existing.attemptId ≠ none then .settles (.answer false)
    else if guarded ∧
        callbacks.isStillCurrent ticket existing ≠ some true then
      .settles (.answer false)
    else
      .defers
        (records.set connectionId
          { existing with attemptId := some attemptId })
        (.answer true) (.answer false) (.claim connectionId attemptId) true

def releaseClaim (connectionId attemptId : Text) : Verdict :=
  match records.get connectionId with
  | none => .settles (.answer false)
  | some existing =>
    if existing.attemptId ≠ some attemptId then .settles (.answer false)
    else
      .defers (records.set connectionId existing.withoutAttempt)
        (.answer true) (.answer false) (.release connectionId attemptId)
        true

def reserve (record : McpConnectionRecord) : Verdict :=
  if records.has record.connectionId then .settles (.answer false)
  else
    .defers (applyUpsert records record (callbacks.now ticket))
      (.answer true) (.answer false)
      (.reserve record.connectionId record.attemptId) true

def removeReservation (connectionId attemptId : Text) : Verdict :=
  match records.get connectionId with
  | none => .settles (.answer false)
  | some existing =>
    if existing.status = .pending ∧ existing.attemptId = some attemptId then
      .defers (records.delete connectionId) (.answer true) (.answer false)
        (.removeReservation connectionId attemptId) true
    else .settles (.answer false)

def removeAccountForProvider (providerId : Text) : Verdict :=
  let target := resolveMcpAccountLogoutTarget providerId records.values
  let accountKey := units "mcp:" ++ target.connectionId
  match callbacks.removal ticket with
  | none => .settles (.removal .failed)
  | some credentialRemoved =>
    let existing := records.get target.connectionId
    -- without the attempt that is active
    let withoutAttempt :=
      match existing with
      | some existing =>
        if existing.attemptId ≠ none then
          records.set target.connectionId existing.withoutAttempt
        else records
      | none => records
    let cancels := (existing.bind (·.attemptId)).isSome
    if target.credentialKey ≠ accountKey then
      .defers withoutAttempt (.removal .refused) (unsaved credentialRemoved)
        (.removal target.connectionId) cancels
    else
      match existing with
      | none =>
        .defers records
          (.removal (if credentialRemoved then .credentialOnly
            else .missing))
          (unsaved credentialRemoved) (.removal target.connectionId) false
      | some existing =>
        if existing.status = .pending then
          .defers (records.delete target.connectionId) (.removal .removed)
            (unsaved credentialRemoved) (.removal target.connectionId) true
        else
          .defers withoutAttempt (.removal .preserved)
            (unsaved credentialRemoved) (.removal target.connectionId)
            cancels

def removeAccount (connectionId : Text) (preserveCompletedRecord : Bool) :
    Verdict :=
  match callbacks.removal ticket with
  | none => .settles (.removal .failed)
  | some credentialRemoved =>
    match records.get connectionId with
    | none =>
      .defers records
        (.removal (if credentialRemoved then .credentialOnly
          else .missing))
        (unsaved credentialRemoved) (.removal connectionId) false
    | some existing =>
      if ¬ preserveCompletedRecord ∨ existing.status = .pending then
        .defers (records.delete connectionId) (.removal .removed)
          (unsaved credentialRemoved) (.removal connectionId) true
      else
        .defers records (.removal .preserved) (unsaved credentialRemoved)
          (.removal connectionId) false

/-- `rollback`: the compensation, or nothing. -/
def rollback (compensated : Bool) : Outcome :=
  .finalize
    (if compensated ∧ ¬ callbacks.compensates ticket then .recoveryRequired
    else .compensated)

def finalizeAttempt (connectionId attemptId : Text) (compensated : Bool) :
    Verdict :=
  match records.get connectionId with
  | none => .settles (.finalize .denied)
  | some existing =>
    if existing.attemptId ≠ some attemptId then .settles (.finalize .denied)
    else
      match callbacks.commit ticket existing with
      | none => .settles (rollback callbacks ticket compensated)
      | some committedRecord =>
        .finalizes
          (applyUpsert records committedRecord.withoutAttempt
            (callbacks.now ticket))
          (.finalize connectionId attemptId)

/-- The guard is called last, and not in a `try`. -/
def verify (record : McpConnectionRecord)
    (expectedRecord : Option McpConnectionRecord) : Verdict :=
  let current := records.get record.connectionId
  if current.bind (·.attemptId) = none ∧ current = expectedRecord then
    match callbacks.verified ticket with
    | none => .throws
    | some false => .settles (.answer false)
    | some true =>
      .defers (applyUpsert records record (callbacks.now ticket))
        (.answer true) (.answer false) (.verify current expectedRecord) true
  else .settles (.answer false)

end

/-- The body of the loop. -/
def verdict (callbacks : Callbacks) (records : Records) (op : Operation) :
    Verdict :=
  match op.kind with
  | .remove connectionId =>
    .applies (records.delete connectionId) (.remove connectionId)
  | .claimConnectionId connectionId attemptId guarded =>
    claimConnectionId callbacks records op.ticket connectionId attemptId
      guarded
  | .releaseClaim connectionId attemptId =>
    releaseClaim records connectionId attemptId
  | .upsert record =>
    .applies (applyUpsert records record (callbacks.now op.ticket))
      (.upsert record)
  | .reserve record => reserve callbacks records op.ticket record
  | .removeReservation connectionId attemptId =>
    removeReservation records connectionId attemptId
  | .removeAccountForProvider providerId =>
    removeAccountForProvider callbacks records op.ticket providerId
  | .removeAccount connectionId preserveCompletedRecord =>
    removeAccount callbacks records op.ticket connectionId
      preserveCompletedRecord
  | .finalizeAttempt connectionId attemptId compensated =>
    finalizeAttempt callbacks records op.ticket connectionId attemptId
      compensated
  | .verify record expectedRecord =>
    verify callbacks records op.ticket record expectedRecord

def Verdict.records (before : Records) : Verdict → Records
  | settles _ => before
  | applies records _ => records
  | defers records _ _ _ _ => records
  | finalizes records _ => records
  | throws => before

/-- What an operation committed, and whether it changed a record. -/
structure Entry where
  ticket : Nat
  commit : Commit
  changes : Bool

def Verdict.entry (ticket : Nat) : Verdict → Option Entry
  | settles _ => none
  | applies _ commit => some ⟨ticket, commit, true⟩
  | defers _ _ _ commit changes => some ⟨ticket, commit, changes⟩
  | finalizes _ commit => some ⟨ticket, commit, true⟩
  | throws => none

-- ======== the flush

/-- How far the loop came. -/
structure Processed where
  done : List (Operation × Verdict)
  records : Records
  /-- The operation that threw, and those behind it. -/
  left : List Operation

def process (callbacks : Callbacks) : Records → List Operation → Processed
  | records, [] => ⟨[], records, []⟩
  | records, op :: ops =>
    match verdict callbacks records op with
    | .throws => ⟨[], records, op :: ops⟩
    | v =>
      let rest := process callbacks (v.records records) ops
      { rest with done := (op, v) :: rest.done }

def Processed.entries (p : Processed) : List Entry :=
  p.done.filterMap fun (op, v) => v.entry op.ticket

/-- What a promise is settled to, in order. -/
abbrev Settlements := List (Nat × Outcome)

/-- The calls of `resolve` in the loop. -/
def Processed.immediate (p : Processed) : Settlements :=
  p.done.filterMap fun (op, v) =>
    match v with
    | .settles outcome => some (op.ticket, outcome)
    | _ => none

/-- `deferred`, called with whether the flush has committed. -/
def Processed.deferred (p : Processed) (didCommit : Bool) : Settlements :=
  p.done.filterMap fun (op, v) =>
    match v with
    | .defers _ onCommit onFailure _ _ =>
      some (op.ticket, if didCommit then onCommit else onFailure)
    | _ => none

/-- `committedFinalizes`. -/
def Processed.committedFinalizes (p : Processed) : Settlements :=
  p.done.filterMap fun (op, v) =>
    match v with
    | .finalizes _ _ => some (op.ticket, .finalize .committed)
    | _ => none

/-- The rollbacks of `appliedFinalizes`. -/
def Processed.rollbacks (callbacks : Callbacks) (p : Processed) :
    Settlements :=
  p.done.filterMap fun (op, v) =>
    match op.kind, v with
    | .finalizeAttempt _ _ compensated, .finalizes _ _ =>
      some (op.ticket, rollback callbacks op.ticket compensated)
    | _, _ => none

/-- The one-shot operations that the loop has reached. -/
def Processed.reached (p : Processed) : List Operation :=
  (p.done.map Prod.fst ++ p.left.take 1).filter (·.kind.isOneShotOperation)

inductive Fault where
  /-- The lock is not acquired. -/
  | lockFails
  /-- The lock is found compromised before the file is read, or its path
  cannot be resolved. -/
  | stopsBefore
  | writeFails
  /-- The lock is found compromised after the write. -/
  | compromisedAfter

structure FlushResult where
  file : ConnectionsFile
  recordsById : Records
  pendingOps : List Operation
  settlements : Settlements
  /-- The flush threw. -/
  thrown : Bool
  /-- What is in the file, and what the flush reports as committed. -/
  written : List Entry
  committed : List Entry

/-- The settlements of the callers that catch the failure of a run. -/
def caught (run : Nat) (operations : List Operation) : Settlements :=
  operations.filterMap fun op =>
    if op.run = some run ∧ op.kind.isOneShotOperation ∧ ¬ op.kind.isVerify then
      some (op.ticket, op.kind.refusal)
    else none

/-- The locked section, for a batch and what is pending behind it. -/
def flush (arrange : Arrangement) (callbacks : Callbacks) (readAt : ℚ)
    (fault : Option Fault) (run : Nat) (file : ConnectionsFile)
    (recordsById : Records) (operations pendingOps : List Operation) :
    FlushResult :=
  let failed (file : ConnectionsFile) (requeued : List Operation)
      (settlements : Settlements) (written : List Entry) : FlushResult :=
    { file := file
      recordsById := recordsById
      pendingOps := requeued ++ pendingOps
      settlements := settlements ++ caught run operations
      thrown := true
      written := written
      committed := [] }
  match fault with
  | some .lockFails =>
    failed file (operations.filter (!·.kind.isOneShotOperation))
      (operations.filterMap fun op =>
        if op.kind.isOneShotOperation then some (op.ticket, op.kind.refusal)
        else none) []
  | some .stopsBefore => failed file [] [] []
  | _ =>
    let p := process callbacks (parseRecords file readAt) operations
    let reached := p.reached.map (·.ticket)
    let requeued := operations.filter fun op =>
      op.ticket ∉ reached ∧ ¬ op.kind.isVerify
    let verifies := operations.filterMap fun op =>
      if op.kind.isVerify then some (op.ticket, Outcome.answer false)
      else none
    let settlements := p.immediate ++ p.rollbacks callbacks ++ verifies
      ++ p.deferred false
    let next := serializeRecords arrange p.records
    match p.left, fault with
    | _ :: _, _ => failed file requeued settlements []
    | [], some .writeFails => failed file requeued settlements []
    | [], some .compromisedAfter => failed next requeued settlements p.entries
    | [], _ =>
      { file := next
        recordsById := p.records
        pendingOps := pendingOps
        settlements := p.immediate ++ p.committedFinalizes
          ++ p.deferred true
        thrown := false
        written := p.entries
        committed := p.entries }

end OneHarness.Mcp
