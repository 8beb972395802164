/-
Any number of `McpConnectionStore` instances over one file, with their calls,
runs and locked sections in any order.

A call that is one-shot starts a run of its own; the runs of an instance
follow each other. A run takes what is pending when it begins, and carries it
out in its locked section.

The world remembers, as a ghost, what was committed (`log`).
-/
import OneHarness.Lib.Grant
import OneHarness.Lib.Run
import OneHarness.Mcp.ConnectionStore

namespace OneHarness.Mcp

open Lib

structure McpConnectionStore where
  recordsById : Records
  pendingOps : List Operation
  /-- The runs that were started and those that have begun. -/
  scheduled : Nat
  begun : Nat
  /-- The batch of the run that is under way. -/
  running : Option (List Operation)

structure World where
  file : ConnectionsFile
  stores : Nat → McpConnectionStore
  tickets : Nat
  log : List Commit

inductive Event where
  /-- A call, at a time. -/
  | call (store : Nat) (kind : OperationKind) (now : ℚ)
  /-- `queueVerifyResult` without an expected record. -/
  | queueVerifyResult (store : Nat) (record : McpConnectionRecord) (now : ℚ)
  | flush (store : Nat)
  /-- The next run begins. -/
  | run (store : Nat)
  | lockedSection (store : Nat) (callbacks : Callbacks) (readAt : ℚ)
      (fault : Option Fault)
  | load (store : Nat) (readAt : ℚ)

namespace World

variable (arrange : Arrangement) (w : World)

def setStore (store : Nat) (s : McpConnectionStore) : World :=
  { w with stores := fun i => if i = store then s else w.stores i }

/-- What a call does at once to the records in memory. -/
def inMemory (records : Records) (now : ℚ) : OperationKind → Records
  | .upsert record => applyUpsert records record now
  | .remove connectionId => records.delete connectionId
  | _ => records

def call (store : Nat) (kind : OperationKind) (now : ℚ) : World :=
  let s := w.stores store
  let starts := kind.isOneShotOperation ∧ ¬ kind.isVerify
  let op : Operation :=
    ⟨w.tickets, kind, if starts then some s.scheduled else none⟩
  { w.setStore store
      { s with
        recordsById := inMemory s.recordsById now kind
        pendingOps := s.pendingOps ++ [op]
        scheduled := if starts then s.scheduled + 1 else s.scheduled } with
    tickets := w.tickets + 1 }

def step (w : World) : Event → World
  | .call store kind now => w.call store kind now
  | .queueVerifyResult store record now =>
    w.call store
      (.verify record
        ((w.stores store).recordsById.get record.connectionId)) now
  | .flush store =>
    let s := w.stores store
    w.setStore store { s with scheduled := s.scheduled + 1 }
  | .run store =>
    let s := w.stores store
    if s.running.isSome ∨ s.scheduled ≤ s.begun then w
    else
      w.setStore store
        { s with
          pendingOps := []
          begun := s.begun + 1
          running := some s.pendingOps }
  | .lockedSection store callbacks readAt fault =>
    let s := w.stores store
    match s.running with
    | none => w
    | some batch =>
      let r := Mcp.flush arrange callbacks readAt fault (s.begun - 1)
        w.file s.recordsById batch s.pendingOps
      { w.setStore store
          { s with
            recordsById := r.recordsById
            pendingOps := r.pendingOps
            running := none } with
        file := r.file
        log := w.log ++ r.committed.map (·.commit) }
  | .load store readAt =>
    let s := w.stores store
    w.setStore store { s with recordsById := parseRecords w.file readAt }

-- ======== the first state

/-- The attempts in a file count as claimed before. -/
def claimedIn : ConnectionsFile → List Commit
  | .unusable => []
  | .connections entries =>
    entries.filterMap fun (id, raw) =>
      ((sanitizeRecord raw 0).bind (·.attemptId)).map (.claim id ·)

/-- The instances were opened over a file. -/
def opened (file : ConnectionsFile) (records : Nat → Records) : World where
  file := file
  stores := fun i => ⟨records i, [], 0, 0, none⟩
  tickets := 0
  log := claimedIn file

-- ======== the ownership

def Grants (connectionId attemptId : Text) : Commit → Prop
  | .reserve id attempt => id = connectionId ∧ attempt = some attemptId
  | .claim id attempt => id = connectionId ∧ attempt = attemptId
  | _ => False

/-- A finalize of the attempt, or a release, removal or logout of the
account. -/
def Revokes (connectionId attemptId : Text) : Commit → Prop
  | .finalize id attempt => id = connectionId ∧ attempt = attemptId
  | .release id _ => id = connectionId
  | .removeReservation id _ => id = connectionId
  | .removal id => id = connectionId
  | .remove id => id = connectionId
  | _ => False

/-- The attempt was reserved or claimed, and not revoked since. -/
def Owned (log : List Commit) (connectionId attemptId : Text) : Prop :=
  Grant.Held (Grants connectionId attemptId) (Revokes connectionId attemptId)
    log

/-- A finalize of the attempt would now find that it owns the account. -/
def CanFinalize (connectionId attemptId : Text) (now : ℚ) : Prop :=
  ∃ callbacks ticket compensated,
    finalizeAttempt callbacks (parseRecords w.file now) ticket connectionId
      attemptId compensated ≠ .settles (.finalize .denied)

/-- Only the current attempt finalizes an account. -/
structure Exclusive : Prop where
  finalize : ∀ before connectionId attemptId after,
    w.log = before ++ .finalize connectionId attemptId :: after →
      Owned before connectionId attemptId
  unique : ∀ connectionId attemptId attemptId' now,
    w.CanFinalize connectionId attemptId now →
      w.CanFinalize connectionId attemptId' now → attemptId = attemptId'
  verify : ∀ current expected, .verify current expected ∈ w.log →
    current = expected

-- ======== the condition

/-- No nonce gets onto a record, or stays on one, but by a reservation or a
claim: what is upserted or verified brings no other nonce than the record
has; a nonce is at most 100 units long, as much as is read back; a commit
returns a record of its own account; and no logout that preserves completed
records finds one with a nonce. -/
def Careful (callbacks : Callbacks) (records : Records) (op : Operation) :
    Prop :=
  match op.kind with
  | .upsert record =>
    record.attemptId = none ∨ record.attemptId
      = (records.get record.connectionId).bind (·.attemptId)
  | .verify record _ => record.attemptId = none
  | .reserve record => ∀ attemptId, record.attemptId = some attemptId →
      attemptId.length ≤ 100
  | .claimConnectionId _ attemptId _ => attemptId.length ≤ 100
  | .finalizeAttempt connectionId attemptId _ => ∀ existing committedRecord,
      records.get connectionId = some existing →
      existing.attemptId = some attemptId →
      callbacks.commit op.ticket existing = some committedRecord →
        committedRecord.connectionId = connectionId
  | .removeAccount connectionId preserveCompletedRecord =>
    preserveCompletedRecord → ∀ existing,
      records.get connectionId = some existing →
      existing.status ≠ .pending → existing.attemptId = none
  | _ => True

/-- Each operation of the batch that is applied. -/
def CarefulBatch (callbacks : Callbacks) : Records → List Operation → Prop
  | _, [] => True
  | records, op :: ops =>
    ((∀ outcome, verdict callbacks records op ≠ .settles outcome) →
        Careful callbacks records op)
      ∧ CarefulBatch callbacks
        ((verdict callbacks records op).records records) ops

def Guard : Event → Prop
  | .lockedSection store callbacks readAt fault =>
    fault ≠ some .compromisedAfter
      ∧ ∀ batch, (w.stores store).running = some batch → fault = none →
        (process callbacks (parseRecords w.file readAt) batch).left = [] →
          CarefulBatch callbacks (parseRecords w.file readAt) batch
  | _ => True

end World

end OneHarness.Mcp
