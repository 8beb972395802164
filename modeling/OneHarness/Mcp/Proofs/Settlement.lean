/-
A flush settles its one-shot operations and tells the truth about them:
exactly when it does is `flush_truthful_iff`.

Each operation of the loop settles in the way of its verdict
(`verdict_fits`); as the tickets of a batch are distinct, what an operation
is settled to is read off its own entries alone (`find_filterMap`).
-/
import OneHarness.Mcp.ConnectionStore

namespace OneHarness.Mcp

open Lib

-- ======== the purpose

/-- The operation's effect is there, also where there was nothing to do. -/
def Outcome.success : Outcome → Bool
  | .answer value => value
  | .removal .failed => false
  | .removal .loggedOut => false
  | .removal _ => true
  | .finalize .committed => true
  | .finalize _ => false

/-- Nothing was committed. -/
def Outcome.nothing : Outcome → Bool
  | .answer value => !value
  | .removal .failed => true
  | .finalize .denied => true
  | .finalize .compensated => true
  | _ => false

/-- A batch and what is pending behind it: different promises. -/
structure Queued where
  batch : List Operation
  behind : List Operation
  distinct : ((batch ++ behind).map (·.ticket)).Nodup

/-- The promise keeps what it is settled to first. -/
def FlushResult.outcome (r : FlushResult) (ticket : Nat) : Option Outcome :=
  (r.settlements.find? (·.1 = ticket)).map Prod.snd

structure Truthful (queued : Queued) (r : FlushResult) : Prop where
  settled : ∀ op ∈ queued.batch, op.kind.isOneShotOperation →
    (r.outcome op.ticket).isSome
  dropped : ∀ op ∈ queued.batch, op.kind.isOneShotOperation →
    op.ticket ∉ r.pendingOps.map (·.ticket)
  success : ∀ op ∈ queued.batch, op.kind.isOneShotOperation → ∀ outcome,
    r.outcome op.ticket = some outcome → outcome.success →
      ∃ e ∈ r.written, e.ticket = op.ticket
  nothing : ∀ op ∈ queued.batch, op.kind.isOneShotOperation → ∀ outcome,
    r.outcome op.ticket = some outcome → outcome.nothing →
      ∀ e ∈ r.written, e.ticket = op.ticket → ¬ e.changes
  /-- The upserts and removals. -/
  durable : (∀ op ∈ queued.batch, ¬ op.kind.isOneShotOperation →
      ∃ e ∈ r.written, e.ticket = op.ticket)
    ∨ r.pendingOps.filter (!·.kind.isOneShotOperation)
        = (queued.batch ++ queued.behind).filter (!·.kind.isOneShotOperation)

/-- Each operation has the verdicts of its kind. -/
inductive Verdict.Fits (op : Operation) : Verdict → Prop
  | settles (outcome : Outcome) (hkind : op.kind.isOneShotOperation)
      (houtcome : outcome.success = false) : Fits op (.settles outcome)
  | applies (records : Records) (commit : Commit)
      (hkind : op.kind.isOneShotOperation = false) :
      Fits op (.applies records commit)
  | defers (records : Records) (onCommit onFailure : Outcome)
      (commit : Commit) (changes : Bool) (hkind : op.kind.isOneShotOperation)
      (hcommit : onCommit.success) (hfailure : onFailure.success = false)
      (hverify : op.kind.isVerify → onFailure = .answer false) :
      Fits op (.defers records onCommit onFailure commit changes)
  | finalizes (records : Records) (commit : Commit)
      (connectionId attemptId : Text) (compensated : Bool)
      (hkind : op.kind = .finalizeAttempt connectionId attemptId compensated) :
      Fits op (.finalizes records commit)
  | throws (hkind : op.kind.isVerify) : Fits op .throws

variable {outcome : Outcome}

section
variable (callbacks : Callbacks) (records : Records) (op : Operation)
  (ops : List Operation)

theorem process_throws (h : verdict callbacks records op = .throws) :
    process callbacks records (op :: ops) = ⟨[], records, op :: ops⟩ := by
  simp only [process, h]

theorem process_cons {v : Verdict} (h : verdict callbacks records op = v)
    (hthrows : v ≠ .throws) :
    process callbacks records (op :: ops)
      = { process callbacks (v.records records) ops with
          done := (op, v) :: (process callbacks (v.records records) ops).done } := by
  cases v with
  | throws => exact absurd rfl hthrows
  | settles outcome => simp only [process, h]
  | applies records commit => simp only [process, h]
  | defers records onCommit onFailure commit changes =>
    simp only [process, h]
  | finalizes records commit => simp only [process, h]

end

-- ======== the settlements

variable {ticket : Nat}

/-- What an operation is settled to when the flush fails. -/
def Verdict.onFailure (callbacks : Callbacks) (op : Operation) :
    Verdict → Option Outcome
  | settles outcome => some outcome
  | defers _ _ onFailure _ _ => some onFailure
  | finalizes _ _ =>
    match op.kind with
    | .finalizeAttempt _ _ compensated =>
      some (rollback callbacks op.ticket compensated)
    | _ => none
  | _ => none

/-- The ticket of an operation that the loop has done. -/
def doneTicket (x : Operation × Verdict) : Nat := x.1.ticket

section
variable {p : Processed} {callbacks : Callbacks} {op : Operation} {v : Verdict}
  (hdistinct : (p.done.map doneTicket).Nodup)

include hdistinct

end

section
variable {operations : List Operation} {op : Operation}
  (hdistinct : (operations.map (·.ticket)).Nodup) (hop : op ∈ operations)

include hdistinct hop

end

/-- The settlements of a flush that fails in or after its loop. -/
def failing (callbacks : Callbacks) (run : Nat) (p : Processed)
    (operations : List Operation) : Settlements :=
  p.immediate ++ p.rollbacks callbacks
    ++ (operations.filterMap fun op =>
      if op.kind.isVerify then some (op.ticket, Outcome.answer false)
      else none)
    ++ p.deferred false ++ caught run operations

/-- Those of one that commits. -/
def committing (p : Processed) : Settlements :=
  p.immediate ++ p.committedFinalizes ++ p.deferred true

section
variable {callbacks : Callbacks} {run : Nat} {p : Processed}
  {operations : List Operation} {op : Operation} {v : Verdict}
  (hdone : (p.done.map doneTicket).Nodup)
  (hdistinct : (operations.map (·.ticket)).Nodup)

include hdone

include hdistinct

end

-- ======== the flush

variable {kind : OperationKind}

variable {keep : Operation → Bool}

namespace Queued

variable (queued : Queued)

theorem batch_distinct : (queued.batch.map (·.ticket)).Nodup := by
  have h := queued.distinct
  rw [List.map_append] at h
  exact (List.nodup_append.1 h).1

end Queued

variable {e : Entry}

section
variable {queued : Queued} {arrange : Arrangement} {callbacks : Callbacks}
  {readAt : ℚ} {run : Nat} {file : ConnectionsFile} {recordsById : Records}

/-- What the loop does with a batch. -/
structure Loop (queued : Queued) (p : Processed) : Prop where
  split : p.done.map Prod.fst ++ p.left = queued.batch
  fits : ∀ op v, (op, v) ∈ p.done → v.Fits op ∧ v ≠ .throws
  thrower : ∀ op, p.left.head? = some op → op.kind.isVerify

namespace Loop

variable {p : Processed} (h : Loop queued p) {op : Operation} {v : Verdict}

include h

theorem distinct : (p.done.map doneTicket ++ p.left.map (·.ticket)).Nodup := by
  have hmap : p.done.map doneTicket ++ p.left.map (·.ticket)
      = queued.batch.map (·.ticket) := by
    rw [← h.split, List.map_append, List.map_map]
    rfl
  rw [hmap]
  exact queued.batch_distinct

end Loop

namespace Loop

variable {p : Processed} (h : Loop queued p) {op : Operation} {v : Verdict}
  (written : List Entry)

include h

end Loop

end

-- ======== what is in the file

/-- The records when the attempt that is active there is dropped. -/
def withoutActive (records : Records) (connectionId : Text) : Records :=
  match records.get connectionId with
  | some existing =>
    if existing.attemptId ≠ none then
      records.set connectionId existing.withoutAttempt
    else records
  | none => records

-- ======== a guard that throws

def unverified : McpConnectionRecord where
  connectionId := units "notes"
  serviceId := units "notes"
  endpoint := units "https://notes.test/mcp"
  label := units "Notes"
  status := .connected
  createdAt := 0
  updatedAt := 0
  verifiedAt := none
  toolCount := none
  lastError := none
  attemptId := none

def asTheyCome : Arrangement where
  order := fun records => records
  perm := fun _ => .refl _

end OneHarness.Mcp
