/-
The records of the MCP connections and the file that holds them.

A text is the list of its UTF-16 units. The file is what `JSON.parse` makes
of it; `parseRecords` keeps the entries that are records. The order in which
`serializeRecords` writes them is that of `localeCompare` and of an object's
properties: here a parameter, `arrange`.
-/
import OneHarness.Lib.JsMap
import OneHarness.Lib.Utf16
import Mathlib.Algebra.Order.Ring.Rat
import Mathlib.Data.List.Infix

namespace OneHarness.Mcp

open Lib

abbrev Text := List Nat

def units (s : String) : Text := Utf16.encode s.toList

inductive McpConnectionRecordStatus where
  | connected
  | pending
  | error
deriving DecidableEq

structure McpConnectionRecord where
  connectionId : Text
  serviceId : Text
  endpoint : Text
  label : Text
  status : McpConnectionRecordStatus
  createdAt : ℚ
  updatedAt : ℚ
  verifiedAt : Option ℚ
  toolCount : Option ℚ
  lastError : Option Text
  attemptId : Option Text
deriving DecidableEq

abbrev Records := JsMap Text McpConnectionRecord

-- ======== the file

inductive RawField where
  | text (value : Text)
  | number (value : ℚ)
  | other

/-- The properties of an entry that are read. -/
structure RawRecord where
  connectionId : Option RawField
  serviceId : Option RawField
  endpoint : Option RawField
  label : Option RawField
  status : Option RawField
  createdAt : Option RawField
  updatedAt : Option RawField
  verifiedAt : Option RawField
  toolCount : Option RawField
  lastError : Option RawField
  attemptId : Option RawField

inductive ConnectionsFile where
  /-- Missing, not JSON, or not of version 1. -/
  | unusable
  /-- With an entry for each connection, if that is an object. -/
  | connections (entries : List (Text × Option RawRecord))

def MAX_LAST_ERROR_LENGTH : Nat := 500

def RawField.text? : Option RawField → Option Text
  | some (.text value) => some value
  | _ => none

def RawField.number? : Option RawField → Option ℚ
  | some (.number value) => some value
  | _ => none

/-- A text that is not empty. -/
def RawField.given? (input : Option RawField) : Option Text :=
  (RawField.text? input).filter (· ≠ [])

def status? (input : Option RawField) : Option McpConnectionRecordStatus :=
  match RawField.text? input with
  | some value =>
    if value = units "connected" then some .connected
    else if value = units "pending" then some .pending
    else if value = units "error" then some .error
    else none
  | none => none

def sanitizeRecord (raw : Option RawRecord) (now : ℚ) :
    Option McpConnectionRecord := do
  let value ← raw
  let connectionId ← RawField.given? value.connectionId
  let serviceId ← RawField.given? value.serviceId
  let endpoint ← RawField.given? value.endpoint
  let label ← RawField.given? value.label
  let status ← status? value.status
  return {
    connectionId := connectionId
    serviceId := serviceId
    endpoint := endpoint
    label := label
    status := status
    createdAt := (RawField.number? value.createdAt).getD now
    updatedAt := (RawField.number? value.updatedAt).getD now
    verifiedAt := RawField.number? value.verifiedAt
    toolCount := RawField.number? value.toolCount
    lastError :=
      (RawField.given? value.lastError).map (·.take MAX_LAST_ERROR_LENGTH)
    attemptId := (RawField.given? value.attemptId).map (·.take 100) }

def parseRecords (file : ConnectionsFile) (now : ℚ) : Records :=
  match file with
  | .unusable => []
  | .connections entries =>
    entries.foldl
      (fun records (connectionId, value) =>
        match sanitizeRecord value now with
        | some record =>
          if record.connectionId = connectionId then
            records.set connectionId record
          else records
        | none => records)
      []

def McpConnectionRecordStatus.text : McpConnectionRecordStatus → Text
  | .connected => units "connected"
  | .pending => units "pending"
  | .error => units "error"

def McpConnectionRecord.raw (record : McpConnectionRecord) : RawRecord where
  connectionId := some (.text record.connectionId)
  serviceId := some (.text record.serviceId)
  endpoint := some (.text record.endpoint)
  label := some (.text record.label)
  status := some (.text record.status.text)
  createdAt := some (.number record.createdAt)
  updatedAt := some (.number record.updatedAt)
  verifiedAt := record.verifiedAt.map .number
  toolCount := record.toolCount.map .number
  lastError := record.lastError.map .text
  attemptId := record.attemptId.map .text

/-- The order in which the entries are read back. -/
structure Arrangement where
  order : Records → Records
  perm : ∀ records, (order records).Perm records

def serializeRecords (arrange : Arrangement) (records : Records) :
    ConnectionsFile :=
  .connections
    ((arrange.order records).map fun (id, record) => (id, some record.raw))

-- ======== the records

/-- At the time `now`. -/
def applyUpsert (records : Records) (record : McpConnectionRecord) (now : ℚ) :
    Records :=
  let createdAt :=
    ((records.get record.connectionId).map (·.createdAt)).getD record.createdAt
  let verified := record.status = .connected
  records.set record.connectionId
    { record with
      createdAt := createdAt
      updatedAt := now
      lastError :=
        (record.lastError.filter (· ≠ [])).map (·.take MAX_LAST_ERROR_LENGTH)
      verifiedAt := if verified then record.verifiedAt else none
      toolCount := if verified then record.toolCount else none }

/-- Without its attempt. -/
def McpConnectionRecord.withoutAttempt (record : McpConnectionRecord) :
    McpConnectionRecord := { record with attemptId := none }

structure McpAccountLogoutTarget where
  connectionId : Text
  credentialKey : Text

def resolveMcpAccountLogoutTarget (providerId : Text)
    (records : List McpConnectionRecord) : McpAccountLogoutTarget :=
  let candidate := providerId.drop (units "mcp:").length
  let accountKey := units "mcp:" ++ candidate
  if records.any (·.connectionId = candidate) ∨
      ¬ units "--" <:+: candidate then
    ⟨candidate, accountKey⟩
  else
    let stagedMatch := records.find? fun record =>
      record.attemptId.any fun attemptId =>
        record.connectionId ++ units "--" ++ attemptId = candidate
    match stagedMatch with
    | some record => ⟨record.connectionId, accountKey⟩
    | none => ⟨candidate, accountKey⟩

end OneHarness.Mcp
