/-
The places of the settings that are set apart from each other, and when a
scope is settled: nothing is queued and its last write returned.

A field is a place of its own. The nested fields are set one property at a
time: there each property is a place too, and the place of the field says no
more than that it holds an object.
-/
import OneHarness.Lib.Run
import OneHarness.Settings.SettingsManager

namespace OneHarness.Settings

open Lib

inductive Path where
  | field (name : String)
  | member (name key : String)
deriving DecidableEq

/-- The fields that are set one property at a time. -/
def nestedFields : List String :=
  ["compaction", "agentTraces", "telemetry", "retry", "terminal", "images",
    "mcpServers", "markdown"]

/-- An object without its properties. -/
def shape : Json → Json
  | .obj _ => .obj []
  | value => value

/-- What the settings have at a place. -/
def valueAt (settings : Record) : Path → Option Json
  | .field name =>
    if name ∈ nestedFields then (settings.get name).map shape
    else settings.get name
  | .member name key =>
    if name ∈ nestedFields then
      (settings.get name).bind fun value => (spread value).get key
    else none

def Assignment.name : Assignment → String
  | .field name _ => name
  | .nested name _ _ _ => name

/-- What the assignment sets a place to, if it sets it. -/
def Assignment.wanted : Assignment → Path → Option (Option Json)
  | .field name value, path => if path = .field name then some value else none
  | .nested name key _ value, path =>
    if path = .field name then some (some (.obj []))
    else if path = .member name key then some value
    else none

/-- What was most recently set, the last assignment first. -/
def wanted (assignments : List Assignment) (path : Path) :
    Option (Option Json) :=
  assignments.findSome? fun a => a.wanted path

/-- The marks cover the place. -/
def Covers (modifiedFields : List String)
    (modifiedNestedFields : JsMap String (List String)) : Path → Prop
  | .field name => name ∈ modifiedFields
  | .member name key =>
    name ∈ modifiedFields ∧
      ∃ keys, modifiedNestedFields.get name = some keys ∧ key ∈ keys

def QueuedWrite.Carries (q : QueuedWrite) : Path → Prop :=
  Covers q.modifiedFields q.modifiedNestedFields

def ScopedSettings.Marked (held : ScopedSettings) : Path → Prop :=
  Covers held.modifiedFields held.modifiedNestedFields

/-- The settings that a file holds, if it can be read. -/
def SettingsFile.held (file : SettingsFile) : Record := file.settings.getD []

namespace World

variable (w : World)

/-- What the failed write carries is still marked, or a queued write of the
scope carries it as well, or the file has it. -/
def Retried (write : QueuedWrite) (rest : List QueuedWrite) : Prop :=
  ∀ path, write.Carries path →
    (w.manager.held write.scope).Marked path
      ∨ (∃ u ∈ rest, u.scope = write.scope ∧ u.Carries path)
      ∨ valueAt (w.files write.scope).held path
          = valueAt write.snapshotSettings path

/-- The write reaches the file. -/
def Reaches (write : QueuedWrite) (outcome : Outcome) : Prop :=
  (w.files write.scope).settings.isSome
    ∧ ∀ error, outcome ≠ .threw false error

/-- The other processes leave what the manager has set, the name of a server
is not empty, and what a write that fails has carried is not lost. -/
def Guard : Event → Prop
  | .set (.setGlobalMcpServer name _ _) => name ≠ ""
  | .set (.removeGlobalMcpServer name) => name ≠ ""
  | .set _ => True
  | .write outcome =>
    ∀ write rest, w.manager.writeQueue = write :: rest →
      w.Reaches write outcome ∨ w.Retried write rest
  | .other scope settings =>
    ∀ path, (wanted (w.assignments scope) path).isSome →
      valueAt (migrateSettings settings) path
        = valueAt (w.files scope).held path

/-- The file holds what was set, and otherwise its own values. -/
structure Settled (scope : SettingsScope) : Prop where
  readable : (w.files scope).settings.isSome
  set : ∀ path value, wanted (w.assignments scope) path = some value →
    valueAt (w.files scope).held path = value
  kept : ∀ path, wanted (w.assignments scope) path = none →
    valueAt (w.files scope).held path = valueAt (w.own scope).held path
  /-- With the order of its properties. -/
  untouched : ∀ name, (∀ a ∈ w.assignments scope, a.name ≠ name) →
    (w.files scope).held.get name = (w.own scope).held.get name

/-- No change is dropped: settled scopes hold what they should. -/
def Faithful : Prop :=
  ∀ scope, w.manager.writeQueue = [] → w.last scope = some true →
    w.Settled scope

end World

end OneHarness.Settings
