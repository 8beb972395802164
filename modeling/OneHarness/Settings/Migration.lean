/-
The settings as a file holds them, and `migrateSettings`, through which
they are read.

A record is the properties of a JavaScript object, in their order; a
property that is set to `undefined` is left out of it, as `JSON.stringify`
leaves it out.
-/
import OneHarness.Lib.JsMap
import OneHarness.Lib.Json.Numeral

namespace OneHarness.Settings

open Lib

abbrev Record := JsMap String Json

/-- `{ ...value }`. -/
def spread : Json → Record
  | .obj ms => ms
  | .arr xs => xs.zipIdx.map fun (x, i) => (toString i, x)
  | .str s => s.toList.zipIdx.map fun (c, i) => (toString i, .str c.toString)
  | _ => []

/-- Set a property, or set it to `undefined`. -/
def put (record : Record) (key : String) : Option Json → Record
  | some value => record.set key value
  | none => record.delete key

/-- `typeof value === "object" && value !== null`. -/
def isObject : Json → Bool
  | .obj _ => true
  | .arr _ => true
  | _ => false

-- ======== the migration

def migrateQueueMode (settings : Record) : Record :=
  match settings.get "queueMode" with
  | some mode =>
    if settings.has "steeringMode" then settings
    else (settings.set "steeringMode" mode).delete "queueMode"
  | none => settings

def migrateWebsockets (settings : Record) : Record :=
  match settings.get "websockets" with
  | some (.bool websockets) =>
    if settings.has "transport" then settings
    else
      (settings.set "transport"
        (.str (if websockets then "websocket" else "sse"))).delete "websockets"
  | _ => settings

def migrateSkills (settings : Record) : Record :=
  match settings.get "skills" with
  | some (.obj skillsSettings) =>
    let settings :=
      match JsMap.get skillsSettings "enableSkillCommands" with
      | some enabled =>
        if settings.has "enableSkillCommands" then settings
        else settings.set "enableSkillCommands" enabled
      | none => settings
    match JsMap.get skillsSettings "customDirectories" with
    | some (.arr (dir :: dirs)) => settings.set "skills" (.arr (dir :: dirs))
    | _ => settings.delete "skills"
  | _ => settings

/-- `retry.provider` with the delay, unless it has one. -/
def moveMaxDelay (retry : Record) : Record :=
  match retry.get "maxDelayMs" with
  | some (.num maxDelayMs) =>
    let providerSettings : Record :=
      match retry.get "provider" with
      | some provider => if isObject provider then spread provider else []
      | none => []
    match providerSettings.get "maxRetryDelayMs" with
    | none | some .null =>
      retry.set "provider"
        (.obj (providerSettings.set "maxRetryDelayMs" (.num maxDelayMs)))
    | some _ => retry
  | _ => retry

def migrateRetry (settings : Record) : Record :=
  match settings.get "retry" with
  | some (.obj retry) =>
    settings.set "retry" (.obj ((moveMaxDelay retry).delete "maxDelayMs"))
  | _ => settings

def migrateTelemetry (settings : Record) : Record :=
  match settings.get "telemetry" with
  | some (.bool enabled) =>
    settings.set "telemetry" (.obj [("enabled", .bool enabled)])
  | some (.obj _) => settings
  | some _ => settings.delete "telemetry"
  | none => settings

def migrateMarkdown (settings : Record) : Record :=
  match settings.get "markdown" with
  | some (.obj _) => settings
  | some _ => settings.delete "markdown"
  | none => settings

def migrateSettings (settings : Record) : Record :=
  migrateMarkdown (migrateTelemetry (migrateRetry (migrateSkills
    (migrateWebsockets (migrateQueueMode settings)))))

-- ======== the file

/-- A settings file: not there or empty, with a JSON text, or with another. -/
inductive SettingsFile where
  | empty
  | json (value : Json)
  | malformed

/-- The settings of a file; the others throw. -/
def SettingsFile.settings : SettingsFile → Option Record
  | .empty => some []
  | .json (.obj ms) => some (migrateSettings ms)
  | .json (.arr xs) => some (migrateSettings (spread (.arr xs)))
  | .json _ => none
  | .malformed => none

end OneHarness.Settings
