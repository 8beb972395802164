/-
The effective settings: what a `SettingsManager` merges of the two scopes
and of the overrides.

# The merge

goes one level down: where both sides have an object under a key, the
members of the upper one replace those of the lower one as they are. A
member that is set to `undefined` is skipped at the top, and below replaces
like any other.

# When it is made

The settings are merged from the two scopes when they are loaded, saved and
loaded again. Overrides are merged on top of what the settings are at that
moment, and into `runtimeOverrides`.

# History

`Effective.overrides` are all overrides applied, the last one first. No code
reads them.
-/
import OneHarness.Lib.Layers
import OneHarness.Settings.SettingsManager

namespace OneHarness.Settings

open Lib Layers

-- ======== the values

/-- A value in memory; a leaf is a JSON value other than an object. -/
abbrev Setting := Tree String Json

/-- An object in memory. -/
abbrev SettingsObject := Members String Json

mutual

def ofJson : Json → Setting
  | .obj members => .node (ofMembers [] members)
  | value => .leaf value

/-- The members of an object after others; of two with a name the last one
counts. -/
def ofMembers (object : SettingsObject) : List (String × Json) → SettingsObject
  | [] => object
  | (key, value) :: members =>
    ofMembers (object.set key (ofJson value)) members

end

def ofRecord (settings : Record) : SettingsObject := ofMembers [] settings

-- ======== the merge

/-- `{ ...base, ...overrides }`. -/
def spreadInto (base overrides : SettingsObject) : SettingsObject :=
  overrides.keys.foldl
    (fun result key => result.set key (member overrides key)) base

/-- What becomes of a base value under a value of the overrides. -/
def mergedValue (baseValue : Setting) : Setting → Setting
  | .node overrideMembers =>
    match baseValue with
    | .node baseMembers => .node (spreadInto baseMembers overrideMembers)
    | _ => .node overrideMembers
  | overrideValue => overrideValue

/-- One key of the loop. -/
def mergeKey (base overrides result : SettingsObject) (key : String) :
    SettingsObject :=
  match member overrides key with
  | .absent => result
  | overrideValue =>
    result.set key (mergedValue (member base key) overrideValue)

def deepMergeSettings (base overrides : SettingsObject) : SettingsObject :=
  overrides.keys.foldl (mergeKey base overrides) base

-- ======== the manager

/-- A scope after `reload`: as it was where the load fails, but for the
marks. -/
def ScopedSettings.reload (held : ScopedSettings) (file : SettingsFile)
    (lockError : Option String) : ScopedSettings :=
  let loaded := World.load file lockError
  match loaded.loadError with
  | none => loaded
  | some error => { held.clearModified with loadError := some error }

def SettingsManager.recordLoad (m : SettingsManager) (scope : SettingsScope) :
    SettingsManager :=
  match (m.held scope).loadError with
  | none => m
  | some error => m.recordError scope error

/-- The scopes of `reload`; what the other processes left is in the files. -/
def World.reload (w : World) (lockErrors : SettingsScope → Option String) :
    World :=
  let held := fun scope =>
    (w.manager.held scope).reload (w.files scope) (lockErrors scope)
  { w with
    manager := (SettingsManager.recordLoad { w.manager with
        global := held .global
        project := held .project } .global).recordLoad .project
    assignments := fun scope =>
      if (held scope).loadError.isNone then [] else w.assignments scope
    own := fun scope =>
      if (held scope).loadError.isNone then w.files scope else w.own scope
    last := fun scope =>
      if (held scope).loadError.isNone then none else w.last scope }

/-- A setter comes to save. -/
def SettingsManager.saves (m : SettingsManager) (setter : Setter) : Bool :=
  match m.set setter with
  | .error _ => false
  | .ok _ => (m.stops setter).isNone

-- ======== the world

structure Effective where
  world : World
  runtimeOverrides : SettingsObject
  settings : SettingsObject
  overrides : List SettingsObject

namespace Effective

inductive Event where
  /-- A setter, a queued write or a write of another process. -/
  | world (event : Settings.Event)
  | applyOverrides (overrides : SettingsObject)
  | reload (lockErrors : SettingsScope → Option String)

def globalSettings (world : World) : SettingsObject :=
  ofRecord world.manager.global.settings

def projectSettings (world : World) : SettingsObject :=
  ofRecord world.manager.project.settings

/-- The settings merged anew, in a world. -/
def merge (e : Effective) (world : World) : Effective :=
  { e with
    world := world
    settings :=
      deepMergeSettings (globalSettings world) (projectSettings world) }

/-- The settings were loaded. -/
def loaded (files : SettingsScope → SettingsFile)
    (lockErrors : SettingsScope → Option String) : Effective :=
  merge ⟨World.loaded files lockErrors, [], [], []⟩
    (World.loaded files lockErrors)

def step (e : Effective) : Event → Effective
  | .world (.set setter) =>
    if e.world.manager.saves setter then
      e.merge (e.world.step (.set setter))
    else { e with world := e.world.step (.set setter) }
  | .world event => { e with world := e.world.step event }
  | .applyOverrides overrides =>
    { e with
      runtimeOverrides := deepMergeSettings e.runtimeOverrides overrides
      settings := deepMergeSettings e.settings overrides
      overrides := overrides :: e.overrides }
  | .reload lockErrors => e.merge (e.world.reload lockErrors)

end Effective

end OneHarness.Settings
