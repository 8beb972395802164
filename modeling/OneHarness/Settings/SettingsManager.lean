/-
`SettingsManager`: the settings of the two scopes in memory, what was
modified of them, and the queue of writes.

A setter assigns to fields, marks what it modified and queues a write, which
carries a snapshot of the settings and of the marks. A write merges what it
carries into the file under the lock, and takes all marks of its scope off
when it returns. Other processes change the files under the same lock.

The world remembers, as ghosts, the assignments since the settings were
loaded, what the other processes left in the files, and how the last write
of each scope ended.
-/
import OneHarness.Settings.Migration

namespace OneHarness.Settings

open Lib

inductive SettingsScope where
  | global
  | project
deriving DecidableEq

/-- When a setter puts a new object in the place of its field. -/
inductive Creation where
  | ifFalsy
  | ifNotPlain
  | ifNullish
  /-- Always, with the properties of the old one. -/
  | copy
deriving DecidableEq

inductive Assignment where
  | field (name : String) (value : Option Json)
  | nested (name key : String) (creation : Creation) (value : Option Json)

-- ======== the setters

inductive Setter where
  | setOnboardingShown (shown : Bool)
  | setDefaultProvider (provider : String)
  | setDefaultModel (modelId : String)
  /-- With what `getRecentModels` returns. -/
  | setDefaultModelAndProvider (provider modelId : String)
      (recentModels : List String)
  | setSteeringMode (mode : String)
  | setFollowUpMode (mode : String)
  | setTheme (theme : String)
  | setUpdateChannel (channel : String)
  | setDefaultThinkingLevel (level : String)
  | setDefaultServiceTier (serviceTier : String)
  | setRlmMaxDepth (maxDepth : Numeral)
  /-- A number of minutes, or `"off"`. -/
  | setIdleEvictionMinutes (value : Option Numeral)
  | setTransport (transport : String)
  | setCompactionEnabled (enabled : Bool)
  | setAgentTracesEnabled (enabled : Bool)
  | setTelemetryEnabled (enabled : Bool)
  | setTelemetryNoticeShown (shown : Bool)
  | setRetryEnabled (enabled : Bool)
  | setShellPath (path : Option String)
  | setQuietStartup (quiet : Bool)
  | setShellCommandPrefix (commandPrefix : Option String)
  | setNpmCommand (command : Option (List String))
  | setPackages (packages : List Json)
  | setProjectPackages (packages : List Json)
  | setExtensionPaths (paths : List String)
  | setProjectExtensionPaths (paths : List String)
  | setSkillPaths (paths : List String)
  | setProjectSkillPaths (paths : List String)
  | setPromptTemplatePaths (paths : List String)
  | setProjectPromptTemplatePaths (paths : List String)
  | setThemePaths (paths : List String)
  | setProjectThemePaths (paths : List String)
  | setEnableSkillCommands (enabled : Bool)
  | setEnableBuiltinSkills (enabled : Bool)
  | setShowImages (shown : Bool)
  | setClearOnShrink (enabled : Bool)
  | setFullscreen (enabled : Bool)
  | setFullscreenMouse (enabled : Bool)
  | setShowTerminalProgress (enabled : Bool)
  | setImageAutoResize (enabled : Bool)
  | setBlockImages (blocked : Bool)
  | setGlobalMcpServer (name : String) (config : Json) (force : Bool)
  | removeGlobalMcpServer (name : String)
  | setEnabledModels (patterns : Option (List String))
  | setTreeFilterMode (mode : String)
  | setShowHardwareCursor (enabled : Bool)
  | setEditorPaddingX (padding : ℚ)
  | setAutocompleteMaxVisible (maxVisible : ℚ)
  | setMermaidRenderingMode (mode : String)
  | setWarnings (warnings : Record)

def texts (xs : List String) : Json := .arr (xs.map .str)

def bool (b : Bool) : Option Json := some (.bool b)

/-- `Math.max(low, Math.min(high, Math.floor(x)))`. -/
def clamp (low high : Int) (x : ℚ) : Json :=
  .num (.ofInt (max low (min high x.floor)))

def RECENT_MODELS_LIMIT : Nat := 20

/-- `recordModelUseInternal`. -/
def recordModelUse (provider modelId : String) (recentModels : List String) :
    List String :=
  let key := provider ++ "/" ++ modelId
  (key :: recentModels.filter (· ≠ key)).take RECENT_MODELS_LIMIT

namespace Setter

def assignments : Setter → List Assignment
  | setOnboardingShown shown => [.field "onboardingShown" (bool shown)]
  | setDefaultProvider provider =>
    [.field "defaultProvider" (some (.str provider))]
  | setDefaultModel modelId => [.field "defaultModel" (some (.str modelId))]
  | setDefaultModelAndProvider provider modelId recentModels =>
    [.field "defaultProvider" (some (.str provider)),
      .field "defaultModel" (some (.str modelId)),
      .field "recentModels"
        (some (texts (recordModelUse provider modelId recentModels)))]
  | setSteeringMode mode => [.field "steeringMode" (some (.str mode))]
  | setFollowUpMode mode => [.field "followUpMode" (some (.str mode))]
  | setTheme theme => [.field "theme" (some (.str theme))]
  | setUpdateChannel channel => [.field "updateChannel" (some (.str channel))]
  | setDefaultThinkingLevel level =>
    [.field "defaultThinkingLevel" (some (.str level))]
  | setDefaultServiceTier serviceTier =>
    [.field "defaultServiceTier" (some (.str serviceTier))]
  | setRlmMaxDepth maxDepth => [.field "rlmMaxDepth" (some (.num maxDepth))]
  | setIdleEvictionMinutes value =>
    [.field "idleEvictionMinutes"
      (some ((value.map Json.num).getD (.str "off")))]
  | setTransport transport => [.field "transport" (some (.str transport))]
  | setCompactionEnabled enabled =>
    [.nested "compaction" "enabled" .ifFalsy (bool enabled)]
  | setAgentTracesEnabled enabled =>
    [.nested "agentTraces" "enabled" .ifFalsy (bool enabled)]
  | setTelemetryEnabled enabled =>
    [.nested "telemetry" "enabled" .ifNotPlain (bool enabled)]
  | setTelemetryNoticeShown shown =>
    [.nested "telemetry" "noticeShown" .ifNotPlain (bool shown)]
  | setRetryEnabled enabled =>
    [.nested "retry" "enabled" .ifFalsy (bool enabled)]
  | setShellPath path => [.field "shellPath" (path.map .str)]
  | setQuietStartup quiet => [.field "quietStartup" (bool quiet)]
  | setShellCommandPrefix commandPrefix =>
    [.field "shellCommandPrefix" (commandPrefix.map .str)]
  | setNpmCommand command => [.field "npmCommand" (command.map texts)]
  | setPackages packages => [.field "packages" (some (.arr packages))]
  | setProjectPackages packages => [.field "packages" (some (.arr packages))]
  | setExtensionPaths paths => [.field "extensions" (some (texts paths))]
  | setProjectExtensionPaths paths =>
    [.field "extensions" (some (texts paths))]
  | setSkillPaths paths => [.field "skills" (some (texts paths))]
  | setProjectSkillPaths paths => [.field "skills" (some (texts paths))]
  | setPromptTemplatePaths paths => [.field "prompts" (some (texts paths))]
  | setProjectPromptTemplatePaths paths =>
    [.field "prompts" (some (texts paths))]
  | setThemePaths paths => [.field "themes" (some (texts paths))]
  | setProjectThemePaths paths => [.field "themes" (some (texts paths))]
  | setEnableSkillCommands enabled =>
    [.field "enableSkillCommands" (bool enabled)]
  | setEnableBuiltinSkills enabled =>
    [.field "enableBuiltinSkills" (bool enabled)]
  | setShowImages shown =>
    [.nested "terminal" "showImages" .ifFalsy (bool shown)]
  | setClearOnShrink enabled =>
    [.nested "terminal" "clearOnShrink" .ifFalsy (bool enabled)]
  | setFullscreen enabled =>
    [.nested "terminal" "fullscreen" .ifFalsy (bool enabled)]
  | setFullscreenMouse enabled =>
    [.nested "terminal" "fullscreenMouse" .ifFalsy (bool enabled)]
  | setShowTerminalProgress enabled =>
    [.nested "terminal" "showTerminalProgress" .ifFalsy (bool enabled)]
  | setImageAutoResize enabled =>
    [.nested "images" "autoResize" .ifFalsy (bool enabled)]
  | setBlockImages blocked =>
    [.nested "images" "blockImages" .ifFalsy (bool blocked)]
  | setGlobalMcpServer name config _ =>
    [.nested "mcpServers" name .copy (some config)]
  | removeGlobalMcpServer name => [.nested "mcpServers" name .copy none]
  | setEnabledModels patterns =>
    [.field "enabledModels" (patterns.map texts)]
  | setTreeFilterMode mode => [.field "treeFilterMode" (some (.str mode))]
  | setShowHardwareCursor enabled =>
    [.field "showHardwareCursor" (bool enabled)]
  | setEditorPaddingX padding =>
    [.field "editorPaddingX" (some (clamp 0 3 padding))]
  | setAutocompleteMaxVisible maxVisible =>
    [.field "autocompleteMaxVisible" (some (clamp 3 20 maxVisible))]
  | setMermaidRenderingMode mode =>
    [.nested "markdown" "mermaid" .ifNullish (some (.str mode))]
  | setWarnings warnings => [.field "warnings" (some (.obj warnings))]

def scope : Setter → SettingsScope
  | setProjectPackages _ => .project
  | setProjectExtensionPaths _ => .project
  | setProjectSkillPaths _ => .project
  | setProjectPromptTemplatePaths _ => .project
  | setProjectThemePaths _ => .project
  | _ => .global

end Setter

-- ======== the manager

structure ScopedSettings where
  settings : Record
  loadError : Option String
  modifiedFields : List String
  modifiedNestedFields : JsMap String (List String)

/-- A queued task. -/
structure QueuedWrite where
  scope : SettingsScope
  snapshotSettings : Record
  modifiedFields : List String
  modifiedNestedFields : JsMap String (List String)

structure SettingsManager where
  global : ScopedSettings
  project : ScopedSettings
  writeQueue : List QueuedWrite
  errors : List (SettingsScope × String)

/-- `set.add(key)`. -/
def insert (keys : List String) (key : String) : List String :=
  if key ∈ keys then keys else keys ++ [key]

def Json.isFalsy : Json → Bool
  | .null => true
  | .bool b => !b
  | .num n => n.toRat == 0
  | .str s => s == ""
  | _ => false

namespace Creation

/-- The object that the property is set on; a list is taken for the object of
its entries, which is what the file gets of it. -/
def object (creation : Creation) (current : Option Json) :
    Except String Record :=
  let replaced :=
    match creation, current with
    | _, none => true
    | .ifFalsy, some value => Json.isFalsy value
    | .ifNotPlain, some (.obj _) => false
    | .ifNotPlain, some _ => true
    | .ifNullish, some .null => true
    | .ifNullish, some _ => false
    | .copy, some _ => false
  match current with
  | none => .ok []
  | some value =>
    if replaced then .ok []
    else if creation = .copy ∨ isObject value then .ok (spread value)
    else .error "Cannot create property"

end Creation

def Assignment.apply (settings : Record) : Assignment → Except String Record
  | .field name value => .ok (put settings name value)
  | .nested name key creation value => do
      let object ← creation.object (settings.get name)
      .ok (settings.set name (.obj (put object key value)))

/-- `markModified` and `markProjectModified`. -/
def ScopedSettings.markModified (held : ScopedSettings) :
    Assignment → ScopedSettings
  | .field name _ =>
    { held with modifiedFields := insert held.modifiedFields name }
  | .nested name key _ _ =>
    { held with
      modifiedFields := insert held.modifiedFields name
      modifiedNestedFields :=
        if key = "" then held.modifiedNestedFields
        else held.modifiedNestedFields.set name
          (insert ((held.modifiedNestedFields.get name).getD []) key) }

/-- `clearModifiedScope`. -/
def ScopedSettings.clearModified (held : ScopedSettings) : ScopedSettings :=
  { held with modifiedFields := [], modifiedNestedFields := [] }

namespace SettingsManager

def held (m : SettingsManager) : SettingsScope → ScopedSettings
  | .global => m.global
  | .project => m.project

def setHeld (m : SettingsManager) (scope : SettingsScope)
    (held : ScopedSettings) : SettingsManager :=
  match scope with
  | .global => { m with global := held }
  | .project => { m with project := held }

def recordError (m : SettingsManager) (scope : SettingsScope)
    (error : String) : SettingsManager :=
  { m with errors := m.errors ++ [(scope, error)] }

def notSaved : SettingsScope → String → String
  | .global, message =>
    "Global settings not saved: settings file failed to parse: " ++ message
  | .project, message =>
    "Project settings not saved: settings file failed to parse: " ++ message

/-- `save` and `saveProjectSettings`. -/
def save (m : SettingsManager) (scope : SettingsScope) : SettingsManager :=
  let held := m.held scope
  match held.loadError with
  | some message => m.recordError scope (notSaved scope message)
  | none =>
    { m with
      writeQueue := m.writeQueue ++ [
        { scope := scope
          snapshotSettings := held.settings
          modifiedFields := held.modifiedFields
          modifiedNestedFields := held.modifiedNestedFields }] }

/-- What makes a setter return before it sets anything: an error, or none
when it has nothing to do. -/
def stops (m : SettingsManager) : Setter → Option (Option String)
  | .setIdleEvictionMinutes (some value) =>
    if value.toRat ≤ 0 then
      some (some "Idle eviction minutes must be a positive number or off")
    else none
  | .setGlobalMcpServer name _ force =>
    let has := (m.global.settings.get "mcpServers").any fun servers =>
      !Json.isFalsy servers && (spread servers).has name
    if has && !force then
      some (some ("MCP server \"" ++ name ++
        "\" already exists. Use --force to replace it."))
    else none
  | .removeGlobalMcpServer name =>
    let has := (m.global.settings.get "mcpServers").any fun servers =>
      !Json.isFalsy servers && (spread servers).has name
    if has then none else some none
  | _ => none

def set (m : SettingsManager) (setter : Setter) :
    Except String SettingsManager :=
  match m.stops setter with
  | some (some error) => .error error
  | some none => .ok m
  | none => do
      let held := m.held setter.scope
      let settings ← setter.assignments.foldlM Assignment.apply held.settings
      let marked := setter.assignments.foldl ScopedSettings.markModified held
      .ok ((m.setHeld setter.scope { marked with settings := settings }).save
        setter.scope)

end SettingsManager

-- ======== the writes

/-- The field of the merged settings. -/
def mergedField (base snapshot : Record)
    (modifiedNestedFields : JsMap String (List String)) (field : String) :
    Option Json :=
  match modifiedNestedFields.get field, snapshot.get field with
  | some nestedModified, some value =>
    if isObject value then
      let baseNested := ((base.get field).map spread).getD []
      some (.obj (nestedModified.foldl
        (fun merged key => put merged key ((spread value).get key))
        baseNested))
    else some value
  | _, value => value

def mergeSettings (base : Record) (w : QueuedWrite) : Record :=
  w.modifiedFields.foldl
    (fun merged field => put merged field
      (mergedField base w.snapshotSettings w.modifiedNestedFields field)) base

/-- What `persistScopedSettings` writes, unless it throws. -/
def persistScopedSettings (file : SettingsFile) (w : QueuedWrite) :
    Option SettingsFile :=
  file.settings.map fun current => .json (.obj (mergeSettings current w))

-- ======== the world

structure World where
  files : SettingsScope → SettingsFile
  manager : SettingsManager
  /-- The assignments since the load, the last one first. -/
  assignments : SettingsScope → List Assignment
  /-- What the others left in the file. -/
  own : SettingsScope → SettingsFile
  /-- Whether the last write returned, if there was one since the load. -/
  last : SettingsScope → Option Bool

inductive Outcome where
  | returned
  /-- An exception, before or after the file was written. -/
  | threw (written : Bool) (error : String)

inductive Event where
  | set (setter : Setter)
  /-- The next queued write. -/
  | write (outcome : Outcome)
  /-- Another process writes the file of a scope. -/
  | other (scope : SettingsScope) (settings : Record)

namespace World

variable {α : Type}

def update (f : SettingsScope → α) (scope : SettingsScope) (a : α) :
    SettingsScope → α :=
  fun s => if s = scope then a else f s

/-- The write failed. -/
def fail (w : World) (write : QueuedWrite) (error : String) : World :=
  { w with
    manager := w.manager.recordError write.scope error
    last := update w.last write.scope (some false) }

def step (w : World) : Event → World
  | .set setter =>
    match w.manager.set setter with
    | .error _ => w
    | .ok manager =>
      match w.manager.stops setter with
      | some _ => w
      | none =>
        { w with
          manager := manager
          assignments := update w.assignments setter.scope
            (setter.assignments.reverse ++ w.assignments setter.scope) }
  | .write outcome =>
    match w.manager.writeQueue with
    | [] => w
    | write :: rest =>
      let w := { w with manager := { w.manager with writeQueue := rest } }
      match persistScopedSettings (w.files write.scope) write, outcome with
      | some file, .returned =>
        { w with
          files := update w.files write.scope file
          manager := w.manager.setHeld write.scope
            (w.manager.held write.scope).clearModified
          last := update w.last write.scope (some true) }
      | some file, .threw true error =>
        { w with files := update w.files write.scope file }.fail write
          error
      | some _, .threw false error => w.fail write error
      | none, .threw _ error => w.fail write error
      | none, .returned => w.fail write "SyntaxError"
  | .other scope settings =>
    { w with
      files := update w.files scope (.json (.obj settings))
      own := update w.own scope (.json (.obj settings)) }

def run (w : World) (events : List Event) : World := events.foldl step w

-- ======== the load

/-- `tryLoadFromStorage`; an error of the lock may come in between. -/
def load (file : SettingsFile) (lockError : Option String) : ScopedSettings :=
  match lockError, file.settings with
  | none, some settings => ⟨settings, none, [], []⟩
  | some error, _ => ⟨[], some error, [], []⟩
  | none, none => ⟨[], some "SyntaxError", [], []⟩

/-- The settings were loaded. -/
def loaded (files : SettingsScope → SettingsFile)
    (lockErrors : SettingsScope → Option String) : World :=
  { files := files
    manager :=
      { global := load (files .global) (lockErrors .global)
        project := load (files .project) (lockErrors .project)
        writeQueue := []
        errors := [] }
    assignments := fun _ => []
    own := files
    last := fun _ => none }

end World

end OneHarness.Settings
