/-
The digest of the harness that goes into a prompt, without query terms, and
the fingerprint that says whether it would read the same.

Entries are sorted by `localeCompare`, of which only `le`, not greater, is
used: different texts may tie. What is hashed is its JSON text.
-/
import OneHarness.Refinement.Harness
import OneHarness.Refinement.Request

namespace OneHarness.Refinement

open Lib

-- ======== texts

/-- `values.slice(0, n)`. -/
def sliceTo {α : Type} (n : Int) (values : List α) : List α :=
  if n < 0 then values.take (values.length - n.natAbs)
  else values.take n.toNat

/-- `values.slice(n)`. -/
def sliceFrom {α : Type} (n : Int) (values : List α) : List α :=
  if n < 0 then values.drop (values.length - n.natAbs)
  else values.drop n.toNat

def compactText (text : String) (maxLength : Int) : Text :=
  let normalized := Utf16.trim (Utf16.collapseSpaces false (units text))
  if (normalized.length : Int) ≤ maxLength then normalized
  else sliceTo (max 0 (maxLength - 3)) normalized ++ units "..."

def number (n : Int) : Text := units (toString n)

/-- `lines.join("\n")`. -/
def joinLines (lines : List Text) : Text := [0x0a].intercalate lines

def jsonText (json : Json) : Text := Utf16.encode json.stringify

-- ======== options

structure DigestOptions where
  maxEntriesPerKind : Option Int
  maxRefinements : Option Int
  maxContentLength : Option Int
  includeIpythonExamples : Option Bool
  includeShellExamples : Option Bool
  includeRefineExamples : Option Bool

structure RenderFlags where
  includeIpythonExamples : Bool
  includeShellExamples : Bool
  includeRefineExamples : Bool
deriving DecidableEq

structure DigestLimits where
  maxEntriesPerKind : Option Int
  maxRefinements : Option Int
  maxContentLength : Option Int

def RenderFlags.options (flags : RenderFlags) (limits : DigestLimits) :
    DigestOptions where
  maxEntriesPerKind := limits.maxEntriesPerKind
  maxRefinements := limits.maxRefinements
  maxContentLength := limits.maxContentLength
  includeIpythonExamples := some flags.includeIpythonExamples
  includeShellExamples := some flags.includeShellExamples
  includeRefineExamples := some flags.includeRefineExamples

namespace DigestOptions

variable (options : DigestOptions)

def entryLimit : Int := options.maxEntriesPerKind.getD 6

def refinementLimit : Int := options.maxRefinements.getD 5

def contentLimit : Int := options.maxContentLength.getD 180

def ipython : Bool := options.includeIpythonExamples.getD true

def shell : Bool := options.includeShellExamples.getD false

def refine : Bool := options.includeRefineExamples.getD options.ipython

end DigestOptions

-- ======== header

def callRefine : String :=
  "When to call `await refine.run()`: after a repeated failure, a reusable "
    ++ "tactic emerges, a repeated delegation role should become a subagent "
    ++ "spec, a repeated procedure should become a skill, a durable "
    ++ "fact/preference should become a memory, a narrow behavioral policy "
    ++ "should become a prompt addendum, a user corrects behavior that should "
    ++ "persist locally or globally, validation shows a continual harness entry "
    ++ "is wrong, or a skill/subagent/memory/prompt note should be created, "
    ++ "updated, deleted, or rolled back. Keep `await refine.run()` continual "
    ++ "harness edits small and evidence-backed."

def whenToRefine : String :=
  "When to refine the continual harness: after a repeated failure, a "
    ++ "reusable tactic emerges, a repeated delegation role should become a "
    ++ "subagent spec, a repeated procedure should become a skill, a durable "
    ++ "fact/preference should become a memory, a narrow behavioral policy "
    ++ "should become a prompt addendum, a user corrects behavior that should "
    ++ "persist locally or globally, validation shows a continual harness entry "
    ++ "is wrong, or a skill/subagent/memory/prompt note should be created, "
    ++ "updated, deleted, or rolled back. Keep continual harness edits small "
    ++ "and evidence-backed."

def ipythonContract : String :=
  "Call contract: read each installed Python skill's SKILL.md and call its "
    ++ "documented module function in the Python REPL; do not assume a `.run` "
    ++ "entrypoint. Use `<skill_import> ...` in shell when a CLI exists. "
    ++ "Continual harness skill entries are Python REPL skills with an explicit "
    ++ "Python `reference` and `arguments` contract. Spawn a continual harness "
    ++ "subagent spec by composing a concise task prompt and calling `handle = "
    ++ "await rlm.spawn('sub-task', name='worker')`; admission returns "
    ++ "immediately with `rlm_child_id`, `name`, `session_dir`, and `model`, "
    ++ "never the child's answer. Results arrive only through explicit "
    ++ "`agent_message` replies or files; children reply with `await "
    ++ "agent_message.send(message, receiver_role='parent')`. Use `await "
    ++ "rlm.list_subagents()` to recover direct child handles and `await "
    ++ "agent_message.send(..., receiver_role='child', "
    ++ "receiver_name=handle.name)` for follow-ups. Do not invent wrappers such "
    ++ "as `call_skill(...)`, `run_subagent(...)`, or named subagent registries."

def shellContract : String :=
  "Call contract: use installed skills as shell commands when available "
    ++ "(for example `<skill_import> ...`). Continual harness entries are "
    ++ "routing/context hints only in sessions without the Python REPL; do not "
    ++ "use Python `await`, `asyncio`, or `rlm` examples unless the prompt also "
    ++ "documents a Python kernel."

def noShellContract : String :=
  "Call contract: continual harness entries are routing/context hints only "
    ++ "in sessions without the Python REPL or shell access; do not use Python "
    ++ "`await`, `asyncio`, `rlm`, or shell skill commands unless the prompt "
    ++ "also documents those interfaces."

def headerLines (options : DigestOptions) : List String :=
  ["# Continual Harness State", "",
    "Local continual harness entries belong to this Prime Agent session. "
      ++ "Global continual harness entries persist across Prime Agent sessions.",
    "The continual harness entries below are compact summaries, not full "
      ++ "descriptions. Use them as routing/context hints; inspect or refine the "
      ++ "underlying continual harness entry only when detail matters.",
    "Default to local continual harness refinement for current task progress, "
      ++ "temporary blockers, and session coordination. Use global continual "
      ++ "harness refinement only for stable cross-session lessons, durable user "
      ++ "preferences, reusable skills/subagents, or explicitly "
      ++ "project-qualified facts.",
    "Use these continual harness prompt notes, memories, skills, and subagent "
      ++ "specs when they are relevant. The base system prompt is immutable; "
      ++ "prompt entries below are supplemental notes only.", "",
    if options.refine then callRefine else whenToRefine, "",
    if options.ipython then ipythonContract
    else if options.shell then shellContract
    else noShellContract, ""]

-- ======== entries

/-- The kinds of a state, in the order of its keys. -/
def kinds : List RefinementKind := [.prompt, .memory, .skill, .subagent]

section
variable (le : String → String → Bool)

/-- `[entry.path, entry.title, entry.id].join("\0")`. -/
def digestKey (entry : HarnessEntry) : String :=
  entry.path ++ "\x00" ++ entry.title ++ "\x00" ++ entry.id

def sortedEntries (entries : JsMap String HarnessEntry) : List HarnessEntry :=
  entries.values.mergeSort fun a b => le (digestKey a) (digestKey b)

def scopeText (entry : HarnessEntry) : String :=
  (entry.scope.getD .globalScope).name

/-- ` args=…` and ` ref=…`, for a skill that has any. -/
def contractText (label : String) (fields : Fields) (entry : HarnessEntry)
    (contentLimit : Int) : Text :=
  if entry.kind = .skill ∧ fields ≠ [] then
    units (" " ++ label ++ "=")
      ++ compactText (String.ofList (Json.obj fields).stringify) contentLimit
  else []

def entryLine (contentLimit : Int) (entry : HarnessEntry) : Text :=
  units ("- [" ++ scopeText entry ++ ":" ++ entry.id ++ "] " ++ entry.title
      ++ " (" ++ entry.path ++ ", v" ++ toString entry.version ++ ")")
    ++ contractText "ref" entry.reference entry contentLimit
    ++ contractText "args" entry.arguments entry contentLimit
    ++ units ": " ++ compactText entry.content contentLimit

/-- `- +n more …`, when there are more than the limit. -/
def overflowLine (total : Nat) (limit : Int) (what : String) : List Text :=
  let overflow := (total : Int) - min (total : Int) limit
  if overflow > 0 then [units "- +" ++ number overflow ++ units what] else []

def kindHeading (options : DigestOptions) (kind : RefinementKind)
    (total : Nat) : Text :=
  let count := units (kind.name ++ ": ") ++ number total
  if kind = .subagent ∧ 0 < total ∧ options.ipython = true then
    count ++ units (" (invoke a spec by turning it into a concise task "
      ++ "prompt and spawning with `await rlm.spawn('<task>', "
      ++ "name='<worker>')`; admission returns a child handle, never the "
      ++ "answer)")
  else count

def kindLines (options : DigestOptions) (kind : RefinementKind)
    (entries : JsMap String HarnessEntry) : List Text :=
  let sorted := sortedEntries le entries
  kindHeading options kind sorted.length
    :: (sliceTo options.entryLimit sorted).map (entryLine options.contentLimit)
    ++ overflowLine sorted.length options.entryLimit
      (" more " ++ kind.name ++ " entries")
    ++ [[]]

-- ======== refinements

def refinementLine (contentLimit : Int) (event : HarnessRefinementEvent) :
    Text :=
  let changes := if event.changes = [] then "no applied edits"
    else ", ".intercalate event.changes
  let outcome := if event.outcome = "" then []
    else units "; outcome: " ++ compactText event.outcome contentLimit
  units ("- [" ++ event.id ++ "] ") ++ compactText event.trigger contentLimit
    ++ units (": " ++ changes) ++ outcome

def refinementLines (options : DigestOptions)
    (refinements : List HarnessRefinementEvent) : List Text :=
  (units "recent refinements: " ++ number refinements.length)
    :: (sliceFrom (-options.refinementLimit) refinements).map
      (refinementLine options.contentLimit)
    ++ overflowLine refinements.length options.refinementLimit
      " older refinement events"

def digestLines (state : HarnessState) (options : DigestOptions) :
    List Text :=
  (headerLines options).map units
    ++ kinds.flatMap (fun kind => kindLines le options kind
      (state.entries kind))
    ++ (if kinds.all fun kind => (state.entries kind).isEmpty then
        [units "No saved harness entries yet.", []]
      else [])
    ++ refinementLines options state.refinements

def formatHarnessStateForPrompt (state : HarnessState)
    (options : DigestOptions) : Text :=
  Utf16.trim (joinLines (digestLines le state options))

-- ======== the fingerprint

def harnessDigestFingerprintVersion : Nat := 1

/-- What is hashed of an entry. -/
structure MaterialEntry where
  scope : String
  kind : RefinementKind
  id : String
  title : String
  path : String
  version : Int
  content : String
  reference : Option Fields
  arguments : Option Fields

def materialEntry (entry : HarnessEntry) : MaterialEntry where
  scope := scopeText entry
  kind := entry.kind
  id := entry.id
  title := entry.title
  path := entry.path
  version := entry.version
  content := entry.content
  reference := if entry.kind = .skill then some entry.reference else none
  arguments := if entry.kind = .skill then some entry.arguments else none

def MaterialEntry.toJson (entry : MaterialEntry) : Json :=
  Json.fields [
    ("scope", some (.str entry.scope)),
    ("kind", some (.str entry.kind.name)),
    ("id", some (.str entry.id)),
    ("title", some (.str entry.title)),
    ("path", some (.str entry.path)),
    ("version", some (.num (.ofInt entry.version))),
    ("content", some (.str entry.content)),
    ("reference", entry.reference.map .obj),
    ("arguments", entry.arguments.map .obj)]

/-- `[entry.scope, entry.kind, entry.id].join("\0")`. -/
def MaterialEntry.key (entry : MaterialEntry) : String :=
  entry.scope ++ "\x00" ++ entry.kind.name ++ "\x00" ++ entry.id

def materialEntries (state : HarnessState) : List MaterialEntry :=
  ((kinds.flatMap fun kind => (state.entries kind).values).map
    materialEntry).mergeSort fun a b => le a.key b.key

def refinementMaterial (event : HarnessRefinementEvent) : Json :=
  .obj [
    ("id", .str event.id),
    ("trigger", .str event.trigger),
    ("changes", .arr (event.changes.map .str)),
    ("outcome", .str event.outcome)]

def RenderFlags.effective (flags : RenderFlags) : RenderFlags :=
  if flags.includeIpythonExamples then
    { flags with includeShellExamples := false }
  else flags

def RenderFlags.toJson (flags : RenderFlags) : Json :=
  .obj [
    ("includeIpythonExamples", .bool flags.includeIpythonExamples),
    ("includeShellExamples", .bool flags.includeShellExamples),
    ("includeRefineExamples", .bool flags.includeRefineExamples)]

/-- What `harnessDigestFingerprint` hashes. -/
def harnessDigestMaterial (state : HarnessState) (flags : RenderFlags) :
    List Char :=
  Json.stringify (.obj [
    ("version", .num (.ofNat harnessDigestFingerprintVersion)),
    ("renderFlags", flags.effective.toJson),
    ("entries", .arr ((materialEntries le state).map MaterialEntry.toJson)),
    ("refinements", .arr (state.refinements.map refinementMaterial))])

end

end OneHarness.Refinement
