/-
The continual harness: its entries, the edits a refinement makes to them,
and the refinement that takes them back.

An edit comes from a model and is not trusted: `validateEdit` looks at it
when it is applied. An edit that is rejected is recorded with its error and
the rest goes on. What an applied edit found and what it left are recorded
with it, and a rollback is a proposal of ordinary edits made from these
records, last one first.

# What is left out

An edit's `action` and `kind` are texts. Records are maps; names that every
object has (`constructor`) are looked up in them only where states are
merged. The clock is read once for an edit.
-/
import OneHarness.Lib.JsMap
import OneHarness.Session.Manager

namespace OneHarness.Refinement

open Lib
open Session (trim)

-- ======== the data

inductive RefinementKind where
  | prompt
  | memory
  | skill
  | subagent
deriving DecidableEq

inductive RefinementAction where
  | create
  | update
  | delete
deriving DecidableEq

inductive HarnessScope where
  | localScope
  | globalScope
deriving DecidableEq

def RefinementKind.name : RefinementKind → String
  | .prompt => "prompt"
  | .memory => "memory"
  | .skill => "skill"
  | .subagent => "subagent"

def RefinementKind.ofName? : String → Option RefinementKind
  | "prompt" => some .prompt
  | "memory" => some .memory
  | "skill" => some .skill
  | "subagent" => some .subagent
  | _ => none

def RefinementAction.name : RefinementAction → String
  | .create => "create"
  | .update => "update"
  | .delete => "delete"

def RefinementAction.ofName? : String → Option RefinementAction
  | "create" => some .create
  | "update" => some .update
  | "delete" => some .delete
  | _ => none

def HarnessScope.name : HarnessScope → String
  | .localScope => "local"
  | .globalScope => "global"

/-- `Record<string, unknown>`. -/
abbrev Fields := List (String × Json)

structure HarnessEntry where
  id : String
  kind : RefinementKind
  title : String
  content : String
  path : String
  scope : Option HarnessScope
  reference : Fields
  arguments : Fields
  metadata : Fields
  source : String
  createdAt : String
  updatedAt : String
  version : Int

structure HarnessRefinementEvent where
  id : String
  trigger : String
  changes : List String
  evidence : String
  outcome : String
  createdAt : String

/-- `Record<RefinementKind, Record<string, HarnessEntry>>`. -/
abbrev Entries := RefinementKind → JsMap String HarnessEntry

structure HarnessState where
  schema : Int
  entries : Entries
  refinements : List HarnessRefinementEvent

structure RefinementEdit where
  action : String
  kind : String
  id : Option String
  title : Option String
  content : Option String
  path : Option String
  reference : Option Fields
  arguments : Option Fields
  metadata : Option Fields
  reason : Option String

structure RefinementProposal where
  summary : String
  rationale : String
  edits : List RefinementEdit
  expectedOutcome : String

structure AppliedRefinementEdit where
  edit : RefinementEdit
  id : String
  before : Option HarnessEntry
  after : Option HarnessEntry
  applied : Bool
  error : Option String

structure RefinementResult where
  id : String
  summary : String
  rationale : String
  expectedOutcome : String
  appliedEdits : List AppliedRefinementEdit
  harnessStatePath : String
  rollbackOf : Option String
  scope : Option HarnessScope

-- ======== entries

namespace Entries

def lookup (entries : Entries) (kind : RefinementKind) (id : String) :
    Option HarnessEntry :=
  (entries kind).get id

/-- `records[id] = entry`. -/
def set (entries : Entries) (kind : RefinementKind) (id : String)
    (entry : HarnessEntry) : Entries := fun k =>
  if k = kind then (entries k).set id entry else entries k

/-- `delete records[id]`. -/
def delete (entries : Entries) (kind : RefinementKind) (id : String) :
    Entries := fun k =>
  if k = kind then (entries k).delete id else entries k

end Entries

/-- `JSON.stringify(entry)`, where there is one. -/
def HarnessEntry.text (entry : HarnessEntry) : List Char :=
  Json.stringify (.obj ([("id", .str entry.id), ("kind", .str entry.kind.name),
      ("title", .str entry.title), ("content", .str entry.content),
      ("path", .str entry.path)]
    ++ (entry.scope.map fun scope => ("scope", .str scope.name)).toList
    ++ [("reference", .obj entry.reference),
      ("arguments", .obj entry.arguments), ("metadata", .obj entry.metadata),
      ("source", .str entry.source), ("created_at", .str entry.createdAt),
      ("updated_at", .str entry.updatedAt),
      ("version", .num (Numeral.ofInt entry.version))]))

-- ======== a new id

/-- `toLowerCase`, as far as ASCII letters come out of it. -/
def lowerChar (c : Char) : List Char :=
  if c = '\u0130' then ['i', '\u0307']
  else if c = '\u212A' then ['k']
  else [c.toLower]

/-- `[a-z0-9]`. -/
def isSlugChar (c : Char) : Bool :=
  ('a' ≤ c && c ≤ 'z') || ('0' ≤ c && c ≤ '9')

/-- `replace(/[^a-z0-9]+/g, "_")`; the flag is set inside a run. -/
def underscored : Bool → List Char → List Char
  | _, [] => []
  | inRun, c :: cs =>
    if isSlugChar c then c :: underscored false cs
    else if inRun then underscored true cs
    else '_' :: underscored true cs

/-- `replace(/^_+|_+$/g, "")`. -/
def stripped (cs : List Char) : List Char :=
  ((cs.dropWhile (· == '_')).reverse.dropWhile (· == '_')).reverse

def slug (raw fallback : String) : String :=
  let normalized := (stripped (underscored false
    ((trim raw).toList.flatMap lowerChar))).take 80
  if normalized = [] then fallback else String.ofList normalized

-- ======== validation

/-- `typeof reference[key] === "string" && reference[key].length > 0`. -/
def hasText (reference : Fields) (key : String) : Bool :=
  match Json.get (.obj reference) key with
  | some (.str text) => text ≠ ""
  | _ => false

/-- `reference.type === "python"`. -/
def isPython (reference : Fields) : Bool :=
  match Json.get (.obj reference) "type" with
  | some (.str type) => type = "python"
  | _ => false

/-- What a skill's reference has to be. -/
def validateReference (action : RefinementAction) (reference : Fields) :
    Option String :=
  if !isPython reference then
    some (action.name ++ " skill reference.type must be python")
  else if !(hasText reference "import" || hasText reference "python_import")
  then some (action.name ++ " skill requires python import")
  else if !(hasText reference "callable" || hasText reference "call_pattern")
  then some (action.name ++ " skill requires callable or call_pattern")
  else none

/-- The checks of `validateEdit` on a skill that is not deleted. -/
def validateSkill (action : RefinementAction) (edit : RefinementEdit) :
    Option String :=
  if edit.arguments.isNone then
    some (action.name ++ " skill requires arguments")
  else
    match edit.reference with
    | none => some (action.name ++ " skill requires python reference")
    | some reference => validateReference action reference

/-- `validateEdit`: the action and the kind of an edit that passes. -/
def validateEdit (edit : RefinementEdit) (computedId : String) :
    Except String (RefinementAction × RefinementKind) :=
  match RefinementAction.ofName? edit.action with
  | none => .error ("unsupported action " ++ edit.action)
  | some action =>
    match RefinementKind.ofName? edit.kind with
    | none => .error ("unsupported kind " ++ edit.kind)
    | some kind =>
      if kind = .prompt ∧ (edit.id = some "base_system_prompt"
          ∨ computedId = "base_system_prompt") then
        .error "base system prompt is not editable"
      else if action ≠ .create ∧ edit.id.getD "" = "" then
        .error (action.name ++ " requires id")
      else if action ≠ .delete
          ∧ (edit.title.getD "" = "" ∨ edit.content.getD "" = "") then
        .error (action.name ++ " requires title and content")
      else if action ≠ .delete ∧ kind = .skill then
        match validateSkill action edit with
        | some error => .error error
        | none => .ok (action, kind)
      else .ok (action, kind)

-- ======== applying

structure ApplyOptions where
  id : String
  rollbackOf : Option String
  scope : Option HarnessScope
  baselineState : Option HarnessState

/-- The variables of the loop over the edits. -/
structure Application where
  entries : Entries
  appliedEdits : List AppliedRefinementEdit
  proposalModifiedKeys : List (RefinementKind × String)

/-- `computedId`, empty when there is none. -/
def editId (edit : RefinementEdit) : String :=
  match edit.id with
  | some id => id
  | none =>
    if edit.action = "create" then
      slug (edit.title.getD edit.kind) edit.kind
    else ""

/-- Somebody else changed the entry since the baseline was taken. -/
def changedSince (options : ApplyOptions) (s : Application)
    (kind : RefinementKind) (id : String) : Bool :=
  match options.baselineState with
  | none => false
  | some baseline =>
    !((kind, id) ∈ s.proposalModifiedKeys)
      && ((s.entries.lookup kind id).map HarnessEntry.text
        ≠ (baseline.entries.lookup kind id).map HarnessEntry.text)

/-- The entry an edit writes. -/
def writtenEntry (options : ApplyOptions) (now : String)
    (edit : RefinementEdit) (kind : RefinementKind) (id : String)
    (before : Option HarnessEntry) : HarnessEntry where
  id := id
  kind := kind
  title := (edit.title.or (before.map (·.title))).getD id
  content := (edit.content.or (before.map (·.content))).getD ""
  path := (edit.path.or (before.map (·.path))).getD "general"
  scope := some (((before.bind (·.scope)).or options.scope).getD .localScope)
  reference := (edit.reference.or (before.map (·.reference))).getD []
  arguments := (edit.arguments.or (before.map (·.arguments))).getD []
  metadata := (edit.metadata.or (before.map (·.metadata))).getD []
  source := "refine"
  createdAt := (before.map (·.createdAt)).getD now
  updatedAt := now
  version := match before with
    | some before => before.version + 1
    | none => 1

/-- What becomes of one edit. -/
inductive Decision where
  | rejected (before : Option HarnessEntry) (error : String)
  | deleted (kind : RefinementKind) (before : HarnessEntry)
  | written (kind : RefinementKind) (before : Option HarnessEntry)
      (after : HarnessEntry)

def decideEdit (options : ApplyOptions) (now : String) (s : Application)
    (edit : RefinementEdit) : Decision :=
  let id := editId edit
  match validateEdit edit id with
  | .error error => .rejected none error
  | .ok (action, kind) =>
    let before := s.entries.lookup kind id
    if changedSince options s kind id then
      .rejected before "entry changed during refinement planning"
    else
      match action, before with
      | .delete, none => .rejected none "entry not found"
      | .delete, some before => .deleted kind before
      | .create, some before => .rejected (some before) "entry already exists"
      | .create, none =>
        .written kind none (writtenEntry options now edit kind id none)
      | .update, none => .rejected none "entry not found"
      | .update, some before =>
        .written kind (some before)
          (writtenEntry options now edit kind id (some before))

/-- One turn of the loop. -/
def applyEdit (options : ApplyOptions) (now : Nat → String) (s : Application)
    (edit : RefinementEdit) : Application :=
  let id := editId edit
  match decideEdit options (now s.appliedEdits.length) s edit with
  | .rejected before error =>
    { s with
      appliedEdits := s.appliedEdits
        ++ [⟨edit, id, before, none, false, some error⟩] }
  | .deleted kind before =>
    { entries := s.entries.delete kind id
      appliedEdits := s.appliedEdits
        ++ [⟨edit, id, some before, none, true, none⟩]
      proposalModifiedKeys := (kind, id) :: s.proposalModifiedKeys }
  | .written kind before after =>
    { entries := s.entries.set kind id after
      appliedEdits := s.appliedEdits
        ++ [⟨edit, id, before, some after, true, none⟩]
      proposalModifiedKeys := (kind, id) :: s.proposalModifiedKeys }

def applyEdits (options : ApplyOptions) (now : Nat → String)
    (edits : List RefinementEdit) (s : Application) : Application :=
  edits.foldl (applyEdit options now) s

/-- `applyRefinementProposal`: the state it leaves and what it returns. -/
def applyRefinementProposal (state : HarnessState)
    (proposal : RefinementProposal) (options : ApplyOptions)
    (now : Nat → String) : HarnessState × RefinementResult :=
  let s := applyEdits options now proposal.edits ⟨state.entries, [], []⟩
  let changes := (s.appliedEdits.filter (·.applied)).map fun edit =>
    edit.edit.action ++ " " ++ edit.edit.kind ++ ":" ++ edit.id
  ({ state with
      entries := s.entries
      refinements := state.refinements ++
        [{ id := options.id
           trigger := proposal.summary
           changes
           evidence := proposal.rationale
           outcome := proposal.expectedOutcome
           createdAt := now s.appliedEdits.length }] },
    { id := options.id
      summary := proposal.summary
      rationale := proposal.rationale
      expectedOutcome := proposal.expectedOutcome
      appliedEdits := s.appliedEdits
      harnessStatePath := ""
      rollbackOf := options.rollbackOf
      scope := options.scope })

-- ======== rollback

/-- The edit that takes an applied edit back. -/
def rollbackEdit (targetId : String) (edit : AppliedRefinementEdit) :
    Option RefinementEdit :=
  if !edit.applied then none
  else
    match edit.before, edit.after with
    | some before, after =>
      some
        { action := if after.isSome then "update" else "create"
          kind := edit.edit.kind
          id := some edit.id
          title := some before.title
          content := some before.content
          path := some before.path
          reference := some before.reference
          arguments := some before.arguments
          metadata := some before.metadata
          reason := some ("Rollback " ++ targetId) }
    | none, some _ =>
      some
        { action := "delete"
          kind := edit.edit.kind
          id := some edit.id
          title := none
          content := none
          path := none
          reference := none
          arguments := none
          metadata := none
          reason := some ("Rollback " ++ targetId) }
    | none, none => none

structure RefinementPlan where
  proposal : RefinementProposal
  id : String
  rollbackOf : Option String
  rollbackScope : Option HarnessScope

/-- The names every object has. -/
def objectNames : List String :=
  ["constructor", "__defineGetter__", "__defineSetter__", "hasOwnProperty",
    "__lookupGetter__", "__lookupSetter__", "isPrototypeOf",
    "propertyIsEnumerable", "toString", "valueOf", "__proto__",
    "toLocaleString"]

/-- The fields of an entry that are truthy. -/
def HarnessEntry.truthyNames (entry : HarnessEntry) : List String :=
  ["kind", "scope", "reference", "arguments", "metadata"]
    ++ ([("id", entry.id), ("title", entry.title), ("content", entry.content),
        ("path", entry.path), ("source", entry.source),
        ("created_at", entry.createdAt),
        ("updated_at", entry.updatedAt)].filter (·.2 ≠ "")).map Prod.fst
    ++ (if entry.version = 0 then [] else ["version"])

/-- `{ ...entry, scope: normalizeHarnessScope(entry.scope, fallback) }`. -/
def HarnessEntry.scopedTo (entry : HarnessEntry) (fallback : HarnessScope) :
    HarnessEntry :=
  { entry with scope := some (entry.scope.getD fallback) }

/-- One kind of the merged state while it is filled: an entry assigned to
`__proto__` becomes the prototype of the record. -/
structure MergedRecords where
  own : JsMap String HarnessEntry
  proto : Option HarnessEntry

namespace MergedRecords

/-- `records[id]` is truthy. -/
def finds (records : MergedRecords) (id : String) : Bool :=
  records.own.has id || objectNames.contains id
    || (records.proto.map fun entry =>
      entry.truthyNames.contains id).getD false

/-- `records[id] = entry`. -/
def assign (records : MergedRecords) (id : String) (entry : HarnessEntry) :
    MergedRecords :=
  if id = "__proto__" then { records with proto := some entry }
  else { records with own := records.own.set id entry }

end MergedRecords

/-- `${scopedEntry.scope}:${id}`. -/
def movedId (scopedEntry : HarnessEntry) (id : String) : String :=
  (scopedEntry.scope.getD .localScope).name ++ ":" ++ id

def mergeGlobal (records : MergedRecords) (p : String × HarnessEntry) :
    MergedRecords :=
  records.assign p.1 (p.2.scopedTo .globalScope)

def mergeLocal (records : MergedRecords) (p : String × HarnessEntry) :
    MergedRecords :=
  let scopedEntry := p.2.scopedTo .localScope
  let mergedId := if records.finds p.1 then movedId scopedEntry p.1 else p.1
  records.assign mergedId scopedEntry

def mergeKind (globals locals : JsMap String HarnessEntry) : MergedRecords :=
  locals.foldl mergeLocal (globals.foldl mergeGlobal ⟨[], none⟩)

/-- `localState?.entries[kind] ?? {}`. -/
def localEntries (localState : Option HarnessState) (kind : RefinementKind) :
    JsMap String HarnessEntry :=
  (localState.map fun state => state.entries kind).getD []

def mergeHarnessStates (globalState : HarnessState)
    (localState : Option HarnessState) : HarnessState where
  schema := max globalState.schema ((localState.map (·.schema)).getD 1)
  entries kind := (mergeKind (globalState.entries kind)
    (localEntries localState kind)).own
  refinements := globalState.refinements
    ++ (localState.map (·.refinements)).getD []

end OneHarness.Refinement
