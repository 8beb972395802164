/-
The history of refinements, and the application of a planned one: the state
file of the harness, the history that all sessions share, and the record in
the session.

# Records

What the histories hold are JSON values that are records by two of their
members. A state file that is there holds a state or nothing that can be
read; it is replaced as a whole. Its entries are taken for entries of a
harness.

# Failures

Each write is given how it fails. Paths are names; `join`, `dirname` and
`resolve` are parameters.
-/
import OneHarness.Lib.Utf8
import OneHarness.Refinement.Harness

namespace OneHarness.Refinement

open Lib
open Session (trim)

-- ======== JSON

def HarnessEntry.toJson (entry : HarnessEntry) : Json :=
  .obj ([("id", .str entry.id), ("kind", .str entry.kind.name),
      ("title", .str entry.title), ("content", .str entry.content),
      ("path", .str entry.path)]
    ++ (entry.scope.map fun scope => ("scope", .str scope.name)).toList
    ++ [("reference", .obj entry.reference),
      ("arguments", .obj entry.arguments), ("metadata", .obj entry.metadata),
      ("source", .str entry.source), ("created_at", .str entry.createdAt),
      ("updated_at", .str entry.updatedAt),
      ("version", .num (Numeral.ofInt entry.version))])

def AppliedRefinementEdit.toJson (applied : AppliedRefinementEdit) : Json :=
  .fields
    [("action", some (.str applied.edit.action)),
      ("kind", some (.str applied.edit.kind)),
      ("id", some (.str applied.id)),
      ("title", applied.edit.title.map .str),
      ("content", applied.edit.content.map .str),
      ("path", applied.edit.path.map .str),
      ("reference", applied.edit.reference.map .obj),
      ("arguments", applied.edit.arguments.map .obj),
      ("metadata", applied.edit.metadata.map .obj),
      ("reason", applied.edit.reason.map .str),
      ("before", applied.before.map HarnessEntry.toJson),
      ("after", applied.after.map HarnessEntry.toJson),
      ("applied", some (.bool applied.applied)),
      ("error", applied.error.map .str)]

def appliedEditsJson (appliedEdits : List AppliedRefinementEdit) : Json :=
  .arr (appliedEdits.map AppliedRefinementEdit.toJson)

def RefinementResult.toJson (result : RefinementResult) : Json :=
  .fields
    [("id", some (.str result.id)), ("summary", some (.str result.summary)),
      ("rationale", some (.str result.rationale)),
      ("expectedOutcome", some (.str result.expectedOutcome)),
      ("appliedEdits", some (appliedEditsJson result.appliedEdits)),
      ("harnessStatePath", some (.str result.harnessStatePath)),
      ("rollbackOf", result.rollbackOf.map .str),
      ("scope", result.scope.map fun scope => .str scope.name)]

-- ======== records

def truthy : Json → Bool
  | .null => false
  | .bool b => b
  | .num n => n.toRat ≠ 0
  | .str s => s ≠ ""
  | _ => true

/-- Members of a set that are one: arrays and objects are only themselves. -/
def sameValue : Json → Json → Bool
  | .null, .null => true
  | .bool a, .bool b => a = b
  | .num a, .num b => a.toRat = b.toRat
  | .str a, .str b => a = b
  | _, _ => false

def isRefinementResult (data : Json) : Bool :=
  (data.get "id").isSome && (data.get "appliedEdits").isSome

/-- `value ?? undefined`. -/
def nonNull : Option Json → Option Json
  | some .null => none
  | value => value

/-- `edit.after?.scope ?? edit.before?.scope`; an edit that is `null`
throws. -/
def editScope : Json → Option (Option Json)
  | .null => none
  | edit =>
    let scopeOf := fun key => nonNull (((edit.get key).bind (·.get "scope")))
    some ((scopeOf "after").or (scopeOf "before"))

/-- The one member of a set of scopes, if there is one. -/
def onlyValue : List Json → Option Json
  | [] => none
  | scope :: scopes => if scopes.all (sameValue scope) then some scope else none

/-- `inferRefinementResultScope`, of a record; edits that are no list throw. -/
def recordScope (result : Json) : Option (Option Json) :=
  match (result.get "scope").filter truthy with
  | some scope => some (some scope)
  | none =>
    match result.get "appliedEdits" with
    | some (.arr edits) => (edits.mapM editScope).map fun scopes =>
      onlyValue ((scopes.filterMap id).filter truthy)
    | some (.str _) => some none
    | _ => none

/-- `{ ...result, scope }`. -/
def withScope (result scope : Json) : Json :=
  match result with
  | .obj members => .obj (members.filter (·.1 ≠ "scope") ++ [("scope", scope)])
  | other => other

def withDefaultRefinementScope (result : Json) (scope : HarnessScope) :
    Option Json :=
  (recordScope result).map fun inferred =>
    withScope result (inferred.getD (.str scope.name))

-- ======== the history

/-- A line that is no record is skipped. -/
def historyLine (line : List Char) : Option Json :=
  let trimmed := trim (String.ofList line)
  if trimmed = "" then none
  else
    ((Json.parse trimmed.toList).filter isRefinementResult).bind
      (withDefaultRefinementScope · .globalScope)

def loadGlobalRefinementHistory (file : Option (List UInt8)) : List Json :=
  match file with
  | none => []
  | some bytes =>
    ((Utf8.decode bytes).splitOn '\n').filterMap historyLine

def recordText (result : RefinementResult) : List UInt8 :=
  Utf8.encode result.toJson.stringify

/-- On a throw some first bytes have been written. -/
def appendGlobalRefinement (throws : Option Nat) (file : Option (List UInt8))
    (result : RefinementResult) : Option (List UInt8) :=
  let line := recordText result ++ [0x0a]
  some (file.getD [] ++ (throws.elim line line.take))

/-- The record that an entry of a session is. -/
def entryRecord : Session.EntryBody → Option Json
  | .custom customType data =>
    if customType = "prime-agent.refinement" then
      data.filter isRefinementResult
    else none
  | _ => none

def getRefinementHistory (entries : List Session.SessionEntry) : List Json :=
  entries.filterMap fun entry => entryRecord entry.body

/-- `result.id === other.id`, where both have one. -/
def sameId (result other : Json) : Bool :=
  sameValue ((result.get "id").getD .null) ((other.get "id").getD .null)

/-- `byId.set(result.id, result)`. -/
def setRecord (records : List Json) (result : Json) : List Json :=
  if records.any (sameId result) then
    records.map fun other => if sameId result other then result else other
  else records ++ [result]

/-- The session's record wins, and keeps the scope of the other one. -/
def setSessionRecord (records : List Json) (result : Json) : List Json :=
  let existingScope := ((records.find? (sameId result)).bind
    (·.get "scope")).filter truthy
  setRecord records
    (match (result.get "scope").filter truthy, existingScope with
    | none, some scope => withScope result scope
    | _, _ => result)

def mergeRefinementHistory (globals session : List Json) : List Json :=
  session.foldl setSessionRecord (globals.foldl setRecord [])

-- ======== the state file

def emptyHarnessState : HarnessState where
  schema := 1
  entries _ := []
  refinements := []

/-- A file that cannot be read counts as empty. -/
def loadHarnessState (file : Option (Option HarnessState))
    (scope : HarnessScope) : HarnessState :=
  match file with
  | some (some parsed) =>
    { parsed with
      entries := fun kind => (parsed.entries kind).map fun p =>
        (p.1, p.2.scopedTo scope) }
  | _ => emptyHarnessState

-- ======== the session

/-- Where the harness is kept. -/
structure HarnessPaths where
  globalHarnessStateDir : String
  localHarnessStateDir : Option String
  getHarnessStatePath : String → String
  dirname : String → String
  resolve : String → String

structure RefineWorld where
  machine : Session.Machine
  /-- The state files; one that is there may hold nothing that can be read. -/
  states : String → Option (Option HarnessState)
  /-- The history that all sessions share. -/
  history : Option (List UInt8)

/-- How the steps fail. -/
structure RefineIo where
  disposed : Bool
  loadHistoryThrows : Bool
  /-- An edit whose id is no text. -/
  applyThrows : Bool
  aborted : Bool
  saveThrows : Bool
  /-- How many bytes are appended before the throw. -/
  historyThrows : Option Nat
  audit : Session.Io
  outcome : Session.Io
  outcomeListenerThrows : Bool
  notice : Session.Io
  noticeListenerThrows : Bool
  now : Nat → String
  createRefinementOutcomeMessage : RefinementResult → Session.CustomMessageEntry
  createRefinementNoticeMessage : RefinementResult → Session.CustomMessageEntry

structure RefineRequest where
  rollbackId : Option String
  global : Bool
  plan : RefinementPlan
  baselineState : Option HarnessState

def loadRefinementHistory (w : RefineWorld) : List Json :=
  mergeRefinementHistory (loadGlobalRefinementHistory w.history)
    (getRefinementHistory w.machine.manager.getEntries)

/-- `history.find((item) => item.id === options.rollbackId)`; an empty id asks
for nothing. -/
def rollbackTarget (request : RefineRequest) (w : RefineWorld) : Option Json :=
  (request.rollbackId.filter (· ≠ "")).bind fun rollbackId =>
    (loadRefinementHistory w).find? fun item =>
      sameValue ((item.get "id").getD .null) (.str rollbackId)

/-- The scope and the directory that are refined. -/
def refineTarget (paths : HarnessPaths) (request : RefineRequest)
    (w : RefineWorld) : Except String (HarnessScope × String) :=
  let requestedScope : HarnessScope :=
    if request.global then .globalScope else .localScope
  let targetScope := request.plan.rollbackScope.getD requestedScope
  let recordedPath := ((rollbackTarget request w).bind
    (·.get "harnessStatePath")).filter truthy
  match targetScope, recordedPath with
  | .globalScope, _ => .ok (.globalScope, paths.globalHarnessStateDir)
  | .localScope, none =>
    match paths.localHarnessStateDir.filter (· ≠ "") with
    | some dir => .ok (.localScope, dir)
    | none => .error ("Local harness refinement requires a persisted "
        ++ "session; use global refinement instead.")
  | .localScope, some (.str path) =>
    if (w.states path).isNone then
      .error ("Local refinement " ++ request.rollbackId.getD ""
        ++ " state file not found: " ++ path)
    else
      let dir := paths.dirname path
      let scope : HarnessScope :=
        if paths.resolve dir = paths.resolve paths.globalHarnessStateDir then
          .globalScope
        else .localScope
      .ok (scope, dir)
  | .localScope, some _ =>
    .error ("Local refinement " ++ request.rollbackId.getD ""
      ++ " state file not found")

/-- `local:` and `global:` are only for display. -/
def bareId (id : String) : String :=
  if "local:".toList <+: id.toList then String.ofList (id.toList.drop 6)
  else if "global:".toList <+: id.toList then String.ofList (id.toList.drop 7)
  else id

def bareProposal (proposal : RefinementProposal) : RefinementProposal :=
  { proposal with
    edits := proposal.edits.map fun edit => { edit with id := edit.id.map bareId } }

/-- The state that is saved, and the result. -/
def refinement (paths : HarnessPaths) (io : RefineIo) (request : RefineRequest)
    (w : RefineWorld) (scope : HarnessScope) (dir : String) :
    HarnessState × RefinementResult :=
  let state := loadHarnessState (w.states (paths.getHarnessStatePath dir)) scope
  let applied := applyRefinementProposal state
    (bareProposal request.plan.proposal)
    { id := request.plan.id
      rollbackOf := request.plan.rollbackOf
      scope := some scope
      baselineState := request.baselineState } io.now
  (applied.1,
    { applied.2 with harnessStatePath := paths.getHarnessStatePath dir })

/-- `_appendDurableRefineMessage`: a message that is not saved is kept in
memory, and the listeners are told. -/
def appendDurableRefineMessage (io : Session.Io)
    (message : Session.CustomMessageEntry) (machine : Session.Machine) :
    Session.Machine :=
  match Session.appendCustomMessageEntryWithRollback io message machine with
  | .ok _ machine => machine
  | .error _ machine => machine

/-- The record in the session, the outcome and the notice. -/
def recordRefinement (io : RefineIo) (result : RefinementResult)
    (machine : Session.Machine) : Session.Machine × Except String Unit :=
  let audit := Session.appendCustomEntry io.audit "prime-agent.refinement"
    (some result.toJson) machine
  let recorded := match audit with
    | .ok _ machine => machine
    | .error _ machine => machine
  let machine := appendDurableRefineMessage io.outcome
    (io.createRefinementOutcomeMessage result) recorded
  match audit with
  | .error error _ => (machine, .error error)
  | .ok _ _ =>
    if io.outcomeListenerThrows then (machine, .error "listener")
    else if result.appliedEdits.any (·.applied) then
      let machine := appendDurableRefineMessage io.notice
        (io.createRefinementNoticeMessage result) machine
      (machine, if io.noticeListenerThrows then .error "listener" else .ok ())
    else (machine, .ok ())

/-- The state is saved, and a global refinement appended to the shared
history. -/
def saveRefinement (paths : HarnessPaths) (io : RefineIo)
    (request : RefineRequest) (w : RefineWorld) (scope : HarnessScope)
    (dir : String) : RefineWorld :=
  let (state, result) := refinement paths io request w scope dir
  let path := paths.getHarnessStatePath dir
  { w with
    states := fun p => if p = path then some (some state) else w.states p
    history :=
      if scope = .globalScope then
        appendGlobalRefinement io.historyThrows w.history result
      else w.history }

/-- `_applyRefine`. -/
def applyRefine (paths : HarnessPaths) (io : RefineIo)
    (request : RefineRequest) (w : RefineWorld) :
    RefineWorld × Except String RefinementResult :=
  if io.disposed then (w, .error "Cannot refine a disposed session.")
  else if io.loadHistoryThrows then (w, .error "readFileSync")
  else
    match refineTarget paths request w with
    | .error error => (w, .error error)
    | .ok (scope, dir) =>
      if io.applyThrows then (w, .error "startsWith is not a function")
      else if io.aborted then
        (w, .error ("Refinement cancelled because the session was "
          ++ "disposed."))
      else if io.saveThrows then (w, .error "writeFileAtomicSync")
      else
        let saved := saveRefinement paths io request w scope dir
        if scope = .globalScope ∧ io.historyThrows.isSome then
          (saved, .error "appendFileSync")
        else
          let result := (refinement paths io request w scope dir).2
          let (machine, outcome) := recordRefinement io result saved.machine
          ({ saved with machine := machine }, outcome.map fun _ => result)

end OneHarness.Refinement
