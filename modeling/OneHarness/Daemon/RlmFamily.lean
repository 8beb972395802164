/-
The family of the sessions of a directory: a row for each session file there,
and one for each live edge of the spawn ledger, both reconciled with the files
that exist.

# The files

What a path leads to and which files exist is read while the family is put
together; here it is given as it is then (`SessionFiles`). Of a session's own
data only the name is kept.
-/
import OneHarness.Daemon.RlmLedger

namespace OneHarness.Daemon.RlmLedger

open Lib EventLog

structure SessionFiles where
  /-- `cachedCanonicalSessionPath`. -/
  canonicalSessionPath : String → String
  isFile : String → Bool
  /-- The names in the sessions directory; `none` if it cannot be read. -/
  rootEntries : Option (List String)
  /-- The name that a session file gives the session. -/
  sessionName : String → Option String

/-- A row of the family, a `SessionInfo`. -/
structure SessionRow where
  path : String
  rlmDepth : Nat
  parentSessionPath : Option String
  name : Option String
deriving DecidableEq

section
variable (files : SessionFiles)

def sessionRow (path : String) (depth : Nat) (parentPath name : Option String) :
    SessionRow where
  path := path
  rlmDepth := depth
  parentSessionPath := parentPath.filter (· ≠ "")
  name := (name.filter (· ≠ "")).or (files.sessionName path)

def RlmLedgerEdge.childPath (edge : RlmLedgerEdge) : String :=
  files.canonicalSessionPath edge.child

def RlmLedgerEdge.parentPath (edge : RlmLedgerEdge) : String :=
  files.canonicalSessionPath edge.parent

/-- The edges with a parent and a child that exist. -/
def liveEdgesUnlocked (edges : List RlmLedgerEdge) : List RlmLedgerEdge :=
  edges.filter fun edge =>
    files.isFile (edge.childPath files) && files.isFile (edge.parentPath files)

/-- The session files of the directory, in the order of their names. -/
def rootFiles (canonicalSessionsDir : String) : List String :=
  (((files.rootEntries.getD []).filter fun name => name.endsWith ".jsonl")
      |>.mergeSort fun a b => codeUnits a ≤ codeUnits b).map fun entry =>
    files.canonicalSessionPath (canonicalSessionsDir ++ "/" ++ entry)

def familyUnlocked (canonicalSessionsDir : String)
    (alive : List RlmLedgerEdge) : List SessionRow :=
  let byChild : JsMap String RlmLedgerEdge :=
    alive.foldl (fun byChild edge => byChild.set (edge.childPath files) edge) []
  let rootPaths := (rootFiles files canonicalSessionsDir).filter fun path =>
    !byChild.has path
  let depthByPath : JsMap String Nat :=
    alive.foldl
      (fun depths edge => depths.set (edge.childPath files) edge.depth) []
  let alive := alive.filter fun edge =>
    match depthByPath.get (edge.parentPath files) with
    | some parentDepth => edge.depth = parentDepth + 1
    | none => true
  (rootPaths.map fun rootPath => sessionRow files rootPath 0 none none)
    ++ alive.map fun edge =>
      sessionRow files (edge.childPath files) edge.depth
        (some (edge.parentPath files)) (some edge.name)

/-- The family, and the instance's cache afterwards. -/
def family (canonicalSessionPath : String → String) (file : Option LedgerFile)
    (ledger : RlmSpawnLedger) :
    Except LedgerError (List SessionRow × RlmSpawnLedger) :=
  match replaySyncCached canonicalSessionPath file ledger with
  | .error error => .error (.eventLog error)
  | .ok (edges, ledger) =>
    let alive := liveEdgesUnlocked files
      (edges.values.filter fun edge => edge.deleted.isNone)
    .ok (familyUnlocked files ledger.canonicalSessionsDir alive, ledger)

-- ======== the view

/-- The live edges with a parent and a child that exist. -/
def existingEdges (edges : Edges) : List RlmLedgerEdge :=
  edges.values.filter fun edge =>
    edge.deleted = none ∧ files.isFile (edge.childPath files) = true
      ∧ files.isFile (edge.parentPath files) = true

/-- The depth that the edges record for a session: that of the last one to
it. -/
def ledgerDepth (alive : List RlmLedgerEdge) (path : String) : Option Nat :=
  (alive.filter (·.childPath files = path)).getLast?.map (·.depth)

/-- The edge does not lead one deeper than its parent. -/
def Contradictory (alive : List RlmLedgerEdge) (edge : RlmLedgerEdge) : Prop :=
  ∃ depth, ledgerDepth files alive (edge.parentPath files) = some depth
    ∧ edge.depth ≠ depth + 1

instance (alive : List RlmLedgerEdge) (edge : RlmLedgerEdge) :
    Decidable (Contradictory files alive edge) :=
  match h : ledgerDepth files alive (edge.parentPath files) with
  | none => isFalse fun ⟨_, hdepth, _⟩ => by rw [h] at hdepth; cases hdepth
  | some depth =>
    if hne : edge.depth ≠ depth + 1 then isTrue ⟨depth, h, hne⟩
    else isFalse fun ⟨_, hdepth, hne'⟩ => by
      rw [h] at hdepth
      cases hdepth
      exact hne hne'

/-- One row has the other one's session for its parent. -/
def ParentOf (rows : List SessionRow) (row parent : SessionRow) : Prop :=
  row ∈ rows ∧ parent ∈ rows ∧ row.parentSessionPath = some parent.path

/-- How many rows the session has. -/
def rowsOf (rows : List SessionRow) (path : String) : Nat :=
  (rows.map (·.path)).count path

/-- What the family shows of these edges. -/
structure FamilyView (canonicalSessionsDir : String)
    (alive : List RlmLedgerEdge) (rows : List SessionRow) : Prop where
  /-- A session that is no child has a row for each name in the directory. -/
  roots : ∀ path, (∀ edge ∈ alive, edge.childPath files ≠ path) →
    rowsOf rows path = (rootFiles files canonicalSessionsDir).count path
  /-- A child has one for each edge to it that is not contradictory. -/
  children : ∀ path,
    (∃ edge ∈ alive, edge.childPath files = path
        ∧ (¬ Contradictory files alive edge
          ∨ path ∉ rootFiles files canonicalSessionsDir)) →
      rowsOf rows path = alive.countP fun edge =>
        edge.childPath files = path ∧ ¬ Contradictory files alive edge
  depth : ∀ row ∈ rows, ∀ path, row.parentSessionPath = some path →
    ∀ depth, ledgerDepth files alive path = some depth →
      row.rlmDepth = depth + 1
  acyclic : (alive.map (·.childPath files)).Nodup →
    ∀ row, ¬ Relation.TransGen (ParentOf rows) row row

end

end OneHarness.Daemon.RlmLedger
