/-
The other walks over the parent links of a session: the tree that is shown,
and the branch whose usage is summed.

`getTree` builds a node for each id (a later entry of an id replaces an
earlier one) and then, entry by entry, puts the node of the entry's id under
the node of its parent; a node is named by its id, so children are ids.
Then a stack goes through the nodes to sort their children. The loop has no
bound; `sortTree` takes a budget and keeps a record of the nodes it visits.

`branchEntries` walks from the last entry up, as `getBranch` does, but stops
at an id it has seen.
-/
import OneHarness.Session.Manager

namespace OneHarness.Session

open Lib

-- ======== the context's path

/-- The path `buildSessionContext` walks; `none` is a walk that never
ends. -/
def contextPath (entries : List FileEntry) (leafId : LeafId)
    (byId : Option Index) : Option (List SessionEntry) :=
  let byId := byId.getD (indexOf (entriesOf entries))
  match leafId with
  | .null => some []
  | _ =>
    match leafEntry entries leafId byId with
    | some (.entry leaf) => walk byId leaf
    | _ => some []

/-- The loop of `branchEntries`, from the leaf up. -/
def branchLoop (byId : Index) : Nat → List String → Option SessionEntry →
    Option (List SessionEntry)
  | _, _, none => some []
  | 0, _, some _ => none
  | fuel + 1, seen, some current =>
    if current.id ∈ seen then some []
    else (branchLoop byId fuel (current.id :: seen)
      (parentOf byId current)).map (current :: ·)

def branchEntries (entries : List SessionEntry) : Option (List SessionEntry) :=
  (branchLoop (indexOf entries) (entries.length + 1) []
    entries.getLast?).map List.reverse

-- ======== the tree

structure SessionTreeFlatNode where
  entry : SessionEntry
  label : Option String
  labelTimestamp : Option String

structure SessionTreeNode extends SessionTreeFlatNode where
  children : List String

/-- The nodes by id, and the ids of the roots. -/
structure SessionTree where
  nodeMap : JsMap String SessionTreeNode
  roots : List String

namespace SessionTree

def children (t : SessionTree) (id : String) : List String :=
  ((t.nodeMap.get id).map (·.children)).getD []

/-- A node's `children`. -/
def setChildren (t : SessionTree) (id : String) (node : SessionTreeNode)
    (children : List String) : SessionTree :=
  ⟨t.nodeMap.set id { node with children := children }, t.roots⟩

/-- `roots.push(node)`. -/
def pushRoot (t : SessionTree) (id : String) : SessionTree :=
  ⟨t.nodeMap, t.roots ++ [id]⟩

def link (t : SessionTree) (flatNode : SessionTreeFlatNode) : SessionTree :=
  let entry := flatNode.entry
  match entry.parentId with
  | none => t.pushRoot entry.id
  | some parentId =>
    if parentId = entry.id then t.pushRoot entry.id
    else
      match t.nodeMap.get parentId with
      | some parent =>
        t.setChildren parentId parent (parent.children ++ [entry.id])
      | none => t.pushRoot entry.id

def nodeOf (flatNode : SessionTreeFlatNode) : SessionTreeNode :=
  { flatNode with children := [] }

def nodesOf (entries : List SessionTreeFlatNode) :
    JsMap String SessionTreeNode :=
  entries.foldl (fun nodeMap flatNode =>
    nodeMap.set flatNode.entry.id (nodeOf flatNode)) []

def build (entries : List SessionTreeFlatNode) : SessionTree :=
  entries.foldl link ⟨nodesOf entries, []⟩

/-- `new Date(a.entry.timestamp).getTime() - new Date(…).getTime()` is not
positive; a date that is not one compares as equal. -/
def notAfter (t : SessionTree) (a b : String) : Bool :=
  let time := fun id => (t.nodeMap.get id).bind fun node =>
    IsoDate.getTime node.entry.timestamp
  match time a, time b with
  | some x, some y => x ≤ y
  | _, _ => true

/-- `node.children.sort(…)`. -/
def sortChildren (t : SessionTree) (id : String) : SessionTree :=
  match t.nodeMap.get id with
  | some node =>
    t.setChildren id node (node.children.mergeSort t.notAfter)
  | none => t

/-- The loop over the stack, whose top comes first, and the ids it visits. -/
def sortTree : Nat → SessionTree → List String →
    Option (SessionTree × List String)
  | _, t, [] => some (t, [])
  | 0, _, _ :: _ => none
  | fuel + 1, t, id :: stack =>
    let t := t.sortChildren id
    (sortTree fuel t ((t.children id).reverse ++ stack)).map fun result =>
      (result.1, id :: result.2)

end SessionTree

namespace SessionManager

def getFlatTree (s : SessionManager) : List SessionTreeFlatNode :=
  s.getEntries.map fun entry =>
    { entry := entry
      label := s.labelsById.get entry.id
      labelTimestamp := s.labelTimestampsById.get entry.id }

/-- `getTree`, with the nodes it visits on the way. -/
def getTree (s : SessionManager) (fuel : Nat) :
    Option (SessionTree × List String) :=
  let t := SessionTree.build s.getFlatTree
  SessionTree.sortTree fuel t t.roots.reverse

end SessionManager

end OneHarness.Session
