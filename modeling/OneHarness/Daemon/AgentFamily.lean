/-
The nuclear family of an agent: the listing that is read off a catalog of all
agents, and the policy that decides about two of them.

Names are sorted by `localeCompare`, of which only `nameLe`, not greater, is
used.
-/
import Mathlib.Data.List.Basic

namespace OneHarness.Daemon.AgentFamily

structure AgentSessionNameScope where
  parentSessionId : Option String
  parentSessionPath : Option String
  depth : Nat
deriving DecidableEq

structure AgentFamilyCatalogEntry extends AgentSessionNameScope where
  id : String
  name : Option String
  sessionPath : Option String
deriving DecidableEq

inductive AgentFamilyRelationship where
  | parent | sibling | child
deriving DecidableEq

structure AgentFamilyMember where
  relationship : AgentFamilyRelationship
  entry : AgentFamilyCatalogEntry
deriving DecidableEq

def agentFamilyReachError : String :=
  "Agent reach is limited to parent, siblings, and children"

def agentFamilyMemberName (entry : AgentFamilyCatalogEntry) : String :=
  entry.name.getD entry.id

-- ======== parents

def isAgentFamilyParent (parent child : AgentFamilyCatalogEntry) : Bool :=
  child.parentSessionPath.isSome
      && child.parentSessionPath = parent.sessionPath
    || child.parentSessionId.isSome && child.parentSessionId = some parent.id

/-- An entry of the catalog shows that both name the same session. -/
def hasCatalogParentPair (catalog : List AgentFamilyCatalogEntry)
    (parentSessionId parentSessionPath : Option String) : Bool :=
  parentSessionId.isSome && parentSessionPath.isSome
    && catalog.any fun entry =>
      some entry.id = parentSessionId
          && entry.sessionPath = parentSessionPath
        || entry.parentSessionId = parentSessionId
          && entry.parentSessionPath = parentSessionPath

def sameAgentFamilyParent (left right : AgentSessionNameScope)
    (catalog : List AgentFamilyCatalogEntry) : Bool :=
  if left.parentSessionPath.isSome
      && left.parentSessionPath = right.parentSessionPath then true
  else if left.parentSessionId.isSome
      && left.parentSessionId = right.parentSessionId then true
  else if hasCatalogParentPair catalog left.parentSessionId
        right.parentSessionPath
      || hasCatalogParentPair catalog right.parentSessionId
        left.parentSessionPath then true
  else
    left.depth = 0 && right.depth = 0
      && left.parentSessionPath = none && right.parentSessionPath = none
      && left.parentSessionId = none && right.parentSessionId = none

-- ======== the listing, the policy

section
variable (nameLe : String → String → Bool)

def sortByName (entries : List AgentFamilyCatalogEntry) :
    List AgentFamilyCatalogEntry :=
  entries.mergeSort fun a b =>
    nameLe (agentFamilyMemberName a) (agentFamilyMemberName b)

def selectAgentFamily (current : AgentFamilyCatalogEntry)
    (catalog : List AgentFamilyCatalogEntry) : List AgentFamilyMember :=
  let parent := catalog.find? fun entry => isAgentFamilyParent entry current
  let siblings := catalog.filter fun entry =>
    entry.id ≠ current.id && entry.depth = current.depth
      && sameAgentFamilyParent entry.toAgentSessionNameScope
        current.toAgentSessionNameScope catalog
  let children := catalog.filter fun entry =>
    entry.depth = current.depth + 1 && isAgentFamilyParent current entry
  parent.toList.map (⟨.parent, ·⟩)
    ++ (sortByName nameLe siblings).map (⟨.sibling, ·⟩)
    ++ (sortByName nameLe children).map (⟨.child, ·⟩)

end

def agentFamilyRelationship (current target : AgentFamilyCatalogEntry) :
    Option AgentFamilyRelationship :=
  if current.id = target.id then none
  else if isAgentFamilyParent target current then some .parent
  else if isAgentFamilyParent current target then some .child
  else if current.depth = target.depth
      && sameAgentFamilyParent current.toAgentSessionNameScope
        target.toAgentSessionNameScope [current, target] then some .sibling
  else none

def assertAgentFamilyReach (current target : AgentFamilyCatalogEntry) :
    Except String AgentFamilyRelationship :=
  match agentFamilyRelationship current target with
  | none => .error agentFamilyReachError
  | some relationship => .ok relationship

end OneHarness.Daemon.AgentFamily
