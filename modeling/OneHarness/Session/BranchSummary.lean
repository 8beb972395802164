/-
What a branch summary is made from when a session moves to another entry: the
entries that are left behind, the messages of them that fit, and the files
they worked on.

Token counts are exact and a budget is any number, of which nine tenths are
taken exactly. A walk that never ends is `none`.
-/
import OneHarness.Session.Compaction
import OneHarness.Session.Manager

namespace OneHarness.Session

open Lib

namespace BranchSummary

-- ======== the entries

structure CollectEntriesResult where
  entries : List SessionEntry
  commonAncestorId : Option String

/-- The loop from the old leaf up. -/
def collectLoop (byId : Index) (commonAncestorId : Option String) :
    Nat → Option String → Option (List SessionEntry)
  | _, none => some []
  | fuel, some current =>
    if current = "" ∨ some current = commonAncestorId then some []
    else
      match byId.get current, fuel with
      | none, _ => some []
      | some _, 0 => none
      | some entry, fuel + 1 =>
        (collectLoop byId commonAncestorId fuel entry.parentId).map
          (entry :: ·)

def collectEntriesForBranchSummary (session : SessionManager)
    (oldLeafId : Option String) (targetId : String) :
    Option CollectEntriesResult :=
  if oldLeafId.getD "" = "" then some ⟨[], none⟩
  else do
    let oldPath := (← session.getBranch oldLeafId).map (·.id)
    let targetPath ← session.getBranch (some targetId)
    let commonAncestorId :=
      (targetPath.reverse.find? (·.id ∈ oldPath)).map (·.id)
    let entries ← collectLoop session.byId commonAncestorId
      (session.byId.length + 1) oldLeafId
    return ⟨entries.reverse, commonAncestorId⟩

-- ======== the messages

def getMessageFromEntry (entry : SessionEntry) : Option AgentMessage :=
  match entry.body with
  | .message (.toolResult _) => none
  | .customMessage c =>
    if c.customType = harnessDigestCustomType then none
    else Session.getMessageFromEntry entry
  | _ => Session.getMessageFromEntry entry

structure BranchPreparation where
  messages : List AgentMessage
  fileOps : FileOperations
  totalTokens : Nat

/-- `entry.type === "branch_summary"`. -/
def isBranchSummary (entry : SessionEntry) : Bool :=
  match entry.body with
  | .branchSummary _ => true
  | _ => false

/-- The first pass, at an entry. -/
def addDetails (fileOps : FileOperations) (entry : SessionEntry) :
    FileOperations :=
  match entry.body with
  | .branchSummary b =>
    if b.fromHook = some true then fileOps
    else
      { read := (strings (b.details.bind (·.get "readFiles"))).foldl addOnce
          fileOps.read
        edited :=
          (strings (b.details.bind (·.get "modifiedFiles"))).foldl addOnce
            fileOps.edited }
  | _ => fileOps

/-- The second pass, over the entries from the newest on. -/
def fill (tokenBudget : ℚ) :
    List SessionEntry → BranchPreparation → BranchPreparation
  | [], p => p
  | entry :: older, p =>
    match getMessageFromEntry entry with
    | none => fill tokenBudget older p
    | some message =>
      let fileOps := extractFileOpsFromMessage p.fileOps message
      let tokens := estimateTokens message
      let added : BranchPreparation :=
        ⟨message :: p.messages, fileOps, p.totalTokens + tokens⟩
      if 0 < tokenBudget ∧ tokenBudget < p.totalTokens + tokens then
        if (entry.isCompaction || isBranchSummary entry)
            ∧ p.totalTokens < tokenBudget * (9 / 10) then added
        else { p with fileOps := fileOps }
      else fill tokenBudget older added

def prepareBranchEntries (entries : List SessionEntry) (tokenBudget : ℚ) :
    BranchPreparation :=
  fill tokenBudget entries.reverse
    ⟨[], entries.foldl addDetails createFileOps, 0⟩

end BranchSummary

end OneHarness.Session
