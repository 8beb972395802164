/-
What a session says to the model: the walk from a leaf to the root, and
the context read off the path it visits.

`buildSessionContext` walks `parentId` links through an index of the
entries. The source's loop has no bound, so a cycle would never return;
`walk` answers `none` there, and on every other input `walk_eq_some_iff`
says it is the chain of Lib/Chain.lean, root first.

Everything after the walk is a function of the path alone
(`contextOfPath`): the settings are a fold, and the messages are those of
the path, or, after the last compaction, its summary, the retained
messages from `firstKeptEntryId` up to it, and what follows it.
-/
import OneHarness.Lib.Chain
import OneHarness.Lib.JsMap
import OneHarness.Session.Types
import Mathlib.Data.List.Induction
import Mathlib.Data.List.TakeWhile

namespace OneHarness.Session

open Lib

-- ======== the walk

/-- Entries by id. -/
abbrev Index := JsMap String SessionEntry

/-- `for (const entry of entries) byId.set(entry.id, entry)`. -/
def indexOf (entries : List SessionEntry) : Index :=
  entries.foldl (fun m e => m.set e.id e) []

/-- `current.parentId ? byId.get(current.parentId) : undefined`. -/
def parentOf (byId : Index) (current : SessionEntry) : Option SessionEntry :=
  match current.parentId with
  | some p => if p = "" then none else byId.get p
  | none => none

/-- The path from the root down to `leaf`; `none` is a walk that never
ends. -/
def walk (byId : Index) (leaf : SessionEntry) : Option (List SessionEntry) :=
  (chain? (parentOf byId) (byId.length + 1) leaf).map List.reverse

-- ======== the messages

/-- `new Date(timestamp).getTime()`. -/
def getTime (timestamp : String) : Option Numeral :=
  (IsoDate.getTime timestamp).map Numeral.ofInt

def createBranchSummaryMessage (summary fromId timestamp : String) :
    AgentMessage :=
  .branchSummary
    { summary := summary
      fromId := fromId
      timestamp := getTime timestamp }

def createCompactionSummaryMessage (summary : String) (tokensBefore : Numeral)
    (timestamp : String) (customInstructions : Option String)
    (retainedMessageCount : Option Numeral)
    (harnessDigest harnessStateFingerprint : Option String) : AgentMessage :=
  .compactionSummary
    { summary := summary
      tokensBefore := tokensBefore
      retainedMessageCount := retainedMessageCount
      customInstructions := customInstructions
      harnessDigest := harnessDigest
      harnessStateFingerprint := harnessStateFingerprint
      timestamp := getTime timestamp }

def createCustomMessage (customType : String) (content : MessageContent)
    (display : Bool) (details : Option Json) (timestamp : String) :
    AgentMessage :=
  .custom
    { customType := customType
      content := content
      display := display
      details := details
      timestamp := getTime timestamp }

/-- The message an entry adds to the context (the source's local
`appendMessage`): a branch summary without text adds none. -/
def contextMessage (entry : SessionEntry) : Option AgentMessage :=
  match entry.body with
  | .message m => some m
  | .customMessage c =>
    some (createCustomMessage c.customType c.content c.display c.details
      entry.timestamp)
  | .branchSummary b =>
    if b.summary = "" then none
    else some (createBranchSummaryMessage b.summary b.fromId entry.timestamp)
  | _ => none

structure SessionModelRef where
  provider : String
  modelId : String
deriving DecidableEq

structure SessionContext where
  messages : List AgentMessage
  thinkingLevel : String
  serviceTier : ServiceTier
  model : Option SessionModelRef

/-- The variables of the source's loop over the path. -/
structure PathScan where
  thinkingLevel : String
  serviceTier : ServiceTier
  model : Option SessionModelRef
  compaction : Option (SessionEntry × CompactionEntry)

namespace PathScan

def init : PathScan where
  thinkingLevel := "off"
  serviceTier := .default
  model := none
  compaction := none

/-- The body of the source's loop over the path. -/
def step (s : PathScan) (entry : SessionEntry) : PathScan :=
  match entry.body with
  | .thinkingLevelChange level => { s with thinkingLevel := level }
  | .serviceTierChange tier => { s with serviceTier := tier }
  | .modelChange provider modelId =>
    { s with model := some { provider := provider, modelId := modelId } }
  | .message (.assistant m) =>
    { s with model := some { provider := m.provider, modelId := m.model } }
  | .compaction c => { s with compaction := some (entry, c) }
  | _ => s

def run (path : List SessionEntry) : PathScan := path.foldl step init

end PathScan

/-- The messages kept across a compaction: from the first entry of that
id on. -/
def retainedMessages (before : List SessionEntry) (firstKeptEntryId : String) :
    List AgentMessage :=
  (before.dropWhile fun e => e.id != firstKeptEntryId).filterMap contextMessage

/-- The summary a compaction puts at the head of the context. -/
def summaryMessage (entry : SessionEntry) (c : CompactionEntry)
    (retained : List AgentMessage) : AgentMessage :=
  createCompactionSummaryMessage c.summary c.tokensBefore entry.timestamp
    c.customInstructions (some (Numeral.ofNat retained.length))
    c.harnessDigest c.harnessStateFingerprint

/-- The messages of a path, given its last compaction. -/
def pathMessages (path : List SessionEntry) :
    Option (SessionEntry × CompactionEntry) → List AgentMessage
  | none => path.filterMap contextMessage
  | some (entry, c) =>
    let compactionIdx :=
      path.findIdx fun e => e.isCompaction && e.id == entry.id
    let retained :=
      retainedMessages (path.take compactionIdx) c.firstKeptEntryId
    summaryMessage entry c retained
      :: (retained ++ (path.drop (compactionIdx + 1)).filterMap contextMessage)

/-- The context of a path. -/
def contextOfPath (path : List SessionEntry) : SessionContext :=
  let s := PathScan.run path
  { messages := pathMessages path s.compaction
    thinkingLevel := s.thinkingLevel
    serviceTier := s.serviceTier
    model := s.model }

/-- The `leafId` argument: left out, `null`, or an id. -/
inductive LeafId where
  | undefined
  | null
  | id (id : String)

/-- The entry a context is built from: the one of that id, else the last
line. -/
def leafEntry (entries : List FileEntry) (leafId : LeafId) (byId : Index) :
    Option FileEntry :=
  let last := entries.getLast?
  match leafId with
  | .id id =>
    if id = "" then last else ((byId.get id).map FileEntry.entry).or last
  | _ => last

/-- `buildSessionContext(entries, leafId, byId)`; `none` is a walk that
never ends. The manager passes its file entries, header included: a
header has no parent and adds nothing. -/
def buildSessionContext (entries : List FileEntry) (leafId : LeafId)
    (byId : Option Index) : Option SessionContext :=
  let byId := byId.getD (indexOf (entriesOf entries))
  match leafId with
  | .null => some (contextOfPath [])
  | _ =>
    match leafEntry entries leafId byId with
    | some (.entry leaf) => (walk byId leaf).map contextOfPath
    | _ => some (contextOfPath [])

example : contextOfPath []
    = { messages := []
        thinkingLevel := "off"
        serviceTier := .default
        model := none } := rfl

-- ======== facts about indexes

/-- An index files every entry under its own id. -/
abbrev Index.Keyed (byId : Index) : Prop := JsMap.Keyed SessionEntry.id byId

theorem indexOf_append (es : List SessionEntry) (e : SessionEntry) :
    indexOf (es ++ [e]) = (indexOf es).set e.id e := by
  rw [indexOf, List.foldl_append]
  rfl

theorem indexOf_keyed (es : List SessionEntry) : Index.Keyed (indexOf es) := by
  induction es using List.reverseRecOn with
  | nil => exact JsMap.Keyed.nil _
  | append_singleton es e ih =>
    rw [indexOf_append]
    exact ih.set e

variable {es : List SessionEntry} {e : SessionEntry}

theorem mem_of_indexOf {id : String}
    (h : (indexOf es).get id = some e) : e ∈ es := by
  induction es using List.reverseRecOn with
  | nil => cases h
  | append_singleton es x ih =>
    rw [indexOf_append, JsMap.get_set] at h
    split at h
    · cases h
      exact List.mem_append_right _ List.mem_cons_self
    · exact List.mem_append_left _ (ih h)

theorem indexOf_eq_none {id : String} :
    (indexOf es).get id = none ↔ ∀ e ∈ es, e.id ≠ id := by
  induction es using List.reverseRecOn with
  | nil => simp [indexOf]
  | append_singleton es x ih =>
    rw [indexOf_append, JsMap.get_set]
    constructor
    · intro h e he
      split at h
      · cases h
      · rename_i hne
        rcases List.mem_append.1 he with he | he
        · exact ih.1 h e he
        · rw [List.mem_singleton.1 he]
          exact fun heq => hne heq
    · intro h
      rw [if_neg (h x (by simp))]
      exact ih.2 fun e he => h e (List.mem_append_left _ he)

/-- With distinct ids the index finds every entry. -/
theorem indexOf_get (hnd : (es.map (·.id)).Nodup)
    (he : e ∈ es) : (indexOf es).get e.id = some e := by
  induction es using List.reverseRecOn with
  | nil => cases he
  | append_singleton es x ih =>
    rw [List.map_append, List.nodup_append'] at hnd
    obtain ⟨hnd', -, hdis⟩ := hnd
    rw [indexOf_append, JsMap.get_set]
    rcases List.mem_append.1 he with he | he
    · have hne : x.id ≠ e.id := by
        intro heq
        exact hdis (List.mem_map_of_mem he) (by simp [heq])
      rw [if_neg hne, ih hnd' he]
    · rw [List.mem_singleton.1 he, if_pos rfl]

variable {byId : Index}

theorem parentOf_eq_some {p : SessionEntry} :
    parentOf byId e = some p ↔
      ∃ id, e.parentId = some id ∧ id ≠ "" ∧ byId.get id = some p := by
  unfold parentOf
  cases hp : e.parentId with
  | none => simp
  | some id =>
    by_cases hid : id = ""
    · simp [hid]
    · simp [hid]

theorem parentOf_id (hk : byId.Keyed) {p : SessionEntry}
    (h : parentOf byId e = some p) : e.parentId = some p.id ∧ p.id ≠ "" := by
  obtain ⟨id, hp, hne, hget⟩ := parentOf_eq_some.1 h
  have hid : id = p.id := (hk.key_of_get hget).symm
  exact ⟨hid ▸ hp, hid ▸ hne⟩

-- ======== facts about walks

/-- The walk is the chain, root first. -/
theorem walk_eq_some_iff {leaf : SessionEntry} {path : List SessionEntry} :
    walk byId leaf = some path ↔
      Chain (parentOf byId) leaf path.reverse := by
  have hnodes : ∀ x y, parentOf byId x = some y → y ∈ byId.values := by
    intro x y h
    obtain ⟨id, -, -, hget⟩ := parentOf_eq_some.1 h
    exact JsMap.mem_values_of_get hget
  have hfuel : byId.values.length < byId.length + 1 := by
    rw [JsMap.values, List.length_map]
    omega
  rw [walk, Option.map_eq_some_iff]
  constructor
  · rintro ⟨l, hl, rfl⟩
    rw [List.reverse_reverse]
    exact Chain.of_chain? hl
  · intro h
    exact ⟨path.reverse, (Chain.chain?_eq_some_iff hnodes hfuel).2 h,
      List.reverse_reverse _⟩

end OneHarness.Session
