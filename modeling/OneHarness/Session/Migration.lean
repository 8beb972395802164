/-
Migrating a session file of version 1, whose compactions name the first
entry they keep by its index in the file.

The entries here are those of the file before it has a typed reading: an id
may be missing, and so may the id of a compaction's first kept entry, which
stands beside the body and replaces what the body says. The role
`hookMessage`, which version 3 calls `custom`, is a flag. On entries that
have none of this the migration is that of Session/Open
(`migrateV1ToV2_raw`).

The loop works in place: an index is looked up in entries of which those
before have their new ids and those after do not. The set of ids it asks
before it draws one is never filled.
-/
import OneHarness.Session.Open

namespace OneHarness.Session

open Lib

-- ======== the data

structure RawEntry where
  id : Option String
  parentId : Option String
  timestamp : String
  body : EntryBody
  /-- of a compaction -/
  firstKeptEntryId : Option String
  /-- of a compaction -/
  firstKeptEntryIndex : Option ℚ
  /-- of a message: its role is `hookMessage` -/
  hookMessage : Bool

/-- `entry.type === "compaction"`. -/
def RawEntry.compaction? (e : RawEntry) : Option CompactionEntry :=
  match e.body with
  | .compaction c => some c
  | _ => none

inductive RawFileEntry where
  | session (header : SessionHeader)
  | entry (e : RawEntry)

def RawFileEntry.entry? : RawFileEntry → Option RawEntry
  | .session _ => none
  | .entry e => some e

def RawFileEntry.header? : RawFileEntry → Option SessionHeader
  | .session h => some h
  | .entry _ => none

def rawEntriesOf (fs : List RawFileEntry) : List RawEntry :=
  fs.filterMap RawFileEntry.entry?

-- ======== the migration

namespace Raw

/-- The number as an index of an array. -/
def index? (index : ℚ) : Option Nat :=
  if index.den = 1 ∧ 0 ≤ index.num then some index.num.toNat else none

/-- `entries[index]`. -/
def lookup (fs : List RawFileEntry) (index : ℚ) : Option RawFileEntry :=
  (index? index).bind fun i => fs[i]?

/-- The part of the loop about compactions. -/
def linkFirstKept (e : RawEntry) (fs : List RawFileEntry) : RawEntry :=
  match e.compaction?, e.firstKeptEntryIndex with
  | some _, some index =>
    let e := match lookup fs index with
      | some (.entry target) => { e with firstKeptEntryId := target.id }
      | _ => e
    { e with firstKeptEntryIndex := none }
  | _, _ => e

/-- `migrateV1ToV2`: the entries that are done, and those that are not. -/
def migrateV1ToV2 (randomUUID : Nat → Nat → String) :
    List RawFileEntry → Nat → Option String → List RawFileEntry →
      List RawFileEntry
  | done, _, _, [] => done
  | done, n, prevId, .session h :: rest =>
    migrateV1ToV2 randomUUID
      (done ++ [.session { h with version := some (.ofNat 2) }])
      n prevId rest
  | done, n, prevId, .entry e :: rest =>
    let id := generateId (fun _ => false) (randomUUID n)
    let e := { e with
      id := some id
      parentId := prevId }
    migrateV1ToV2 randomUUID
      (done ++ [.entry (linkFirstKept e (done ++ .entry e :: rest))])
      (n + 1) (some id) rest

/-- The body of the loop of `migrateV2ToV3`. -/
def toV3 : RawFileEntry → RawFileEntry
  | .session h => .session { h with version := some (.ofNat 3) }
  | .entry e =>
    match e.body with
    | .message _ => .entry { e with hookMessage := false }
    | _ => .entry e

def migrateV2ToV3 (fs : List RawFileEntry) : List RawFileEntry := fs.map toV3

/-- The version of a file: its header's, or 1. -/
def versionOf (fs : List RawFileEntry) : ℚ :=
  (((fs.findSome? RawFileEntry.header?).bind (·.version)).getD
    (.ofNat 1)).toRat

/-- `migrateToCurrentVersion`: the entries, and whether they changed. -/
def migrateToCurrentVersion (randomUUID : Nat → Nat → String)
    (fs : List RawFileEntry) : List RawFileEntry × Bool :=
  if versionOf fs ≥ 3 then (fs, false)
  else
    let fs' :=
      if versionOf fs < 2 then migrateV1ToV2 randomUUID [] 0 none fs else fs
    (migrateV2ToV3 fs', true)

end Raw

-- ======== the typed reading

/-- The entry, once it has its ids and its role. -/
def RawEntry.typed? (e : RawEntry) : Option SessionEntry :=
  match e.id, e.body with
  | none, _ => none
  | some id, .compaction c =>
    e.firstKeptEntryId.map fun firstKeptEntryId =>
      { id := id
        parentId := e.parentId
        timestamp := e.timestamp
        body := .compaction { c with firstKeptEntryId } }
  | some id, .message m =>
    if e.hookMessage then none
    else some
      { id := id
        parentId := e.parentId
        timestamp := e.timestamp
        body := .message m }
  | some id, body =>
    some
      { id := id
        parentId := e.parentId
        timestamp := e.timestamp
        body := body }

def RawFileEntry.typed? : RawFileEntry → Option FileEntry
  | .session h => some (.session h)
  | .entry e => e.typed?.map FileEntry.entry

/-- A typed entry as it is in the file. -/
def SessionEntry.raw (e : SessionEntry) : RawEntry where
  id := some e.id
  parentId := e.parentId
  timestamp := e.timestamp
  body := e.body
  firstKeptEntryId := e.compaction?.map (·.firstKeptEntryId)
  firstKeptEntryIndex := none
  hookMessage := false

def FileEntry.raw : FileEntry → RawFileEntry
  | .session h => .session h
  | .entry e => .entry e.raw

theorem SessionEntry.typed?_raw (e : SessionEntry) : e.raw.typed? = some e := by
  obtain ⟨id, parentId, timestamp, body⟩ := e
  cases body <;> rfl

/-- On entries without indexes the loop is the one on typed entries. -/
theorem migrateV1ToV2_raw (randomUUID : Nat → Nat → String) (n : Nat)
    (prevId : Option String) (done : List RawFileEntry)
    (fs : List FileEntry) :
    Raw.migrateV1ToV2 randomUUID done n prevId (fs.map FileEntry.raw)
      = done ++ (migrateV1ToV2 randomUUID n prevId fs).map FileEntry.raw := by
  induction fs generalizing done n prevId with
  | nil => exact (List.append_nil done).symm
  | cons f fs ih =>
    cases f with
    | session h =>
      rw [List.map_cons, FileEntry.raw, Raw.migrateV1ToV2, ih,
        List.append_assoc]
      rfl
    | entry e =>
      have hlink : ∀ (x : RawEntry) (fs : List RawFileEntry),
          x.firstKeptEntryIndex = none → Raw.linkFirstKept x fs = x := by
        intro x fs hx
        unfold Raw.linkFirstKept
        rw [hx]
        cases x.compaction? <;> rfl
      rw [List.map_cons, FileEntry.raw, Raw.migrateV1ToV2,
        hlink _ _ rfl, ih, List.append_assoc]
      rfl

end OneHarness.Session
