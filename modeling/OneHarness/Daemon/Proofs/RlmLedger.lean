/-
When the spawn ledger can be read, along any run of its instances.

# The file

is at every moment the lines of some records (`Holds`): an append adds
whole lines, a seed publishes whole lines. It replays exactly when it is
within the bounds and no spawn has a depth that a reader refuses
(`readable_iff`).

# The run

Nothing an operation does checks the bounds for the lines it adds, except
the seed; so a run stays readable exactly as long as every append still
fits (`readable_along_iff`). With the first one that does not, the ledger
is locked for good, and that append was accepted.
-/
import OneHarness.Daemon.RlmLedger
import OneHarness.Daemon.Proofs.EventLog
import OneHarness.Lib.Run

namespace OneHarness.Daemon.RlmLedger

open Lib EventLog

-- ======== lines and records

open RlmLedgerRecord (members)

/-- A depth that a reader takes back. -/
def SafeDepth (depth : Nat) : Prop := 1 ≤ depth ∧ depth ≤ MAX_SAFE_INTEGER

instance (depth : Nat) : Decidable (SafeDepth depth) :=
  inferInstanceAs (Decidable (_ ∧ _))

/-- A record that a reader takes back. -/
def RlmLedgerRecord.Valid : RlmLedgerRecord → Prop
  | .spawn r => SafeDepth r.depth
  | _ => True

theorem isSafeInteger_natCast (n : Nat) :
    isSafeInteger n = decide (n ≤ MAX_SAFE_INTEGER) := by
  rw [isSafeInteger, Rat.den_natCast, Rat.num_natCast, Int.natAbs_natCast]
  simp

theorem depth?_ofNat (n : Nat) :
    depth? (some (.num (Numeral.ofNat n)))
      = if SafeDepth n then some n else none := by
  have hcast : decide ((1 : ℚ) ≤ n) = decide (1 ≤ n) := by
    rw [decide_eq_decide]
    exact_mod_cast Iff.rfl
  rw [depth?, number?]
  dsimp only
  rw [Numeral.toRat_ofNat, isSafeInteger_natCast, Rat.num_natCast,
    Int.toNat_natCast, hcast]
  apply if_congr _ rfl rfl
  rw [Bool.and_eq_true, decide_eq_true_iff, decide_eq_true_iff, and_comm,
    SafeDepth]

theorem deleteReason?_text (reason : RlmLedgerDeleteReason) :
    deleteReason? (some (.str reason.text)) = some reason := by
  cases reason with
  | user => rfl
  | parentTeardown => rfl
  | revoked => rfl
  | gc => rfl

theorem number?_one : number? (some (.num (Numeral.ofNat 1))) = some 1 := by
  rw [number?, Numeral.toRat_ofNat]
  rfl

/-- A spawn comes back if its depth does. -/
theorem spawnRecord?_members (r : RlmLedgerSpawnRecord) :
    spawnRecord? r.at_ (.obj (members (.spawn r)))
      = if SafeDepth r.depth then some r else none := by
  have hdepth : depth? ((Json.obj (members (.spawn r))).get "depth")
      = if SafeDepth r.depth then some r.depth
        else none := depth?_ofNat r.depth
  have hfields : spawnRecord? r.at_ (.obj (members (.spawn r)))
      = (depth? ((Json.obj (members (.spawn r))).get "depth")).bind fun depth =>
          some { r with depth := depth } := rfl
  rw [hfields, hdepth]
  split
  · rfl
  · rfl

theorem deleteRecord?_members (r : RlmLedgerDeleteRecord) :
    deleteRecord? r.at_ (.obj (members (.delete r))) = some r := by
  have hreason : deleteReason? ((Json.obj (members (.delete r))).get "reason")
      = some r.reason := deleteReason?_text r.reason
  have hfields : deleteRecord? r.at_ (.obj (members (.delete r)))
      = (deleteReason? ((Json.obj (members (.delete r))).get "reason")).bind
          fun reason => some { r with reason := reason } := rfl
  rw [hfields, hreason]
  rfl

/-- The time of a record. -/
def RlmLedgerRecord.time : RlmLedgerRecord → String
  | .metadata r => r.at_
  | .spawn r => r.at_
  | .rename r => r.at_
  | .delete r => r.at_

theorem parseLedgerLine_eq (r : RlmLedgerRecord) (index : Nat) :
    parseLedgerLine (line members r) index
      = parseOp (.obj r.members) index r.time := by
  have hv : number? ((Json.obj r.members).get "v") = some 1 := by
    cases r <;> exact number?_one
  have hat : string? ((Json.obj r.members).get "at") = some r.time := by
    cases r <;> rfl
  rw [parseLedgerLine, line, String.toList_ofList, Json.parse_stringify]
  dsimp only
  rw [hv, hat]
  dsimp only
  rw [if_pos rfl]

variable {r : RlmLedgerRecord}

/-- The record's line is read as the record. -/
theorem parseLedgerLine_valid (h : r.Valid) (index : Nat) :
    parseLedgerLine (line members r) index = .ok (some r) := by
  rw [parseLedgerLine_eq]
  cases r with
  | metadata r => rfl
  | spawn r =>
    show orMalformed index _ .spawn (spawnRecord? r.at_ _) = _
    have hdepth : SafeDepth r.depth := h
    rw [spawnRecord?_members, if_pos hdepth]
    rfl
  | rename r => rfl
  | delete r =>
    show orMalformed index _ .delete (deleteRecord? r.at_ _) = _
    rw [deleteRecord?_members]
    rfl

theorem parseLedgerLine_invalid (h : ¬r.Valid) (index : Nat) :
    ∃ error, parseLedgerLine (line members r) index = .error error := by
  rw [parseLedgerLine_eq]
  cases r with
  | metadata r => exact absurd trivial h
  | spawn r =>
    refine ⟨.malformed index "invalid spawn record", ?_⟩
    show orMalformed index _ .spawn (spawnRecord? r.at_ _) = _
    have hdepth : ¬SafeDepth r.depth := h
    rw [spawnRecord?_members, if_neg hdepth]
    rfl
  | rename r => exact absurd trivial h
  | delete r => exact absurd trivial h

-- ======== the file

/-- The file can be replayed. -/
def Readable (file : Option (List UInt8)) : Prop :=
  ∀ canonicalSessionPath, ∃ edges,
    replaySync canonicalSessionPath file = .ok edges

/-- The file is the lines of these records. -/
def Holds (file : Option LedgerFile) (rs : List RlmLedgerRecord) : Prop :=
  (file.map (·.bytes)).getD [] = payload (rs.map RlmLedgerRecord.toJson)

section
variable {file : Option LedgerFile} {rs : List RlmLedgerRecord}

theorem events_members (rs : List RlmLedgerRecord) :
    events members rs = rs.map RlmLedgerRecord.toJson := rfl

theorem Holds.nil_of_none (h : Holds none rs) : rs = [] := by
  have hnil : payload (rs.map RlmLedgerRecord.toJson) = [] := h.symm
  exact List.map_eq_nil_iff.1 (payload_eq_nil.1 hnil)

/-- A reader sees the records, in their order. -/
theorem replaySync_holds (h : Holds file rs)
    (hbytes : (payload (rs.map RlmLedgerRecord.toJson)).length
      ≤ RLM_LEDGER_MAX_BYTES)
    (hrecords : rs.length ≤ RLM_LEDGER_MAX_RECORDS)
    (hvalid : ∀ r ∈ rs, r.Valid) (canonicalSessionPath : String → String) :
    replaySync canonicalSessionPath (file.map (·.bytes))
      = .ok (rs.foldl (replayRecord canonicalSessionPath) []) := by
  cases file with
  | none =>
    rw [h.nil_of_none]
    rfl
  | some file =>
    have hfile : file.bytes = payload (events members rs) := h
    have hreplay : EventLog.replaySync eventLogOptions parseLedgerLine
        (some file.bytes) = .ok rs := by
      rw [hfile]
      apply replaySync_payload
      · intro r hr index
        exact parseLedgerLine_valid (hvalid r hr) index
      · exact decide_eq_false (Nat.not_lt.2 hbytes)
      · exact decide_eq_false (Nat.not_lt.2 hrecords)
    rw [replaySync, Option.map_some, hreplay]

theorem readable_iff (h : Holds file rs) :
    Readable (file.map (·.bytes))
      ↔ (payload (rs.map RlmLedgerRecord.toJson)).length
          ≤ RLM_LEDGER_MAX_BYTES
        ∧ rs.length ≤ RLM_LEDGER_MAX_RECORDS ∧ ∀ r ∈ rs, r.Valid := by
  constructor
  · intro hread
    cases file with
    | none =>
      rw [h.nil_of_none]
      exact ⟨Nat.zero_le _, Nat.zero_le _, fun r hr => by cases hr⟩
    | some file =>
      have hfile : file.bytes = payload (events members rs) := h
      obtain ⟨edges, hedges⟩ := hread id
      have hno : ¬∃ error, EventLog.replaySync eventLogOptions
          parseLedgerLine (some (payload (events members rs)))
            = .error error := by
        rintro ⟨error, herror⟩
        rw [Option.map_some, hfile, replaySync, herror] at hedges
        cases hedges
      rw [← events_members]
      refine ⟨?_, ?_, ?_⟩
      · by_contra hbytes
        apply hno
        apply replaySync_fails
        exact .inl (decide_eq_true (Nat.lt_of_not_le hbytes))
      · by_contra hrecords
        apply hno
        apply replaySync_fails
        refine .inr (.inr ⟨?_, decide_eq_true (Nat.lt_of_not_le hrecords)⟩)
        rintro rfl
        exact hrecords (Nat.zero_le _)
      · intro r hr
        by_contra hvalid
        apply hno
        apply replaySync_fails
        exact .inr (.inl ⟨r, hr, parseLedgerLine_invalid hvalid⟩)
  · intro hbounds canonicalSessionPath
    exact ⟨_, replaySync_holds h hbounds.1 hbounds.2.1 hbounds.2.2
      canonicalSessionPath⟩

end

-- ======== what a step does

/-- The record that a step appends, with the time. -/
def World.appends (w : World) (m : Move) : Option (RlmLedgerRecord × String) :=
  match (w.ledgers m.ledger).work, m.event with
  | .appending record, .append now _ _ => some (record now, now)
  | .renames target name (edge :: _), .append now _ _ =>
    if edge.deleted.isNone && m.canonicalSessionPath edge.child = target then
      some (.rename
        { at_ := now, childId := edge.childId, child := target, name }, now)
    else none
  | _, _ => none

/-- The lines of an append: the first one in a file has the meta record
before it. -/
def World.newLines (w : World) (i : Nat) (r : RlmLedgerRecord) (now : String) :
    List RlmLedgerRecord :=
  if w.file.isSome then [r]
  else
    [.metadata
      { at_ := now, sessionsDir := (w.ledgers i).canonicalSessionsDir }, r]

/-- The records of a seed that a step publishes. -/
def World.publishes (w : World) (m : Move) : List RlmLedgerSpawnRecord :=
  match (w.ledgers m.ledger).work, m.event with
  | .seeding walk, .seedPublish now mtimeMs ino .linked =>
    if walk.queue.isEmpty && w.file.isNone
        && (published none (w.ledgers m.ledger).canonicalSessionsDir now
          walk.records mtimeMs ino).isSome then
      walk.records
    else []
  | _, _ => []

/-- The lines fit into the file as it is. -/
def World.Room (w : World) (lines : List RlmLedgerRecord) : Prop :=
  (w.bytes.getD []).count 0x0a + lines.length ≤ RLM_LEDGER_MAX_RECORDS
    ∧ (w.bytes.getD []).length
        + (payload (lines.map RlmLedgerRecord.toJson)).length
      ≤ RLM_LEDGER_MAX_BYTES

/-- A step leaves a readable ledger readable: what it appends has room, and
the depths of what it publishes are safe integers. -/
structure World.Fits (w : World) (m : Move) : Prop where
  append : ∀ r now, w.appends m = some (r, now) →
    w.Room (w.newLines m.ledger r now)
  publish : ∀ r ∈ w.publishes m, r.depth ≤ MAX_SAFE_INTEGER

/-- What is in hand is sound: a record about to be appended is valid, and the
depths that a seed has collected are positive. -/
def Work.Sound : Work → Prop
  | .appending record => ∀ at_, (record at_).Valid
  | .seeding walk => ∀ r ∈ walk.records, 1 ≤ r.depth
  | _ => True

structure World.Inv (w : World) : Prop where
  lines : ∃ rs, Holds w.file rs
  work : ∀ i, (w.ledgers i).work.Sound

/-- A step that does not touch the file. -/
structure Quiet (w w' : World) : Prop where
  file : w'.file = w.file
  work : (∀ i, (w.ledgers i).work.Sound) → ∀ i, (w'.ledgers i).work.Sound

theorem Quiet.refl (w : World) : Quiet w w := ⟨rfl, id⟩

variable {ledger : RlmSpawnLedger}

theorem work_setLedger {w : World} {i : Nat}
    (hw : ∀ j, (w.ledgers j).work.Sound) (h : ledger.work.Sound) (j : Nat) :
    ((w.setLedger i ledger).ledgers j).work.Sound := by
  show (if j = i then ledger else w.ledgers j).work.Sound
  split
  · exact h
  · exact hw j

theorem Quiet.setLedger {w : World} {i : Nat}
    (h : (∀ j, (w.ledgers j).work.Sound) → ledger.work.Sound) :
    Quiet w (w.setLedger i ledger) where
  file := rfl
  work hw := work_setLedger hw (h hw)

variable {walk : SeedWalk} {now : String} {mtimeMs ino : Nat}

variable {sessionFile : String} {depth : Nat}

section
variable {canonicalSessionPath : String → String} {w : World} {i : Nat}

/-- A read of the edges changes the cache only. -/
theorem work_replaySyncCached {file : Option LedgerFile}
    {ledger' : RlmSpawnLedger} {edges : Edges}
    (h : replaySyncCached canonicalSessionPath file ledger
      = .ok (edges, ledger')) : ledger'.work = ledger.work := by
  unfold replaySyncCached at h
  dsimp only at h
  split at h
  · cases h
    rfl
  · split at h
    · cases h
    · split at h
      · cases h
        rfl
      · cases h
        rfl

theorem quiet_seed (hwork : (w.ledgers i).work = .idle)
    (rootEntries : Option (List String)) :
    Quiet w (seed canonicalSessionPath w i rootEntries).1 := by
  have hidle : (w.ledgers i).work.Sound := by
    rw [hwork]
    exact trivial
  unfold seed
  dsimp only
  split
  · exact Quiet.setLedger fun _ => hidle
  · split
    · exact Quiet.setLedger fun _ => hidle
    · apply Quiet.setLedger
      intro _ r hr
      cases hr

/-- A depth below another is positive. -/
theorem one_le_depthBelow (depth : Nat) : 1 ≤ depthBelow depth := by
  rw [depthBelow]
  split
  · omega
  · rename_i h
    rw [MAX_SAFE_INTEGER] at h
    omega

theorem one_le_childDepth (rlmDepth : Option Nat) (depth : Nat) :
    1 ≤ (rlmDepth.filter fun depth => 1 ≤ depth).getD (depthBelow depth) := by
  cases h : rlmDepth.filter fun depth => decide (1 ≤ depth) with
  | none => exact one_le_depthBelow depth
  | some d =>
    have hd := (Option.filter_eq_some_iff.1 h).2
    exact of_decide_eq_true hd

theorem sound_seedEntry {now : Nat → String}
    {entry : RlmLedgerSeedRegistryEntry}
    (h : ∀ r ∈ walk.records, 1 ≤ r.depth) :
    ∀ r ∈ (seedEntry canonicalSessionPath now sessionFile depth walk
      entry).records, 1 ≤ r.depth := by
  rw [seedEntry]
  dsimp only
  split
  · exact h
  · split
    · exact h
    · intro r hr
      rcases List.mem_append.1 hr with hr | hr
      · exact h r hr
      · rw [List.mem_singleton.1 hr]
        exact one_le_childDepth _ _

theorem sound_seedEntries {now : Nat → String}
    (entries : List RlmLedgerSeedRegistryEntry)
    (h : ∀ r ∈ walk.records, 1 ≤ r.depth) :
    ∀ r ∈ (entries.foldl (seedEntry canonicalSessionPath now sessionFile depth)
      walk).records, 1 ≤ r.depth := by
  induction entries generalizing walk with
  | nil => exact h
  | cons entry entries ih => exact ih (sound_seedEntry h)

theorem quiet_seedRead
    (hwork : (w.ledgers i).work = .seeding walk) (now : Nat → String)
    (entries : Option (List RlmLedgerSeedRegistryEntry)) :
    Quiet w (seedRead canonicalSessionPath w i walk now entries).1 := by
  unfold seedRead
  split
  · exact Quiet.refl w
  · exact Quiet.setLedger fun _ => trivial
  · apply Quiet.setLedger
    intro hw
    have hwalk := hw i
    rw [hwork] at hwalk
    exact sound_seedEntries _ hwalk

/-- The depth of a spawn that is let through. -/
theorem safeDepth_of_input {depth : ℚ} (hsafe : isSafeInteger depth = true)
    (hpos : ¬depth < 1) : SafeDepth depth.num.toNat := by
  rw [isSafeInteger, Bool.and_eq_true, decide_eq_true_iff,
    decide_eq_true_iff] at hsafe
  have hnum : (depth.num : ℚ) = depth := Rat.coe_int_num_of_den_eq_one hsafe.1
  have hone : (1 : ℤ) ≤ depth.num := by
    rw [not_lt, ← hnum] at hpos
    exact_mod_cast hpos
  have hmax := hsafe.2
  constructor <;> omega

theorem quiet_appendSpawn (hwork : (w.ledgers i).work = .idle)
    (input : SpawnInput) :
    Quiet w (appendSpawnUnlocked canonicalSessionPath w i input).1 := by
  rw [appendSpawnUnlocked]
  split
  · exact Quiet.refl w
  · rename_i hinput
    dsimp only
    split
    · exact Quiet.refl w
    · rename_i edges ledger hread
      split
      · apply Quiet.setLedger
        intro _
        rw [work_replaySyncCached hread, hwork]
        exact trivial
      · apply Quiet.setLedger
        intro _ at_
        show SafeDepth input.depth.num.toNat
        simp only [Bool.or_eq_true, not_or, Bool.not_eq_true,
          Bool.not_eq_false', decide_eq_false_iff_not] at hinput
        exact safeDepth_of_input hinput.1.2 hinput.2

theorem quiet_appendRename (childId child name : String) :
    Quiet w (appendRename canonicalSessionPath w i childId child name).1 :=
  Quiet.setLedger fun _ _ => trivial

theorem quiet_appendDelete (childId child : String)
    (reason : RlmLedgerDeleteReason) :
    Quiet w (appendDelete canonicalSessionPath w i childId child reason).1 :=
  Quiet.setLedger fun _ _ => trivial

theorem quiet_appendRenameByChildPath (child name : String) :
    Quiet w
      (appendRenameByChildPath canonicalSessionPath w i child name).1 := by
  unfold appendRenameByChildPath
  dsimp only
  split
  · exact Quiet.refl w
  · exact Quiet.setLedger fun _ => trivial

theorem quiet_readEdges (hwork : (w.ledgers i).work = .idle)
    (includeDeleted : Bool) :
    Quiet w (readEdges canonicalSessionPath w i includeDeleted).1 := by
  unfold readEdges
  split
  · exact Quiet.refl w
  · rename_i hread
    apply Quiet.setLedger
    intro _
    rw [work_replaySyncCached hread, hwork]
    exact trivial

-- ======== an append

theorem work_appendRecord {next : Work} (hnext : next.Sound)
    (hw : ∀ j, (w.ledgers j).work.Sound) (j : Nat) :
    ((appendRecord w i r now mtimeMs ino next).1.ledgers j).work.Sound := by
  unfold appendRecord
  dsimp only
  split
  · apply work_setLedger hw _ j
    exact trivial
  · exact work_setLedger (w := { w with file := _ }) hw hnext j

/-- An append adds its lines, unless the file is too large already. -/
theorem file_appendRecord {rs : List RlmLedgerRecord} (h : Holds w.file rs) :
    (RLM_LEDGER_MAX_BYTES < (w.bytes.getD []).length
        ∧ (appendRecord w i r now mtimeMs ino next).1.file = w.file)
      ∨ Holds (appendRecord w i r now mtimeMs ino next).1.file
          (rs ++ w.newLines i r now) := by
  obtain ⟨file, ledgers⟩ := w
  unfold appendRecord
  cases file with
  | none =>
    right
    rw [h.nil_of_none]
    rfl
  | some file =>
    have hfile : file.bytes = payload (rs.map RlmLedgerRecord.toJson) := h
    dsimp only
    rw [World.bytes, Option.map_some, hfile, appendSync_payload]
    by_cases hbytes : exceeds eventLogOptions.maxBytes
        (payload (rs.map RlmLedgerRecord.toJson)).length = true
    · left
      have hne : rs.map RlmLedgerRecord.toJson ≠ [] := by
        intro hnil
        rw [hnil] at hbytes
        exact absurd hbytes (by decide)
      rw [if_pos ⟨hne, hbytes⟩]
      exact ⟨of_decide_eq_true hbytes, rfl⟩
    · right
      rw [if_neg fun h => hbytes h.2]
      dsimp only
      rw [Holds, World.newLines, List.map_append]
      rfl

end

-- ======== every step

/-- What a step may do: leave the file alone, append a record, or publish a
seed. -/
inductive StepCase (w : World) (m : Move) : Prop where
  | quiet (happends : w.appends m = none) (hpublishes : w.publishes m = [])
    (h : Quiet w (w.move m))
  | append (r : RlmLedgerRecord) (now : String) (mtimeMs ino : Nat)
    (next : Work) (happends : w.appends m = some (r, now))
    (hpublishes : w.publishes m = []) (hvalid : r.Valid) (hnext : next.Sound)
    (h : w.move m
      = (appendRecord w m.ledger r now mtimeMs ino next).1)
  | publish (records : List RlmLedgerSpawnRecord) (now : String)
    (mtimeMs ino : Nat) (happends : w.appends m = none)
    (hpublishes : w.publishes m = records) (hfile : w.file = none)
    (hsound : ∀ r ∈ records, 1 ≤ r.depth)
    (hsome : (published none (w.ledgers m.ledger).canonicalSessionsDir now
      records mtimeMs ino).isSome)
    (h : w.move m = { w with
        file := published none (w.ledgers m.ledger).canonicalSessionsDir now
          records mtimeMs ino }.setLedger m.ledger
        { w.ledgers m.ledger with work := .idle })

variable {records : List RlmLedgerSpawnRecord}

section
variable {w : World} {m : Move}

theorem stepCase_idle (hwork : (w.ledgers m.ledger).work = .idle) :
    StepCase w m := by
  have happends : w.appends m = none := by
    rw [World.appends, hwork]
  have hpublishes : w.publishes m = [] := by
    rw [World.publishes, hwork]
  apply StepCase.quiet happends hpublishes
  unfold World.move World.step
  rw [hwork]
  cases m.event with
  | seed rootEntries =>
    dsimp only
    split
    · exact Quiet.refl w
    · exact quiet_seed hwork rootEntries
  | seedRead now entries => dsimp only; split <;> exact Quiet.refl w
  | seedPublish now mtimeMs ino outcome =>
    dsimp only
    split <;> exact Quiet.refl w
  | append now mtimeMs ino => dsimp only; split <;> exact Quiet.refl w
  | appendSpawn input =>
    dsimp only
    split
    · exact Quiet.refl w
    · exact quiet_appendSpawn hwork input
  | appendRename childId child name =>
    dsimp only
    split
    · exact Quiet.refl w
    · exact quiet_appendRename childId child name
  | appendRenameByChildPath child name =>
    dsimp only
    split
    · exact Quiet.refl w
    · exact quiet_appendRenameByChildPath child name
  | appendDelete childId child reason =>
    dsimp only
    split
    · exact Quiet.refl w
    · exact quiet_appendDelete childId child reason
  | edges includeDeleted =>
    dsimp only
    split
    · exact Quiet.refl w
    · exact quiet_readEdges hwork includeDeleted

/-- Of an operation in hand, only its append is a step. -/
theorem stepCase_appending {record : String → RlmLedgerRecord}
    (hwork : (w.ledgers m.ledger).work = .appending record)
    (hw : ∀ i, (w.ledgers i).work.Sound) : StepCase w m := by
  have hpublishes : w.publishes m = [] := by
    rw [World.publishes, hwork]
  have hsound := hw m.ledger
  rw [hwork] at hsound
  cases hevent : m.event with
  | append now mtimeMs ino =>
    apply StepCase.append (record now) now mtimeMs ino .idle _ hpublishes
      (hsound now) trivial
    · unfold World.move World.step
      rw [hwork, hevent]
    · unfold World.appends
      rw [hwork, hevent]
  | _ =>
    apply StepCase.quiet _ hpublishes
    · unfold World.move World.step
      rw [hwork, hevent]
      exact Quiet.refl w
    · unfold World.appends
      rw [hwork, hevent]

theorem stepCase_renaming {target name : String} {edges : List RlmLedgerEdge}
    (hwork : (w.ledgers m.ledger).work = .renames target name edges) :
    StepCase w m := by
  have hpublishes : w.publishes m = [] := by
    rw [World.publishes, hwork]
  cases hevent : m.event with
  | append now mtimeMs ino =>
    have hmove : w.move m = (renameNext m.canonicalSessionPath w m.ledger
        target name edges now mtimeMs ino).1 := by
      unfold World.move World.step
      rw [hwork, hevent]
    cases edges with
    | nil =>
      apply StepCase.quiet _ hpublishes
      · rw [hmove]
        exact Quiet.setLedger fun _ => trivial
      · unfold World.appends
        rw [hwork, hevent]
    | cons edge edges =>
      by_cases hedge : (edge.deleted.isNone
          && m.canonicalSessionPath edge.child = target) = true
      · apply StepCase.append _ now mtimeMs ino
          (.renames target name edges) _ hpublishes _ trivial
        · rw [hmove, renameNext, if_pos hedge]
        · unfold World.appends
          rw [hwork, hevent]
          exact if_pos hedge
        · exact trivial
      · apply StepCase.quiet _ hpublishes
        · rw [hmove, renameNext, if_neg hedge]
          exact Quiet.setLedger fun _ => trivial
        · unfold World.appends
          rw [hwork, hevent]
          exact if_neg hedge
  | _ =>
    apply StepCase.quiet _ hpublishes
    · unfold World.move World.step
      rw [hwork, hevent]
      exact Quiet.refl w
    · unfold World.appends
      rw [hwork, hevent]
      cases edges <;> rfl

/-- A seed is published by a step that finds no file. -/
theorem published_some (file : LedgerFile) (canonicalSessionsDir now : String)
    (records : List RlmLedgerSpawnRecord) (mtimeMs ino : Nat) :
    published (some file) canonicalSessionsDir now records mtimeMs ino
      = some file := by
  unfold published
  dsimp only
  split
  · rfl
  · split
    · rfl
    · rfl

/-- The publication: a seed that finds a file, or is beyond the bounds, leaves
the file alone. -/
theorem stepCase_linked (happends : w.appends m = none)
    (hsound : ∀ r ∈ walk.records, 1 ≤ r.depth)
    (hmove : w.move m
      = (seedPublish w m.ledger walk now mtimeMs ino .linked).1)
    (hpublishes : w.publishes m
      = if walk.queue.isEmpty && w.file.isNone
          && (published none (w.ledgers m.ledger).canonicalSessionsDir now
            walk.records mtimeMs ino).isSome then walk.records
        else []) : StepCase w m := by
  unfold seedPublish at hmove
  cases hqueue : walk.queue with
  | cons item queue =>
    rw [hqueue] at hmove hpublishes
    apply StepCase.quiet happends hpublishes
    rw [hmove]
    exact Quiet.refl w
  | nil =>
    rw [hqueue] at hmove hpublishes
    cases hfile : w.file with
    | some file =>
      rw [hfile] at hmove hpublishes
      apply StepCase.quiet happends hpublishes
      rw [hmove]
      dsimp only
      rw [published_some, ← hfile]
      exact Quiet.setLedger fun _ => trivial
    | none =>
      rw [hfile] at hmove hpublishes
      by_cases hsome : (published none
          (w.ledgers m.ledger).canonicalSessionsDir now walk.records
          mtimeMs ino).isSome = true
      · apply StepCase.publish walk.records now mtimeMs ino happends _
          hfile hsound hsome hmove
        rw [hpublishes, hsome]
        rfl
      · have hnone := Option.not_isSome_iff_eq_none.1 hsome
        rw [hnone] at hmove hpublishes
        apply StepCase.quiet happends hpublishes
        rw [hmove]
        dsimp only
        rw [← hfile]
        exact Quiet.setLedger fun _ => trivial

theorem stepCase_seeding (hwork : (w.ledgers m.ledger).work = .seeding walk)
    (hw : ∀ i, (w.ledgers i).work.Sound) : StepCase w m := by
  have happends : w.appends m = none := by
    rw [World.appends, hwork]
  have hsound := hw m.ledger
  rw [hwork] at hsound
  cases hevent : m.event with
  | seedRead now entries =>
    apply StepCase.quiet happends
    · unfold World.publishes
      rw [hwork, hevent]
    · unfold World.move World.step
      rw [hwork, hevent]
      exact quiet_seedRead hwork now entries
  | seedPublish now mtimeMs ino outcome =>
    have hmove : w.move m
        = (seedPublish w m.ledger walk now mtimeMs ino outcome).1 := by
      unfold World.move World.step
      rw [hwork, hevent]
    cases outcome with
    | failed =>
      apply StepCase.quiet happends
      · unfold World.publishes
        rw [hwork, hevent]
      · rw [hmove]
        unfold seedPublish
        cases walk.queue with
        | nil => exact Quiet.setLedger fun _ => trivial
        | cons item queue => exact Quiet.refl w
    | linked =>
      apply stepCase_linked happends hsound hmove
      unfold World.publishes
      rw [hwork, hevent]
  | _ =>
    apply StepCase.quiet happends
    · unfold World.publishes
      rw [hwork, hevent]
    · unfold World.move World.step
      rw [hwork, hevent]
      exact Quiet.refl w

theorem stepCase (hw : ∀ i, (w.ledgers i).work.Sound) : StepCase w m := by
  cases hwork : (w.ledgers m.ledger).work with
  | idle => exact stepCase_idle hwork
  | seeding walk => exact stepCase_seeding hwork hw
  | appending record => exact stepCase_appending hwork hw
  | renames target name edges => exact stepCase_renaming hwork

-- ======== the runs

/-- A published seed holds its lines. -/
theorem holds_published {canonicalSessionsDir : String}
    (h : (published none canonicalSessionsDir now records mtimeMs
      ino).isSome) :
    Holds (published none canonicalSessionsDir now records mtimeMs ino)
        (seedLines canonicalSessionsDir now records)
      ∧ records.length + 1 ≤ RLM_LEDGER_MAX_RECORDS
      ∧ (payload ((seedLines canonicalSessionsDir now records).map
          RlmLedgerRecord.toJson)).length ≤ RLM_LEDGER_MAX_BYTES := by
  unfold published at h ⊢
  dsimp only at h ⊢
  split at h
  · cases h
  · rename_i hempty
    split at h
    · cases h
    · rename_i hbounds
      rw [if_neg hempty, if_neg hbounds]
      rw [Bool.or_eq_true, decide_eq_true_iff, decide_eq_true_iff, not_or,
        not_lt, not_lt] at hbounds
      exact ⟨rfl, hbounds⟩

theorem inv_move (h : w.Inv) (m : Move) : (w.move m).Inv := by
  obtain ⟨rs, hrs⟩ := h.lines
  cases stepCase (m := m) h.work with
  | quiet happends hpublishes hquiet =>
    exact ⟨⟨rs, by rw [hquiet.file]; exact hrs⟩, hquiet.work h.work⟩
  | append r now mtimeMs ino next happends hpublishes hvalid hnext hmove =>
    rw [hmove]
    refine ⟨?_, work_appendRecord hnext h.work⟩
    rcases file_appendRecord (i := m.ledger) (r := r) hrs with hfile | hfile
    · exact ⟨rs, by rw [hfile.2]; exact hrs⟩
    · exact ⟨_, hfile⟩
  | publish records now mtimeMs ino happends hpublishes hfile hsound hsome
      hmove =>
      rw [hmove]
      refine ⟨⟨_, (holds_published hsome).1⟩, ?_⟩
      intro i
      apply work_setLedger (w := { w with file := _ }) h.work
      exact trivial

theorem bytes_holds {rs : List RlmLedgerRecord} (h : Holds w.file rs) :
    (w.bytes.getD []).length
        = (payload (rs.map RlmLedgerRecord.toJson)).length
      ∧ (w.bytes.getD []).count 0x0a = rs.length := by
  have hbytes : w.bytes.getD [] = payload (rs.map RlmLedgerRecord.toJson) := h
  rw [hbytes, count_payload, List.length_map]
  exact ⟨rfl, rfl⟩

theorem valid_newLines (hr : r.Valid) (i : Nat)
    (now : String) : ∀ line ∈ w.newLines i r now, line.Valid := by
  intro line hline
  unfold World.newLines at hline
  split at hline
  · rw [List.mem_singleton.1 hline]
    exact hr
  · rcases List.mem_cons.1 hline with hline | hline
    · rw [hline]
      exact trivial
    · rw [List.mem_singleton.1 hline]
      exact hr

/-- Behind the records of a readable file, lines can be read exactly if they
have room. -/
theorem readable_append_iff {rs lines : List RlmLedgerRecord}
    {file : Option LedgerFile} (h : Holds w.file rs)
    (hread : Readable w.bytes) (hfile : Holds file (rs ++ lines))
    (hvalid : ∀ r ∈ lines, r.Valid) :
    Readable (file.map (·.bytes)) ↔ w.Room lines := by
  obtain ⟨-, -, hold⟩ := (readable_iff h).1 hread
  obtain ⟨hlength, hcount⟩ := bytes_holds h
  rw [readable_iff hfile, World.Room, hlength, hcount, List.map_append,
    payload_append, List.length_append, List.length_append]
  constructor
  · intro hbounds
    exact ⟨hbounds.2.1, hbounds.1⟩
  · intro hroom
    refine ⟨hroom.2, hroom.1, ?_⟩
    intro r hr
    rcases List.mem_append.1 hr with hr | hr
    · exact hold r hr
    · exact hvalid r hr

theorem readable_seed_iff {canonicalSessionsDir : String}
    (hsound : ∀ r ∈ records, 1 ≤ r.depth)
    (hsome : (published none canonicalSessionsDir now records mtimeMs
      ino).isSome) :
    Readable ((published none canonicalSessionsDir now records mtimeMs
        ino).map (·.bytes))
      ↔ ∀ r ∈ records, r.depth ≤ MAX_SAFE_INTEGER := by
  obtain ⟨hholds, hrecords, hbytes⟩ := holds_published hsome
  rw [readable_iff hholds]
  constructor
  · intro hbounds r hr
    have hvalid : (RlmLedgerRecord.spawn r).Valid := by
      apply hbounds.2.2
      exact List.mem_cons_of_mem _ (List.mem_map_of_mem hr)
    exact hvalid.2
  · intro hdepths
    refine ⟨hbytes, ?_, ?_⟩
    · rwa [seedLines, List.length_cons, List.length_map]
    · intro line hline
      rcases List.mem_cons.1 hline with rfl | hline
      · exact trivial
      · obtain ⟨r, hr, rfl⟩ := List.mem_map.1 hline
        exact ⟨hsound r hr, hdepths r hr⟩

/-- The condition is exact for a step from a readable file. -/
theorem readable_move_iff (m : Move) (h : w.Inv) (hread : Readable w.bytes) :
    Readable (w.move m).bytes ↔ w.Fits m := by
  obtain ⟨rs, hrs⟩ := h.lines
  cases stepCase (m := m) h.work with
  | quiet happends hpublishes hquiet =>
    rw [World.bytes, hquiet.file]
    constructor
    · intro _
      constructor
      · intro r now hr
        rw [happends] at hr
        cases hr
      · intro r hr
        rw [hpublishes] at hr
        cases hr
    · intro _
      exact hread
  | append r now mtimeMs ino next happends hpublishes hvalid hnext hmove =>
    have hsmall := ((readable_iff hrs).1 hread).1
    have hfile : Holds (w.move m).file (rs ++ w.newLines m.ledger r now) := by
      rw [hmove]
      rcases file_appendRecord (i := m.ledger) (r := r) hrs with hfile | hfile
      · rw [(bytes_holds hrs).1] at hfile
        exact absurd hfile.1 (Nat.not_lt.2 hsmall)
      · exact hfile
    rw [World.bytes, readable_append_iff hrs hread hfile
      (valid_newLines hvalid m.ledger now)]
    constructor
    · intro hroom
      constructor
      · intro r' now' hr
        rw [happends] at hr
        cases hr
        exact hroom
      · intro r' hr
        rw [hpublishes] at hr
        cases hr
    · intro hfits
      exact hfits.append r now happends
  | publish records now mtimeMs ino happends hpublishes hfile hsound hsome
      hmove =>
      rw [hmove]
      show Readable ((published none _ now records mtimeMs ino).map _) ↔ _
      rw [readable_seed_iff hsound hsome]
      constructor
      · intro hdepths
        constructor
        · intro r' now' hr
          rw [happends] at hr
          cases hr
        · rw [hpublishes]
          exact hdepths
      · intro hfits
        have hpublish := hfits.publish
        rwa [hpublishes] at hpublish

end

section
variable (canonicalSessionsDir : Nat → String) (hasSeedSource : Nat → Bool)

theorem inv_init : (World.init canonicalSessionsDir hasSeedSource).Inv where
  lines := ⟨[], rfl⟩
  work _ := trivial

theorem readable_init :
    Readable (World.init canonicalSessionsDir hasSeedSource).bytes :=
  fun _ => ⟨[], rfl⟩

/-- The ledger can be read all along a run exactly if everything that is
appended has room, and the depths in a seed are safe integers. -/
theorem readable_along_iff (moves : List Move) :
    Run.Along World.move (fun w => Readable w.bytes)
        (World.init canonicalSessionsDir hasSeedSource) moves
      ↔ Run.Guarded World.move World.Fits
        (World.init canonicalSessionsDir hasSeedSource) moves := by
  apply @Run.along_iff_guarded World Move World.move _ World.Fits World.Inv
  · intro w m h
    exact inv_move h m
  · intro w m h hread
    exact readable_move_iff m h hread
  · exact inv_init canonicalSessionsDir hasSeedSource
  · exact readable_init canonicalSessionsDir hasSeedSource

end

-- ======== locked for good

/-- What a rename appends in the run below. -/
def renamed : RlmLedgerRecord :=
  .rename { at_ := "2026-01-01T00:00:00.000Z", childId := "child"
            child := "/child.jsonl", name := "name" }

/-- What the first of them has before it. -/
def created : RlmLedgerRecord :=
  .metadata { at_ := "2026-01-01T00:00:00.000Z", sessionsDir := "/sessions" }

/-- One rename by one instance. -/
def renameMoves : List Move :=
  [⟨0, id, .appendRename "child" "/child.jsonl" "name"⟩,
    ⟨0, id, .append "2026-01-01T00:00:00.000Z" 0 0⟩]

/-- That many renames, after the seed was attempted. -/
def manyRenames (n : Nat) : List Move :=
  ⟨0, id, .seed none⟩ :: (List.replicate n renameMoves).flatten

/-- Instances without a seed source. -/
def unseeded : World := World.init (fun _ => "/sessions") fun _ => false

/-- The records of so many renames. -/
def renamedLines : Nat → List RlmLedgerRecord
  | 0 => []
  | n + 1 => created :: List.replicate (n + 1) renamed

/-- Between two renames. -/
structure Renamed (w : World) (n : Nat) : Prop where
  idle : (w.ledgers 0).work = .idle
  seeded : (w.ledgers 0).seedAttempted = true
  dir : (w.ledgers 0).canonicalSessionsDir = "/sessions"
  isSome : w.file.isSome = decide (0 < n)
  file : Holds w.file (renamedLines n)

theorem length_renamed : (payload [renamed.toJson]).length = 109 := by
  decide +kernel

theorem length_created : (payload [created.toJson]).length = 78 := by
  decide +kernel

theorem length_payload_replicate (n : Nat) :
    (payload ((List.replicate n renamed).map RlmLedgerRecord.toJson)).length
      = 109 * n := by
  induction n with
  | zero => rfl
  | succ n ih =>
    rw [List.replicate_succ, List.map_cons, ← List.singleton_append,
      payload_append, List.length_append, ih, length_renamed]
    omega

theorem length_payload_renamedLines (n : Nat) :
    (payload ((renamedLines n).map RlmLedgerRecord.toJson)).length
      ≤ 78 + 109 * n := by
  cases n with
  | zero => exact Nat.zero_le _
  | succ n =>
    rw [renamedLines, List.map_cons, ← List.singleton_append,
      payload_append, List.length_append, length_created,
      length_payload_replicate]

/-- An append by the first instance, whatever becomes of it. -/
theorem ledger_appendRecord (w : World) (r : RlmLedgerRecord) (now : String)
    (mtimeMs ino : Nat) :
    ((appendRecord w 0 r now mtimeMs ino .idle).1.ledgers 0).work = .idle
      ∧ ((appendRecord w 0 r now mtimeMs ino .idle).1.ledgers 0).seedAttempted
        = (w.ledgers 0).seedAttempted
      ∧ ((appendRecord w 0 r now mtimeMs ino
          .idle).1.ledgers 0).canonicalSessionsDir
        = (w.ledgers 0).canonicalSessionsDir := by
  unfold appendRecord
  dsimp only
  split <;> exact ⟨rfl, rfl, rfl⟩

theorem isSome_appendRecord (w : World) (r : RlmLedgerRecord) (now : String)
    (mtimeMs ino : Nat) :
    (appendRecord w 0 r now mtimeMs ino .idle).1.file.isSome = true := by
  unfold appendRecord
  cases hfile : w.file with
  | none =>
    rw [World.bytes, hfile]
    rfl
  | some file =>
    dsimp only
    split
    · show w.file.isSome = true
      rw [hfile]
      rfl
    · rfl

theorem move_appendRename {w : World} (hidle : (w.ledgers 0).work = .idle)
    (hseeded : (w.ledgers 0).seedAttempted = true)
    (childId child name : String) :
    w.move ⟨0, id, .appendRename childId child name⟩
      = (appendRename id w 0 childId child name).1 := by
  unfold World.move World.step
  dsimp only
  rw [hidle]
  exact congrArg Prod.fst (if_neg (by rw [hseeded]; decide))

theorem Renamed.init : Renamed (unseeded.move ⟨0, id, .seed none⟩) 0 :=
  ⟨rfl, rfl, rfl, rfl, rfl⟩

theorem Renamed.next {w : World} {n : Nat} (h : Renamed w n)
    (hn : n ≤ RLM_LEDGER_MAX_RECORDS) :
    Renamed (renameMoves.foldl World.move w) (n + 1) := by
  have hstart := move_appendRename h.idle h.seeded "child" "/child.jsonl" "name"
  generalize hv : (appendRename id w 0 "child" "/child.jsonl" "name").1 = v
    at hstart
  have hwork : (v.ledgers 0).work = .appending fun at_ => .rename
      { at_, childId := "child", child := "/child.jsonl", name := "name" } := by
    rw [← hv]
    rfl
  have hseeded : (v.ledgers 0).seedAttempted = true := by
    rw [← hv]
    exact h.seeded
  have hdir : (v.ledgers 0).canonicalSessionsDir = "/sessions" := by
    rw [← hv]
    exact h.dir
  have hfile : v.file = w.file := by
    rw [← hv]
    rfl
  have hholds : Holds v.file (renamedLines n) := by
    rw [hfile]
    exact h.file
  have hmoves : renameMoves.foldl World.move w
      = (appendRecord v 0 renamed "2026-01-01T00:00:00.000Z" 0 0 .idle).1 := by
    rw [renameMoves, List.foldl_cons, hstart, List.foldl_cons, List.foldl_nil]
    unfold World.move World.step
    dsimp only
    rw [hwork]
    rfl
  obtain ⟨hidle, hkeep, hsame⟩ := ledger_appendRecord v renamed
    "2026-01-01T00:00:00.000Z" 0 0
  rw [hmoves]
  refine ⟨hidle, by rw [hkeep, hseeded], by rw [hsame, hdir], ?_, ?_⟩
  · rw [isSome_appendRecord, decide_eq_true (Nat.succ_pos n)]
  · rcases file_appendRecord (i := 0) (r := renamed) hholds with hbig | hnew
    · have hlength := length_payload_renamedLines n
      rw [(bytes_holds hholds).1] at hbig
      have hmax := hbig.1
      rw [RLM_LEDGER_MAX_BYTES] at hmax
      rw [RLM_LEDGER_MAX_RECORDS] at hn
      omega
    · have hlines : renamedLines n
            ++ v.newLines 0 renamed "2026-01-01T00:00:00.000Z"
          = renamedLines (n + 1) := by
        unfold World.newLines
        rw [hfile, h.isSome, hdir]
        cases n with
        | zero => rfl
        | succ n =>
          rw [if_pos (decide_eq_true (Nat.succ_pos n)), renamedLines,
            renamedLines, List.replicate_succ' (n := n + 1)]
          rfl
      rwa [hlines] at hnew

theorem renamed_run (n : Nat) (hn : n ≤ RLM_LEDGER_MAX_RECORDS + 1) :
    Renamed (unseeded.run (manyRenames n)) n := by
  induction n with
  | zero => exact Renamed.init
  | succ n ih =>
    have hlast : unseeded.run (manyRenames (n + 1))
        = renameMoves.foldl World.move (unseeded.run (manyRenames n)) := by
      rw [World.run, manyRenames, List.replicate_succ', List.flatten_append,
        List.flatten_singleton, ← List.cons_append, List.foldl_append]
      rfl
    rw [hlast]
    exact (ih (by omega)).next (by omega)

/-- As many renames as a reader takes records, and the meta record before
them. -/
theorem many_renames_lock_the_ledger :
    ¬Readable (unseeded.run (manyRenames RLM_LEDGER_MAX_RECORDS)).bytes := by
  intro hread
  have hholds := (renamed_run RLM_LEDGER_MAX_RECORDS (Nat.le_succ _)).file
  have hlength := ((readable_iff hholds).1 hread).2.1
  have hpos : RLM_LEDGER_MAX_RECORDS = 99999 + 1 := rfl
  rw [hpos, renamedLines, List.length_cons, List.length_replicate] at hlength
  omega

end OneHarness.Daemon.RlmLedger
