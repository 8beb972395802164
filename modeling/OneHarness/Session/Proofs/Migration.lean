/-
A version-1 session migrates without losing context exactly when its draws
are distinct, its compactions point back at entries, and it has a header
(`migratesWhole_iff`).

The loop has a closed form, entry by entry (`migrateV1ToV2_eq`): the `k`th
entry gets the `k`th draw, and a compaction gets the draw of the entry at
its index when that entry is at or before it (`keptId`). An entry behind it
has no id yet, and the header has none to give. Everything else is read off
the closed form.
-/
import OneHarness.Session.Migration
import OneHarness.Session.Proofs.Walks
import Mathlib.Tactic.NormNum

namespace OneHarness.Session

open Lib

-- ======== statement vocabulary

/-- The message an entry adds to the context, which does not depend on its
ids. -/
def RawEntry.message (e : RawEntry) : Option AgentMessage :=
  contextMessage
    { id := ""
      parentId := none
      timestamp := e.timestamp
      body := e.body }

/-- The messages from an index of the file on. -/
def messagesFrom (fs : List RawFileEntry) (i : Nat) : List AgentMessage :=
  (rawEntriesOf (fs.drop i)).filterMap RawEntry.message

/-- A file of version 1: no ids, and compactions name the first entry they
keep by its index. -/
structure VersionOne (fs : List RawFileEntry) : Prop where
  version : Raw.versionOf fs < 2
  ids : ∀ e, .entry e ∈ fs → e.id = none ∧ e.firstKeptEntryId = none
  indexes : ∀ e, .entry e ∈ fs → e.compaction?.isSome →
    e.firstKeptEntryIndex.isSome

/-- The migrated file has what the old one had. -/
structure MigratesWhole (randomUUID : Nat → Nat → String)
    (fs out : List RawFileEntry) : Prop where
  unique : ((rawEntriesOf out).map (·.id)).Nodup
  named : ∀ e ∈ rawEntriesOf out, e.id.isSome
  root : ∀ e, (rawEntriesOf out).head? = some e → e.parentId = none
  linked : (rawEntriesOf out).IsChain fun a b => b.parentId = a.id
  resolves : ∀ (c : Nat) (e : RawEntry) (index : ℚ),
    fs[c]? = some (.entry e) → e.compaction?.isSome →
    e.firstKeptEntryIndex = some index →
    ∃ (i : Nat) (target e' : RawEntry), index = i
      ∧ out[i]? = some (.entry target) ∧ out[c]? = some (.entry e')
      ∧ e'.firstKeptEntryId = target.id
  idempotent : ∀ draws, (Raw.migrateToCurrentVersion draws out).1 = out
  context : ∃ typed, out.map RawFileEntry.typed? = typed.map some
    ∧ ∀ last, (entriesOf typed).getLast? = some last →
      ∃ context, buildSessionContext typed (.id last.id) none = some context
        ∧ ∀ before e comp after, ∀ i : Nat, fs = before ++ .entry e :: after →
          e.body = .compaction comp → e.firstKeptEntryIndex = some (i : ℚ) →
          (∀ e' ∈ rawEntriesOf after, e'.compaction? = none) →
          ∃ entry kept, entry.timestamp = e.timestamp
            ∧ context.messages
              = summaryMessage entry comp kept :: messagesFrom fs i

/-- The id the `n`th entry draws. -/
def drawnId (randomUUID : Nat → Nat → String) (n : Nat) : String :=
  generateId (fun _ => false) (randomUUID n)

/-- How many entries come before an index. -/
def entriesBefore (fs : List RawFileEntry) (i : Nat) : Nat :=
  (rawEntriesOf (fs.take i)).length

/-- What the migration needs of the file and of the draws. -/
structure Migratable (randomUUID : Nat → Nat → String)
    (fs : List RawFileEntry) : Prop where
  draws : ((List.range (rawEntriesOf fs).length).map
    (drawnId randomUUID)).Nodup
  indexes : ∀ (c : Nat) (e : RawEntry) (index : ℚ),
    fs[c]? = some (.entry e) → e.compaction?.isSome →
    e.firstKeptEntryIndex = some index →
    ∃ (i : Nat) (target : RawEntry), index = i ∧ i ≤ c
      ∧ fs[i]? = some (.entry target)
  header : fs = [] ∨ ∃ h, .session h ∈ fs

-- ======== the closed form

/-- The entry with its new ids. -/
def RawEntry.placed (e : RawEntry) (id : String) (parentId : Option String) :
    RawEntry :=
  { e with
    id := some id
    parentId := parentId }

/-- The entry with its index resolved. -/
def RawEntry.relinked (e : RawEntry) (firstKeptEntryId : Option String) :
    RawEntry :=
  { e with
    firstKeptEntryId := firstKeptEntryId
    firstKeptEntryIndex := none }

section
variable (d : Nat → String) (fs : List RawFileEntry)

/-- The parent of the `n`th entry. -/
def prevId : Nat → Option String
  | 0 => none
  | n + 1 => some (d n)

/-- The id a compaction at `c` gets for the line `i`. -/
def keptAt (c i : Nat) : Option String :=
  match fs[i]? with
  | some (.entry _) => if i ≤ c then some (d (entriesBefore fs i)) else none
  | _ => none

/-- The id a compaction at `c` gets for its index. -/
def keptId (c : Nat) (index : ℚ) : Option String :=
  (Raw.index? index).bind (keptAt d fs c)

/-- A line of version 2, from its place in the file. -/
def migratedAt (c : Nat) : RawFileEntry → RawFileEntry
  | .session h => .session { h with version := some (.ofNat 2) }
  | .entry e =>
    let placed := e.placed (d (entriesBefore fs c))
      (prevId d (entriesBefore fs c))
    .entry (if e.compaction?.isSome then
        placed.relinked (e.firstKeptEntryIndex.bind (keptId d fs c))
      else placed)

end

@[simp] theorem rawEntriesOf_append (xs ys : List RawFileEntry) :
    rawEntriesOf (xs ++ ys) = rawEntriesOf xs ++ rawEntriesOf ys :=
  List.filterMap_append

@[simp] theorem rawEntriesOf_session (h : SessionHeader)
    (xs : List RawFileEntry) :
    rawEntriesOf (.session h :: xs) = rawEntriesOf xs := rfl

@[simp] theorem rawEntriesOf_entry (e : RawEntry) (xs : List RawFileEntry) :
    rawEntriesOf (.entry e :: xs) = e :: rawEntriesOf xs := rfl

theorem entriesBefore_append (done rest : List RawFileEntry) :
    entriesBefore (done ++ rest) done.length = (rawEntriesOf done).length := by
  rw [entriesBefore, List.take_left]

variable {index : ℚ} {i : Nat}

theorem index?_eq_some : Raw.index? index = some i ↔ index = i := by
  rw [Raw.index?]
  constructor
  · intro h
    by_cases hindex : index.den = 1 ∧ 0 ≤ index.num
    · rw [if_pos hindex, Option.some.injEq] at h
      rw [← Rat.coe_int_num_of_den_eq_one hindex.1, ← h]
      exact_mod_cast (Int.toNat_of_nonneg hindex.2).symm
    · rw [if_neg hindex] at h
      cases h
  · rintro rfl
    have hindex : (i : ℚ).den = 1 ∧ 0 ≤ (i : ℚ).num :=
      ⟨Rat.den_natCast i, by rw [Rat.num_natCast]; exact Int.natCast_nonneg i⟩
    rw [if_pos hindex, Rat.num_natCast, Int.toNat_natCast]

variable {c : Nat} {target e : RawEntry} {done rest : List RawFileEntry}

section
variable {randomUUID : Nat → Nat → String} {fs : List RawFileEntry}

theorem migratedAt_id {d : Nat → String} {f : RawFileEntry}
    (h : migratedAt d fs c f = .entry target) :
    target.id = some (d (entriesBefore fs c)) := by
  cases f with
  | session _ => cases h
  | entry e =>
    rw [← RawFileEntry.entry.inj h]
    by_cases hc : e.compaction?.isSome = true
    · rw [if_pos hc]
      rfl
    · rw [if_neg hc]
      rfl

theorem linkFirstKept_some {lines : List RawFileEntry}
    {c : CompactionEntry} (hc : e.compaction? = some c)
    (hindex : e.firstKeptEntryIndex = some index) {target : Option RawFileEntry}
    (htarget : Raw.lookup lines index = target)
    {firstKeptEntryId : Option String}
    (hid : (∀ x, target = some (.entry x) → x.id = firstKeptEntryId)
      ∧ ((∀ x, target ≠ some (.entry x)) →
        e.firstKeptEntryId = firstKeptEntryId)) :
    Raw.linkFirstKept e lines
      = { e with
          firstKeptEntryId := firstKeptEntryId
          firstKeptEntryIndex := none } := by
  unfold Raw.linkFirstKept
  rw [hc, hindex]
  dsimp only
  rw [htarget]
  cases target with
  | none =>
    rw [← hid.2 fun x h => by cases h]
  | some f =>
    cases f with
    | session h => rw [← hid.2 fun x h => by cases h]
    | entry x =>
      rw [← hid.1 x rfl]

theorem keptId_of_index {d : Nat → String}
    (hi : i ≤ c) (htarget : fs[i]? = some (.entry target)) :
    keptId d fs c i = some (d (entriesBefore fs i)) := by
  rw [keptId, index?_eq_some.2 rfl, Option.bind_some, keptAt, htarget]
  exact if_pos hi

section
variable (hfs : VersionOne fs)
include hfs

/-- What a compaction is linked to, when the lines before it are done. -/
theorem linkFirstKept_eq (d : Nat → String)
    (parentId : Option String)
    (hsplit : done ++ .entry e :: rest = fs) :
    Raw.linkFirstKept (e.placed (d (entriesBefore fs done.length)) parentId)
        (done.mapIdx (migratedAt d fs) ++ .entry
          (e.placed (d (entriesBefore fs done.length)) parentId) :: rest)
      = if e.compaction?.isSome then
          (e.placed (d (entriesBefore fs done.length)) parentId).relinked
            (e.firstKeptEntryIndex.bind (keptId d fs done.length))
        else e.placed (d (entriesBefore fs done.length)) parentId := by
  have hmem : RawFileEntry.entry e ∈ fs := by
    rw [← hsplit]
    exact List.mem_append_right _ List.mem_cons_self
  cases hc : e.compaction? with
  | none =>
    have hnone : ∀ id, (e.placed id parentId).compaction? = none :=
      fun _ => hc
    unfold Raw.linkFirstKept
    rw [hnone]
    rfl
  | some comp =>
    obtain ⟨index, hindex⟩ :=
      Option.isSome_iff_exists.1 (hfs.indexes e hmem (by rw [hc]; rfl))
    rw [hindex, Option.bind_some, keptId]
    refine linkFirstKept_some (e := e.placed _ parentId) hc hindex rfl ?_
    rw [Raw.lookup]
    cases hi : Raw.index? index with
    | none =>
      exact ⟨fun x h => (by cases h), fun _ => (hfs.ids e hmem).2⟩
    | some i =>
      rw [Option.bind_some, Option.bind_some, keptAt]
      rcases Nat.lt_trichotomy i done.length with hlt | heq | hgt
      · -- a line that is done has its new id
        have hget : fs[i]? = done[i]? := by
          rw [← hsplit, List.getElem?_append_left hlt]
        rw [List.getElem?_append_left (by rwa [List.length_mapIdx]),
          List.getElem?_mapIdx, hget]
        cases hline : done[i]? with
        | none =>
          exact ⟨fun x h => (by cases h), fun _ => (hfs.ids e hmem).2⟩
        | some f =>
          rw [Option.map_some]
          cases f with
          | session h =>
            exact ⟨fun x h => (by cases h), fun _ => (hfs.ids e hmem).2⟩
          | entry target =>
            dsimp only
            rw [if_pos (Nat.le_of_lt hlt)]
            refine ⟨fun x h => ?_, fun h => absurd rfl (h _)⟩
            exact migratedAt_id (Option.some.inj h)
      · -- the compaction itself has one too
        have hget : fs[i]? = some (.entry e) := by
          rw [← hsplit, heq, List.getElem?_append_right (Nat.le_refl _),
            Nat.sub_self]
          rfl
        have hlen : (done.mapIdx (migratedAt d fs)).length = done.length :=
          List.length_mapIdx
        rw [hget, heq, List.getElem?_append_right (by rw [hlen]), hlen,
          Nat.sub_self]
        dsimp only
        rw [if_pos (Nat.le_refl _)]
        refine ⟨fun x h => ?_, fun h => absurd rfl (h _)⟩
        exact (RawFileEntry.entry.inj (Option.some.inj h)) ▸ rfl
      · -- a line behind it has none yet
        have hlen : (done.mapIdx (migratedAt d fs)).length = done.length :=
          List.length_mapIdx
        have hget : fs[i]? = rest[i - done.length - 1]? := by
          rw [← hsplit, List.getElem?_append_right (Nat.le_of_lt hgt),
            List.getElem?_cons, if_neg (by omega)]
        rw [List.getElem?_append_right (by omega), hlen,
          List.getElem?_cons, if_neg (by omega), ← hget]
        cases hline : fs[i]? with
        | none =>
          exact ⟨fun x h => (by cases h), fun _ => (hfs.ids e hmem).2⟩
        | some f =>
          cases f with
          | session h =>
            exact ⟨fun x h => (by cases h), fun _ => (hfs.ids e hmem).2⟩
          | entry target =>
            dsimp only
            rw [if_neg (by omega)]
            refine ⟨fun x h => ?_, fun h => absurd rfl (h _)⟩
            rw [← RawFileEntry.entry.inj (Option.some.inj h)]
            exact (hfs.ids target (List.mem_of_getElem? hline)).1

/-- The loop, line by line. -/
theorem migrateV1ToV2_append (hsplit : done ++ rest = fs) :
    Raw.migrateV1ToV2 randomUUID
        (done.mapIdx (migratedAt (drawnId randomUUID) fs))
        (rawEntriesOf done).length
        (prevId (drawnId randomUUID) (rawEntriesOf done).length) rest
      = fs.mapIdx (migratedAt (drawnId randomUUID) fs) := by
  induction rest generalizing done with
  | nil => rw [Raw.migrateV1ToV2, ← hsplit, List.append_nil]
  | cons f rest ih =>
    have hsplit' : (done ++ [f]) ++ rest = fs := by
      rw [List.append_assoc, List.singleton_append, hsplit]
    have hbefore : entriesBefore fs done.length
        = (rawEntriesOf done).length := by
      rw [← hsplit, entriesBefore_append]
    have hnext := ih hsplit'
    rw [List.mapIdx_concat] at hnext
    cases f with
    | session h =>
      rw [rawEntriesOf_append, List.length_append] at hnext
      rw [Raw.migrateV1ToV2]
      exact hnext
    | entry e =>
      rw [rawEntriesOf_append, List.length_append] at hnext
      have hlink := linkFirstKept_eq hfs (drawnId randomUUID)
        (prevId (drawnId randomUUID) (rawEntriesOf done).length) hsplit
      rw [hbefore] at hlink
      rw [migratedAt, hbefore, ← hlink] at hnext
      rw [Raw.migrateV1ToV2]
      exact hnext

/-- The migration to version 2 in closed form. -/
theorem migrateV1ToV2_eq :
    Raw.migrateV1ToV2 randomUUID [] 0 none fs
      = fs.mapIdx (migratedAt (drawnId randomUUID) fs) := by
  have hnil : ([] : List RawFileEntry) ++ fs = fs := rfl
  exact migrateV1ToV2_append hfs hnil

theorem migrateToCurrentVersion_eq :
    (Raw.migrateToCurrentVersion randomUUID fs).1
      = fs.mapIdx fun c f =>
        Raw.toV3 (migratedAt (drawnId randomUUID) fs c f) := by
  have hlt : ¬Raw.versionOf fs ≥ 3 := fun h =>
    absurd (lt_of_le_of_lt h hfs.version) (by norm_num)
  rw [Raw.migrateToCurrentVersion, if_neg hlt]
  dsimp only
  rw [if_pos hfs.version, migrateV1ToV2_eq hfs, Raw.migrateV2ToV3]
  refine List.ext_getElem? fun i => ?_
  rw [List.getElem?_map, List.getElem?_mapIdx, List.getElem?_mapIdx,
    Option.map_map]
  rfl

end

end

-- ======== reading by entries

variable {n : Nat}

section
variable {fs : List RawFileEntry} {d : Nat → String}

/-- What is read of each entry from its number. -/
theorem filterMap_numbered {γ β : Type} {g : Nat → RawFileEntry → γ}
    {read : γ → Option β} {val : Nat → β}
    (hsession : ∀ c h, read (g c (.session h)) = none)
    (hentry : ∀ c e, read (g c (.entry e)) = some (val (entriesBefore fs c)))
    (hsplit : done ++ rest = fs) :
    (done.mapIdx g).filterMap read
      = (List.range (rawEntriesOf done).length).map val := by
  induction done using List.reverseRecOn generalizing rest with
  | nil => rfl
  | append_singleton done f ih =>
    rw [List.append_assoc] at hsplit
    have hbefore : entriesBefore fs done.length
        = (rawEntriesOf done).length := by
      rw [← hsplit, entriesBefore_append]
    rw [List.mapIdx_concat, List.filterMap_append, ih hsplit,
      rawEntriesOf_append, List.length_append, List.filterMap_cons,
      List.filterMap_nil]
    cases f with
    | session h =>
      rw [hsession]
      exact List.append_nil _
    | entry e =>
      rw [hentry, hbefore]
      have hone : (rawEntriesOf [.entry e]).length = 1 := rfl
      rw [hone, List.range_succ, List.map_append]
      rfl

/-- What is read of each entry from its own data. -/
theorem filterMap_read {γ β : Type} {g : Nat → RawFileEntry → γ}
    {read : γ → Option β} {own : RawEntry → Option β}
    (hsession : ∀ c h, read (g c (.session h)) = none)
    (hentry : ∀ c e, read (g c (.entry e)) = own e) (l : List RawFileEntry) :
    (l.mapIdx g).filterMap read = (rawEntriesOf l).filterMap own := by
  induction l generalizing g with
  | nil => rfl
  | cons f l ih =>
    have htail := ih (g := fun c => g (c + 1)) (fun c => hsession (c + 1))
      fun c => hentry (c + 1)
    rw [List.mapIdx_cons, List.filterMap_cons, htail]
    cases f with
    | session h => rw [hsession, rawEntriesOf_session]
    | entry e => rw [hentry, rawEntriesOf_entry, List.filterMap_cons]

theorem toV3_entry (e : RawEntry) :
    ∃ e', Raw.toV3 (.entry e) = .entry e' ∧ e'.id = e.id
      ∧ e'.parentId = e.parentId ∧ e'.timestamp = e.timestamp
      ∧ e'.body = e.body ∧ e'.firstKeptEntryId = e.firstKeptEntryId := by
  unfold Raw.toV3
  dsimp only
  split
  · exact ⟨_, rfl, rfl, rfl, rfl, rfl, rfl⟩
  · exact ⟨_, rfl, rfl, rfl, rfl, rfl, rfl⟩

/-- What the migrated line of an entry has. -/
theorem migratedAt_entry (d : Nat → String) (fs : List RawFileEntry)
    (c : Nat) (e : RawEntry) :
    ∃ e', Raw.toV3 (migratedAt d fs c (.entry e)) = .entry e'
      ∧ e'.id = some (d (entriesBefore fs c))
      ∧ e'.parentId = prevId d (entriesBefore fs c)
      ∧ e'.timestamp = e.timestamp ∧ e'.body = e.body
      ∧ (e.compaction?.isSome → e'.firstKeptEntryId
        = e.firstKeptEntryIndex.bind (keptId d fs c)) := by
  rw [migratedAt]
  obtain ⟨e', heq, hid, hparent, htime, hbody, hkept⟩ := toV3_entry
    (if e.compaction?.isSome then
      (e.placed (d (entriesBefore fs c))
        (prevId d (entriesBefore fs c))).relinked
        (e.firstKeptEntryIndex.bind (keptId d fs c))
    else e.placed (d (entriesBefore fs c)) (prevId d (entriesBefore fs c)))
  refine ⟨e', heq, ?_⟩
  rw [hid, hparent, htime, hbody, hkept]
  by_cases hc : e.compaction?.isSome = true
  · rw [if_pos hc]
    exact ⟨rfl, rfl, rfl, rfl, fun _ => rfl⟩
  · rw [if_neg hc]
    exact ⟨rfl, rfl, rfl, rfl, fun h => absurd h hc⟩

/-- The ids and parents of the migrated entries, in file order. -/
theorem migrated_pairs (fs : List RawFileEntry) (d : Nat → String) :
    (rawEntriesOf (fs.mapIdx fun c f => Raw.toV3 (migratedAt d fs c f))).map
        (fun e => (e.id, e.parentId))
      = (List.range (rawEntriesOf fs).length).map fun n =>
        (some (d n), prevId d n) := by
  rw [rawEntriesOf, List.map_filterMap]
  refine filterMap_numbered (fun _ _ => rfl) (fun c e => ?_)
    (List.append_nil fs)
  obtain ⟨e', heq, hid, hparent, -⟩ := migratedAt_entry d fs c e
  rw [heq]
  change some (e'.id, e'.parentId) = _
  rw [hid, hparent]

/-- A list is linked when its pairs are those of a numbered chain. -/
theorem isChain_of_pairs {α ι : Type} {l : List α} {id parent : α → ι}
    {f g : Nat → ι}
    (hl : l.map (fun a => (id a, parent a))
      = (List.range n).map fun k => (f k, g k))
    (hstep : ∀ k, g (k + 1) = f k) :
    l.IsChain fun a b => parent b = id a := by
  have hpairs : ∀ (k : Nat) (hk : k < l.length),
      id l[k] = f k ∧ parent l[k] = g k := by
    intro k hk
    have hlen := congrArg List.length hl
    rw [List.length_map, List.length_map, List.length_range] at hlen
    have hget := congrArg (fun m => m[k]?) hl
    simp only [List.getElem?_map, List.getElem?_eq_getElem hk,
      List.getElem?_range (hlen ▸ hk), Option.map_some,
      Option.some.injEq, Prod.mk.injEq] at hget
    exact hget
  refine List.isChain_iff_getElem.2 fun k hk => ?_
  rw [(hpairs (k + 1) hk).2, hstep, (hpairs k (by omega)).1]

theorem head_of_pairs {α ι κ : Type} {l : List α} {id : α → ι}
    {parent : α → κ} {f : Nat → ι} {g : Nat → κ}
    (hl : l.map (fun a => (id a, parent a))
      = (List.range n).map fun k => (f k, g k)) {a : α}
    (ha : l.head? = some a) : parent a = g 0 := by
  cases n with
  | zero =>
    rw [List.range_zero, List.map_nil, List.map_eq_nil_iff] at hl
    rw [hl] at ha
    cases ha
  | succ n =>
    have hhead := congrArg List.head? hl
    rw [List.head?_map, ha, List.range_succ_eq_map, List.map_cons] at hhead
    exact congrArg Prod.snd (Option.some.inj hhead)

-- ======== the typed reading

/-- The body, with the id of the first kept entry. -/
def EntryBody.keeping (body : EntryBody) (firstKeptEntryId : String) :
    EntryBody :=
  match body with
  | .compaction c => .compaction { c with firstKeptEntryId }
  | body => body

/-- A migrated line as it is read. -/
def typedAt (d : Nat → String) (fs : List RawFileEntry) (c : Nat) :
    RawFileEntry → FileEntry
  | .session h => .session { h with version := some (.ofNat 3) }
  | .entry e => .entry
      { id := d (entriesBefore fs c)
        parentId := prevId d (entriesBefore fs c)
        timestamp := e.timestamp
        body := e.body.keeping
          ((e.firstKeptEntryIndex.bind (keptId d fs c)).getD "") }

theorem typed?_migratedAt {f : RawFileEntry}
    (hkept : ∀ e, f = .entry e → e.compaction?.isSome →
      (e.firstKeptEntryIndex.bind (keptId d fs c)).isSome) :
    (Raw.toV3 (migratedAt d fs c f)).typed? = some (typedAt d fs c f) := by
  cases f with
  | session h => rfl
  | entry e =>
    rw [migratedAt, typedAt]
    by_cases hc : e.compaction?.isSome = true
    · obtain ⟨id, hid⟩ := Option.isSome_iff_exists.1 (hkept e rfl hc)
      rw [if_pos hc, hid]
      obtain ⟨id', parentId, timestamp, body, kept, index, hook⟩ := e
      cases body with
      | compaction comp => rfl
      | _ => cases hc
    · rw [if_neg hc]
      obtain ⟨id', parentId, timestamp, body, kept, index, hook⟩ := e
      cases body with
      | compaction comp => exact absurd rfl hc
      | _ => rfl

theorem typed_pairs (fs : List RawFileEntry) (d : Nat → String) :
    (entriesOf (fs.mapIdx (typedAt d fs))).map (fun e => (e.id, e.parentId))
      = (List.range (rawEntriesOf fs).length).map fun n =>
        (d n, prevId d n) := by
  rw [entriesOf, List.map_filterMap]
  exact filterMap_numbered (fun _ _ => rfl) (fun _ _ => rfl)
    (List.append_nil fs)

theorem typed_ids (fs : List RawFileEntry) (d : Nat → String) :
    (entriesOf (fs.mapIdx (typedAt d fs))).map (·.id)
      = (List.range (rawEntriesOf fs).length).map d := by
  have h := congrArg (List.map Prod.fst) (typed_pairs fs d)
  rw [List.map_map, List.map_map] at h
  exact h

theorem contextMessage_keeping (e : RawEntry) (id : String)
    (parentId : Option String) (kept : String) :
    contextMessage
        { id := id
          parentId := parentId
          timestamp := e.timestamp
          body := e.body.keeping kept }
      = e.message := by
  unfold RawEntry.message
  cases e.body <;> rfl

/-- The messages of migrated lines are those of the old ones. -/
theorem messages_typedAt (n : Nat) (l : List RawFileEntry) :
    (entriesOf (l.mapIdx fun c => typedAt d fs (c + n))).filterMap
        contextMessage
      = (rawEntriesOf l).filterMap RawEntry.message := by
  rw [entriesOf, List.filterMap_filterMap]
  exact filterMap_read (fun _ _ => rfl)
    (fun _ e => contextMessage_keeping e _ _ _) l

theorem noCompaction_typedAt {l : List RawFileEntry}
    (h : ∀ e ∈ rawEntriesOf l, e.compaction? = none) :
    NoCompaction (entriesOf (l.mapIdx fun c => typedAt d fs (c + n))) := by
  have hread : (entriesOf (l.mapIdx fun c => typedAt d fs (c + n))).filterMap
      (fun e => e.compaction?.map fun _ => ())
      = (rawEntriesOf l).filterMap fun e => e.compaction?.map fun _ => () := by
    rw [entriesOf, List.filterMap_filterMap]
    refine filterMap_read (fun _ _ => rfl) (fun c e => ?_) l
    rw [typedAt]
    change Option.map _ (SessionEntry.compaction? _) = _
    unfold SessionEntry.compaction? RawEntry.compaction?
    cases e.body <;> rfl
  have hnil : (rawEntriesOf l).filterMap
      (fun e => e.compaction?.map fun _ => ()) = [] :=
    List.filterMap_eq_nil_iff.2 fun e he => by rw [h e he]; rfl
  rw [hnil] at hread
  intro e he
  have hnone := List.filterMap_eq_nil_iff.1 hread e he
  rw [SessionEntry.isCompaction, Option.map_eq_none_iff.1 hnone]
  rfl

end

-- ======== the context

section
variable {fs : List RawFileEntry} {d : Nat → String}

/-- The context at the last entry is that of all of them. -/
theorem context_typed
    (hnd : ((List.range (rawEntriesOf fs).length).map d).Nodup)
    (hne : ∀ n, d n ≠ "") {last : SessionEntry}
    (hlast : (entriesOf (fs.mapIdx (typedAt d fs))).getLast? = some last) :
    buildSessionContext (fs.mapIdx (typedAt d fs)) (.id last.id) none
      = some (contextOfPath (entriesOf (fs.mapIdx (typedAt d fs)))) := by
  have hpairs := typed_pairs fs d
  have hdistinct : DistinctIds (entriesOf (fs.mapIdx (typedAt d fs))) := by
    rw [DistinctIds, typed_ids]
    exact hnd
  have hids : ∀ e ∈ entriesOf (fs.mapIdx (typedAt d fs)), e.id ≠ "" := by
    intro e he
    have hmem := List.mem_map_of_mem (f := (·.id)) he
    rw [typed_ids] at hmem
    obtain ⟨n, -, hn⟩ := List.mem_map.1 hmem
    exact hn ▸ hne n
  have hlinked : Linked (entriesOf (fs.mapIdx (typedAt d fs))) := by
    have hpairs' : (entriesOf (fs.mapIdx (typedAt d fs))).map
        (fun e => (some e.id, e.parentId))
        = (List.range (rawEntriesOf fs).length).map fun n =>
          (some (d n), prevId d n) := by
      have h := congrArg (List.map (Prod.map some id)) hpairs
      rw [List.map_map, List.map_map] at h
      exact h
    have hchain := isChain_of_pairs hpairs' fun _ => rfl
    refine List.IsChain.imp_of_mem_imp (fun a b ha _ hab => ?_) hchain
    exact ⟨hab, hids a ha⟩
  have hroot : ∀ root, (entriesOf (fs.mapIdx (typedAt d fs))).head?
      = some root → parentOf (indexOf
        (entriesOf (fs.mapIdx (typedAt d fs)))) root = none := by
    intro root hhead
    rw [parentOf, head_of_pairs hpairs hhead]
    rfl
  have hget : ∀ e ∈ entriesOf (fs.mapIdx (typedAt d fs)),
      (indexOf (entriesOf (fs.mapIdx (typedAt d fs)))).get e.id = some e :=
    fun e he => indexOf_get hdistinct he
  have hcontext : buildSessionContext (fs.mapIdx (typedAt d fs))
      (.id last.id) none = _ :=
    buildSessionContext_id (hids last (List.mem_of_getLast? hlast))
      (hget last (List.mem_of_getLast? hlast))
  obtain ⟨front, hfront⟩ := List.getLast?_eq_some_iff.1 hlast
  have hwalk : walk (indexOf (entriesOf (fs.mapIdx (typedAt d fs)))) last
      = some (front ++ [last]) := by
    refine walk_of_linked (hfront ▸ hlinked)
      (fun e he => hget e ?_) (hfront ▸ hroot)
    rw [hfront]
    exact List.mem_append_left _ he
  rw [hwalk, ← hfront] at hcontext
  exact hcontext

/-- The migrated entries around a line. -/
theorem typed_split (d : Nat → String) (fs : List RawFileEntry) (n : Nat)
    (before after : List RawFileEntry) (e : RawEntry) :
    ∃ entry, typedAt d fs (before.length + n) (.entry e) = .entry entry
      ∧ entriesOf ((before ++ .entry e :: after).mapIdx
          fun c => typedAt d fs (c + n))
        = entriesOf (before.mapIdx fun c => typedAt d fs (c + n))
          ++ entry :: entriesOf (after.mapIdx
            fun c => typedAt d fs (c + (before.length + 1 + n))) := by
  refine ⟨_, rfl, ?_⟩
  rw [List.mapIdx_append, List.mapIdx_cons, entriesOf_append, Nat.zero_add]
  have hshift : (fun i => typedAt d fs (i + 1 + before.length + n))
      = fun c => typedAt d fs (c + (before.length + 1 + n)) := by
    funext i
    exact congrArg (typedAt d fs) (by omega)
  rw [hshift]
  rfl

theorem messagesFrom_append (before after : List RawFileEntry)
    (hi : i ≤ before.length) :
    messagesFrom (before ++ after) i
      = (rawEntriesOf (before.drop i)).filterMap RawEntry.message
        ++ (rawEntriesOf after).filterMap RawEntry.message := by
  rw [messagesFrom, List.drop_append_of_le_length hi, rawEntriesOf_append,
    List.filterMap_append]

/-- What is retained are the messages from the index up to the compaction. -/
theorem retained_migrated {before after : List RawFileEntry}
    (hfs : fs = before ++ .entry e :: after)
    (hdistinct : DistinctIds (entriesOf (fs.mapIdx (typedAt d fs))))
    (hi : i ≤ before.length)
    (htarget : fs[i]? = some (.entry target)) :
    retainedMessages (entriesOf (before.mapIdx (typedAt d fs)))
        (d (entriesBefore fs i))
      = (rawEntriesOf (before.drop i)).filterMap RawEntry.message := by
  have hidx : ∀ (pre post : List RawFileEntry) (x : RawEntry),
      fs = pre ++ .entry x :: post →
      ∃ entry : SessionEntry, entry.id = d (entriesBefore fs pre.length)
        ∧ entriesOf (fs.mapIdx (typedAt d fs))
          = entriesOf (pre.mapIdx (typedAt d fs))
            ++ entry :: entriesOf (post.mapIdx
              fun c => typedAt d fs (c + (pre.length + 1 + 0))) := by
    intro pre post x hsplit
    obtain ⟨entry, hentry, hlist⟩ := typed_split d fs 0 pre post x
    rw [← hsplit] at hlist
    exact ⟨entry, (FileEntry.entry.inj hentry) ▸ rfl, hlist⟩
  rcases Nat.lt_or_eq_of_le hi with hlt | rfl
  · -- an entry before the compaction: what is retained starts there
    have hsame : before[i]? = some (.entry target) := by
      rw [← htarget, hfs, List.getElem?_append_left hlt]
    obtain ⟨hlen, hget⟩ := List.getElem?_eq_some_iff.1 hsame
    have hbefore : before
        = before.take i ++ .entry target :: before.drop (i + 1) := by
      rw [← hget, List.getElem_cons_drop, List.take_append_drop]
    have hlength : (before.take i).length = i :=
      List.length_take_of_le (Nat.le_of_lt hlt)
    obtain ⟨entry, hentry, hlist⟩ := hidx (before.take i)
      (before.drop (i + 1) ++ .entry e :: after) target (by
        rw [hfs, ← List.cons_append, ← List.append_assoc, ← hbefore])
    obtain ⟨entry', hentry', hpart⟩ := typed_split d fs 0
      (before.take i) (before.drop (i + 1)) target
    rw [← hbefore] at hpart
    have hid : entry'.id = d (entriesBefore fs i) := by
      rw [← FileEntry.entry.inj hentry', Nat.add_zero, hlength]
    rw [hlist] at hdistinct
    have hne : ∀ x ∈ entriesOf ((before.take i).mapIdx (typedAt d fs)),
        x.id ≠ entry'.id := by
      intro x hx
      rw [hid, ← hlength, ← hentry]
      exact hdistinct.ne_before hx
    change entriesOf (before.mapIdx (typedAt d fs)) = _ at hpart
    rw [← hid, hpart]
    have hretained := retainedMessages_split
      (entriesOf ((before.drop (i + 1)).mapIdx
        fun c => typedAt d fs (c + ((before.take i).length + 1 + 0)))) hne
    refine hretained.trans ?_
    have hdrop : before.drop i = .entry target :: before.drop (i + 1) := by
      rw [← hget, List.getElem_cons_drop]
    rw [hdrop, rawEntriesOf_entry, List.filterMap_cons, List.filterMap_cons,
      messages_typedAt, ← FileEntry.entry.inj hentry', contextMessage_keeping]
  · -- the compaction itself: nothing is retained
    obtain ⟨entry, hentry, hlist⟩ := hidx before after e hfs
    rw [hlist] at hdistinct
    rw [List.drop_length, ← hentry]
    exact retainedMessages_eq_nil fun x hx => hdistinct.ne_before hx

/-- The context has the summary and what the index says, when the index is
that of an entry at or before the compaction. -/
theorem messages_migrated
    (hnd : ((List.range (rawEntriesOf fs).length).map d).Nodup)
    {before after : List RawFileEntry}
    {comp : CompactionEntry}
    (hfs : fs = before ++ .entry e :: after)
    (hbody : e.body = .compaction comp)
    (hindex : e.firstKeptEntryIndex = some (i : ℚ)) (hi : i ≤ before.length)
    (htarget : fs[i]? = some (.entry target))
    (hno : ∀ e' ∈ rawEntriesOf after, e'.compaction? = none) :
    ∃ entry kept, entry.timestamp = e.timestamp
      ∧ (contextOfPath (entriesOf (fs.mapIdx (typedAt d fs)))).messages
        = summaryMessage entry comp kept :: messagesFrom fs i := by
  have hdistinct : DistinctIds (entriesOf (fs.mapIdx (typedAt d fs))) := by
    rw [DistinctIds, typed_ids]
    exact hnd
  have hretained := retained_migrated hfs hdistinct hi htarget
  obtain ⟨entry, hentry, hsplit⟩ := typed_split d fs 0 before
    after e
  rw [← hfs] at hsplit
  change entriesOf (fs.mapIdx (typedAt d fs))
    = entriesOf (before.mapIdx (typedAt d fs)) ++ _ at hsplit
  have hkept : keptId d fs before.length i = some (d (entriesBefore fs i)) :=
    keptId_of_index hi htarget
  have hentry' := (FileEntry.entry.inj hentry).symm
  have htime : entry.timestamp = e.timestamp := by rw [hentry']
  have hcomp : entry.body = .compaction
      { comp with firstKeptEntryId := d (entriesBefore fs i) } := by
    rw [hentry', hindex, Nat.add_zero, Option.bind_some, hkept, hbody]
    rfl
  rw [hsplit] at hdistinct ⊢
  rw [messages_split hcomp (noCompaction_typedAt hno)
    fun x hx => hdistinct.ne_before hx]
  refine ⟨entry, retainedMessages (entriesOf (before.mapIdx (typedAt d fs)))
    (d (entriesBefore fs i)), htime, congrArg (List.cons _) ?_⟩
  have hsilent : e.message = none := by
    rw [RawEntry.message, hbody]
    rfl
  rw [hfs, messagesFrom_append before _ hi, ← hfs, hretained,
    rawEntriesOf_entry, List.filterMap_cons, hsilent, messages_typedAt]

end

-- ======== idempotence

section
variable {randomUUID : Nat → Nat → String}

theorem drawnId_eq (n : Nat) :
    drawnId randomUUID n = String.ofList ((randomUUID n 0).toList.take 8) := by
  rw [drawnId, generateId]
  have hrange : List.range 100 = 0 :: (List.range 99).map Nat.succ :=
    List.range_succ_eq_map
  rw [hrange, List.map_cons, List.find?_cons]
  rfl

/-- A file with a header ends up with the current version. -/
theorem versionOf_migrated {d : Nat → String} {fs : List RawFileEntry}
    {h : SessionHeader} (hmem : .session h ∈ fs) :
    Raw.versionOf (fs.mapIdx fun c f => Raw.toV3 (migratedAt d fs c f))
      = 3 := by
  have hfind : ∀ (l : List RawFileEntry) (g : Nat → RawFileEntry → RawFileEntry),
      (∀ c h, ∃ h', g c (.session h) = .session h'
        ∧ h'.version = some (.ofNat 3)) →
      (∀ c e, ∃ e', g c (.entry e) = .entry e') → .session h ∈ l →
      ((l.mapIdx g).findSome? RawFileEntry.header?).bind (·.version)
        = some (.ofNat 3) := by
    intro l
    induction l with
    | nil => exact fun _ _ _ hmem => absurd hmem List.not_mem_nil
    | cons f l ih =>
      intro g hsession hentry hmem
      rw [List.mapIdx_cons, List.findSome?_cons]
      cases f with
      | session h₀ =>
        obtain ⟨h', heq, hversion⟩ := hsession 0 h₀
        rw [heq]
        exact hversion
      | entry e =>
        obtain ⟨e', heq⟩ := hentry 0 e
        rw [heq]
        refine ih (fun c => g (c + 1)) (fun c => hsession (c + 1))
          (fun c => hentry (c + 1)) ?_
        rcases List.mem_cons.1 hmem with heq | hmem
        · cases heq
        · exact hmem
  have hversion := hfind fs
    (fun c f => Raw.toV3 (migratedAt d fs c f)) (fun c h => ⟨_, rfl, rfl⟩)
    (fun c e => by
      obtain ⟨e', heq, -⟩ := migratedAt_entry d fs c e
      exact ⟨e', heq⟩) hmem
  rw [Raw.versionOf, hversion]
  decide +kernel

/-- The loop keeps the lines that are done. -/
theorem migrateV1ToV2_done (randomUUID : Nat → Nat → String)
    (done : List RawFileEntry) (n : Nat)
    (prevId : Option String) (rest : List RawFileEntry) :
    ∃ tail, Raw.migrateV1ToV2 randomUUID done n prevId rest = done ++ tail := by
  induction rest generalizing done n prevId with
  | nil => exact ⟨[], (List.append_nil done).symm⟩
  | cons f rest ih =>
    cases f with
    | session h =>
      obtain ⟨tail, htail⟩ := ih (done ++ [.session
        { h with version := some (.ofNat 2) }]) n prevId
      exact ⟨_, htail.trans (List.append_assoc ..)⟩
    | entry e =>
      rw [Raw.migrateV1ToV2]
      obtain ⟨tail, htail⟩ := ih _ (n + 1)
        (some (generateId (fun _ => false) (randomUUID n)))
      exact ⟨_, htail.trans (List.append_assoc ..)⟩

theorem linkFirstKept_id (e : RawEntry) (fs : List RawFileEntry) :
    (Raw.linkFirstKept e fs).id = e.id := by
  unfold Raw.linkFirstKept
  split
  · dsimp only
    split
    · rfl
    · rfl
  · rfl

/-- Without a header the first entry is given a new id again. -/
theorem remigrated_head
    (hno : ∀ h, RawFileEntry.session h ∉ RawFileEntry.entry e :: rest) :
    ∃ e' tail, (Raw.migrateToCurrentVersion randomUUID (.entry e :: rest)).1
        = .entry e' :: tail
      ∧ e'.id = some (drawnId randomUUID 0) := by
  have hversion : Raw.versionOf (.entry e :: rest) = 1 := by
    have hnone : (RawFileEntry.entry e :: rest).findSome? RawFileEntry.header?
        = none := by
      rw [List.findSome?_eq_none_iff]
      intro f hf
      cases f with
      | session h => exact absurd hf (hno h)
      | entry _ => rfl
    rw [Raw.versionOf, hnone]
    decide +kernel
  rw [Raw.migrateToCurrentVersion, hversion, if_neg (by norm_num)]
  dsimp only
  rw [if_pos (by norm_num), Raw.migrateV1ToV2]
  obtain ⟨tail, htail⟩ := migrateV1ToV2_done randomUUID
    ([] ++ [.entry (Raw.linkFirstKept
      { e with
        id := some (drawnId randomUUID 0)
        parentId := none } ([] ++ .entry
      { e with
        id := some (drawnId randomUUID 0)
        parentId := none } :: rest))]) (0 + 1)
    (some (drawnId randomUUID 0)) rest
  rw [drawnId] at htail
  rw [htail, Raw.migrateV2ToV3, List.nil_append, List.singleton_append,
    List.map_cons]
  obtain ⟨e', heq, hid, -⟩ := toV3_entry _
  rw [heq]
  exact ⟨e', _, rfl, hid.trans (linkFirstKept_id _ _)⟩

end

-- ======== the result

section
variable {randomUUID : Nat → Nat → String} {fs : List RawFileEntry}

theorem drawnId_ne_nil (huuid : ∀ n i, (randomUUID n i).length = 36)
    (n : Nat) : drawnId randomUUID n ≠ "" := by
  rw [drawnId_eq]
  intro h
  have hlist := congrArg String.toList h
  rw [String.toList_ofList] at hlist
  have hlength := congrArg List.length hlist
  rw [List.length_take, String.length_toList, huuid] at hlength
  cases hlength

theorem migrated_ids (d : Nat → String) :
    (rawEntriesOf (fs.mapIdx fun c f => Raw.toV3 (migratedAt d fs c f))).map
        (·.id)
      = ((List.range (rawEntriesOf fs).length).map d).map some := by
  have h := congrArg (List.map Prod.fst) (migrated_pairs fs d)
  rw [List.map_map, List.map_map] at h
  rw [List.map_map]
  exact h

theorem migrated_getElem? (d : Nat → String) (h : fs[c]? = some (.entry e)) :
    ∃ e', (fs.mapIdx fun c f => Raw.toV3 (migratedAt d fs c f))[c]?
        = some (.entry e')
      ∧ e'.id = some (d (entriesBefore fs c))
      ∧ (e.compaction?.isSome → e'.firstKeptEntryId
        = e.firstKeptEntryIndex.bind (keptId d fs c)) := by
  obtain ⟨e', heq, hid, -, -, -, hkept⟩ :=
    migratedAt_entry d fs c e
  refine ⟨e', ?_, hid, hkept⟩
  rw [List.getElem?_mapIdx, h, Option.map_some, heq]

theorem no_session_migrated (d : Nat → String)
    (hno : ∀ header, RawFileEntry.session header ∉ fs) (header : SessionHeader) :
    RawFileEntry.session header
      ∉ fs.mapIdx fun c f => Raw.toV3 (migratedAt d fs c f) := by
  intro hmem
  obtain ⟨c, hc⟩ := List.mem_iff_getElem?.1 hmem
  rw [List.getElem?_mapIdx] at hc
  obtain ⟨f, hf, heq⟩ := Option.map_eq_some_iff.1 hc
  cases f with
  | session header' => exact hno header' (List.mem_of_getElem? hf)
  | entry e =>
    obtain ⟨e', he', -⟩ := migratedAt_entry d fs c e
    rw [he'] at heq
    cases heq

/-- What the migration needs is enough. -/
theorem Migratable.migratesWhole (hfs : VersionOne fs)
    (huuid : ∀ n i, (randomUUID n i).length = 36)
    (h : Migratable randomUUID fs) :
    MigratesWhole randomUUID fs
      (Raw.migrateToCurrentVersion randomUUID fs).1 := by
  rw [migrateToCurrentVersion_eq hfs]
  have hpairs := migrated_pairs fs (drawnId randomUUID)
  refine ⟨?_, ?_, fun e he => head_of_pairs hpairs he,
    isChain_of_pairs hpairs fun _ => rfl, ?_, fun draws => ?_, ?_⟩
  · rw [migrated_ids]
    exact h.draws.map fun _ _ => Option.some.inj
  · intro e he
    have hmem := List.mem_map_of_mem (f := (·.id)) he
    rw [migrated_ids] at hmem
    obtain ⟨id, -, hid⟩ := List.mem_map.1 hmem
    exact hid ▸ rfl
  · intro c e index hc hcomp hindex
    obtain ⟨i, target, rfl, hi, htarget⟩ := h.indexes c e index hc hcomp hindex
    obtain ⟨e', he', -, hkept⟩ := migrated_getElem? (drawnId randomUUID) hc
    obtain ⟨target', htarget', hid, -⟩ :=
      migrated_getElem? (drawnId randomUUID) htarget
    refine ⟨i, target', e', rfl, htarget', he', ?_⟩
    rw [hkept hcomp, hindex, hid]
    exact keptId_of_index hi htarget
  · rcases h.header with rfl | ⟨header, hheader⟩
    · have hversion : ¬Raw.versionOf [] ≥ 3 := by decide +kernel
      rw [List.mapIdx_nil, Raw.migrateToCurrentVersion, if_neg hversion]
      dsimp only
      rw [if_pos hfs.version]
      rfl
    · rw [Raw.migrateToCurrentVersion,
        if_pos (le_of_eq (versionOf_migrated hheader).symm)]
  · refine ⟨fs.mapIdx (typedAt (drawnId randomUUID) fs), ?_, ?_⟩
    · refine List.ext_getElem? fun c => ?_
      rw [List.getElem?_map, List.getElem?_map, List.getElem?_mapIdx,
        List.getElem?_mapIdx]
      cases hc : fs[c]? with
      | none => rfl
      | some f =>
        refine congrArg some (typed?_migratedAt fun e he hcomp => ?_)
        obtain ⟨index, hindex⟩ := Option.isSome_iff_exists.1
          (hfs.indexes e (he ▸ List.mem_of_getElem? hc) hcomp)
        obtain ⟨i, target, rfl, hi, htarget⟩ :=
          h.indexes c e index (he ▸ hc) hcomp hindex
        rw [hindex, Option.bind_some, keptId_of_index hi htarget]
        rfl
    · intro last hlast
      refine ⟨_, context_typed h.draws (drawnId_ne_nil huuid) hlast, ?_⟩
      intro before e comp after i hsplit hbody hindex hno
      have hc : fs[before.length]? = some (.entry e) := by
        rw [hsplit, List.getElem?_append_right (Nat.le_refl _), Nat.sub_self]
        rfl
      have hcomp : e.compaction?.isSome := by
        rw [RawEntry.compaction?, hbody]
        rfl
      obtain ⟨j, target, hj, hi, htarget⟩ := h.indexes _ e i hc hcomp hindex
      obtain rfl : i = j := by exact_mod_cast hj
      exact messages_migrated h.draws hsplit hbody hindex hi htarget hno

/-- A version-1 file migrates with everything it had exactly when its draws
are distinct, its compactions point at entries at or before them, and it has
a header. -/
theorem migratesWhole_iff (randomUUID : Nat → Nat → String)
    (fs : List RawFileEntry) (hfs : VersionOne fs)
    (huuid : ∀ n i, (randomUUID n i).length = 36) :
    MigratesWhole randomUUID fs (Raw.migrateToCurrentVersion randomUUID fs).1
      ↔ Migratable randomUUID fs := by
  refine ⟨fun h => ?_, Migratable.migratesWhole hfs huuid⟩
  rw [migrateToCurrentVersion_eq hfs] at h
  refine ⟨?_, ?_, ?_⟩
  · have hunique := h.unique
    rw [migrated_ids] at hunique
    exact hunique.of_map some
  · intro c e index hc hcomp hindex
    obtain ⟨i, target', e', rfl, htarget', he', hkeeps⟩ :=
      h.resolves c e index hc hcomp hindex
    obtain ⟨e'', he'', -, hkept⟩ := migrated_getElem? (drawnId randomUUID) hc
    obtain rfl : e' = e'' :=
      RawFileEntry.entry.inj (Option.some.inj (he'.symm.trans he''))
    have hnamed : target'.id.isSome :=
      h.named target' (List.mem_filterMap.2
        ⟨_, List.mem_of_getElem? htarget', rfl⟩)
    rw [← hkeeps, hkept hcomp, hindex, Option.bind_some, keptId,
      index?_eq_some.2 rfl, Option.bind_some, keptAt] at hnamed
    cases hline : fs[i]? with
    | none =>
      rw [hline] at hnamed
      cases hnamed
    | some f =>
      rw [hline] at hnamed
      cases f with
      | session _ => cases hnamed
      | entry target =>
        dsimp only at hnamed
        by_cases hi : i ≤ c
        · exact ⟨i, target, rfl, hi, hline⟩
        · rw [if_neg hi] at hnamed
          cases hnamed
  · cases fs with
    | nil => exact .inl rfl
    | cons f rest =>
      refine .inr ?_
      by_contra hnone
      cases f with
      | session header => exact hnone ⟨header, List.mem_cons_self⟩
      | entry e =>
        -- migrating again with other draws gives the first entry another id
        have hidempotent := h.idempotent fun _ _ =>
          if drawnId randomUUID 0 = "a" then "b" else "a"
        obtain ⟨e₀, heq, hid, -⟩ := migratedAt_entry
          (drawnId randomUUID) (.entry e :: rest) 0 e
        have hno := no_session_migrated (drawnId randomUUID) fun header =>
          fun hmem => hnone ⟨header, hmem⟩
        rw [List.mapIdx_cons, heq] at hidempotent hno
        obtain ⟨e₁, tail, hhead, hid₁⟩ := remigrated_head hno
        rw [hhead] at hidempotent
        have hsame := congrArg RawEntry.id (RawFileEntry.entry.inj
          (List.cons.inj hidempotent).1)
        rw [hid₁, hid, Option.some.injEq, drawnId_eq] at hsame
        have hzero : entriesBefore (.entry e :: rest) 0 = 0 := rfl
        rw [hzero] at hsame
        by_cases ha : drawnId randomUUID 0 = "a"
        · rw [if_pos ha, ha] at hsame
          exact absurd hsame (by decide)
        · rw [if_neg ha] at hsame
          exact ha hsame.symm

end

-- ======== two files

/-- Draws that differ in their first letters. -/
def sampleUuid (n _ : Nat) : String :=
  String.ofList ((List.replicate n 'a' ++ List.replicate 36 'b').take 36)

theorem length_sampleUuid (n i : Nat) : (sampleUuid n i).length = 36 := by
  rw [sampleUuid, String.length_ofList, List.length_take, List.length_append,
    List.length_replicate, List.length_replicate]
  omega

def oldHeader : RawFileEntry :=
  .session
    { version := none
      id := "session"
      timestamp := "2026-01-01T00:00:00.000Z"
      cwd := "/work"
      parentSession := none
      rlmDepth := none
      git := none }

def oldEntry (body : EntryBody) (index : Option ℚ) : RawEntry where
  id := none
  parentId := none
  timestamp := "2026-01-01T00:00:00.000Z"
  body := body
  firstKeptEntryId := none
  firstKeptEntryIndex := index
  hookMessage := false

def oldNote (text : String) : RawFileEntry :=
  .entry (oldEntry (.customMessage
    { customType := text
      content := .text text
      details := none
      display := true }) none)

def oldCompaction (index : ℚ) : RawEntry :=
  oldEntry (.compaction
    { summary := "summary"
      firstKeptEntryId := ""
      tokensBefore := .ofNat 1
      details := none
      fromHook := none
      customInstructions := none
      usage := none
      harnessDigest := none
      harnessStateFingerprint := none }) (some index)

/-- A header, a note, a compaction with its index, and a note. -/
def oldFile (index : ℚ) : List RawFileEntry :=
  [oldHeader, oldNote "before", .entry (oldCompaction index), oldNote "after"]

theorem versionOne_oldFile (index : ℚ) : VersionOne (oldFile index) := by
  have hall : ∀ e, .entry e ∈ oldFile index →
      e = oldCompaction index ∨ ∃ text, .entry e = oldNote text := by
    intro e he
    rw [oldFile] at he
    rcases List.mem_cons.1 he with he | he
    · cases he
    · rcases List.mem_cons.1 he with he | he
      · exact .inr ⟨_, he⟩
      · rcases List.mem_cons.1 he with he | he
        · exact .inl (RawFileEntry.entry.inj he)
        · exact .inr ⟨_, List.mem_singleton.1 he⟩
  constructor
  · have hversion : Raw.versionOf (oldFile index) = (Numeral.ofNat 1).toRat :=
      rfl
    rw [hversion]
    decide +kernel
  · intro e he
    rcases hall e he with rfl | ⟨text, heq⟩
    · exact ⟨rfl, rfl⟩
    · rw [RawFileEntry.entry.inj heq]
      exact ⟨rfl, rfl⟩
  · intro e he hcomp
    rcases hall e he with rfl | ⟨text, heq⟩
    · rfl
    · rw [RawFileEntry.entry.inj heq] at hcomp
      cases hcomp

/-- The compactions of the file are at one place. -/
theorem oldFile_compaction {index' : ℚ}
    (hc : (oldFile index)[c]? = some (.entry e)) (hcomp : e.compaction?.isSome)
    (hindex : e.firstKeptEntryIndex = some index') : c = 2 ∧ index' = index := by
  have hnote : ∀ text, RawFileEntry.entry e ≠ oldNote text := by
    intro text heq
    rw [RawFileEntry.entry.inj heq] at hcomp
    cases hcomp
  have hlen : c < 4 := (List.getElem?_eq_some_iff.1 hc).1
  rcases (by omega : c = 0 ∨ c = 1 ∨ c = 2 ∨ c = 3) with rfl | rfl | rfl | rfl
  · cases hc
  · exact absurd (Option.some.inj hc).symm (hnote "before")
  · rw [← RawFileEntry.entry.inj (Option.some.inj hc)] at hindex
    exact ⟨rfl, (Option.some.inj hindex).symm⟩
  · exact absurd (Option.some.inj hc).symm (hnote "after")

/-- A compaction that keeps the note before it. -/
theorem migratesWhole_oldFile :
    MigratesWhole sampleUuid (oldFile 1)
      (Raw.migrateToCurrentVersion sampleUuid (oldFile 1)).1 := by
  refine (migratesWhole_iff sampleUuid (oldFile 1) (versionOne_oldFile 1)
    length_sampleUuid).2 ⟨?_, ?_, .inr ⟨_, List.mem_cons_self⟩⟩
  · decide +kernel
  · intro c e index hc hcomp hindex
    obtain ⟨rfl, rfl⟩ := oldFile_compaction hc hcomp hindex
    exact ⟨1, _, Nat.cast_one.symm, by omega, rfl⟩

/-- One whose index is that of the note after it: the note has no id yet. -/
theorem not_migratesWhole_oldFile :
    VersionOne (oldFile 3)
      ∧ ¬MigratesWhole sampleUuid (oldFile 3)
        (Raw.migrateToCurrentVersion sampleUuid (oldFile 3)).1 := by
  refine ⟨versionOne_oldFile 3, fun h => ?_⟩
  rw [migrateToCurrentVersion_eq (versionOne_oldFile 3)] at h
  have hc : (oldFile 3)[2]? = some (.entry (oldCompaction 3)) := rfl
  obtain ⟨i, target', e', hi, htarget', he', hkeeps⟩ :=
    h.resolves 2 _ 3 hc rfl rfl
  obtain rfl : i = 3 := by exact_mod_cast hi.symm
  obtain ⟨e'', he'', -, hkept⟩ := migrated_getElem? (drawnId sampleUuid) hc
  obtain rfl : e' = e'' :=
    RawFileEntry.entry.inj (Option.some.inj (he'.symm.trans he''))
  have hnamed : target'.id.isSome :=
    h.named target' (List.mem_filterMap.2
      ⟨_, List.mem_of_getElem? htarget', rfl⟩)
  have hnone : keptId (drawnId sampleUuid) (oldFile 3) 2 3 = none := by
    have hindex : Raw.index? 3 = some 3 := index?_eq_some.2 rfl
    rw [keptId, hindex]
    rfl
  rw [← hkeeps, hkept rfl] at hnamed
  change (keptId (drawnId sampleUuid) (oldFile 3) 2 3).isSome = true at hnamed
  rw [hnone] at hnamed
  cases hnamed

end OneHarness.Session
