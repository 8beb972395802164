/-
The session file read back: one line an entry, and attributions applied
once are applied for good.

# Lines

The text of an entry is an object's JSON, so it starts with a brace and
holds no newline and no zero byte; a file of such lines is cut back into
them and every line is read as its entry (`load_lines`).

# Attributions

`applyChildUsageAttributions` sets the usage of an assistant message to
the last aggregate recorded for it. On distinct ids it is a map
(`applyChildUsageAttributions_eq_map`), it changes nothing it reads, and
doing it twice is doing it once. A list it does not change is `Settled`.
-/
import OneHarness.Lib.Json.Torn
import OneHarness.Session.Proofs.Context
import OneHarness.Session.Store

namespace OneHarness.Session

open Lib Lib.Lines

-- ======== the text of a line

variable (f : FileEntry) (id : String) (all es : List SessionEntry)
  (e : SessionEntry)

/-- The JSON of a file line is an object. -/
theorem toJson_eq_obj : ∃ ms, toJson f = Json.obj ms := by
  cases f with
  | session h => exact ⟨_, rfl⟩
  | entry e => exact ⟨_, rfl⟩

theorem stringify_toJson : ∃ cs, Json.stringify (toJson f) = '{' :: cs := by
  obtain ⟨ms, h⟩ := toJson_eq_obj f
  rw [h, Json.stringify]
  exact ⟨_, rfl⟩

theorem decode_entryText :
    Utf8.decode (entryText f) = Json.stringify (toJson f) :=
  Utf8.decode_encode _

/-- A line is read as what it was written from. -/
theorem parseLine_entryText : parseLine (entryText f) = some (toJson f) := by
  rw [parseLine, decode_entryText, Json.parse_stringify]

theorem parsesAsJson_entryText : parsesAsJson (entryText f) = true := by
  rw [parsesAsJson, parseLine_entryText]
  rfl

/-- The text of an entry starts with a brace. -/
theorem entryText_eq_cons : ∃ bs, entryText f = 0x7b :: bs := by
  obtain ⟨cs, h⟩ := stringify_toJson f
  rw [entryText, h, Utf8.encode_cons]
  exact ⟨_, rfl⟩

theorem entryText_ne_nil : entryText f ≠ [] := by
  obtain ⟨bs, h⟩ := entryText_eq_cons f
  rw [h]
  exact List.cons_ne_nil _ _

/-- No control byte occurs in the text of an entry. -/
theorem control_not_mem_entryText {b : UInt8} (hb : b.toNat < 32)
    (f : FileEntry) : b ∉ entryText f := by
  intro h
  obtain ⟨c, hc, heq⟩ := Utf8.mem_encode h (by omega)
  have hp := Json.printable_stringify (toJson f) c hc
  omega

theorem newline_not_mem_entryText : newline ∉ entryText f :=
  control_not_mem_entryText (by decide) f

-- ======== the file

/-- The file that holds these entries, a line each. -/
def linesOf (fs : List FileEntry) : List UInt8 := joinLines (fs.map entryText)

@[simp] theorem linesOf_nil : linesOf [] = [] := rfl

@[simp] theorem linesOf_append (fs gs : List FileEntry) :
    linesOf (fs ++ gs) = linesOf fs ++ linesOf gs := by
  rw [linesOf, List.map_append, joinLines_append]
  rfl

theorem linesOf_singleton : linesOf [f] = entryLine f := by
  rw [linesOf, List.map_singleton, joinLines_cons, joinLines_nil, entryLine]

theorem flatMap_entryLine (fs : List FileEntry) :
    fs.flatMap entryLine = linesOf fs := by
  rw [linesOf, joinLines, List.flatMap_map]
  rfl

theorem intercalate_newline (ls : List (List UInt8)) (h : ls ≠ []) :
    List.intercalate [newline] ls ++ [newline] = joinLines ls := by
  induction ls with
  | nil => exact absurd rfl h
  | cons l ls ih =>
    cases ls with
    | nil => simp [List.intercalate]
    | cons l' ls =>
      rw [joinLines_cons, ← ih (List.cons_ne_nil _ _)]
      simp [List.intercalate, List.intersperse]

variable {fs : List FileEntry}

/-- A rewrite writes the lines. -/
theorem fileText_eq (h : fs ≠ []) : fileText fs = linesOf fs :=
  intercalate_newline _ (by simpa using h)

theorem newline_not_mem_of_mem_map {l : List UInt8}
    (h : l ∈ fs.map entryText) : newline ∉ l := by
  obtain ⟨f, -, rfl⟩ := List.mem_map.1 h
  exact newline_not_mem_entryText f

theorem parseLine_texts (fs : List FileEntry) :
    (fs.map entryText).filterMap parseLine = fs.map toJson := by
  induction fs with
  | nil => rfl
  | cons f fs ih =>
    rw [List.map_cons, List.filterMap_cons, parseLine_entryText,
      List.map_cons, ih]

-- ======== attributions

/-- The last usage the entries record for a target. -/
def lastUsage (targetId : String) (es : List SessionEntry) : Option Usage :=
  (es.filterMap fun e => attributedUsage targetId (.entry e)).getLast?

theorem lastAttributedUsage_eq (fs : List FileEntry) :
    lastAttributedUsage id fs = lastUsage id (entriesOf fs) := by
  have h : fs.filterMap (attributedUsage id)
      = (entriesOf fs).filterMap fun e => attributedUsage id (.entry e) := by
    induction fs with
    | nil => rfl
    | cons f fs ih =>
      cases f with
      | session hd => exact ih
      | entry e =>
        rw [entriesOf_entry, List.filterMap_cons, List.filterMap_cons, ih]
  rw [lastAttributedUsage, h, lastUsage]

@[simp] theorem setUsage_id (u : Usage) (e : SessionEntry) :
    (setUsage u e).id = e.id := by
  unfold setUsage
  split <;> rfl

@[simp] theorem setUsage_setUsage (u v : Usage) (e : SessionEntry) :
    setUsage u (setUsage v e) = setUsage u e := by
  obtain ⟨id, parentId, timestamp, body⟩ := e
  cases body with
  | message m => cases m <;> rfl
  | _ => rfl

theorem setUsage_of_not_assistant {u : Usage} {e : SessionEntry}
    (h : e.assistant? = none) : setUsage u e = e := by
  obtain ⟨id, parentId, timestamp, body⟩ := e
  cases body with
  | message m =>
    cases m with
    | assistant m => cases h
    | _ => rfl
  | _ => rfl

theorem setUsage_relink (u : Usage) (p : Option String) (e : SessionEntry) :
    setUsage u (relink p e) = relink p (setUsage u e) := by
  obtain ⟨id, parentId, timestamp, body⟩ := e
  cases body with
  | message m => cases m <;> rfl
  | _ => rfl

theorem attributedUsage_setUsage (u : Usage) (e : SessionEntry) :
    attributedUsage id (.entry (setUsage u e))
      = attributedUsage id (.entry e) := by
  obtain ⟨eid, parentId, timestamp, body⟩ := e
  cases body with
  | message m => cases m <;> rfl
  | _ => rfl

theorem attributedUsage_relink (p : Option String) (e : SessionEntry) :
    attributedUsage id (.entry (relink p e))
      = attributedUsage id (.entry e) := by
  obtain ⟨eid, parentId, timestamp, body⟩ := e
  cases body <;> rfl

/-- An entry under the attributions of a session. -/
def settle (all : List SessionEntry) (e : SessionEntry) : SessionEntry :=
  match lastUsage e.id all with
  | some u => setUsage u e
  | none => e

@[simp] theorem settle_id : (settle all e).id = e.id := by
  unfold settle
  split
  · exact setUsage_id _ _
  · rfl

theorem attributedUsage_settle :
    attributedUsage id (.entry (settle all e))
      = attributedUsage id (.entry e) := by
  unfold settle
  split
  · exact attributedUsage_setUsage _ _ _
  · rfl

/-- Settling changes nothing that settling reads. -/
theorem lastUsage_settle :
    lastUsage id (es.map (settle all)) = lastUsage id es := by
  rw [lastUsage, List.filterMap_map, lastUsage]
  simp only [Function.comp_def, attributedUsage_settle]

@[simp] theorem settle_settle : settle all (settle all e) = settle all e := by
  have hid := settle_id all e
  cases h : lastUsage e.id all with
  | none =>
    have he : settle all e = e := by rw [settle, h]
    rw [he, he]
  | some u =>
    have he : settle all e = setUsage u e := by rw [settle, h]
    rw [he, settle, setUsage_id, h]
    exact setUsage_setUsage u u e

/-- Change every entry of a file, and no header. -/
def mapEntries (f : SessionEntry → SessionEntry) (fs : List FileEntry) :
    List FileEntry :=
  fs.map fun
    | .session h => .session h
    | .entry e => .entry (f e)

@[simp] theorem entriesOf_mapEntries (f : SessionEntry → SessionEntry)
    (fs : List FileEntry) :
    entriesOf (mapEntries f fs) = (entriesOf fs).map f := by
  induction fs with
  | nil => rfl
  | cons x fs ih =>
    cases x with
    | session h => exact ih
    | entry e => exact congrArg (f e :: ·) ih

theorem any_isAssistantOf {id : String} (h : ∀ e ∈ entriesOf fs, e.id ≠ id) :
    fs.any (·.isAssistantOf id) = false := by
  rw [List.any_eq_false]
  intro f hf
  cases f with
  | session hd => simp [FileEntry.isAssistantOf]
  | entry e =>
    have hne := h e (List.mem_filterMap.2 ⟨_, hf, rfl⟩)
    simp [FileEntry.isAssistantOf, hne]

theorem applyAttributionsFrom_eq_map {all : List FileEntry}
    (hnd : DistinctIds (entriesOf fs)) :
    applyAttributionsFrom all fs = mapEntries (settle (entriesOf all)) fs := by
  induction fs with
  | nil => rfl
  | cons f fs ih =>
    cases f with
    | session h =>
      rw [applyAttributionsFrom, ih hnd]
      rfl
    | entry e =>
      rw [entriesOf_entry, DistinctIds, List.map_cons, List.nodup_cons] at hnd
      have hany : fs.any (·.isAssistantOf e.id) = false :=
        any_isAssistantOf fun x hx heq =>
          hnd.1 (heq ▸ List.mem_map_of_mem hx)
      rw [applyAttributionsFrom, ih hnd.2, hany, lastAttributedUsage_eq]
      refine congrArg (· :: _) (congrArg FileEntry.entry ?_)
      unfold settle
      cases ha : e.assistant? with
      | some m =>
        cases lastUsage e.id (entriesOf all) <;> rfl
      | none =>
        cases hl : lastUsage e.id (entriesOf all) with
        | none => rfl
        | some u =>
          simp only [Option.isSome_none, Bool.false_and]
          exact (setUsage_of_not_assistant ha).symm

/-- On distinct ids, applying the attributions settles every entry. -/
theorem applyChildUsageAttributions_eq_map (hnd : DistinctIds (entriesOf fs)) :
    applyChildUsageAttributions fs = mapEntries (settle (entriesOf fs)) fs :=
  applyAttributionsFrom_eq_map hnd

/-- Every assistant message carries the last usage recorded for it. -/
def Settled (es : List SessionEntry) : Prop := ∀ e ∈ es, settle es e = e

theorem mapEntries_eq_self {f : SessionEntry → SessionEntry} :
    mapEntries f fs = fs ↔ ∀ e ∈ entriesOf fs, f e = e := by
  induction fs with
  | nil => simp [mapEntries]
  | cons x fs ih =>
    cases x with
    | session h =>
      rw [entriesOf_session, ← ih, mapEntries, List.map_cons, List.cons.injEq]
      exact ⟨fun h => h.2, fun h => ⟨rfl, h⟩⟩
    | entry e =>
      rw [entriesOf_entry, List.forall_mem_cons, ← ih, mapEntries,
        List.map_cons, List.cons.injEq, FileEntry.entry.injEq]
      exact Iff.rfl

/-- A file is loaded as it was written exactly when it is settled. -/
theorem applyChildUsageAttributions_eq_self (hnd : DistinctIds (entriesOf fs)) :
    applyChildUsageAttributions fs = fs ↔ Settled (entriesOf fs) := by
  rw [applyChildUsageAttributions_eq_map hnd, mapEntries_eq_self]
  exact Iff.rfl

/-- What was loaded is settled. -/
theorem settled_map_settle : Settled (es.map (settle es)) := by
  intro x hx
  obtain ⟨e, -, rfl⟩ := List.mem_map.1 hx
  have h : settle (es.map (settle es)) (settle es e)
      = settle es (settle es e) := by
    rw [settle, lastUsage_settle]
    rfl
  rw [h, settle_settle]

-- ======== appending an entry

/-- What an appended entry changes in an earlier one: an attribution sets
the usage of its target. -/
def bump (appended e : SessionEntry) : SessionEntry :=
  match attributedUsage e.id (.entry appended) with
  | some u => setUsage u e
  | none => e

@[simp] theorem bump_id (x e : SessionEntry) : (bump x e).id = e.id := by
  unfold bump
  split
  · exact setUsage_id _ _
  · rfl

theorem attributedUsage_bump (x e : SessionEntry) :
    attributedUsage id (.entry (bump x e)) = attributedUsage id (.entry e) := by
  unfold bump
  split
  · exact attributedUsage_setUsage _ _ _
  · rfl

variable {x : SessionEntry}

theorem bump_eq_self
    (hx : ∀ id, attributedUsage id (.entry x) = none) (e : SessionEntry) :
    bump x e = e := by
  rw [bump, hx]

theorem lastUsage_concat (x : SessionEntry) :
    lastUsage id (es ++ [x])
      = (attributedUsage id (.entry x)).or (lastUsage id es) := by
  rw [lastUsage, List.filterMap_append, List.getLast?_append]
  cases h : attributedUsage id (.entry x) with
  | none => simp [h, lastUsage]
  | some u => simp [h]

theorem lastUsage_map_bump (x : SessionEntry) (es : List SessionEntry) :
    lastUsage id (es.map (bump x)) = lastUsage id es := by
  rw [lastUsage, List.filterMap_map, lastUsage]
  simp only [Function.comp_def, attributedUsage_bump]

/-- Settling under one more entry is settling and then bumping. -/
theorem settle_concat (x e : SessionEntry) :
    settle (es ++ [x]) e = bump x (settle es e) := by
  rw [settle, lastUsage_concat, bump, settle_id]
  cases h : attributedUsage e.id (.entry x) with
  | none => rfl
  | some u =>
    simp only [Option.some_or]
    unfold settle
    split
    · exact (setUsage_setUsage _ _ _).symm
    · rfl

/-- An entry that is new to a session: a fresh id, and none that an
attribution already names. -/
structure Fresh (es : List SessionEntry) (x : SessionEntry) : Prop where
  id : ∀ e ∈ es, e.id ≠ x.id
  unattributed : x.assistant?.isSome = true → lastUsage x.id es = none

/-- A new entry carries no usage but its own. -/
theorem settle_fresh {es : List SessionEntry}
    (h : Fresh es x) : settle (es ++ [x]) x = x := by
  cases ha : x.assistant? with
  | none =>
    unfold settle
    split
    · exact setUsage_of_not_assistant ha
    · rfl
  | some m =>
    have hself : attributedUsage x.id (.entry x) = none := by
      obtain ⟨id, parentId, timestamp, body⟩ := x
      cases body with
      | childUsageAttributed a => cases ha
      | _ => rfl
    rw [settle, lastUsage_concat, hself, Option.none_or,
      h.unattributed (by rw [ha]; rfl)]

/-- A session stays settled when a new entry is appended and bumps its
target. -/
theorem Settled.concat {es : List SessionEntry}
    (h : Settled es) (hx : Fresh es x) :
    Settled (es.map (bump x) ++ [x]) := by
  have hsettle : ∀ e, settle (es.map (bump x) ++ [x]) e
      = settle (es ++ [x]) e := by
    intro e
    rw [settle, settle, lastUsage_concat, lastUsage_concat, lastUsage_map_bump]
  intro e he
  rw [hsettle]
  rcases List.mem_append.1 he with he | he
  · obtain ⟨y, hy, rfl⟩ := List.mem_map.1 he
    have hy' : bump x y = settle (es ++ [x]) y := by
      rw [settle_concat, h y hy]
    rw [hy', settle_settle]
  · rw [List.mem_singleton.1 he]
    exact settle_fresh hx

theorem mapEntries_append (f : SessionEntry → SessionEntry)
    (fs gs : List FileEntry) :
    mapEntries f (fs ++ gs) = mapEntries f fs ++ mapEntries f gs :=
  List.map_append

/-- Loading one more record. -/
theorem finalize_concat {ds : List FileEntry}
    (hnd : DistinctIds (entriesOf ds)) (hx : Fresh (entriesOf ds) x)
    (hne : finalizeLoadedEntries ds ≠ []) :
    finalizeLoadedEntries (ds ++ [.entry x])
      = mapEntries (bump x) (finalizeLoadedEntries ds) ++ [.entry x] := by
  have hnd' : DistinctIds (entriesOf (ds ++ [.entry x])) := by
    rw [entriesOf_append, DistinctIds, List.map_append, List.nodup_append']
    refine ⟨hnd, List.nodup_singleton _, ?_⟩
    intro id hid hid'
    obtain ⟨e, he, rfl⟩ := List.mem_map.1 hid
    exact hx.id e he (by simpa using hid')
  cases ds with
  | nil => exact absurd rfl hne
  | cons f rest =>
    cases f with
    | entry e => exact absurd rfl hne
    | session h =>
      have hmap := applyChildUsageAttributions_eq_map hnd
      have hmap' := applyChildUsageAttributions_eq_map hnd'
      rw [List.cons_append] at hmap' ⊢
      rw [finalizeLoadedEntries, finalizeLoadedEntries, hmap, hmap',
        ← List.cons_append, mapEntries_append, entriesOf_append]
      have hlast : mapEntries
          (settle (entriesOf (.session h :: rest) ++ entriesOf [.entry x]))
          [.entry x] = [.entry x] :=
        congrArg (fun e => [FileEntry.entry e]) (settle_fresh hx)
      rw [hlast]
      refine congrArg (· ++ [FileEntry.entry x]) ?_
      unfold mapEntries
      rw [List.map_map]
      refine List.map_congr_left fun f _ => ?_
      cases f with
      | session h => rfl
      | entry e => exact congrArg FileEntry.entry (settle_concat _ x e)

-- ======== files that were loaded

theorem settle_relink (p : Option String)
    (e : SessionEntry) : settle all (relink p e) = relink p (settle all e) := by
  unfold settle
  rw [relink_id]
  split
  · exact setUsage_relink _ _ _
  · rfl

theorem map_id_applyAttributionsFrom (all fs : List FileEntry) :
    (entriesOf (applyAttributionsFrom all fs)).map (·.id)
      = (entriesOf fs).map (·.id) := by
  induction fs with
  | nil => rfl
  | cons f fs ih =>
    cases f with
    | session h => exact ih
    | entry e =>
      rw [applyAttributionsFrom, entriesOf_entry, entriesOf_entry,
        List.map_cons, List.map_cons, ih]
      refine congrArg (· :: _) ?_
      split
      · exact setUsage_id _ _
      · rfl

/-- A loaded file of distinct ids is settled. -/
theorem settled_of_finalize {ds : List FileEntry}
    (h : finalizeLoadedEntries ds = fs) (hnd : DistinctIds (entriesOf fs)) :
    Settled (entriesOf fs) := by
  unfold finalizeLoadedEntries at h
  split at h
  case h_1 header rest =>
    subst h
    rw [DistinctIds, applyChildUsageAttributions,
      map_id_applyAttributionsFrom] at hnd
    rw [applyChildUsageAttributions_eq_map hnd, entriesOf_mapEntries]
    exact settled_map_settle _
  case h_2 =>
    subst h
    intro e he
    cases he

end OneHarness.Session
