/-
What a write makes of the file, place by place: the places that it carries
get the value of its snapshot, the others keep theirs
(`valueAt_mergeSettings`), and the result needs no migration
(`migrated_mergeSettings`). Both rest on what the setters can have marked
(`Proper`).
-/
import OneHarness.Settings.Paths
import OneHarness.Settings.Proofs.Migration

namespace OneHarness.Settings

open Lib

-- ======== the marks

/-- A value that the migration lets stand in a field that is set whole. -/
structure Lasting (name : String) (value : Option Json) : Prop where
  queueMode : name ≠ "queueMode"
  websockets : name ≠ "websockets"
  steeringMode : name = "steeringMode" → value.isSome
  transport : name = "transport" → value.isSome
  skills : name = "skills" → ∀ ms, value ≠ some (.obj ms)

/-- Each marked field was set whole, or one property at a time. -/
structure Proper (settings : Record) (fields : List String)
    (nested : JsMap String (List String)) : Prop where
  whole : ∀ name ∈ fields, name ∉ nestedFields →
    nested.get name = none ∧ Lasting name (settings.get name)
  parts : ∀ name ∈ fields, name ∈ nestedFields →
    (∃ ms, settings.get name = some (.obj ms))
      ∧ ∃ keys, nested.get name = some keys
        ∧ (name = "retry" → "maxDelayMs" ∉ keys)
  marked : ∀ name keys, nested.get name = some keys → name ∈ fields

def QueuedWrite.Proper (q : QueuedWrite) : Prop :=
  Settings.Proper q.snapshotSettings q.modifiedFields q.modifiedNestedFields

def ScopedSettings.Proper (held : ScopedSettings) : Prop :=
  Settings.Proper held.settings held.modifiedFields held.modifiedNestedFields

-- ======== the merge

theorem get_foldl_put (f : String → Option Json) (keys : List String)
    (base : Record) (key : String) :
    (keys.foldl (fun merged key => put merged key (f key)) base).get key
      = if key ∈ keys then f key else base.get key := by
  induction keys generalizing base with
  | nil => rfl
  | cons k keys ih =>
    rw [List.foldl_cons, ih, get_put]
    by_cases hk : k = key
    · subst hk
      by_cases hmem : k ∈ keys
      · rw [if_pos hmem, if_pos (List.mem_cons_of_mem _ hmem)]
      · rw [if_neg hmem, if_pos rfl, if_pos List.mem_cons_self]
    · rw [if_neg hk]
      by_cases hmem : key ∈ keys
      · rw [if_pos hmem, if_pos (List.mem_cons_of_mem _ hmem)]
      · rw [if_neg hmem, if_neg]
        intro hcons
        rcases List.mem_cons.1 hcons with heq | hin
        · exact hk heq.symm
        · exact hmem hin

theorem get_mergeSettings (base : Record) (q : QueuedWrite) (name : String) :
    (mergeSettings base q).get name
      = if name ∈ q.modifiedFields then
          mergedField base q.snapshotSettings q.modifiedNestedFields name
        else base.get name :=
  get_foldl_put _ _ _ _

section
variable {base : Record} {q : QueuedWrite} {name : String}

theorem mergedField_whole (hq : q.Proper) (hname : name ∈ q.modifiedFields)
    (hwhole : name ∉ nestedFields) :
    mergedField base q.snapshotSettings q.modifiedNestedFields name
      = q.snapshotSettings.get name := by
  rw [mergedField, (hq.whole name hname hwhole).1]

/-- The properties of a nested field in the file. -/
def baseNested (base : Record) (name : String) : Record :=
  ((base.get name).map spread).getD []

theorem mergedField_nested {keys : List String} {ms : Record}
    (hkeys : q.modifiedNestedFields.get name = some keys)
    (hms : q.snapshotSettings.get name = some (.obj ms)) :
    mergedField base q.snapshotSettings q.modifiedNestedFields name
      = some (.obj (keys.foldl (fun merged key => put merged key (ms.get key))
          (baseNested base name))) := by
  rw [mergedField, hkeys, hms]
  rfl

theorem spread_obj (ms : Record) : spread (.obj ms) = ms := rfl

theorem get_baseNested (base : Record) (name key : String) :
    (baseNested base name).get key
      = (base.get name).bind fun value => (spread value).get key := by
  unfold baseNested
  cases base.get name with
  | none => rfl
  | some value => rfl

section
variable (settings : Record)

theorem valueAt_field_whole (h : name ∉ nestedFields) :
    valueAt settings (.field name) = settings.get name := if_neg h

theorem valueAt_field_nested (h : name ∈ nestedFields) :
    valueAt settings (.field name) = (settings.get name).map shape := if_pos h

theorem valueAt_member_whole (key : String) (h : name ∉ nestedFields) :
    valueAt settings (.member name key) = none := if_neg h

theorem valueAt_member_nested (key : String) (h : name ∈ nestedFields) :
    valueAt settings (.member name key)
      = (settings.get name).bind fun value => (spread value).get key :=
  if_pos h

end

theorem valueAt_mergeSettings_carried (hq : q.Proper) {path : Path}
    (hpath : q.Carries path) :
    valueAt (mergeSettings base q) path = valueAt q.snapshotSettings path := by
  cases path with
  | field name =>
    have hname : name ∈ q.modifiedFields := hpath
    by_cases hnested : name ∈ nestedFields
    · obtain ⟨⟨ms, hms⟩, keys, hkeys, -⟩ := hq.parts name hname hnested
      rw [valueAt_field_nested _ hnested, valueAt_field_nested _ hnested,
        get_mergeSettings, if_pos hname, mergedField_nested hkeys hms, hms]
      rfl
    · rw [valueAt_field_whole _ hnested, valueAt_field_whole _ hnested,
        get_mergeSettings, if_pos hname, mergedField_whole hq hname hnested]
  | member name key =>
    obtain ⟨hname, keys, hkeys, hkey⟩ := hpath
    by_cases hnested : name ∈ nestedFields
    · obtain ⟨⟨ms, hms⟩, -⟩ := hq.parts name hname hnested
      rw [valueAt_member_nested _ _ hnested,
        valueAt_member_nested _ _ hnested, get_mergeSettings, if_pos hname,
        mergedField_nested hkeys hms, hms]
      rw [Option.bind_some, spread_obj, get_foldl_put, if_pos hkey]
      rfl
    · rw [valueAt_member_whole _ _ hnested, valueAt_member_whole _ _ hnested]

theorem valueAt_mergeSettings_apart (hq : q.Proper) {path : Path}
    (hpath : ¬ q.Carries path) :
    valueAt (mergeSettings base q) path = valueAt base path := by
  cases path with
  | field name =>
    have hname : name ∉ q.modifiedFields := hpath
    simp only [valueAt, get_mergeSettings, if_neg hname]
  | member name key =>
    by_cases hnested : name ∈ nestedFields
    · by_cases hname : name ∈ q.modifiedFields
      · obtain ⟨⟨ms, hms⟩, keys, hkeys, -⟩ := hq.parts name hname hnested
        have hkey : key ∉ keys := fun hkey =>
          hpath ⟨hname, keys, hkeys, hkey⟩
        rw [valueAt_member_nested _ _ hnested,
          valueAt_member_nested _ _ hnested, get_mergeSettings,
          if_pos hname, mergedField_nested hkeys hms, ← get_baseNested]
        rw [Option.bind_some, spread_obj, get_foldl_put, if_neg hkey]
      · rw [valueAt_member_nested _ _ hnested,
          valueAt_member_nested _ _ hnested, get_mergeSettings,
          if_neg hname]
    · rw [valueAt_member_whole _ _ hnested, valueAt_member_whole _ _ hnested]

theorem migrated_mergeSettings (hbase : Migrated base) (hq : q.Proper) :
    Migrated (mergeSettings base q) := by
  have hlasting : ∀ name ∈ q.modifiedFields, name ∉ nestedFields →
      Lasting name ((mergeSettings base q).get name) := by
    intro name hname hwhole
    rw [get_mergeSettings, if_pos hname, mergedField_whole hq hname hwhole]
    exact (hq.whole name hname hwhole).2
  have hobject : ∀ name ∈ q.modifiedFields, name ∈ nestedFields →
      ∃ ms, (mergeSettings base q).get name = some (.obj ms) := by
    intro name hname hnested
    obtain ⟨⟨ms, hms⟩, keys, hkeys, -⟩ := hq.parts name hname hnested
    rw [get_mergeSettings, if_pos hname, mergedField_nested hkeys hms]
    exact ⟨_, rfl⟩
  have hkept : ∀ name, name ∉ q.modifiedFields →
      (mergeSettings base q).get name = base.get name := by
    intro name hname
    rw [get_mergeSettings, if_neg hname]
  have hgiven : ∀ name, name ∉ nestedFields →
      (∀ value, Lasting name value → value.isSome) →
      (base.get name).isSome → ((mergeSettings base q).get name).isSome := by
    intro name hwhole hsome hget
    by_cases hname : name ∈ q.modifiedFields
    · exact hsome _ (hlasting name hname hwhole)
    · rw [hkept name hname]
      exact hget
  constructor
  · have hname : "queueMode" ∉ q.modifiedFields := fun hname =>
      (hlasting _ hname (by decide)).queueMode rfl
    rw [hkept _ hname]
    apply hbase.queueMode.imp_right
    exact hgiven _ (by decide) fun value h => h.steeringMode rfl
  · have hname : "websockets" ∉ q.modifiedFields := fun hname =>
      (hlasting _ hname (by decide)).websockets rfl
    rw [hkept _ hname]
    apply hbase.websockets.imp_right
    exact hgiven _ (by decide) fun value h => h.transport rfl
  · by_cases hname : "skills" ∈ q.modifiedFields
    · exact (hlasting _ hname (by decide)).skills rfl
    · rw [hkept _ hname]
      exact hbase.skills
  · intro result hresult
    by_cases hname : "retry" ∈ q.modifiedFields
    · obtain ⟨⟨ms, hms⟩, keys, hkeys, hdelay⟩ :=
        hq.parts _ hname (by decide)
      rw [get_mergeSettings, if_pos hname, mergedField_nested hkeys hms]
        at hresult
      rw [← Json.obj.inj (Option.some.inj hresult), get_foldl_put,
        if_neg (hdelay rfl), get_baseNested]
      cases hget : base.get "retry" with
      | none => rfl
      | some value =>
        apply get_spread_maxDelayMs
        rintro ms rfl
        exact hbase.retry ms hget
    · rw [hkept _ hname] at hresult
      exact hbase.retry result hresult
  · intro value hvalue
    by_cases hname : "telemetry" ∈ q.modifiedFields
    · obtain ⟨ms, hms⟩ := hobject _ hname (by decide)
      exact ⟨ms, Option.some.inj (hvalue.symm.trans hms)⟩
    · rw [hkept _ hname] at hvalue
      exact hbase.telemetry value hvalue
  · intro value hvalue
    by_cases hname : "markdown" ∈ q.modifiedFields
    · obtain ⟨ms, hms⟩ := hobject _ hname (by decide)
      exact ⟨ms, Option.some.inj (hvalue.symm.trans hms)⟩
    · rw [hkept _ hname] at hvalue
      exact hbase.markdown value hvalue

end

end OneHarness.Settings
