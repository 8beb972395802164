/-
What a setter does to the settings in memory and to the marks: a place that
it assigns gets its value and is marked, the other assigned places keep
theirs (`Remembers.foldlM`, `marked_foldl`), and the marks stay proper
(`Proper.foldlM`).
-/
import OneHarness.Settings.Proofs.Merge

namespace OneHarness.Settings

open Lib

-- ======== the assignments

/-- A setter can assign it. -/
def Assignment.Proper : Assignment → Prop
  | .field name value => name ∉ nestedFields ∧ Lasting name value
  | .nested name key _ _ =>
    name ∈ nestedFields ∧ key ≠ "" ∧ (name = "retry" → key ≠ "maxDelayMs")

/-- No setting of a server with the empty name. -/
def Setter.Named : Setter → Prop
  | .setGlobalMcpServer name _ _ => name ≠ ""
  | .removeGlobalMcpServer name => name ≠ ""
  | _ => True

variable {value : Option Json}

theorem lasting_of_plain {name : String}
    (h : name ∉ ["queueMode", "websockets", "steeringMode", "transport",
      "skills"]) : Lasting name value := by
  simp only [List.mem_cons, List.not_mem_nil, or_false, not_or] at h
  obtain ⟨hqueue, hwebsockets, hsteering, htransport, hskills⟩ := h
  exact ⟨hqueue, hwebsockets, fun heq => absurd heq hsteering,
    fun heq => absurd heq htransport, fun heq => absurd heq hskills⟩

theorem proper_field {name : String}
    (h : name ∉ ["queueMode", "websockets", "steeringMode", "transport",
      "skills"]) (h' : name ∉ nestedFields) :
    (Assignment.field name value).Proper :=
  ⟨h', lasting_of_plain h⟩

theorem proper_skills (paths : List String) :
    (Assignment.field "skills" (some (texts paths))).Proper := by
  refine ⟨by decide, by decide, by decide, nofun, nofun, ?_⟩
  intro _ ms h
  cases h

theorem proper_mode {name : String} {value : Json}
    (h : name = "steeringMode" ∨ name = "transport") :
    (Assignment.field name (some value)).Proper := by
  rcases h with rfl | rfl
  · exact ⟨by decide, by decide, by decide, fun _ => rfl, fun _ => rfl, nofun⟩
  · exact ⟨by decide, by decide, by decide, fun _ => rfl, fun _ => rfl, nofun⟩

theorem proper_nested {name key : String} {creation : Creation}
    (h : name ∈ nestedFields) (hkey : key ≠ "")
    (hretry : name = "retry" → key ≠ "maxDelayMs") :
    (Assignment.nested name key creation value).Proper := ⟨h, hkey, hretry⟩

theorem Setter.proper_assignments {setter : Setter} (h : setter.Named) :
    ∀ a ∈ setter.assignments, a.Proper := by
  intro a ha
  cases setter with
  | setDefaultModelAndProvider provider modelId recentModels =>
    simp only [Setter.assignments, List.mem_cons, List.not_mem_nil,
      or_false] at ha
    rcases ha with rfl | rfl | rfl
    · exact proper_field (by decide) (by decide)
    · exact proper_field (by decide) (by decide)
    · exact proper_field (by decide) (by decide)
  | setSteeringMode mode =>
    rw [List.mem_singleton.1 ha]
    exact proper_mode (.inl rfl)
  | setTransport transport =>
    rw [List.mem_singleton.1 ha]
    exact proper_mode (.inr rfl)
  | setSkillPaths paths =>
    rw [List.mem_singleton.1 ha]
    exact proper_skills paths
  | setProjectSkillPaths paths =>
    rw [List.mem_singleton.1 ha]
    exact proper_skills paths
  | setGlobalMcpServer name config force =>
    rw [List.mem_singleton.1 ha]
    exact proper_nested (by decide) h nofun
  | removeGlobalMcpServer name =>
    rw [List.mem_singleton.1 ha]
    exact proper_nested (by decide) h nofun
  | _ =>
    rw [List.mem_singleton.1 ha]
    first
    | exact proper_field (by decide) (by decide)
    | exact proper_nested (by decide) (by decide) (by decide)

section
variable (name key name' key' : String) (creation : Creation)
  (value : Option Json)

theorem Assignment.field_wanted_field :
    (Assignment.field name value).wanted (.field name')
      = if name' = name then some value else none := by
  simp only [Assignment.wanted, Path.field.injEq]

theorem Assignment.field_wanted_member :
    (Assignment.field name value).wanted (.member name' key') = none := rfl

theorem Assignment.nested_wanted_field :
    (Assignment.nested name key creation value).wanted (.field name')
      = if name' = name then some (some (.obj [])) else none := by
  simp only [Assignment.wanted, Path.field.injEq, reduceCtorEq, if_false]

theorem Assignment.nested_wanted_member :
    (Assignment.nested name key creation value).wanted (.member name' key')
      = if name' = name ∧ key' = key then some value else none := by
  simp only [Assignment.wanted, Path.member.injEq, reduceCtorEq, if_false]

end

-- ======== the memory

/-- The settings have what was most recently set. -/
def Remembers (assignments : List Assignment) (settings : Record) : Prop :=
  ∀ path value, wanted assignments path = some value →
    valueAt settings path = value

theorem wanted_append (as assignments : List Assignment) (path : Path) :
    wanted (as ++ assignments) path
      = (wanted as path).or (wanted assignments path) :=
  List.findSome?_append

theorem wanted_cons (a : Assignment) (assignments : List Assignment)
    (path : Path) :
    wanted (a :: assignments) path
      = (a.wanted path).or (wanted assignments path) := by
  rw [wanted, List.findSome?_cons]
  cases a.wanted path with
  | none => rfl
  | some value => rfl

variable {assignments : List Assignment}

/-- A property that was set is one of an object. -/
theorem wanted_field_of_member
    (hproper : ∀ a ∈ assignments, a.Proper) {name key : String}
    (h : wanted assignments (.member name key) = some value) :
    wanted assignments (.field name) = some (some (.obj []))
      ∧ name ∈ nestedFields := by
  induction assignments with
  | nil => cases h
  | cons a assignments ih =>
    have ih := ih fun b hb => hproper b (List.mem_cons_of_mem _ hb)
    have ha := hproper a List.mem_cons_self
    rw [wanted_cons] at h ⊢
    cases a with
    | field name' value' =>
      rw [Assignment.field_wanted_member, Option.none_or] at h
      obtain ⟨hfield, hnested⟩ := ih h
      have hne : name ≠ name' := fun heq => ha.1 (heq ▸ hnested)
      rw [Assignment.field_wanted_field, if_neg hne, Option.none_or]
      exact ⟨hfield, hnested⟩
    | nested name' key' creation value' =>
      rw [Assignment.nested_wanted_member] at h
      rw [Assignment.nested_wanted_field]
      by_cases hname : name = name'
      · rw [if_pos hname]
        exact ⟨rfl, hname ▸ ha.1⟩
      · rw [if_neg fun heq => hname heq.1, Option.none_or] at h
        rw [if_neg hname, Option.none_or]
        exact ih h

/-- An object is not replaced by a new one. -/
theorem Creation.object_obj (creation : Creation) (ms : Record) :
    creation.object (some (.obj ms)) = .ok ms := by
  cases creation with
  | ifFalsy => rfl
  | ifNotPlain => rfl
  | ifNullish => rfl
  | copy => rfl

variable {settings : Record}

theorem get_of_shape {name : String}
    (h : (settings.get name).map shape = some (.obj [])) :
    ∃ ms, settings.get name = some (.obj ms) := by
  cases hget : settings.get name with
  | none =>
    rw [hget] at h
    cases h
  | some value =>
    rw [hget] at h
    cases value with
    | obj ms => exact ⟨ms, rfl⟩
    | _ => cases h

variable {settings' : Record}

theorem valueAt_field_congr {name : String}
    (h : settings.get name = settings'.get name) :
    valueAt settings (.field name) = valueAt settings' (.field name) := by
  simp only [valueAt, h]

theorem valueAt_member_congr {name : String}
    (h : settings.get name = settings'.get name) (key : String) :
    valueAt settings (.member name key)
      = valueAt settings' (.member name key) := by
  simp only [valueAt, h]

theorem Remembers.field (h : Remembers assignments settings) {name : String}
    (hname : name ∉ nestedFields) :
    Remembers (.field name value :: assignments) (put settings name value) := by
  intro path wantedValue hwanted
  rw [wanted_cons] at hwanted
  cases path with
  | field name' =>
    rw [Assignment.field_wanted_field] at hwanted
    by_cases heq : name' = name
    · rw [if_pos heq, Option.some_or] at hwanted
      rw [heq, valueAt_field_whole _ hname, get_put, if_pos rfl]
      exact Option.some.inj hwanted
    · rw [if_neg heq, Option.none_or] at hwanted
      rw [← h _ _ hwanted]
      apply valueAt_field_congr
      exact get_put_ne settings value fun h => heq h.symm
  | member name' key =>
    rw [Assignment.field_wanted_member, Option.none_or] at hwanted
    rw [← h _ _ hwanted]
    by_cases heq : name = name'
    · rw [← heq, valueAt_member_whole _ _ hname, valueAt_member_whole _ _ hname]
    · exact valueAt_member_congr (get_put_ne settings value heq) key

theorem Remembers.nested (h : Remembers assignments settings)
    (hproper : ∀ a ∈ assignments, a.Proper) {name key : String}
    {creation : Creation} {object : Record}
    (hname : name ∈ nestedFields)
    (hobject : creation.object (settings.get name) = .ok object) :
    Remembers (.nested name key creation value :: assignments)
      (settings.set name (.obj (put object key value))) := by
  intro path wantedValue hwanted
  rw [wanted_cons] at hwanted
  cases path with
  | field name' =>
    rw [Assignment.nested_wanted_field] at hwanted
    by_cases heq : name' = name
    · rw [if_pos heq, Option.some_or] at hwanted
      rw [heq, valueAt_field_nested _ hname, JsMap.get_set_self]
      exact Option.some.inj hwanted
    · rw [if_neg heq, Option.none_or] at hwanted
      rw [← h _ _ hwanted]
      apply valueAt_field_congr
      exact JsMap.get_set_ne _ _ fun h => heq h.symm
  | member name' key' =>
    rw [Assignment.nested_wanted_member] at hwanted
    by_cases heq : name' = name
    · subst heq
      rw [valueAt_member_nested _ _ hname, JsMap.get_set_self,
        Option.bind_some, spread_obj, get_put]
      by_cases hkey : key' = key
      · rw [if_pos ⟨rfl, hkey⟩, Option.some_or] at hwanted
        rw [if_pos hkey.symm]
        exact Option.some.inj hwanted
      · rw [if_neg fun h => hkey h.2, Option.none_or] at hwanted
        -- the property is one of an object, which the setter keeps
        have hshape := h _ _ (wanted_field_of_member hproper hwanted).1
        rw [valueAt_field_nested _ hname] at hshape
        obtain ⟨ms, hms⟩ := get_of_shape hshape
        rw [hms, Creation.object_obj] at hobject
        rw [if_neg fun h => hkey h.symm, ← Except.ok.inj hobject,
          ← h _ _ hwanted, valueAt_member_nested _ _ hname, hms]
        rfl
    · rw [if_neg fun h => heq h.1, Option.none_or] at hwanted
      rw [← h _ _ hwanted]
      apply valueAt_member_congr
      exact JsMap.get_set_ne _ _ fun h => heq h.symm

/-- An assignment that goes through sets its field. -/
theorem Assignment.apply_nested {name key : String} {creation : Creation}
    (h : (Assignment.nested name key creation value).apply settings
      = .ok settings') :
    ∃ object, creation.object (settings.get name) = .ok object
      ∧ settings' = settings.set name (.obj (put object key value)) := by
  simp only [Assignment.apply] at h
  cases hobject : creation.object (settings.get name) with
  | error e =>
    rw [hobject] at h
    cases h
  | ok object =>
    rw [hobject] at h
    exact ⟨object, rfl, (Except.ok.inj h).symm⟩

variable {a : Assignment}

theorem Remembers.apply (h : Remembers assignments settings)
    (hproper : ∀ a ∈ assignments, a.Proper)
    (ha : a.Proper) (happly : a.apply settings = .ok settings') :
    Remembers (a :: assignments) settings' := by
  cases a with
  | field name value =>
    rw [← Except.ok.inj happly]
    exact h.field ha.1
  | nested name key creation value =>
    obtain ⟨object, hobject, rfl⟩ := Assignment.apply_nested happly
    exact h.nested hproper ha.1 hobject

variable {as : List Assignment}

theorem foldlM_cons_ok
    (h : (a :: as).foldlM Assignment.apply settings = .ok settings') :
    ∃ mid, a.apply settings = .ok mid
      ∧ as.foldlM Assignment.apply mid = .ok settings' := by
  rw [List.foldlM_cons] at h
  cases hmid : a.apply settings with
  | error e =>
    rw [hmid] at h
    cases h
  | ok mid =>
    rw [hmid] at h
    exact ⟨mid, rfl, h⟩

theorem Remembers.foldlM (h : Remembers assignments settings)
    (hproper : ∀ a ∈ assignments, a.Proper) (has : ∀ a ∈ as, a.Proper)
    (hfold : as.foldlM Assignment.apply settings = .ok settings') :
    Remembers (as.reverse ++ assignments) settings' := by
  induction as generalizing assignments settings with
  | nil =>
    rw [← Except.ok.inj hfold]
    exact h
  | cons a as ih =>
    obtain ⟨mid, hmid, hrest⟩ := foldlM_cons_ok hfold
    have ha := has a List.mem_cons_self
    rw [List.reverse_cons, List.append_assoc]
    apply ih (h.apply hproper ha hmid) _ _ hrest
    · intro b hb
      rcases List.mem_cons.1 hb with rfl | hb
      · exact ha
      · exact hproper b hb
    · exact fun b hb => has b (List.mem_cons_of_mem _ hb)

-- ======== the marks

theorem mem_insert {keys : List String} {key key' : String} :
    key' ∈ insert keys key ↔ key' = key ∨ key' ∈ keys := by
  unfold insert
  by_cases h : key ∈ keys
  · rw [if_pos h]
    constructor
    · exact .inr
    · rintro (rfl | hmem)
      · exact h
      · exact hmem
  · rw [if_neg h, List.mem_append, List.mem_singleton]
    exact or_comm

variable {held : ScopedSettings}

/-- An assignment marks its places, and no others. -/
theorem marked_markModified
    (h : ∀ name keys, held.modifiedNestedFields.get name = some keys →
      name ∈ held.modifiedFields)
    (ha : a.Proper) (path : Path) :
    (held.markModified a).Marked path
      ↔ (a.wanted path).isSome ∨ held.Marked path := by
  cases a with
  | field name value =>
    cases path with
    | field name' =>
      rw [Assignment.field_wanted_field]
      show name' ∈ insert held.modifiedFields name ↔ _
      rw [mem_insert]
      apply or_congr_left
      by_cases heq : name' = name
      · simp [heq]
      · simp [heq]
    | member name' key =>
      rw [Assignment.field_wanted_member]
      show (name' ∈ insert held.modifiedFields name ∧ _) ↔ _
      constructor
      · rintro ⟨-, keys, hkeys, hkey⟩
        exact .inr ⟨h name' keys hkeys, keys, hkeys, hkey⟩
      · rintro (hnone | ⟨hname, hkeys⟩)
        · cases hnone
        · exact ⟨mem_insert.2 (.inr hname), hkeys⟩
  | nested name key creation value =>
    have hkey := ha.2.1
    cases path with
    | field name' =>
      rw [Assignment.nested_wanted_field]
      show name' ∈ insert held.modifiedFields name ↔ _
      rw [mem_insert]
      apply or_congr_left
      by_cases heq : name' = name
      · simp [heq]
      · simp [heq]
    | member name' key' =>
      rw [Assignment.nested_wanted_member]
      simp only [ScopedSettings.Marked, Covers,
        ScopedSettings.markModified, if_neg hkey, mem_insert,
        JsMap.get_set]
      by_cases heq : name' = name
      · subst heq
        simp only [true_or, true_and, if_true, Option.some.injEq,
          exists_eq_left', mem_insert]
        constructor
        · rintro (hk | hold)
          · exact .inl (by simp [hk])
          · cases hkeys : held.modifiedNestedFields.get name' with
            | none =>
              rw [hkeys] at hold
              cases hold
            | some keys =>
              rw [hkeys] at hold
              exact .inr ⟨h name' keys hkeys, keys, rfl, hold⟩
        · rintro (hsome | ⟨-, keys, hkeys, hmem⟩)
          · left
            by_contra hne
            simp [hne] at hsome
          · right
            rw [hkeys]
            exact hmem
      · have hne : ¬ name = name' := fun h => heq h.symm
        simp only [heq, hne, false_or, false_and, if_false,
          Option.isSome_none, Bool.false_eq_true]

section
variable (h : Settings.Proper settings held.modifiedFields held.modifiedNestedFields)
include h

theorem Proper.field {name : String} (hname : name ∉ nestedFields)
    (hvalue : Lasting name value) :
    Settings.Proper (put settings name value)
      (held.markModified (.field name value)).modifiedFields
      (held.markModified (.field name value)).modifiedNestedFields := by
  constructor
  · intro name' hmem hwhole
    by_cases heq : name' = name
    · subst heq
      rw [get_put, if_pos rfl]
      refine ⟨?_, hvalue⟩
      cases hkeys : held.modifiedNestedFields.get name' with
      | none => exact hkeys
      | some keys =>
        have hmarked := h.marked name' keys hkeys
        rw [(h.whole name' hmarked hwhole).1] at hkeys
        cases hkeys
    · rw [get_put, if_neg fun h => heq h.symm]
      exact h.whole name' ((mem_insert.1 hmem).resolve_left heq) hwhole
  · intro name' hmem hnested
    have hne : name' ≠ name := fun heq => hname (heq ▸ hnested)
    rw [get_put, if_neg hne.symm]
    exact h.parts name' ((mem_insert.1 hmem).resolve_left hne) hnested
  · intro name' keys hkeys
    exact mem_insert.2 (.inr (h.marked name' keys hkeys))

theorem Proper.nested {name key : String} {creation : Creation}
    {object : Record} (ha : (Assignment.nested name key creation value).Proper) :
    Settings.Proper (settings.set name (.obj object))
      (held.markModified (.nested name key creation value)).modifiedFields
      (held.markModified
        (.nested name key creation value)).modifiedNestedFields := by
  obtain ⟨hname, hkey, hretry⟩ := ha
  simp only [ScopedSettings.markModified, if_neg hkey]
  constructor
  · intro name' hmem hwhole
    have hne : name' ≠ name := fun heq => hwhole (heq ▸ hname)
    rw [JsMap.get_set_ne _ _ hne.symm, JsMap.get_set_ne _ _ hne.symm]
    exact h.whole name' ((mem_insert.1 hmem).resolve_left hne) hwhole
  · intro name' hmem hnested
    by_cases heq : name' = name
    · subst heq
      rw [JsMap.get_set_self, JsMap.get_set_self]
      refine ⟨⟨object, rfl⟩, _, rfl, ?_⟩
      intro hname' hdelay
      rcases mem_insert.1 hdelay with heq | hold
      · exact hretry hname' heq.symm
      · cases hkeys : held.modifiedNestedFields.get name' with
        | none =>
          rw [hkeys] at hold
          cases hold
        | some keys =>
          obtain ⟨-, keys', hkeys', hdelay'⟩ :=
            h.parts name' (h.marked name' keys hkeys) hnested
          rw [hkeys'] at hold
          exact hdelay' hname' hold
    · rw [JsMap.get_set_ne _ _ fun h => heq h.symm,
        JsMap.get_set_ne _ _ fun h => heq h.symm]
      exact h.parts name' ((mem_insert.1 hmem).resolve_left heq) hnested
  · intro name' keys hkeys
    by_cases heq : name' = name
    · exact mem_insert.2 (.inl heq)
    · rw [JsMap.get_set_ne _ _ fun h => heq h.symm] at hkeys
      exact mem_insert.2 (.inr (h.marked name' keys hkeys))

theorem Proper.apply (ha : a.Proper)
    (happly : a.apply settings = .ok settings') :
    Settings.Proper settings' (held.markModified a).modifiedFields
      (held.markModified a).modifiedNestedFields := by
  cases a with
  | field name value =>
    rw [← Except.ok.inj happly]
    exact Proper.field h ha.1 ha.2
  | nested name key creation value =>
    obtain ⟨object, -, rfl⟩ := Assignment.apply_nested happly
    exact Proper.nested h ha

/-- What the assignments of a setter do to the marks. -/
theorem Proper.foldlM (has : ∀ a ∈ as, a.Proper)
    (hfold : as.foldlM Assignment.apply settings = .ok settings') :
    Settings.Proper settings'
        (as.foldl ScopedSettings.markModified held).modifiedFields
        (as.foldl ScopedSettings.markModified held).modifiedNestedFields
      ∧ ∀ path, (as.foldl ScopedSettings.markModified held).Marked path
          ↔ (wanted as.reverse path).isSome ∨ held.Marked path := by
  induction as generalizing settings held with
  | nil =>
    rw [← Except.ok.inj hfold]
    exact ⟨h, fun path => by simp [wanted]⟩
  | cons a as ih =>
    obtain ⟨mid, hmid, hrest⟩ := foldlM_cons_ok hfold
    have ha := has a List.mem_cons_self
    have has' : ∀ b ∈ as, b.Proper := fun b hb =>
      has b (List.mem_cons_of_mem _ hb)
    obtain ⟨hproper, hmarked⟩ := ih (Proper.apply h ha hmid) has' hrest
    refine ⟨hproper, fun path => ?_⟩
    have hwanted : wanted [a] path = a.wanted path := by
      rw [wanted_cons]
      exact Option.or_none
    rw [List.foldl_cons, hmarked path, marked_markModified h.marked ha,
      List.reverse_cons, wanted_append, hwanted, Option.isSome_or,
      Bool.or_eq_true, or_assoc]

end

end OneHarness.Settings
