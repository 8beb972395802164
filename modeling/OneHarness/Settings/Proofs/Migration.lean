/-
What the migration leaves behind, and that it leaves that alone: settings
that were migrated once are not changed by another migration
(`Migrated.migrateSettings_eq`).
-/
import OneHarness.Settings.Migration

namespace OneHarness.Settings

open Lib

-- ======== the records

theorem get_put (record : Record) (key key' : String) (value : Option Json) :
    (put record key value).get key'
      = if key = key' then value else record.get key' := by
  cases value with
  | none => exact record.get_delete key key'
  | some value => exact record.get_set key key' value

variable {key : String}

theorem get_put_ne (record : Record) {key' : String}
    (value : Option Json) (h : key ≠ key') :
    (put record key value).get key' = record.get key' := by
  rw [get_put, if_neg h]

theorem set_of_get {record : Record} {value : Json}
    (h : record.get key = some value) : record.set key value = record := by
  induction record with
  | nil => cases h
  | cons p record ih =>
    rw [JsMap.get_cons] at h
    rw [JsMap.set]
    by_cases hp : p.1 = key
    · rw [if_pos hp] at h ⊢
      rw [← hp, ← Option.some.inj h]
    · rw [if_neg hp] at h ⊢
      rw [ih h]

theorem delete_of_get_none {record : Record}
    (h : record.get key = none) : record.delete key = record := by
  rw [JsMap.get_eq_none_iff] at h
  apply List.filter_eq_self.2
  intro p hp
  have hne : p.1 ≠ key := fun heq => h (heq ▸ List.mem_map_of_mem hp)
  exact decide_eq_true hne

/-- The keys of a list or a text are numerals. -/
theorem get_zipIdx {α : Type} (xs : List α) (start : Nat) (f : α → Json)
    (h : ∃ c ∈ key.toList, ¬ c.isDigit) :
    JsMap.get ((xs.zipIdx start).map fun (x, i) => (toString i, f x)) key
      = none := by
  rw [JsMap.get_eq_none_iff, JsMap.keys, List.map_map]
  intro hmem
  obtain ⟨⟨x, i⟩, -, hkey⟩ := List.mem_map.1 hmem
  obtain ⟨c, hc, hdigit⟩ := h
  apply hdigit
  rw [← show toString i = key from hkey, Nat.toString_eq_repr,
    Nat.toList_repr] at hc
  exact Nat.isDigit_of_mem_toDigits (by omega) (by omega) hc

theorem get_spread_maxDelayMs {value : Json}
    (h : ∀ ms, value = .obj ms → JsMap.get ms "maxDelayMs" = none) :
    (spread value).get "maxDelayMs" = none := by
  have hkey : ∃ c ∈ "maxDelayMs".toList, ¬ c.isDigit :=
    ⟨'m', by decide, by decide⟩
  cases value with
  | obj ms => exact h ms rfl
  | arr xs => exact get_zipIdx xs 0 (fun x => x) hkey
  | str s => exact get_zipIdx s.toList 0 (fun c => .str c.toString) hkey
  | null => rfl
  | bool b => rfl
  | num n => rfl

-- ======== each step

/-- What a migration leaves behind. -/
structure Migrated (settings : Record) : Prop where
  queueMode : settings.get "queueMode" = none
    ∨ (settings.get "steeringMode").isSome
  websockets : (∀ b, settings.get "websockets" ≠ some (.bool b))
    ∨ (settings.get "transport").isSome
  skills : ∀ ms, settings.get "skills" ≠ some (.obj ms)
  retry : ∀ ms, settings.get "retry" = some (.obj ms) →
    JsMap.get ms "maxDelayMs" = none
  telemetry : ∀ value, settings.get "telemetry" = some value →
    ∃ ms, value = .obj ms
  markdown : ∀ value, settings.get "markdown" = some value →
    ∃ ms, value = .obj ms

variable (settings : Record)

theorem migrateQueueMode_queueMode :
    (migrateQueueMode settings).get "queueMode" = none
      ∨ ((migrateQueueMode settings).get "steeringMode").isSome := by
  unfold migrateQueueMode
  split
  · split
    · next h => exact .inr h
    · left
      rw [JsMap.get_delete, if_pos rfl]
  · next h => exact .inl h

variable {name : String}

theorem get_migrateWebsockets
    (h : name ≠ "websockets") (h' : name ≠ "transport") :
    (migrateWebsockets settings).get name = settings.get name := by
  unfold migrateWebsockets
  split
  · split
    · rfl
    · rw [JsMap.get_delete, if_neg h.symm, JsMap.get_set_ne _ _ h'.symm]
  · rfl

theorem migrateWebsockets_websockets :
    (∀ b, (migrateWebsockets settings).get "websockets" ≠ some (.bool b))
      ∨ ((migrateWebsockets settings).get "transport").isSome := by
  unfold migrateWebsockets
  split
  · split
    · next h => exact .inr h
    · left
      intro b
      rw [JsMap.get_delete, if_pos rfl]
      exact (Option.some_ne_none _).symm
  · next h => exact .inl h

theorem get_migrateSkills
    (h : name ≠ "skills") (h' : name ≠ "enableSkillCommands") :
    (migrateSkills settings).get name = settings.get name := by
  unfold migrateSkills
  split
  · next skillsSettings hskills =>
      dsimp only
      split
      · rw [JsMap.get_set_ne _ _ h.symm]
        split
        · split
          · rfl
          · exact JsMap.get_set_ne _ _ h'.symm
        · rfl
      · rw [JsMap.get_delete, if_neg h.symm]
        split
        · split
          · rfl
          · exact JsMap.get_set_ne _ _ h'.symm
        · rfl
  · rfl

theorem migrateSkills_skills (ms : Record) :
    (migrateSkills settings).get "skills" ≠ some (.obj ms) := by
  unfold migrateSkills
  split
  · dsimp only
    split
    · rw [JsMap.get_set_self]
      intro h
      cases h
    · rw [JsMap.get_delete, if_pos rfl]
      exact (Option.some_ne_none _).symm
  · next h => exact h ms

theorem get_migrateRetry (h : name ≠ "retry") :
    (migrateRetry settings).get name = settings.get name := by
  unfold migrateRetry
  split
  · exact JsMap.get_set_ne _ _ h.symm
  · rfl

theorem migrateRetry_retry (ms : Record)
    (h : (migrateRetry settings).get "retry" = some (.obj ms)) :
    ms.get "maxDelayMs" = none := by
  unfold migrateRetry at h
  split at h
  · rw [JsMap.get_set_self] at h
    rw [← Json.obj.inj (Option.some.inj h), JsMap.get_delete, if_pos rfl]
  · next hnot => exact absurd h (hnot ms)

theorem get_migrateTelemetry (h : name ≠ "telemetry") :
    (migrateTelemetry settings).get name = settings.get name := by
  unfold migrateTelemetry
  split
  · exact JsMap.get_set_ne _ _ h.symm
  · rfl
  · rw [JsMap.get_delete, if_neg h.symm]
  · rfl

theorem migrateTelemetry_telemetry (value : Json)
    (h : (migrateTelemetry settings).get "telemetry" = some value) :
    ∃ ms, value = .obj ms := by
  unfold migrateTelemetry at h
  split at h
  · rw [JsMap.get_set_self] at h
    exact ⟨_, (Option.some.inj h).symm⟩
  · next ms hms =>
      rw [hms] at h
      exact ⟨ms, (Option.some.inj h).symm⟩
  · rw [JsMap.get_delete, if_pos rfl] at h
    cases h
  · next hnone =>
      rw [hnone] at h
      cases h

theorem get_migrateMarkdown (h : name ≠ "markdown") :
    (migrateMarkdown settings).get name = settings.get name := by
  unfold migrateMarkdown
  split
  · rfl
  · rw [JsMap.get_delete, if_neg h.symm]
  · rfl

theorem migrateMarkdown_markdown (value : Json)
    (h : (migrateMarkdown settings).get "markdown" = some value) :
    ∃ ms, value = .obj ms := by
  unfold migrateMarkdown at h
  split at h
  · next ms hms =>
      rw [hms] at h
      exact ⟨ms, (Option.some.inj h).symm⟩
  · rw [JsMap.get_delete, if_pos rfl] at h
    cases h
  · next hnone =>
      rw [hnone] at h
      cases h

-- ======== the migration

theorem migrated_migrateSettings : Migrated (migrateSettings settings) := by
  unfold migrateSettings
  constructor
  · rw [get_migrateMarkdown _ (by decide), get_migrateTelemetry _ (by decide),
      get_migrateRetry _ (by decide),
      get_migrateSkills _ (by decide) (by decide),
      get_migrateWebsockets _ (by decide) (by decide),
      get_migrateMarkdown _ (by decide), get_migrateTelemetry _ (by decide),
      get_migrateRetry _ (by decide),
      get_migrateSkills _ (by decide) (by decide),
      get_migrateWebsockets _ (by decide) (by decide)]
    exact migrateQueueMode_queueMode settings
  · rw [get_migrateMarkdown _ (by decide), get_migrateTelemetry _ (by decide),
      get_migrateRetry _ (by decide),
      get_migrateSkills _ (by decide) (by decide),
      get_migrateMarkdown _ (by decide), get_migrateTelemetry _ (by decide),
      get_migrateRetry _ (by decide),
      get_migrateSkills _ (by decide) (by decide)]
    exact migrateWebsockets_websockets _
  · rw [get_migrateMarkdown _ (by decide), get_migrateTelemetry _ (by decide),
      get_migrateRetry _ (by decide)]
    exact migrateSkills_skills _
  · rw [get_migrateMarkdown _ (by decide), get_migrateTelemetry _ (by decide)]
    exact migrateRetry_retry _
  · rw [get_migrateMarkdown _ (by decide)]
    exact migrateTelemetry_telemetry _
  · exact migrateMarkdown_markdown _

namespace Migrated

variable {settings}

section
variable (h : Migrated settings)
include h

theorem migrateQueueMode_eq : migrateQueueMode settings = settings := by
  unfold migrateQueueMode
  split
  · next mode hmode =>
      rcases h.queueMode with hnone | hsome
      · rw [hmode] at hnone
        cases hnone
      · exact if_pos hsome
  · rfl

theorem migrateWebsockets_eq : migrateWebsockets settings = settings := by
  unfold migrateWebsockets
  split
  · next b hb =>
      rcases h.websockets with hnone | hsome
      · exact absurd hb (hnone b)
      · exact if_pos hsome
  · rfl

theorem migrateSkills_eq : migrateSkills settings = settings := by
  unfold migrateSkills
  split
  · next ms hms => exact absurd hms (h.skills ms)
  · rfl

theorem migrateRetry_eq : migrateRetry settings = settings := by
  unfold migrateRetry
  split
  · next retry hretry =>
      have hnone := h.retry retry hretry
      have hmove : moveMaxDelay retry = retry := by
        unfold moveMaxDelay
        rw [hnone]
      rw [hmove, delete_of_get_none hnone]
      exact set_of_get hretry
  · rfl

theorem migrateTelemetry_eq : migrateTelemetry settings = settings := by
  unfold migrateTelemetry
  split
  · next b hb =>
      obtain ⟨ms, hms⟩ := h.telemetry _ hb
      cases hms
  · rfl
  · next value _ hnot hvalue =>
      obtain ⟨ms, hms⟩ := h.telemetry _ hvalue
      exact (hnot ms hms).elim
  · rfl

theorem migrateMarkdown_eq : migrateMarkdown settings = settings := by
  unfold migrateMarkdown
  split
  · rfl
  · next value hnot hvalue =>
      obtain ⟨ms, hms⟩ := h.markdown _ hvalue
      exact (hnot ms hms).elim
  · rfl

theorem migrateSettings_eq : migrateSettings settings = settings := by
  rw [migrateSettings, h.migrateQueueMode_eq, h.migrateWebsockets_eq,
    h.migrateSkills_eq, h.migrateRetry_eq, h.migrateTelemetry_eq,
    h.migrateMarkdown_eq]

end

end Migrated

end OneHarness.Settings
