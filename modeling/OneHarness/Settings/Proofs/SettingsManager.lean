/-
Nothing that is set is dropped, unless a write fails after an older one has
taken its marks off (`SettingsManager.no_change_dropped`).

Each scope is a store that is written back (`World.store`), and each event is
one of its steps or leaves it alone. Of the settings manager itself remains
what the marks and the queued writes look like (`Inv`).
-/
import OneHarness.Lib.WriteBack
import OneHarness.Settings.Proofs.Setters

namespace OneHarness.Settings

open Lib

-- ======== the files

theorem migrated_held (file : SettingsFile) : Migrated file.held := by
  have hempty : Migrated [] :=
    ⟨.inl rfl, .inl nofun, nofun, nofun, nofun, nofun⟩
  unfold SettingsFile.held
  cases file with
  | empty => exact hempty
  | malformed => exact hempty
  | json value =>
    cases value with
    | obj ms => exact migrated_migrateSettings ms
    | arr xs => exact migrated_migrateSettings _
    | _ => exact hempty

/-- Settings read from a file, written and read again, are the same. -/
theorem held_reread (file : SettingsFile) :
    (SettingsFile.json (.obj file.held)).settings = some file.held :=
  congrArg some (migrated_held file).migrateSettings_eq

theorem held_of_settings {file : SettingsFile} {current : Record}
    (h : file.settings = some current) : file.held = current := by
  rw [SettingsFile.held, h]
  rfl

/-- What a write leaves in the file is read back as it is. -/
theorem held_mergeSettings (file : SettingsFile) {q : QueuedWrite}
    (hq : q.Proper) :
    (SettingsFile.json (.obj (mergeSettings file.held q))).held
      = mergeSettings file.held q :=
  (migrated_mergeSettings (migrated_held file) hq).migrateSettings_eq

-- ======== the world

variable {scope : SettingsScope} {w' : World} {setter : Setter}

variable (m : SettingsManager)

namespace World

/-- The store of a scope. -/
def store (w : World) (scope : SettingsScope) :
    WriteBack.State Path (Option Json) where
  memory := valueAt (w.manager.held scope).settings
  dirty := (w.manager.held scope).Marked
  queue := (w.manager.writeQueue.filter (·.scope = scope)).map fun q =>
    ⟨q.Carries, valueAt q.snapshotSettings⟩
  file := valueAt (w.files scope).held
  wanted := wanted (w.assignments scope)
  own := valueAt (w.own scope).held
  last := w.last scope

/-- Nobody assigned to the field, and so nobody marked it. -/
structure Apart (w : World) (scope : SettingsScope) (name : String) :
    Prop where
  assignments : ∀ a ∈ w.assignments scope, a.name ≠ name
  marks : name ∉ (w.manager.held scope).modifiedFields
  queue : ∀ q ∈ w.manager.writeQueue, q.scope = scope →
    name ∉ q.modifiedFields
  file : (w.files scope).held.get name = (w.own scope).held.get name

structure Inv (w : World) : Prop where
  assignments : ∀ scope, ∀ a ∈ w.assignments scope, a.Proper
  proper : ∀ scope, (w.manager.held scope).Proper
  queue : ∀ q ∈ w.manager.writeQueue, q.Proper
  loaded : ∀ q ∈ w.manager.writeQueue,
    (w.manager.held q.scope).loadError = none
  store : ∀ scope, (w.manager.held scope).loadError = none →
    WriteBack.Inv (w.store scope)
  saved : ∀ scope, w.last scope = some true →
    (w.manager.held scope).loadError = none
      ∧ (w.files scope).settings.isSome
  apart : ∀ scope name, (∀ a ∈ w.assignments scope, a.name ≠ name) →
    w.Apart scope name

theorem update_self {α : Type} (f : SettingsScope → α) (scope : SettingsScope)
    (a : α) : update f scope a scope = a := if_pos rfl

theorem update_ne {α : Type} (f : SettingsScope → α)
    {scope' : SettingsScope} (a : α) (h : scope' ≠ scope) :
    update f scope a scope' = f scope' := if_neg h

theorem held_setHeld (scope : SettingsScope)
    (held : ScopedSettings) : (m.setHeld scope held).held scope = held := by
  cases scope with
  | global => rfl
  | project => rfl

theorem held_setHeld_ne {scope' : SettingsScope}
    (held : ScopedSettings) (h : scope' ≠ scope) :
    (m.setHeld scope held).held scope' = m.held scope' := by
  cases scope with
  | global =>
    cases scope' with
    | global => exact absurd rfl h
    | project => rfl
  | project =>
    cases scope' with
    | global => rfl
    | project => exact absurd rfl h

theorem writeQueue_setHeld (scope : SettingsScope) (held : ScopedSettings) :
    (m.setHeld scope held).writeQueue = m.writeQueue := by
  cases scope with
  | global => rfl
  | project => rfl

-- ======== a setter

/-- The write that carries what is held now. -/
def snapshot (scope : SettingsScope) (held : ScopedSettings) : QueuedWrite where
  scope := scope
  snapshotSettings := held.settings
  modifiedFields := held.modifiedFields
  modifiedNestedFields := held.modifiedNestedFields

/-- What a setter leaves behind. -/
structure SetBy (w : World) (setter : Setter) (w' : World) : Prop where
  files : w'.files = w.files
  own : w'.own = w.own
  last : w'.last = w.last
  assignments : w'.assignments = update w.assignments setter.scope
    (setter.assignments.reverse ++ w.assignments setter.scope)
  others : ∀ scope, scope ≠ setter.scope →
    w'.manager.held scope = w.manager.held scope
  memory : setter.assignments.foldlM Assignment.apply
      (w.manager.held setter.scope).settings
    = .ok (w'.manager.held setter.scope).settings
  modifiedFields : (w'.manager.held setter.scope).modifiedFields
    = (setter.assignments.foldl ScopedSettings.markModified
        (w.manager.held setter.scope)).modifiedFields
  modifiedNestedFields : (w'.manager.held setter.scope).modifiedNestedFields
    = (setter.assignments.foldl ScopedSettings.markModified
        (w.manager.held setter.scope)).modifiedNestedFields
  loadError : (w'.manager.held setter.scope).loadError
    = (w.manager.held setter.scope).loadError
  queue : w'.manager.writeQueue = w.manager.writeQueue ++
    match (w.manager.held setter.scope).loadError with
    | some _ => []
    | none =>
      [snapshot setter.scope (w'.manager.held setter.scope)]

theorem loadError_foldl (as : List Assignment) (held : ScopedSettings) :
    (as.foldl ScopedSettings.markModified held).loadError = held.loadError := by
  induction as generalizing held with
  | nil => rfl
  | cons a as ih =>
    rw [List.foldl_cons, ih]
    cases a with
    | field name value => rfl
    | nested name key creation value => rfl

theorem held_save (scope scope' : SettingsScope) :
    (m.save scope).held scope' = m.held scope' := by
  simp only [SettingsManager.save]
  cases (m.held scope).loadError with
  | some message =>
    cases scope' with
    | global => rfl
    | project => rfl
  | none =>
    cases scope' with
    | global => rfl
    | project => rfl

theorem writeQueue_save (scope : SettingsScope) :
    (m.save scope).writeQueue = m.writeQueue ++
      match (m.held scope).loadError with
      | some _ => []
      | none =>
        [snapshot scope (m.held scope)] := by
  simp only [SettingsManager.save]
  cases (m.held scope).loadError with
  | some message => exact (List.append_nil _).symm
  | none => rfl

/-- A setter throws, has nothing to do, or sets what it should. -/
theorem step_set (w : World) (setter : Setter) :
    w.step (.set setter) = w ∨ SetBy w setter (w.step (.set setter)) := by
  simp only [step]
  cases hstops : w.manager.stops setter with
  | some stopped =>
    left
    split
    · rfl
    · rfl
  | none =>
    cases hset : w.manager.set setter with
    | error e => exact .inl rfl
    | ok manager =>
      right
      simp only [SettingsManager.set, hstops] at hset
      cases hfold : setter.assignments.foldlM Assignment.apply
          (w.manager.held setter.scope).settings with
      | error e =>
        rw [hfold] at hset
        cases hset
      | ok settings =>
        rw [hfold] at hset
        have hmanager := Except.ok.inj hset
        subst hmanager
        constructor
        · rfl
        · rfl
        · rfl
        · rfl
        · intro scope hne
          exact (held_save _ _ _).trans (held_setHeld_ne _ _ hne)
        · rw [held_save, held_setHeld]
          exact hfold
        · rw [held_save, held_setHeld]
        · rw [held_save, held_setHeld]
        · rw [held_save, held_setHeld]
          exact loadError_foldl _ _
        · rw [writeQueue_save, held_save, held_setHeld,
            writeQueue_setHeld]
          simp only [loadError_foldl]

/-- A field that is wanted was assigned. -/
theorem wanted_field_name {as : List Assignment} {name : String}
    (h : (wanted as (.field name)).isSome) : ∃ a ∈ as, a.name = name := by
  obtain ⟨value, hvalue⟩ := Option.isSome_iff_exists.1 h
  obtain ⟨a, ha, hwanted⟩ := List.exists_of_findSome?_eq_some hvalue
  refine ⟨a, ha, ?_⟩
  cases a with
  | field name' value' =>
    rw [Assignment.field_wanted_field] at hwanted
    by_contra hne
    rw [if_neg fun heq => hne heq.symm] at hwanted
    cases hwanted
  | nested name' key creation value' =>
    rw [Assignment.nested_wanted_field] at hwanted
    by_contra hne
    rw [if_neg fun heq => hne heq.symm] at hwanted
    cases hwanted

theorem SetBy.queued {w : World} (h : SetBy w setter w') :
    ∀ q ∈ w'.manager.writeQueue, q ∈ w.manager.writeQueue
      ∨ (w.manager.held setter.scope).loadError = none
        ∧ q = snapshot setter.scope (w'.manager.held setter.scope) := by
  intro q hq
  rw [h.queue] at hq
  rcases List.mem_append.1 hq with hq | hq
  · exact .inl hq
  · right
    cases hload : (w.manager.held setter.scope).loadError with
    | some message =>
      rw [hload] at hq
      cases hq
    | none =>
      rw [hload] at hq
      exact ⟨rfl, List.mem_singleton.1 hq⟩

/-- The other scope is left alone. -/
theorem SetBy.store_ne {w : World}
    (h : SetBy w setter w')
    (hne : scope ≠ setter.scope) : w'.store scope = w.store scope := by
  have hqueue : w'.manager.writeQueue.filter (·.scope = scope)
      = w.manager.writeQueue.filter (·.scope = scope) := by
    rw [h.queue, List.filter_append]
    cases (w.manager.held setter.scope).loadError with
    | some message => exact List.append_nil _
    | none =>
      have hdrop : [snapshot setter.scope
          (w'.manager.held setter.scope)].filter (·.scope = scope) = [] := by
        rw [List.filter_cons_of_neg]
        · rfl
        · exact fun heq => hne (of_decide_eq_true heq).symm
      rw [hdrop, List.append_nil]
  rw [store, store, h.others scope hne, hqueue, h.files, h.assignments,
    update_ne _ _ hne, h.own, h.last]

/-- For its own scope, a setter is a step of the store. -/
theorem SetBy.stores {w : World} (hinv : Inv w)
    (h : SetBy w setter w') (hnamed : setter.Named)
    (hmarked : ∀ path, (w'.manager.held setter.scope).Marked path ↔
      (wanted setter.assignments.reverse path).isSome
        ∨ (w.manager.held setter.scope).Marked path)
    (hload : (w.manager.held setter.scope).loadError = none) :
    WriteBack.Step (w.store setter.scope) (w'.store setter.scope) := by
  have hremembers : Remembers (w.assignments setter.scope)
      (w.manager.held setter.scope).settings :=
    (hinv.store setter.scope hload).memory
  have hassigned : w'.assignments setter.scope
      = setter.assignments.reverse ++ w.assignments setter.scope := by
    rw [h.assignments, update_self]
  have hremembers' : Remembers (w'.assignments setter.scope)
      (w'.manager.held setter.scope).settings := by
    rw [hassigned]
    exact hremembers.foldlM (hinv.assignments setter.scope)
      (setter.proper_assignments hnamed) h.memory
  have hwanted : ∀ path, wanted (w'.assignments setter.scope) path
      = (wanted setter.assignments.reverse path).or
          (wanted (w.assignments setter.scope) path) := by
    intro path
    rw [hassigned, wanted_append]
  have hstore : w'.store setter.scope
      = { w.store setter.scope with
          memory := valueAt (w'.manager.held setter.scope).settings
          dirty := (w'.manager.held setter.scope).Marked
          wanted := wanted (w'.assignments setter.scope)
          queue := (w.store setter.scope).queue ++
            [⟨(w'.manager.held setter.scope).Marked,
              valueAt (w'.manager.held setter.scope).settings⟩] } := by
    have hqueue : w'.manager.writeQueue.filter (·.scope = setter.scope)
        = w.manager.writeQueue.filter (·.scope = setter.scope)
          ++ [snapshot setter.scope (w'.manager.held setter.scope)] := by
      rw [h.queue, hload, List.filter_append, List.filter_cons_of_pos]
      · rfl
      · exact decide_eq_true rfl
    simp only [store, hqueue, List.map_append, h.files, h.own, h.last]
    rfl
  rw [hstore]
  apply WriteBack.Step.set
    (fun path => (wanted setter.assignments.reverse path).isSome)
  · intro path
    exact (hmarked path).trans or_comm
  · intro path hchanged
    obtain ⟨value, hvalue⟩ := Option.isSome_iff_exists.1 hchanged
    have hnow : wanted (w'.assignments setter.scope) path = some value := by
      rw [hwanted, hvalue, Option.some_or]
    rw [hnow, hremembers' path value hnow]
  · intro path hchanged
    have hnone := Option.not_isSome_iff_eq_none.1 hchanged
    rw [hwanted, hnone, Option.none_or]
    rfl
  · intro path value hchanged hvalue
    have hnone := Option.not_isSome_iff_eq_none.1 hchanged
    have hnow : wanted (w'.assignments setter.scope) path = some value := by
      rw [hwanted, hnone, Option.none_or]
      exact hvalue
    rw [hremembers' path value hnow]
    exact (hremembers path value hvalue).symm

theorem SetBy.inv {w : World} (hinv : Inv w)
    (h : SetBy w setter w') (hnamed : setter.Named) : Inv w' := by
  have hproper := setter.proper_assignments hnamed
  obtain ⟨hmarks, hmarked⟩ := Proper.foldlM (hinv.proper setter.scope)
    hproper h.memory
  rw [← h.modifiedFields, ← h.modifiedNestedFields] at hmarks
  have hmarked : ∀ path, (w'.manager.held setter.scope).Marked path ↔
      (wanted setter.assignments.reverse path).isSome
        ∨ (w.manager.held setter.scope).Marked path := by
    intro path
    rw [← hmarked path, ScopedSettings.Marked, ScopedSettings.Marked,
      h.modifiedFields, h.modifiedNestedFields]
  have hassigned : w'.assignments setter.scope
      = setter.assignments.reverse ++ w.assignments setter.scope := by
    rw [h.assignments, update_self]
  have hkept : ∀ scope, scope ≠ setter.scope →
      w'.assignments scope = w.assignments scope := by
    intro scope hne
    rw [h.assignments, update_ne _ _ hne]
  have hqueued := h.queued
  have hloadError : ∀ scope, (w'.manager.held scope).loadError
      = (w.manager.held scope).loadError := by
    intro scope
    by_cases heq : scope = setter.scope
    · rw [heq, h.loadError]
    · rw [h.others scope heq]
  constructor
  · intro scope a ha
    by_cases heq : scope = setter.scope
    · subst heq
      rw [hassigned] at ha
      rcases List.mem_append.1 ha with ha | ha
      · exact hproper a (List.mem_reverse.1 ha)
      · exact hinv.assignments _ a ha
    · rw [hkept scope heq] at ha
      exact hinv.assignments scope a ha
  · intro scope
    by_cases heq : scope = setter.scope
    · rw [heq]
      exact hmarks
    · rw [h.others scope heq]
      exact hinv.proper scope
  · intro q hq
    rcases hqueued q hq with hq | ⟨-, rfl⟩
    · exact hinv.queue q hq
    · exact hmarks
  · intro q hq
    rw [hloadError]
    rcases hqueued q hq with hq | ⟨hnone, rfl⟩
    · exact hinv.loaded q hq
    · exact hnone
  · intro scope hload
    rw [hloadError] at hload
    have hstore := hinv.store scope hload
    by_cases heq : scope = setter.scope
    · subst heq
      exact hstore.step (h.stores hinv hnamed hmarked hload)
    · rw [h.store_ne heq]
      exact hstore
  · intro scope hlast
    rw [h.last] at hlast
    rw [hloadError, h.files]
    exact hinv.saved scope hlast
  · intro scope name hname
    by_cases heq : scope = setter.scope
    · subst heq
      rw [hassigned] at hname
      have hapart := hinv.apart setter.scope name fun a ha =>
        hname a (List.mem_append_right _ ha)
      have hfields : name ∉ (w'.manager.held setter.scope).modifiedFields := by
        intro hmem
        rcases (hmarked (.field name)).1 hmem with hwanted | hold
        · obtain ⟨a, ha, heq⟩ := wanted_field_name hwanted
          exact hname a (List.mem_append_left _ ha) heq
        · exact hapart.marks hold
      constructor
      · rw [hassigned]
        exact hname
      · exact hfields
      · intro q hq hscope
        rcases hqueued q hq with hq | ⟨-, rfl⟩
        · exact hapart.queue q hq hscope
        · exact hfields
      · rw [h.files, h.own]
        exact hapart.file
    · rw [hkept scope heq] at hname
      have hapart := hinv.apart scope name hname
      constructor
      · rw [hkept scope heq]
        exact hname
      · rw [h.others scope heq]
        exact hapart.marks
      · intro q hq hscope
        rcases hqueued q hq with hq | ⟨-, rfl⟩
        · exact hapart.queue q hq hscope
        · exact absurd hscope.symm heq
      · rw [h.files, h.own]
        exact hapart.file

-- ======== a write

/-- How a queued write of a scope ends. -/
inductive WriteStep (w : World) (write : QueuedWrite)
    (rest : List QueuedWrite) : World → Prop
  | done (h : (w.files write.scope).settings.isSome) :
      WriteStep w write rest { w with
        files := update w.files write.scope
          (.json (.obj (mergeSettings (w.files write.scope).held write)))
        manager := { w.manager with writeQueue := rest }.setHeld write.scope
          (w.manager.held write.scope).clearModified
        last := update w.last write.scope (some true) }
  | failedLate (h : (w.files write.scope).settings.isSome) (error : String) :
      WriteStep w write rest { w with
        files := update w.files write.scope
          (.json (.obj (mergeSettings (w.files write.scope).held write)))
        manager := { w.manager with writeQueue := rest }.recordError
          write.scope error
        last := update w.last write.scope (some false) }
  | failed (error : String) (h : w.Retried write rest) :
      WriteStep w write rest { w with
        manager := { w.manager with writeQueue := rest }.recordError
          write.scope error
        last := update w.last write.scope (some false) }

theorem step_write {w : World} {outcome : Outcome} {write : QueuedWrite}
    {rest : List QueuedWrite} (hqueue : w.manager.writeQueue = write :: rest)
    (hguard : w.Reaches write outcome ∨ w.Retried write rest) :
    WriteStep w write rest (w.step (.write outcome)) := by
  simp only [step, hqueue]
  cases hsettings : (w.files write.scope).settings with
  | none =>
    have hpersist : persistScopedSettings (w.files write.scope) write
        = none := by
      rw [persistScopedSettings, hsettings]
      rfl
    have hretried : w.Retried write rest := by
      rcases hguard with hreaches | hretried
      · have hsome := hreaches.1
        rw [hsettings] at hsome
        cases hsome
      · exact hretried
    rw [hpersist]
    cases outcome with
    | returned => exact .failed _ hretried
    | threw written error => exact .failed _ hretried
  | some current =>
    have hsome : (w.files write.scope).settings.isSome := by
      rw [hsettings]
      rfl
    have hpersist : persistScopedSettings (w.files write.scope) write
        = some (.json (.obj
            (mergeSettings (w.files write.scope).held write))) := by
      rw [persistScopedSettings, hsettings, held_of_settings hsettings]
      rfl
    rw [hpersist]
    cases outcome with
    | returned => exact .done hsome
    | threw written error =>
      cases written with
      | true => exact .failedLate hsome error
      | false =>
        apply WriteStep.failed error
        exact hguard.resolve_left fun hreaches => hreaches.2 error rfl

section
variable {w : World} {write : QueuedWrite} {rest : List QueuedWrite}

theorem store_queue (hqueue : w.manager.writeQueue = write :: rest) :
    (w.store write.scope).queue
      = ⟨write.Carries, valueAt write.snapshotSettings⟩ ::
        (rest.filter (·.scope = write.scope)).map fun q =>
          ⟨q.Carries, valueAt q.snapshotSettings⟩ := by
  simp only [store, hqueue]
  rw [List.filter_cons_of_pos, List.map_cons]
  exact decide_eq_true rfl

/-- The file with the write merged into it. -/
theorem written (hproper : write.Proper) :
    WriteBack.Written (w.store write.scope)
      ⟨write.Carries, valueAt write.snapshotSettings⟩
      (valueAt (SettingsFile.json (.obj
        (mergeSettings (w.files write.scope).held write))).held) := by
  rw [held_mergeSettings _ hproper]
  constructor
  · exact fun path hpath => valueAt_mergeSettings_carried hproper hpath
  · exact fun path hpath => valueAt_mergeSettings_apart hproper hpath

theorem filter_rest (hqueue : w.manager.writeQueue = write :: rest)
    (hne : scope ≠ write.scope) :
    rest.filter (·.scope = scope)
      = w.manager.writeQueue.filter (·.scope = scope) := by
  rw [hqueue, List.filter_cons_of_neg]
  exact fun heq => hne (of_decide_eq_true heq).symm

theorem retried_store (h : w.Retried write rest) :
    WriteBack.Retried (w.store write.scope)
      ⟨write.Carries, valueAt write.snapshotSettings⟩
      ((rest.filter (·.scope = write.scope)).map fun q =>
        ⟨q.Carries, valueAt q.snapshotSettings⟩) := by
  intro path hpath
  rcases h path hpath with hmarked | ⟨u, hu, hscope, hcarries⟩ | hfile
  · exact .inl hmarked
  · right
    left
    refine ⟨_, List.mem_map.2 ⟨u, ?_, rfl⟩, hcarries⟩
    exact List.mem_filter.2 ⟨hu, decide_eq_true hscope⟩
  · exact .inr (.inr hfile)

/-- A write leaves the other scope alone. -/
theorem WriteStep.store_ne (h : WriteStep w write rest w')
    (hqueue : w.manager.writeQueue = write :: rest)
    (hne : scope ≠ write.scope) : w'.store scope = w.store scope := by
  have hfilter := filter_rest hqueue hne
  cases h with
  | done h =>
    simp only [store, held_setHeld_ne _ _ hne, writeQueue_setHeld,
      update_ne _ _ hne, hfilter]
    cases scope with
    | global => rfl
    | project => rfl
  | failedLate h error =>
    simp only [store, SettingsManager.recordError, update_ne _ _ hne, hfilter]
    cases scope with
    | global => rfl
    | project => rfl
  | failed error h =>
    simp only [store, SettingsManager.recordError, update_ne _ _ hne, hfilter]
    cases scope with
    | global => rfl
    | project => rfl

/-- For its own scope, a write is a step of the store. -/
theorem WriteStep.stores (h : WriteStep w write rest w')
    (hqueue : w.manager.writeQueue = write :: rest) (hproper : write.Proper) :
    WriteBack.Step (w.store write.scope) (w'.store write.scope) := by
  have hstore := store_queue hqueue
  cases h with
  | done h =>
    have hstep := WriteBack.Step.done _ _ _
      (w.manager.held write.scope).clearModified.Marked hstore
      (written hproper) ?_
    · simp only [store, held_setHeld, writeQueue_setHeld, update_self]
      exact hstep
    · intro path hpath
      cases path with
      | field name => cases hpath
      | member name key => cases hpath.1
  | failedLate h error =>
    have hstep := WriteBack.Step.failedLate _ _ _ hstore (written hproper)
    simp only [store, SettingsManager.recordError, update_self]
    cases hscope : write.scope with
    | global =>
      rw [hscope] at hstep
      exact hstep
    | project =>
      rw [hscope] at hstep
      exact hstep
  | failed error h =>
    have hstep := WriteBack.Step.failed _ _ hstore (retried_store h)
    simp only [store, SettingsManager.recordError, update_self]
    cases hscope : write.scope with
    | global =>
      rw [hscope] at hstep
      exact hstep
    | project =>
      rw [hscope] at hstep
      exact hstep

/-- What a write leaves as it is, and what it changes. -/
structure WriteFrame (w : World) (write : QueuedWrite)
    (rest : List QueuedWrite) (w' : World) : Prop where
  assignments : w'.assignments = w.assignments
  own : w'.own = w.own
  queue : w'.manager.writeQueue = rest
  held : ∀ scope, w'.manager.held scope = w.manager.held scope
    ∨ w'.manager.held scope = (w.manager.held scope).clearModified
  files : ∀ scope, w'.files scope = w.files scope
    ∨ scope = write.scope ∧ w'.files scope
        = .json (.obj (mergeSettings (w.files write.scope).held write))
  last : ∀ scope, w'.last scope = some true →
    scope = write.scope ∧ (w'.files scope).settings.isSome
      ∨ w.last scope = some true ∧ w'.files scope = w.files scope

theorem held_recordError (scope scope' : SettingsScope)
    (queue : List QueuedWrite) (error : String) :
    ({ m with writeQueue := queue }.recordError scope error).held scope'
      = m.held scope' := by
  cases scope' with
  | global => rfl
  | project => rfl

theorem held_cleared (scope scope' : SettingsScope) (queue : List QueuedWrite) :
    ({ m with writeQueue := queue }.setHeld scope
        (m.held scope).clearModified).held scope' = m.held scope'
      ∨ ({ m with writeQueue := queue }.setHeld scope
        (m.held scope).clearModified).held scope'
          = (m.held scope').clearModified := by
  by_cases heq : scope' = scope
  · right
    rw [heq, held_setHeld]
  · left
    rw [held_setHeld_ne _ _ heq]
    cases scope' with
    | global => rfl
    | project => rfl

theorem files_updated (files : SettingsScope → SettingsFile)
    (scope scope' : SettingsScope) (file : SettingsFile) :
    update files scope file scope' = files scope'
      ∨ scope' = scope ∧ update files scope file scope' = file := by
  by_cases heq : scope' = scope
  · right
    rw [heq, update_self]
    exact ⟨rfl, rfl⟩
  · exact .inl (update_ne _ _ heq)

theorem WriteStep.frame (h : WriteStep w write rest w') :
    WriteFrame w write rest w' := by
  cases h with
  | done h =>
    refine ⟨rfl, rfl, writeQueue_setHeld _ _ _, fun scope => held_cleared _ _ scope _,
      fun scope => files_updated _ _ scope _, ?_⟩
    intro scope hlast
    by_cases heq : scope = write.scope
    · left
      refine ⟨heq, ?_⟩
      show (update _ _ _ _ : SettingsFile).settings.isSome
      rw [heq, update_self]
      rfl
    · right
      refine ⟨?_, update_ne _ _ heq⟩
      rw [← hlast]
      exact (update_ne _ _ heq).symm
  | failedLate h error =>
    refine ⟨rfl, rfl, rfl, fun scope => .inl (held_recordError _ _ _ _ _),
      fun scope => files_updated _ _ scope _, ?_⟩
    intro scope hlast
    have hlast : update w.last write.scope (some false) scope
      = some true := hlast
    by_cases heq : scope = write.scope
    · rw [heq, update_self] at hlast
      cases hlast
    · rw [update_ne _ _ heq] at hlast
      exact .inr ⟨hlast, update_ne _ _ heq⟩
  | failed error h =>
    refine ⟨rfl, rfl, rfl, fun scope => .inl (held_recordError _ _ _ _ _),
      fun scope => .inl rfl, ?_⟩
    intro scope hlast
    have hlast : update w.last write.scope (some false) scope
      = some true := hlast
    by_cases heq : scope = write.scope
    · rw [heq, update_self] at hlast
      cases hlast
    · rw [update_ne _ _ heq] at hlast
      exact .inr ⟨hlast, rfl⟩

theorem WriteStep.inv (hinv : Inv w)
    (h : WriteStep w write rest w')
    (hqueue : w.manager.writeQueue = write :: rest) : Inv w' := by
  have hframe := h.frame
  have hwrite : write ∈ w.manager.writeQueue := by
    rw [hqueue]
    exact List.mem_cons_self
  have hrest : ∀ q ∈ w'.manager.writeQueue, q ∈ w.manager.writeQueue := by
    intro q hq
    rw [hframe.queue] at hq
    rw [hqueue]
    exact List.mem_cons_of_mem _ hq
  have hloadError : ∀ scope, (w'.manager.held scope).loadError
      = (w.manager.held scope).loadError := by
    intro scope
    rcases hframe.held scope with heq | heq
    · rw [heq]
    · rw [heq]
      rfl
  constructor
  · rw [hframe.assignments]
    exact hinv.assignments
  · intro scope
    rcases hframe.held scope with heq | heq
    · rw [heq]
      exact hinv.proper scope
    · rw [heq]
      exact ⟨nofun, nofun, nofun⟩
  · exact fun q hq => hinv.queue q (hrest q hq)
  · intro q hq
    rw [hloadError]
    exact hinv.loaded q (hrest q hq)
  · intro scope hload
    rw [hloadError] at hload
    by_cases heq : scope = write.scope
    · subst heq
      exact (hinv.store _ hload).step
        (h.stores hqueue (hinv.queue write hwrite))
    · rw [h.store_ne hqueue heq]
      exact hinv.store scope hload
  · intro scope hlast
    rw [hloadError]
    rcases hframe.last scope hlast with ⟨rfl, hsome⟩ | ⟨hlast, hfile⟩
    · exact ⟨hinv.loaded write hwrite, hsome⟩
    · rw [hfile]
      exact hinv.saved scope hlast
  · intro scope name hname
    rw [hframe.assignments] at hname
    have hapart := hinv.apart scope name hname
    constructor
    · rw [hframe.assignments]
      exact hname
    · rcases hframe.held scope with heq | heq
      · rw [heq]
        exact hapart.marks
      · rw [heq]
        exact nofun
    · exact fun q hq => hapart.queue q (hrest q hq)
    · rw [hframe.own, ← hapart.file]
      rcases hframe.files scope with heq | ⟨rfl, heq⟩
      · rw [heq]
      · rw [heq, held_mergeSettings _ (hinv.queue write hwrite),
          get_mergeSettings, if_neg (hapart.queue write hwrite rfl)]

end

-- ======== another process

theorem step_other_inv {w : World} (hinv : Inv w)
    {settings : Record}
    (hkept : ∀ path, (wanted (w.assignments scope) path).isSome →
      valueAt (migrateSettings settings) path
        = valueAt (w.files scope).held path) :
    Inv (w.step (.other scope settings)) := by
  simp only [step]
  refine ⟨hinv.assignments, hinv.proper, hinv.queue, hinv.loaded, ?_, ?_, ?_⟩
  · intro scope' hload
    have hstore := hinv.store scope' hload
    by_cases heq : scope' = scope
    · subst heq
      have hstep := WriteBack.Step.other (s := w.store scope')
        (valueAt (SettingsFile.json (.obj settings)).held) (by
          intro path value hvalue
          apply hkept path
          rw [show wanted (w.assignments scope') path = some value from hvalue]
          rfl)
      have hnext := hstore.step hstep
      simp only [store, update_self] at hnext ⊢
      exact hnext
    · have hsame : store { w with
            files := update w.files scope (.json (.obj settings))
            own := update w.own scope (.json (.obj settings)) } scope'
          = w.store scope' := by
        simp only [store, update_ne _ _ heq]
      rw [hsame]
      exact hstore
  · intro scope' hlast
    have hsaved := hinv.saved scope' hlast
    refine ⟨hsaved.1, ?_⟩
    rcases files_updated w.files scope scope' (.json (.obj settings)) with
      heq | ⟨-, heq⟩
    · show (update _ _ _ _ : SettingsFile).settings.isSome
      rw [heq]
      exact hsaved.2
    · show (update _ _ _ _ : SettingsFile).settings.isSome
      rw [heq]
      rfl
  · intro scope' name hname
    have hapart := hinv.apart scope' name hname
    refine ⟨hname, hapart.marks, hapart.queue, ?_⟩
    show (update w.files _ _ _).held.get name = (update w.own _ _ _).held.get name
    by_cases heq : scope' = scope
    · rw [heq, update_self, update_self]
    · rw [update_ne _ _ heq, update_ne _ _ heq]
      exact hapart.file

-- ======== the run

theorem Inv.step {w : World} (hinv : Inv w) (event : Event)
    (hguard : w.Guard event) : Inv (w.step event) := by
  cases event with
  | set setter =>
    have hnamed : setter.Named := by
      cases setter with
      | setGlobalMcpServer name config force => exact hguard
      | removeGlobalMcpServer name => exact hguard
      | _ => exact trivial
    rcases step_set w setter with heq | hset
    · rw [heq]
      exact hinv
    · exact hset.inv hinv hnamed
  | write outcome =>
    cases hqueue : w.manager.writeQueue with
    | nil =>
      have heq : w.step (.write outcome) = w := by
        simp only [World.step, hqueue]
      rw [heq]
      exact hinv
    | cons write rest =>
      exact (step_write hqueue (hguard write rest hqueue)).inv hinv hqueue
  | other scope settings => exact step_other_inv hinv hguard

theorem Inv.faithful {w : World} (hinv : Inv w) : w.Faithful := by
  intro scope hqueue hlast
  obtain ⟨hload, hreadable⟩ := hinv.saved scope hlast
  have hempty : (w.store scope).queue = [] := by
    simp only [World.store, hqueue]
    rfl
  obtain ⟨hset, hkept⟩ := (hinv.store scope hload).settled hempty hlast
  exact ⟨hreadable, hset, hkept, fun name hname =>
    (hinv.apart scope name hname).file⟩

end World

end OneHarness.Settings
