/-
What an append does, whichever method it goes through.

Every append method checks its arguments (`refuses`), changes the session
before its entry exists (`prepare`), builds the entry, appends and
persists it, and changes the session once more (`finish`). `run_eq` says
so of all of them at once; what an append does to the entries, the index,
the leaf and the labels is then read off one machine, `pushed`, and what
it does to the file off `persistEntry`.
-/
import OneHarness.Session.Runs
import OneHarness.Session.Proofs.Index
import OneHarness.Session.Proofs.Ops
import OneHarness.Session.Proofs.Store

namespace OneHarness.Session

open Lib Lib.Lines

variable {file : String}

namespace AppendCall

/-- The error a call throws before it changes anything. -/
def refuses (s : SessionManager) : AppendCall → Option String
  | appendChildUsageAttribution a =>
    if ((s.byId.get a.targetId).bind SessionEntry.assistant?).isSome then
      none
    else some ("Assistant message entry " ++ a.targetId ++ " not found")
  | appendLabelChange targetId _ =>
    if s.byId.has targetId then none
    else some ("Entry " ++ targetId ++ " not found")
  | branchWithSummary branchFromId _ _ _ _ =>
    if branchFromId.any fun id => !s.byId.has id then
      some ("Entry " ++ branchFromId.getD "" ++ " not found")
    else none
  | _ => none

/-- What a call changes before it builds its entry. -/
def prepare (s : SessionManager) : AppendCall → SessionManager
  | appendChildUsageAttribution a =>
    s.mutateUsage a.targetId (cloneUsage a.aggregateUsage)
  | branchWithSummary branchFromId _ _ _ _ => { s with leafId := branchFromId }
  | _ => s

/-- The body of the entry a call appends. -/
def body : AppendCall → EntryBody
  | appendMessage message => .message message
  | appendThinkingLevelChange thinkingLevel =>
    .thinkingLevelChange thinkingLevel
  | appendServiceTierChange serviceTier => .serviceTierChange serviceTier
  | appendModelChange provider modelId => .modelChange provider modelId
  | appendCompaction c => .compaction c
  | appendCustomEntry customType data => .custom customType data
  | appendChildUsageAttribution a => .childUsageAttributed
      { a with
        childUsage := cloneUsage a.childUsage
        aggregateUsage := cloneUsage a.aggregateUsage }
  | appendSessionInfo name => .sessionInfo (some (trim name))
  | appendSessionState status => .sessionState status
  | appendAgentStatus status => .agentStatus status
  | appendGitState git => .gitState git
  | appendCustomMessageEntry c => .customMessage c
  | appendLabelChange targetId label => .label targetId label
  | branchWithSummary branchFromId summary details fromHook usage =>
    .branchSummary
      { fromId := branchFromId.getD "root"
        summary := summary
        details := details
        fromHook := fromHook
        usage := usage }

/-- What a call changes once its entry is persisted. -/
def finish (io : Io) (s : SessionManager) : AppendCall → SessionManager
  | appendLabelChange targetId label => s.applyLabel targetId label io.now
  | _ => s

/-- The entry a call appends. -/
def entry (io : Io) (call : AppendCall) (s : SessionManager) : SessionEntry :=
  newEntry io call.body (call.prepare s)

/-- The machine with the entry in memory, before it is persisted. -/
def pushed (io : Io) (call : AppendCall) (m : Machine) : Machine :=
  { m with
    manager := (call.prepare m.manager).pushEntry (call.entry io m.manager) }

/-- The entry stays in memory until an assistant message is appended. -/
def deferred (io : Io) (call : AppendCall) (s : SessionManager) : Bool :=
  !(s.hasAssistantEntry || (call.entry io s).assistant?.isSome)
    && !persistsWithoutAssistant (call.entry io s)

variable {io : Io} {call : AppendCall} {m m' : Machine} {id : String}

variable (io : Io)

theorem appendBody_eq (body : EntryBody) (m : Machine) :
    appendBody io body m
      = match persistEntry io (newEntry io body m.manager)
          { m with
            manager := m.manager.pushEntry (newEntry io body m.manager) } with
        | .ok _ m' => .ok (newEntry io body m.manager).id m'
        | .error e m' => .error e m' := by
  unfold appendBody
  rw [get_bind]
  have happ : appendEntry io (newEntry io body m.manager) m
      = persistEntry io (newEntry io body m.manager)
        { m with
          manager := m.manager.pushEntry (newEntry io body m.manager) } := rfl
  cases hp : persistEntry io (newEntry io body m.manager)
      { m with
        manager := m.manager.pushEntry (newEntry io body m.manager) } with
  | ok u m' => exact bind_of_ok (happ.trans hp)
  | error e m' => exact bind_of_error (happ.trans hp)

/-- What all append methods have in common. -/
theorem run_eq (call : AppendCall) (m : Machine) :
    call.run io m
      = match call.refuses m.manager with
        | some e => .error e m
        | none =>
          match persistEntry io (call.entry io m.manager)
              (call.pushed io m) with
          | .ok _ m' => .ok (call.entry io m.manager).id
              { m' with manager := call.finish io m'.manager }
          | .error e m' => .error e m' := by
  -- a method that only builds an entry is `appendBody`
  have hbody : appendBody io call.body
      { m with manager := call.prepare m.manager }
      = match persistEntry io (call.entry io m.manager) (call.pushed io m) with
        | .ok _ m' => .ok (call.entry io m.manager).id m'
        | .error e m' => .error e m' :=
    appendBody_eq io call.body _
  cases call with
  | appendChildUsageAttribution a =>
    change Session.appendChildUsageAttribution io a m = _
    unfold Session.appendChildUsageAttribution
    rw [get_bind, refuses]
    cases ha : (m.manager.byId.get a.targetId).bind
        SessionEntry.assistant? with
    | none => rfl
    | some am => exact hbody
  | appendLabelChange targetId label =>
    change Session.appendLabelChange io targetId label m = _
    unfold Session.appendLabelChange
    rw [get_bind, refuses]
    cases hh : m.manager.byId.has targetId with
    | false => rfl
    | true =>
      simp only [Bool.not_true, Bool.false_eq_true, if_false, if_true]
      cases hp : persistEntry io
          ((appendLabelChange targetId label).entry io m.manager)
          ((appendLabelChange targetId label).pushed io m) with
      | ok u m' =>
        simp only [hp] at hbody
        exact bind_of_ok hbody
      | error e m' =>
        simp only [hp] at hbody
        exact bind_of_error hbody
  | branchWithSummary branchFromId summary details fromHook usage =>
    change Session.branchWithSummary io branchFromId summary details fromHook
      usage m = _
    unfold Session.branchWithSummary
    rw [get_bind, refuses]
    split
    · rfl
    · exact hbody
  | _ => exact hbody

-- ======== what changes in memory

/-- Preparing changes the entries, the index and the leaf. -/
theorem prepare_frame (call : AppendCall) (s : SessionManager) :
    ∃ fileEntries byId leafId, call.prepare s = { s with
      fileEntries := fileEntries
      byId := byId
      leafId := leafId } := by
  cases call <;> exact ⟨_, _, _, rfl⟩

/-- Finishing changes the labels. -/
theorem finish_frame (call : AppendCall) (s : SessionManager) :
    ∃ labelsById labelTimestampsById, call.finish io s = { s with
      labelsById := labelsById
      labelTimestampsById := labelTimestampsById } := by
  cases call with
  | appendLabelChange targetId label =>
    unfold finish SessionManager.applyLabel
    simp only []
    split
    · exact ⟨_, _, rfl⟩
    · exact ⟨_, _, rfl⟩
  | _ => exact ⟨_, _, rfl⟩

section Finish

variable (io : Io) (call : AppendCall) (s : SessionManager)

@[simp] theorem finish_fileEntries :
    (call.finish io s).fileEntries = s.fileEntries := by
  obtain ⟨l, t, h⟩ := finish_frame io call s
  rw [h]

@[simp] theorem finish_byId : (call.finish io s).byId = s.byId := by
  obtain ⟨l, t, h⟩ := finish_frame io call s
  rw [h]

@[simp] theorem finish_leafId : (call.finish io s).leafId = s.leafId := by
  obtain ⟨l, t, h⟩ := finish_frame io call s
  rw [h]

@[simp] theorem finish_flushed : (call.finish io s).flushed = s.flushed := by
  obtain ⟨l, t, h⟩ := finish_frame io call s
  rw [h]

theorem finish_persistedAt {s : SessionManager}
    (hs : PersistedAt s file) : PersistedAt (call.finish io s) file := by
  obtain ⟨l, t, h⟩ := finish_frame io call s
  rw [h]
  exact ⟨hs.persist, hs.sessionFile⟩

end Finish

section
variable (call : AppendCall)

theorem finish_labelMaps (s s₀ : SessionManager) :
    (call.finish io s).labelMaps
      = SessionManager.labelStep s.labelMaps (call.entry io s₀) := by
  cases call with
  | appendLabelChange targetId label =>
    exact SessionManager.labelMaps_applyLabel s
      (e := (appendLabelChange targetId label).entry io s₀) rfl
  | _ => rfl

theorem mutate_eq_bump {targetId : String} {x : SessionEntry} {u : Usage}
    (hx : ∀ id, attributedUsage id (.entry x)
      = if targetId = id then some u else none) (e : SessionEntry) :
    (if e.id = targetId then setUsage u e else e) = bump x e := by
  unfold bump
  rw [hx]
  by_cases h : e.id = targetId
  · rw [if_pos h, if_pos h.symm]
  · rw [if_neg h, if_neg fun heq => h heq.symm]

/-- Before the entry is built, its target is bumped. -/
theorem prepare_eq_bump (s : SessionManager) :
    (call.prepare s).fileEntries
        = mapEntries (bump (call.entry io s)) s.fileEntries
      ∧ (call.prepare s).byId
        = s.byId.map fun p => (p.1, bump (call.entry io s) p.2) := by
  by_cases ha : ∃ a, call = appendChildUsageAttribution a
  · obtain ⟨a, rfl⟩ := ha
    have hbump : ∀ e, (if e.id = a.targetId then
          setUsage (cloneUsage a.aggregateUsage) e else e)
        = bump ((appendChildUsageAttribution a).entry io s) e :=
      mutate_eq_bump fun _ => rfl
    refine ⟨List.map_congr_left fun f _ => ?_,
      List.map_congr_left fun p _ => ?_⟩
    · cases f with
      | session h => rfl
      | entry e => exact congrArg FileEntry.entry (hbump e)
    · exact congrArg (p.1, ·) (hbump p.2)
  · have hbump : bump (call.entry io s) = id := by
      funext e
      refine bump_eq_self (fun id => ?_) e
      cases call with
      | appendChildUsageAttribution a => exact absurd ⟨a, rfl⟩ ha
      | _ => rfl
    have hentries : mapEntries id s.fileEntries = s.fileEntries :=
      mapEntries_eq_self.2 fun _ _ => rfl
    rw [hbump, hentries]
    refine ⟨?_, ?_⟩
    · cases call with
      | appendChildUsageAttribution a => exact absurd ⟨a, rfl⟩ ha
      | _ => rfl
    · have hid : (fun p : String × SessionEntry => (p.1, id p.2)) = id := rfl
      rw [hid, List.map_id]
      cases call with
      | appendChildUsageAttribution a => exact absurd ⟨a, rfl⟩ ha
      | _ => rfl

section
variable (m : Machine)

/-- The entries in memory after a push. -/
theorem pushed_fileEntries :
    (call.pushed io m).manager.fileEntries
      = mapEntries (bump (call.entry io m.manager)) m.manager.fileEntries
        ++ [.entry (call.entry io m.manager)] :=
  congrArg (· ++ [FileEntry.entry (call.entry io m.manager)])
    (prepare_eq_bump io call m.manager).1

theorem pushed_byId :
    (call.pushed io m).manager.byId
      = JsMap.set (m.manager.byId.map fun p =>
          (p.1, bump (call.entry io m.manager) p.2))
        (call.entry io m.manager).id (call.entry io m.manager) :=
  congrArg (JsMap.set · _ _) (prepare_eq_bump io call m.manager).2

@[simp] theorem pushed_disk :
    (call.pushed io m).disk = m.disk := rfl

@[simp] theorem pushed_leafId :
    (call.pushed io m).manager.leafId = some (call.entry io m.manager).id :=
  rfl

@[simp] theorem pushed_flushed :
    (call.pushed io m).manager.flushed = m.manager.flushed := by
  obtain ⟨f, b, l, h⟩ := prepare_frame call m.manager
  rw [pushed, h]
  rfl

theorem pushed_hasAssistantEntry :
    (call.pushed io m).manager.hasAssistantEntry
      = (m.manager.hasAssistantEntry
        || (call.entry io m.manager).assistant?.isSome) := by
  obtain ⟨f, b, l, h⟩ := prepare_frame call m.manager
  rw [pushed, h]
  rfl

theorem pushed_labelMaps :
    (call.pushed io m).manager.labelMaps = m.manager.labelMaps := by
  obtain ⟨f, b, l, h⟩ := prepare_frame call m.manager
  rw [pushed, h]
  rfl

end

theorem pushed_persistedAt (h : PersistedAt m.manager file) :
    PersistedAt (call.pushed io m).manager file := by
  obtain ⟨f, b, l, hp⟩ := prepare_frame call m.manager
  rw [pushed, hp]
  exact ⟨h.persist, h.sessionFile⟩

end

-- ======== what is persisted

variable {io}

/-- The three things persisting can do: defer, rewrite the whole file, or
append a line. -/
theorem persist_pushed (h : PersistedAt m.manager file)
    (io : Io) (call : AppendCall) :
    persistEntry io (call.entry io m.manager) (call.pushed io m)
      = if call.deferred io m.manager then
          .ok ()
            { disk := m.disk
              manager :=
                { (call.pushed io m).manager with flushed := false } }
        else if !m.manager.flushed || (m.disk file).isNone then
          if io.writeFileAtomicSync 0 then
            .error "writeFileAtomicSync" (call.pushed io m)
          else .ok ()
            { disk := m.disk.write file
                (fileText (call.pushed io m).manager.fileEntries)
              manager :=
                { (call.pushed io m).manager with flushed := true } }
        else
          appendFile io.appendFileSync file
            (entryLine (.entry (call.entry io m.manager)))
            (call.pushed io m) := by
  rw [persistEntry_eq (pushed_persistedAt io call h), pushed_hasAssistantEntry,
    pushed_flushed, deferred]
  rfl

/-- An append to a flushed file adds its line, or what was written of it
before the throw. -/
theorem run_line {bytes : List UInt8}
    (h : PersistedAt m.manager file) (hflushed : m.manager.flushed = true)
    (hbytes : m.disk file = some bytes)
    (hrefuses : call.refuses m.manager = none)
    (hdeferred : call.deferred io m.manager = false) :
    call.run io m
      = match io.appendFileSync with
        | none => .ok (call.entry io m.manager).id
            { disk := m.disk.write file
                (bytes ++ entryLine (.entry (call.entry io m.manager)))
              manager := call.finish io (call.pushed io m).manager }
        | some n => .error "appendFileSync"
            { disk := m.disk.write file
                (bytes ++ (entryLine (.entry (call.entry io m.manager))).take n)
              manager := (call.pushed io m).manager } := by
  rw [run_eq, hrefuses, persist_pushed h, hdeferred, hflushed, hbytes]
  simp only [Bool.false_eq_true, if_false, Bool.not_true, Bool.or_self,
    Option.isNone_some, appendFile, pushed_disk, hbytes, Option.getD_some]
  cases io.appendFileSync <;> rfl

/-- An append that returns was not refused, and was persisted. -/
theorem run_ok (h : call.run io m = .ok id m') :
    call.refuses m.manager = none ∧ id = (call.entry io m.manager).id
      ∧ ∃ m₁, persistEntry io (call.entry io m.manager) (call.pushed io m)
          = .ok () m₁
        ∧ m' = { m₁ with manager := call.finish io m₁.manager } := by
  rw [run_eq] at h
  cases hr : call.refuses m.manager with
  | some e =>
    rw [hr] at h
    cases h
  | none =>
    rw [hr] at h
    cases hp : persistEntry io (call.entry io m.manager)
        (call.pushed io m) with
    | ok u m₁ =>
      simp only [hp] at h
      cases h
      exact ⟨rfl, rfl, m₁, rfl, rfl⟩
    | error e m₁ =>
      simp only [hp] at h
      cases h

end AppendCall

end OneHarness.Session
