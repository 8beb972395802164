/-
The file replays the session, over runs without write failures.

Any sequence of operations is a run: new sessions, every append, moving
the leaf, branching off, flushing, and somebody else deleting the file.
A run keeps the session `Sound`, and its label maps those of its entries
(`Labelled`); so whenever the file is written it is loaded as the entries
in memory, and after an append the index rebuilt from the file is the one
in memory (`file_is_session`).

# The condition

A branched session writes its assistant messages with the usage they
have in memory, and keeps those attributions that lie on its path. Where
a message was attributed more than once and the path ends before the last
time, the loader applies an older aggregate to it (`overtaken_reload`).
Every other step is covered: the only other thing asked is that drawn ids
are new.
-/
import OneHarness.Session.Proofs.Branch
import OneHarness.Session.Proofs.Faults

namespace OneHarness.Session

open Lib Lib.Lines

variable {io : Io} {m m' : Machine} {s s' : SessionManager}

-- ======== the labels

/-- The label maps are those of the entries. -/
def Labelled (s : SessionManager) : Prop :=
  s.labelMaps = s.getEntries.foldl SessionManager.labelStep ([], [])

theorem Labelled.congr (h : Labelled s) (hl : s'.labelMaps = s.labelMaps)
    (hf : s'.fileEntries = s.fileEntries) : Labelled s' := by
  rw [Labelled, hl, SessionManager.getEntries, hf]
  exact h

theorem labelStep_bump (x e : SessionEntry)
    (maps : JsMap String String × JsMap String String) :
    SessionManager.labelStep maps (bump x e)
      = SessionManager.labelStep maps e := by
  unfold bump
  split
  · obtain ⟨id, parentId, timestamp, body⟩ := e
    cases body with
    | message m => cases m <;> rfl
    | _ => rfl
  · rfl

theorem foldl_labelStep_bump (x : SessionEntry) (es : List SessionEntry)
    (maps : JsMap String String × JsMap String String) :
    (es.map (bump x)).foldl SessionManager.labelStep maps
      = es.foldl SessionManager.labelStep maps := by
  rw [List.foldl_map]
  simp only [labelStep_bump]

/-- An append keeps the label maps those of the entries. -/
theorem labelled_append (io : Io) (call : AppendCall)
    (h : Labelled m.manager) (flushed : Bool) :
    Labelled (call.finish io
      { (call.pushed io m).manager with flushed := flushed }) := by
  have hmaps : (call.finish io
      { (call.pushed io m).manager with flushed := flushed }).labelMaps
      = SessionManager.labelStep m.manager.labelMaps
        (call.entry io m.manager) :=
    (AppendCall.finish_labelMaps io call _ m.manager).trans
      (congrArg (SessionManager.labelStep · _)
        (AppendCall.pushed_labelMaps io call m))
  have hentries : (call.finish io
      { (call.pushed io m).manager with flushed := flushed }).getEntries
      = (call.pushed io m).manager.getEntries :=
    congrArg entriesOf (AppendCall.finish_fileEntries io call _)
  rw [Labelled, hmaps, hentries, entriesOf_pushed, List.foldl_append,
    foldl_labelStep_bump, ← h]
  rfl

-- ======== the steps

/-- No write fails. -/
structure Faultless (io : Io) : Prop where
  append : io.appendFileSync = none
  rewrite : ∀ n, io.writeFileAtomicSync n = false

/-- What every operation keeps. -/
structure Replays (m : Machine) : Prop where
  sound : Sound m
  labelled : Labelled m.manager

theorem persist_faultless (call : AppendCall) (hio : Faultless io)
    (hp : ∃ file, PersistedAt m.manager file) :
    ∃ m₁, persistEntry io (call.entry io m.manager) (call.pushed io m)
      = .ok () m₁ := by
  obtain ⟨file, hm⟩ := hp
  rw [AppendCall.persist_pushed hm, hio.rewrite]
  split
  · exact ⟨_, rfl⟩
  · split
    · exact ⟨_, rfl⟩
    · unfold appendFile
      rw [hio.append]
      exact ⟨_, rfl⟩

theorem replays_append {call : AppendCall} (hio : Faultless io)
    (h : Replays m) (hx : FreshEntry io call m.manager) :
    Replays (outcome (call.run io m)).machine := by
  have hspec := append_spec io call h.sound hx
  cases hrun : call.run io m with
  | ok id m' =>
    rw [hrun] at hspec
    obtain ⟨-, -, hsound, ⟨flushed, hman⟩, -⟩ := hspec
    refine ⟨hsound, ?_⟩
    rw [outcome, Outcome.machine, hman]
    exact labelled_append io call h.labelled flushed
  | error e m' =>
    -- nothing but a refusal
    rw [AppendCall.run_eq] at hrun
    cases hr : call.refuses m.manager with
    | some e' =>
      rw [hr] at hrun
      cases hrun
      exact h
    | none =>
      obtain ⟨m₁, hp⟩ := persist_faultless call hio h.sound.persisted
      rw [hr] at hrun
      simp only [hp] at hrun
      cases hrun

theorem flushNow_faultless (hio : Faultless io) (n : Nat)
    (hp : ∃ file, PersistedAt m.manager file) :
    ∃ m', flushNow (io.writeFileAtomicSync n) m = .ok () m' := by
  obtain ⟨file, hm⟩ := hp
  rw [flushNow_eq hm, hio.rewrite]
  split
  · exact ⟨_, rfl⟩
  · exact ⟨_, rfl⟩

theorem replays_rollback {call : AppendCall} (hio : Faultless io)
    (h : Replays m) (hx : FreshEntry io call m.manager)
    (hplain : Plain call) :
    Replays (outcome (appendEntryWithRollback io (call.run io) m)).machine := by
  have hspec := rollback_spec io h.sound hx hplain
  have hmaps := labelled_append io call h.labelled true
  rw [hplain.finish] at hmaps
  cases hrun : appendEntryWithRollback io (call.run io) m with
  | ok id m' =>
    rw [hrun] at hspec
    obtain ⟨-, hsound, -, hman⟩ := hspec
    refine ⟨hsound, ?_⟩
    rw [outcome, Outcome.machine, hman]
    exact hmaps
  | error e m' =>
    obtain ⟨m₁, hp⟩ := persist_faultless call hio h.sound.persisted
    have happ := AppendCall.run_eq io call m
    rw [hplain.refuses] at happ
    simp only [hp, hplain.finish] at happ
    have hs₁ := append_spec io call h.sound hx
    rw [happ] at hs₁
    obtain ⟨m₂, hf⟩ := flushNow_faultless hio 1 hs₁.2.2.1.persisted
    have hok : flushedAppend io (call.run io) m
        = .ok (call.entry io m.manager).id m₂ :=
      (bind_of_ok happ).trans (bind_of_ok hf)
    rw [rollback_ok hok] at hrun
    cases hrun

theorem replays_flushNow (h : Replays m) (throws : Bool) :
    Replays (outcome (flushNow throws m)).machine := by
  refine ⟨sound_flushNow h.sound throws, ?_⟩
  obtain ⟨file, hm⟩ := h.sound.persisted
  cases hrun : flushNow throws m with
  | ok u m' =>
    rw [outcome, Outcome.machine, (flushNow_ok hm hrun).2]
    exact h.labelled
  | error e m' =>
    rw [outcome, Outcome.machine, flushNow_error hm hrun]
    exact h.labelled

/-- A change of a field that no view of the session reads. -/
theorem Replays.congr (h : Replays m) (hd : m'.disk = m.disk)
    (hp : m'.manager.persist = m.manager.persist)
    (hfile : m'.manager.sessionFile = m.manager.sessionFile)
    (hflushed : m'.manager.flushed = m.manager.flushed)
    (hf : m'.manager.fileEntries = m.manager.fileEntries)
    (hb : m'.manager.byId = m.manager.byId)
    (hl : m'.manager.leafId = m.manager.leafId)
    (hmaps : m'.manager.labelMaps = m.manager.labelMaps) : Replays m' := by
  obtain ⟨⟨⟨file, hpf, hff⟩, hlive, hstored⟩, hlab⟩ := h
  refine ⟨⟨⟨file, hp.trans hpf, hfile.trans hff⟩, hlive.congr hf hb hl, ?_⟩,
    hlab.congr hmaps hf⟩
  intro f bytes hf' hfl hbytes
  rw [hfile] at hf'
  rw [hflushed] at hfl
  rw [hd] at hbytes
  rw [hf]
  exact hstored f bytes hf' hfl hbytes

/-- The manager of a new session. -/
theorem replays_fresh {h : SessionHeader} {file : String}
    (hp : PersistedAt m.manager file)
    (hf : m.manager.fileEntries = [.session h]) (hb : m.manager.byId = [])
    (hl : m.manager.leafId = none) (hmaps : m.manager.labelMaps = ([], []))
    (hu : m.manager.flushed = false) : Replays m := by
  have hes : m.manager.getEntries = [] := by
    rw [SessionManager.getEntries, hf]
    rfl
  refine ⟨⟨⟨file, hp⟩, ⟨⟨h, [], hf⟩, ?_, ?_, ?_, ?_⟩,
    stored_of_unflushed hu⟩, ?_⟩
  · rw [hes]
    exact List.nodup_nil
  · rw [hes]
    intro e he
    cases he
  · rw [hes, hb]
    rfl
  · intro id hid
    rw [hl] at hid
    cases hid
  · rw [Labelled, hes, hmaps]
    rfl

/-- A persisted session that is made anew has a file name. -/
theorem newSessionTarget_persist {options : NewSessionOptions}
    {target : String × Option String}
    (h : newSessionTarget io options m = .ok target)
    (hp : m.manager.persist = true) : ∃ file, target.2 = some file := by
  unfold newSessionTarget at h
  simp only [hp, Bool.not_true, Bool.false_eq_true, if_false] at h
  split at h
  · split at h
    · cases h
    · cases h
      exact ⟨_, rfl⟩
  · split at h
    case h_1 =>
      cases h
      exact ⟨_, rfl⟩
    case h_2 => cases h

/-- What `newSession` leaves: a session of its own, or the old one. -/
theorem newSession_cases (io : Io) (options : NewSessionOptions)
    (hp : m.manager.persist = true) :
    (∃ file m', newSession io options m = .ok file m' ∧ Replays m'
      ∧ m'.manager.flushed = false)
    ∨ ∃ e m', newSession io options m = .error e m'
      ∧ (Replays m → Replays m') := by
  unfold newSession
  cases ht : newSessionTarget io options m with
  | error e => exact Or.inr ⟨e, m, rfl, id⟩
  | ok target =>
    obtain ⟨file, hfile⟩ := newSessionTarget_persist ht hp
    obtain ⟨sessionId, sessionFile⟩ := target
    obtain rfl : sessionFile = some file := hfile
    have hnew : ∀ h : SessionHeader, Replays
        ({ m with manager := { m.manager with
            sessionId := sessionId
            fileEntries := [.session h]
            hasAssistantEntry := false
            byId := []
            labelsById := []
            labelTimestampsById := []
            leafId := none
            flushed := false
            sessionFile := if m.manager.persist then some file
              else m.manager.sessionFile } } : Machine) := fun h =>
      replays_fresh ⟨hp, if_pos hp⟩ rfl rfl rfl rfl rfl
    cases hopt : options.rlmDepth with
    | some depth => exact Or.inl ⟨_, _, rfl, hnew _, rfl⟩
    | none =>
      cases hd : io.newRlmDepth with
      | error e =>
        exact Or.inr ⟨e, _, rfl, fun h =>
          h.congr rfl rfl rfl rfl rfl rfl rfl rfl⟩
      | ok depth =>
        exact Or.inl ⟨_, _, rfl, hnew _, rfl⟩

theorem replays_newSession (options : NewSessionOptions) (h : Replays m) :
    Replays (outcome (newSession io options m)).machine := by
  obtain ⟨file, hm⟩ := h.sound.persisted
  rcases newSession_cases io options hm.persist with
    ⟨f, m', hrun, hnew, -⟩ | ⟨e, m', hrun, hold⟩
  · rw [hrun]
    exact hnew
  · rw [hrun]
    exact hold h

/-- Moving the leaf to an entry of the session, or to none. -/
theorem replays_leaf {leafId : Option String} (h : Replays m)
    (hleaf : ∀ id, leafId = some id → m.manager.byId.has id = true) :
    Replays { m with manager := { m.manager with leafId := leafId } } := by
  obtain ⟨⟨⟨file, hm⟩, hlive, hstored⟩, hlab⟩ := h
  refine ⟨⟨⟨file, hm.persist, hm.sessionFile⟩,
    ⟨hlive.header, hlive.distinct, hlive.settled, hlive.byId, ?_⟩, hstored⟩,
    hlab⟩
  intro id hid
  have hhas := hleaf id hid
  rw [JsMap.has, hlive.byId, Option.isSome_iff_exists] at hhas
  obtain ⟨e, he⟩ := hhas
  exact ⟨e, mem_of_indexOf he, (indexOf_keyed _).key_of_get he⟩

theorem replays_branch (branchFromId : String) (h : Replays m) :
    Replays (Outcome.machine (branch branchFromId m)) := by
  unfold branch
  rw [get_bind]
  cases hhas : m.manager.byId.has branchFromId with
  | false => exact h
  | true =>
    refine replays_leaf h fun id hid => ?_
    cases hid
    exact hhas

theorem replays_resetLeaf (h : Replays m) :
    Replays (Outcome.machine (resetLeaf m)) :=
  replays_leaf h fun id hid => by cases hid

/-- Somebody else deletes the file. -/
theorem replays_delete (h : Replays m) (file : String) :
    Replays { m with disk := m.disk.remove file } := by
  refine ⟨⟨h.sound.persisted, h.sound.live, ?_⟩, h.labelled⟩
  intro f bytes hf hflushed hb
  by_cases heq : f = file
  · have hgone : m.disk.remove file f = some bytes := hb
    rw [heq, Disk.remove_self] at hgone
    cases hgone
  · exact h.sound.stored f bytes hf hflushed
      ((if_neg heq : m.disk.remove file f = m.disk f) ▸ hb)

-- ======== a branched session

/-- A branching that keeps only messages with the last usage the path it
keeps attributes to them, and draws new ids for its labels. -/
def KeepsUsage (io : Io) (leafId : String) (s : SessionManager) : Prop :=
  ∀ path, s.getBranch (some leafId) = some path →
    Settled (keptOf path)
      ∧ Uuids io.randomUUID
        (labelsToWrite s ((keptOf path).map (·.id))).length
        ((keptOf path).map (·.id))

theorem settle_append_labels {es labels : List SessionEntry}
    (hl : ∀ e ∈ labels, e.isLabel = true) (e : SessionEntry) :
    settle (es ++ labels) e = settle es e := by
  have hnone : ∀ id, labels.filterMap
      (fun e => attributedUsage id (.entry e)) = [] := by
    intro id
    rw [List.filterMap_eq_nil_iff]
    intro x hx
    have hlabel := hl x hx
    obtain ⟨xid, parentId, timestamp, body⟩ := x
    cases body with
    | childUsageAttributed a => cases hlabel
    | _ => rfl
  unfold settle lastUsage
  rw [List.filterMap_append, hnone, List.append_nil]

theorem settled_append_labels {es labels : List SessionEntry}
    (h : Settled es) (hl : ∀ e ∈ labels, e.isLabel = true) :
    Settled (es ++ labels) := by
  intro e he
  rw [settle_append_labels hl]
  rcases List.mem_append.1 he with he | he
  · exact h e he
  · -- a label is no assistant message
    have hlabel := hl e he
    unfold settle
    split
    · refine setUsage_of_not_assistant ?_
      obtain ⟨eid, parentId, timestamp, body⟩ := e
      cases body with
      | label l => rfl
      | _ => cases hlabel
    · rfl

theorem Live.indexed (h : Live s) : s.Indexed := fun id => by rw [h.byId]

variable {leafId : String} {path : List SessionEntry}

/-- The manager of a branched session. -/
theorem live_branched
    (h : Live s) (hpath : s.getBranch (some leafId) = some path)
    (hne : path ≠ []) (hkeeps : KeepsUsage io leafId s) (id : String)
    (file : Option String) :
    Live (branchedManager io s path id file)
      ∧ Labelled (branchedManager io s path id file) := by
  obtain ⟨hsettled, huuid⟩ := hkeeps path hpath
  obtain ⟨hlive, -⟩ :=
    SessionManager.livePath_of_getBranch h.indexed hpath hne
  have hfiles : ∃ hd, (branchedManager io s path id file).fileEntries
      = .session hd :: (branchedEntries io s path).map .entry :=
    ⟨_, SessionManager.buildIndex_fileEntries _⟩
  obtain ⟨hd, hfiles⟩ := hfiles
  have hes : (branchedManager io s path id file).getEntries
      = branchedEntries io s path := by
    rw [SessionManager.getEntries, hfiles, entriesOf_session,
      entriesOf_map_entry]
  refine ⟨⟨⟨hd, _, hfiles⟩, ?_, ?_, ?_, ?_⟩, ?_⟩
  · rw [hes]
    exact distinctIds_branchedEntries hlive huuid
  · rw [hes, branchedEntries_eq]
    exact settled_append_labels hsettled fun e he =>
      isLabel_branchLabelEntries he
  · rw [hes]
    exact branchedManager_byId _ _ _ _ _
  · intro leaf hleaf
    rw [branchedManager_leafId, Option.map_eq_some_iff] at hleaf
    obtain ⟨e, he, rfl⟩ := hleaf
    rw [hes]
    exact ⟨e, List.mem_of_getLast? he, rfl⟩
  · have hmaps : (branchedManager io s path id file).labelMaps
        = (entriesOf (branchedManager io s path id file).fileEntries).foldl
          SessionManager.labelStep ([], []) := by
      rw [hfiles]
      exact SessionManager.buildIndex_labelMaps _
    exact hmaps

theorem persistedAt_branched {id file : String} (hp : s.persist = true) :
    PersistedAt (branchedManager io s path id (some file)) file where
  persist := (SessionManager.buildIndex_persist _).trans hp
  sessionFile := (SessionManager.buildIndex_sessionFile _).trans (if_pos hp)

/-- A branched session with an answer is written when it is made. -/
theorem createBranchedSession_written {newId newFile : String}
    (hio : Faultless io)
    (hm : m.manager.persist = true)
    (hpath : m.manager.getBranch (some leafId) = some path) (hne : path ≠ [])
    (ht : branchTarget io m = some (newId, some newFile))
    (hhas : (branchedManager io m.manager path newId
      (some newFile)).hasAssistantEntry = true) :
    createBranchedSession io leafId m = some (.ok (some newFile)
      { disk := m.disk.write newFile (fileText (branchedManager io m.manager
          path newId (some newFile)).fileEntries)
        manager := { branchedManager io m.manager path newId (some newFile) with
          flushed := true } }) := by
  have hp : path.isEmpty = false := by simpa using hne
  have hw := rewriteFile_eq (m := ⟨m.disk, branchedManager io m.manager
    path newId (some newFile)⟩) (persistedAt_branched hm) false
  unfold createBranchedSession
  rw [hpath, Option.map_some, hp]
  simp only [Bool.false_eq_true, if_false, ht, hm, Bool.not_true]
  rw [if_pos hhas, hio.rewrite]
  exact congrArg some (bind_of_ok hw)

theorem replays_createBranchedSession
    {r : EStateM.Result String Machine (Option String)}
    (hio : Faultless io) (h : Replays m)
    (hkeeps : KeepsUsage io leafId m.manager)
    (hrun : createBranchedSession io leafId m = some r) :
    Replays (outcome r).machine := by
  obtain ⟨file, hm⟩ := h.sound.persisted
  obtain ⟨path, hpath, hr⟩ := Option.map_eq_some_iff.1 hrun
  by_cases hne : path = []
  · subst hne
    cases hr
    exact h
  have hp : path.isEmpty = false := by simpa using hne
  rw [hp] at hr
  simp only [Bool.false_eq_true, if_false] at hr
  cases ht : branchTarget io m with
  | none =>
    rw [ht] at hr
    cases hr
    exact h
  | some target =>
    obtain ⟨newId, newSessionFile⟩ := target
    obtain ⟨newFile, rfl⟩ : ∃ f, newSessionFile = some f := by
      unfold branchTarget at ht
      rw [if_pos hm.persist, Option.map_eq_some_iff] at ht
      obtain ⟨t, -, heq⟩ := ht
      cases heq
      exact ⟨_, rfl⟩
    obtain ⟨hlive, hlab⟩ :=
      live_branched h.sound.live hpath hne hkeeps newId (some newFile)
    have hbm : PersistedAt (branchedManager io m.manager path newId
        (some newFile)) newFile := persistedAt_branched hm.persist
    cases hhas : (branchedManager io m.manager path newId
        (some newFile)).hasAssistantEntry with
    | true =>
      rw [createBranchedSession_written hio hm.persist hpath hne ht hhas]
        at hrun
      cases hrun
      exact ⟨⟨⟨newFile, hbm.persist, hbm.sessionFile⟩,
        hlive.congr rfl rfl rfl, stored_of_rewrite
          (hlive.congr rfl rfl rfl) hbm.sessionFile
          (Disk.write_self _ _ _)⟩, hlab.congr rfl rfl⟩
    | false =>
      simp only [ht, hm.persist, Bool.not_true, Bool.false_eq_true,
        if_false, hhas] at hr
      cases hr
      exact ⟨⟨⟨newFile, hbm.persist, hbm.sessionFile⟩,
        hlive.congr rfl rfl rfl, stored_of_unflushed rfl⟩,
        hlab.congr rfl rfl⟩

-- ======== the run

/-- A call the theorem covers: new ids are new, and a branching keeps the
usage of what it keeps. -/
structure Covered (io : Io) (call : Call) (m : Machine) : Prop where
  fresh : ∀ a rollback, call.append? = some (a, rollback) →
    FreshEntry io a m.manager
  branching : ∀ leafId, call = .createBranchedSession leafId →
    KeepsUsage io leafId m.manager

theorem outcome_unit (r : Outcome) : outcome r = r := by
  cases r <;> rfl

/-- One operation of a run without write failures. -/
def ReplayStep (m m' : Machine) : Prop :=
  ∃ io call r, Faultless io ∧ Covered io call m
    ∧ call.run io m = some r ∧ m' = r.machine

theorem replays_step (h : Replays m) (hstep : ReplayStep m m') :
    Replays m' := by
  obtain ⟨io, call, r, hio, hcov, hrun, rfl⟩ := hstep
  cases call with
  | append call =>
    cases hrun
    exact replays_append hio h (hcov.fresh call false rfl)
  | appendCustomEntryWithRollback customType data =>
    cases hrun
    exact replays_rollback hio h (hcov.fresh _ true rfl)
      (plain_appendCustomEntry customType data)
  | appendCustomMessageEntryWithRollback c =>
    cases hrun
    exact replays_rollback hio h (hcov.fresh _ true rfl)
      (plain_appendCustomMessageEntry c)
  | newSession options =>
    cases hrun
    exact replays_newSession options h
  | branch branchFromId =>
    cases hrun
    exact replays_branch branchFromId h
  | resetLeaf =>
    cases hrun
    exact replays_resetLeaf h
  | createBranchedSession leafId =>
    obtain ⟨res, hres, rfl⟩ := Option.map_eq_some_iff.1 hrun
    exact replays_createBranchedSession hio h (hcov.branching leafId rfl)
      hres
  | flushNow =>
    cases hrun
    have hflush := replays_flushNow h (io.writeFileAtomicSync 0)
    rwa [outcome_unit] at hflush
  | deleteFile =>
    cases hrun
    cases m.manager.sessionFile with
    | some file => exact replays_delete h file
    | none => exact h

/-- A persisted session as it starts: made anew, or opened on a whole
file of version 2 or later whose ids are distinct. -/
inductive Started : Machine → Prop where
  | created {io : Io} {options : NewSessionOptions} {disk : Disk}
      {cwd sessionDir : String} {file : Option String} {m : Machine}
      (hnew : newSession io options
        { disk := disk, manager := freshManager cwd sessionDir true }
          = .ok file m) : Started m
  | opened {io : Io} {cwd sessionDir path : String} {disk : Disk}
      {bytes : List UInt8} {ds fs : List FileEntry} {m : Machine}
      (hbytes : disk path = some bytes) (hwhole : Records bytes ds)
      (hds : finalizeLoadedEntries ds = fs) (hne : fs ≠ [])
      (hdistinct : DistinctIds (entriesOf fs)) (hversion : 2 ≤ versionOf fs)
      (hopen : openSession io cwd sessionDir path disk = some (.ok () m)) :
      Started m

theorem OpenedOn.labelled {path : String} {fs : List FileEntry}
    (hon : OpenedOn s path fs) : Labelled s := by
  rw [Labelled, hon.labelMaps, SessionManager.getEntries, hon.fileEntries]

/-- A session opened on a whole file. -/
theorem replays_opened {cwd dir path : String} {disk : Disk}
    {bytes : List UInt8} {ds fs : List FileEntry}
    (hbytes : disk path = some bytes) (hwhole : Records bytes ds)
    (hds : finalizeLoadedEntries ds = fs) (hne : fs ≠ [])
    (hnd : DistinctIds (entriesOf fs)) (hv : 2 ≤ versionOf fs)
    (hopen : openSession io cwd dir path disk = some (.ok () m)) :
    Replays m := by
  have hrepair := hwhole.repair hbytes
  have hload : loadEntriesFromFile (repairJsonlDamage disk path) path
      = some fs := by
    rw [hrepair, ← hds]
    exact hwhole.load hbytes
  obtain ⟨s, hs, heq⟩ := openSession_eq io cwd dir
    (by rw [hbytes]; rfl) hload hne
  rw [heq] at hopen
  split at hopen
  · cases hopen
  · cases hopen
    have hon := openedOn io fs hs
    have hes := entriesOf_openedEntries io path hv
    obtain ⟨h, rest, hcons⟩ := exists_header hds hne
    obtain ⟨h', rest', hcons'⟩ := openedEntries_cons_session io path h rest
    have hlive : Live (openedManager io path fs s) := by
      refine live_opened hon ⟨h', rest', by rw [hcons, hcons']⟩ ?_ ?_
      · rw [hes]
        exact hnd
      · rw [hes]
        exact settled_of_finalize hds hnd
    refine ⟨⟨⟨path, hon.persistedAt⟩, hlive, ?_⟩, hon.labelled⟩
    by_cases hw : openRewrites io fs = true
    · refine stored_of_rewrite hlive hon.persistedAt.sessionFile ?_
      rw [if_pos hw, hon.fileEntries]
      exact Disk.write_self _ _ _
    · -- a file that is left alone is of the current version
      have hsame : openedEntries io path fs = fs := by
        rw [Bool.not_eq_true] at hw
        obtain ⟨hmig, hd⟩ := Bool.or_eq_false_iff.1 hw
        unfold migrateToCurrentVersion at hmig
        split at hmig
        · exact openedEntries_current io path ‹_› hd
        · cases hmig
      intro f bs hf _ hb
      obtain rfl : path = f :=
        Option.some.inj (hon.persistedAt.sessionFile.symm.trans hf)
      have hsome : disk path = some bs := by
        rw [← hrepair]
        exact (congrFun (if_neg hw) path).symm.trans hb
      rw [hbytes] at hsome
      cases hsome
      exact ⟨ds, hwhole, by rw [hds, hon.fileEntries, hsame]⟩

theorem Started.replays (h : Started m) : Replays m := by
  cases h with
  | @created io options disk cwd dir _ _ hnew =>
    rcases newSession_cases (m := ⟨disk, freshManager cwd dir true⟩) io
      options rfl with ⟨file, m', hrun, hm', -⟩ | ⟨e, m', hrun, -⟩
    · rw [hnew] at hrun
      cases hrun
      exact hm'
    · rw [hnew] at hrun
      cases hrun
  | opened hbytes hwhole hds hne hnd hv hopen =>
    exact replays_opened hbytes hwhole hds hne hnd hv hopen

theorem replays_run (h : Replays m)
    (hrun : Relation.ReflTransGen ReplayStep m m') : Replays m' := by
  induction hrun with
  | refl => exact h
  | tail _ hstep ih => exact replays_step ih hstep

/-- The manager whose index is built anew, from the entries `fs`. -/
def rebuilt (fs : List FileEntry) (s : SessionManager) : SessionManager :=
  { s with fileEntries := fs }.buildIndex

/-- The index rebuilt from `fs` is the one in memory. -/
structure RebuiltFrom (fs : List FileEntry) (s : SessionManager) : Prop where
  byId : (rebuilt fs s).byId = s.byId
  leafId : (rebuilt fs s).leafId = s.leafId
  labels : (rebuilt fs s).labelsById = s.labelsById
  labelTimestamps : (rebuilt fs s).labelTimestampsById = s.labelTimestampsById
  context : (rebuilt fs s).buildSessionContext = s.buildSessionContext

/-- A session that stands on its last entry is rebuilt as it is. -/
theorem rebuiltFrom_self (h : Replays m)
    (hleaf : m.manager.leafId = m.manager.getEntries.getLast?.map (·.id)) :
    RebuiltFrom m.manager.fileEntries m.manager := by
  have hb : m.manager.buildIndex.byId = m.manager.byId := by
    rw [SessionManager.buildIndex_byId, h.sound.live.byId]
    rfl
  have hl : m.manager.buildIndex.leafId = m.manager.leafId := by
    rw [SessionManager.buildIndex_leafId, hleaf]
    rfl
  have hmaps : m.manager.buildIndex.labelMaps = m.manager.labelMaps := by
    rw [SessionManager.buildIndex_labelMaps]
    exact h.labelled.symm
  refine ⟨hb, hl, congrArg Prod.fst hmaps, congrArg Prod.snd hmaps, ?_⟩
  show SessionManager.buildSessionContext m.manager.buildIndex = _
  unfold SessionManager.buildSessionContext
  rw [hb, hl, SessionManager.buildIndex_fileEntries]

/-- An append that returns stands on the entry it appended. -/
theorem leafId_of_append {call : Call} {a : AppendCall} {rollback : Bool}
    (hs : Sound m) (ha : call.append? = some (a, rollback))
    (hx : FreshEntry io a m.manager) (hok : call.run io m = some (.ok () m')) :
    m'.manager.leafId = m'.manager.getEntries.getLast?.map (·.id) := by
  have hpushed : (a.pushed io m).manager.leafId
      = (a.pushed io m).manager.getEntries.getLast?.map (·.id) := by
    rw [entriesOf_pushed, List.getLast?_concat, AppendCall.pushed_leafId]
    rfl
  have hback : Plain a → call.run io m
      = some (outcome (appendEntryWithRollback io (a.run io) m)) →
      m'.manager.leafId = m'.manager.getEntries.getLast?.map (·.id) := by
    intro hplain heq
    have hres := Option.some.inj (heq.symm.trans hok)
    have hspec := rollback_spec io hs hx hplain
    cases hrun : appendEntryWithRollback io (a.run io) m with
    | ok id m₁ =>
      rw [hrun] at hres hspec
      cases hres
      obtain ⟨-, -, -, hman⟩ := hspec
      rw [hman]
      exact hpushed
    | error e m₁ =>
      rw [hrun] at hres
      cases hres
  cases call with
  | append call =>
    cases ha
    have hres := Option.some.inj hok
    have hspec := append_spec io a hs hx
    cases hrun : a.run io m with
    | ok id m₁ =>
      rw [hrun] at hres hspec
      cases hres
      obtain ⟨-, -, -, ⟨flushed, hman⟩, -⟩ := hspec
      rw [hman, AppendCall.finish_leafId, SessionManager.getEntries,
        AppendCall.finish_fileEntries]
      exact hpushed
    | error e m₁ =>
      rw [hrun] at hres
      cases hres
  | appendCustomEntryWithRollback customType data =>
    cases ha
    exact hback (plain_appendCustomEntry customType data) rfl
  | appendCustomMessageEntryWithRollback c =>
    cases ha
    exact hback (plain_appendCustomMessageEntry c) rfl
  | _ => cases ha

/-- In every state of a run without write failures, a session that is
written is loaded as the entries in memory; and where the last operation
was an append, the index rebuilt from the file is the one in memory. -/
theorem file_is_session {m₀ : Machine} (h₀ : Started m₀)
    (hrun : Relation.ReflTransGen ReplayStep m₀ m) :
    (Written m → ∃ file, m.manager.sessionFile = some file
        ∧ loadEntriesFromFile m.disk file = some m.manager.fileEntries)
      ∧ ∀ (io : Io) (call : Call) a rollback m',
        call.append? = some (a, rollback) →
        Faultless io → FreshEntry io a m.manager →
        call.run io m = some (.ok () m') → Written m' →
        ∃ file fs, m'.manager.sessionFile = some file
          ∧ loadEntriesFromFile m'.disk file = some fs
          ∧ RebuiltFrom fs m'.manager := by
  have h := replays_run h₀.replays hrun
  constructor
  · intro hw
    obtain ⟨file, hfile, -, hload⟩ := h.sound.reload hw
    exact ⟨file, hfile, hload⟩
  · intro io call a rollback m' ha hio hx hok hw
    have hcov : Covered io call m := by
      refine ⟨fun b rb hb => ?_, fun leafId hc => ?_⟩
      · rw [ha] at hb
        cases hb
        exact hx
      · rw [hc] at ha
        cases ha
    have h' : Replays m' := replays_step h ⟨io, call, _, hio, hcov, hok, rfl⟩
    obtain ⟨file, hfile, -, hload⟩ := h'.sound.reload hw
    exact ⟨file, _, hfile, hload,
      rebuiltFrom_self h' (leafId_of_append h.sound ha hx hok)⟩

/-- A new session, and the first answer in it. -/
theorem file_is_session_answered :
    ∃ file₀ m₀ m' file fs,
      newSession (ioOf "s") ⟨some "s", none, none⟩
          { disk := fun _ => none, manager := freshManager "/" "/" true }
        = .ok file₀ m₀
      ∧ Call.run (ioOf "a") (.append (.appendMessage (answer (usageOf 1)))) m₀
        = some (.ok () m')
      ∧ loadEntriesFromFile m'.disk file = some fs
      ∧ RebuiltFrom fs m'.manager := by
  obtain ⟨file₀, m₀, hnew⟩ : ∃ file₀ m₀,
      newSession (ioOf "s") ⟨some "s", none, none⟩
          { disk := fun _ => none, manager := freshManager "/" "/" true }
        = .ok file₀ m₀ := ⟨_, _, rfl⟩
  obtain ⟨m', hok⟩ : ∃ m',
      Call.run (ioOf "a") (.append (.appendMessage (answer (usageOf 1)))) m₀
        = some (.ok () m') := by
    cases hnew
    exact ⟨_, rfl⟩
  have hx : FreshEntry (ioOf "a") (.appendMessage (answer (usageOf 1)))
      m₀.manager := by
    cases hnew
    refine ⟨fun e he => ?_, fun _ => rfl⟩
    cases he
  have hw : Written m' := by
    refine written_of_ok (Started.created hnew).replays.sound
      ⟨_, false, rfl, hx, fun _ n file h => ?_⟩ hok fun a ha => ?_
    · cases h
    · cases ha
      cases hnew
      rfl
  obtain ⟨file, fs, -, hload, hrebuilt⟩ :=
    (file_is_session (.created hnew) .refl).2 (ioOf "a") _ _ _ m' rfl
      ⟨rfl, fun _ => rfl⟩ hx hok hw
  exact ⟨file₀, m₀, m', file, fs, hnew, hok, hload, hrebuilt⟩

-- ======== an overtaken aggregate

/-- Run calls one after the other. -/
def runCalls : List (Io × Call) → Machine → Option Machine
  | [], m => some m
  | (io, call) :: calls, m =>
    (call.run io m).bind fun r => runCalls calls r.machine

/-- A usage the message `a` got from a child run, `n` tokens in all. -/
def attributed (n : Nat) : Call :=
  .append (.appendChildUsageAttribution
    { targetId := "a"
      childUsage := usageOf 1
      aggregateUsage := usageOf n
      origin := none })

/-- An answer, charged for two child runs. -/
def chargedTwice : List (Io × Call) :=
  [(ioOf "s", .newSession ⟨some "s", none, none⟩),
    (ioOf "a", .append (.appendMessage (answer (usageOf 1)))),
    (ioOf "b", attributed 2), (ioOf "c", attributed 3)]

def emptyMachine : Machine where
  disk := fun _ => none
  manager := freshManager "/" "/" true

/-- The input tokens of the answers in a file. -/
def inputsOf (fs : List FileEntry) : List Numeral :=
  (entriesOf fs).filterMap fun e => e.assistant?.map (·.usage.input)

theorem faultless_ioOf (uuid : String) : Faultless (ioOf uuid) :=
  ⟨rfl, fun _ => rfl⟩

/-- Branched off between the two charges, the session keeps the message
with both and the record of the first, and is loaded with the first
alone. -/
theorem overtaken_reload :
    ∃ m m' file newFile fs, runCalls chargedTwice emptyMachine = some m
      ∧ createBranchedSession (ioOf labelUuid) "b" m = some (.ok file m')
      ∧ Written m' ∧ m'.manager.sessionFile = some newFile
      ∧ loadEntriesFromFile m'.disk newFile = some fs
      ∧ fs ≠ m'.manager.fileEntries := by
  let m := (runCalls chargedTwice emptyMachine).getD emptyMachine
  have hm : runCalls chargedTwice emptyMachine = some m := rfl
  obtain ⟨path, hpath⟩ : ∃ path, m.manager.getBranch (some "b") = some path :=
    ⟨_, rfl⟩
  have hes : branchedEntries (ioOf labelUuid) m.manager path = path := by
    cases hpath
    rfl
  obtain ⟨newId, newFile, ht⟩ : ∃ newId newFile,
      branchTarget (ioOf labelUuid) m = some (newId, some newFile) :=
    ⟨_, _, rfl⟩
  have hpersist : m.manager.persist = true := rfl
  let s := branchedManager (ioOf labelUuid) m.manager path newId (some newFile)
  obtain ⟨h, hfiles⟩ : ∃ h, s.fileEntries = .session h :: path.map .entry := by
    rw [← hes]
    exact ⟨_, SessionManager.buildIndex_fileEntries _⟩
  have hhas : s.hasAssistantEntry = true := by
    cases hpath
    rfl
  have hrun := createBranchedSession_written (faultless_ioOf labelUuid)
    hpersist hpath (by cases hpath; exact List.cons_ne_nil _ _) ht hhas
  have hfile : s.sessionFile = some newFile :=
    (persistedAt_branched hpersist).sessionFile
  have hdisk : m.disk.write newFile (fileText s.fileEntries) newFile
      = some (linesOf s.fileEntries) := by
    rw [Disk.write_self,
      fileText_eq (by rw [hfiles]; exact List.cons_ne_nil _ _)]
  have hload := (Records.lines s.fileEntries).load hdisk
  refine ⟨m, _, _, newFile, _, hm, hrun, ⟨rfl, newFile, _, hfile,
    Disk.write_self _ _ _⟩, hfile, hload, ?_⟩
  show finalizeLoadedEntries s.fileEntries ≠ s.fileEntries
  rw [hfiles]
  cases hpath
  intro heq
  have husage := congrArg inputsOf heq
  have hinputs : [Numeral.ofNat 2] = [Numeral.ofNat 3] := husage
  exact absurd hinputs (by decide)

end OneHarness.Session
