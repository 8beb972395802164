/-
Opening a session after a crash.

A crash leaves some bytes of the file, and perhaps zeros behind them.
Opening what is left recovers exactly the survivors: the repaired file is
their lines, it is loaded as them, and repairing it again changes nothing
(`open_crashed`). Whatever is appended from then on is a record of its
own behind them, once it is written.

When it is written is the manager's choice: until the session holds an
assistant message, an entry stays in memory unless it is a session's
state or name, and `flushNow` writes it. So an append alone does not put
an entry on the disk: `open_crashed_defers`.
-/
import OneHarness.Session.Proofs.Appends
import OneHarness.Session.Proofs.Open

namespace OneHarness.Session

open Lib Lib.Lines

variable {io : Io} {cwd dir path : String} {disk : Disk}

/-- The file is the lines of `gs` and of `e`, and is reloaded as that:
`e` is a record of its own. -/
structure ReloadedAfter (disk : Disk) (path : String) (gs : List FileEntry)
    (e : SessionEntry) : Prop where
  file : disk path = some (linesOf (gs ++ [.entry e]))
  whole : repairJsonlDamage disk path = disk
  loads : loadEntriesFromFile disk path
    = some (applyChildUsageAttributions (gs ++ [.entry e]))

variable {h : SessionHeader} {gs : List FileEntry}

theorem reloadedAfter {e : SessionEntry}
    (hfile : disk path = some (linesOf (.session h :: gs ++ [.entry e]))) :
    ReloadedAfter disk path (.session h :: gs) e where
  file := hfile
  whole := repair_lines hfile
  loads := (Records.lines _).load hfile

/-- Something survives exactly when the header does. -/
theorem survivors_cons {m k : Nat}
    {fs : List FileEntry} (hne : survivors m k (.session h :: fs) ≠ []) :
    ∃ gs, survivors m k (.session h :: fs) = .session h :: gs := by
  rw [survivors] at hne ⊢
  split
  · exact ⟨_, rfl⟩
  · split
    · exact ⟨_, rfl⟩
    · rw [if_neg ‹_›, if_neg ‹_›] at hne
      exact absurd rfl hne

theorem apply_cons_session (h : SessionHeader) (gs : List FileEntry) :
    ∃ gs', applyChildUsageAttributions (.session h :: gs)
      = .session h :: gs' :=
  ⟨_, rfl⟩

/-- The records an opened file holds: those loaded, or, where opening
writes the file again, those in memory. -/
def openedRecords (io : Io) (path : String) (gs : List FileEntry) :
    List FileEntry :=
  if openRewrites io (applyChildUsageAttributions gs) then
    openedEntries io path (applyChildUsageAttributions gs)
  else gs

/-- What an open leaves in memory and on the disk. -/
theorem open_records {m₁ : Machine}
    (hexists : (disk path).isSome = true)
    (hfile : repairJsonlDamage disk path path
      = some (linesOf (.session h :: gs)))
    (hopen : openSession io cwd dir path disk = some (.ok () m₁)) :
    OpenedOn m₁.manager path
        (openedEntries io path (applyChildUsageAttributions (.session h :: gs)))
      ∧ m₁.disk path = some (linesOf (openedRecords io path (.session h :: gs)))
    := by
  have hload := (Records.lines (.session h :: gs)).load hfile
  obtain ⟨gs', hgs'⟩ := apply_cons_session h gs
  rw [finalizeLoadedEntries] at hload
  obtain ⟨s, hs, heq⟩ := openSession_eq io cwd dir hexists hload
    (by rw [hgs']; exact List.cons_ne_nil _ _)
  rw [heq] at hopen
  split at hopen
  · cases hopen
  · cases hopen
    refine ⟨openedOn io _ hs, ?_⟩
    unfold openedRecords
    split
    · obtain ⟨h', fs', hcons⟩ := openedEntries_cons_session io path h gs'
      refine (Disk.write_self _ _ _).trans ?_
      rw [hgs', hcons, fileText_eq (List.cons_ne_nil _ _)]
    · exact hfile

theorem openedRecords_cons (io : Io) (path : String) (h : SessionHeader)
    (gs : List FileEntry) :
    ∃ h' gs', openedRecords io path (.session h :: gs) = .session h' :: gs' := by
  unfold openedRecords
  split
  · obtain ⟨gs', hgs'⟩ := apply_cons_session h gs
    rw [hgs']
    exact openedEntries_cons_session io path h gs'
  · exact ⟨h, gs, rfl⟩

/-- Appending to a flushed file of records. -/
theorem append_records {call : AppendCall} {id : String} {m m' : Machine}
    (hm : PersistedAt m.manager path) (hflushed : m.manager.flushed = true)
    (hfile : m.disk path = some (linesOf (.session h :: gs)))
    (hrun : call.run io m = .ok id m')
    (hdef : call.deferred io m.manager = false) :
    ReloadedAfter m'.disk path (.session h :: gs)
      (call.entry io m.manager) := by
  obtain ⟨-, -, m₁, hp, rfl⟩ := AppendCall.run_ok hrun
  rw [AppendCall.persist_pushed hm, hdef, hflushed, hfile] at hp
  simp only [Bool.false_eq_true, if_false, Bool.not_true, Option.isNone_some,
    Bool.or_self, appendFile, AppendCall.pushed_disk] at hp
  split at hp
  case h_1 =>
    cases hp
    refine reloadedAfter ?_
    refine (Disk.write_self _ _ _).trans ?_
    rw [hfile, Option.getD_some, linesOf_append, linesOf_singleton]
  case h_2 => cases hp

/-- Flushing after an append that was deferred. -/
theorem flush_deferred {call : AppendCall} {id : String} {m m' m'' : Machine}
    {throws : Bool}
    (hm : PersistedAt m.manager path)
    (hentries : m.manager.fileEntries = .session h :: gs)
    (hrun : call.run io m = .ok id m')
    (hdef : call.deferred io m.manager = true)
    (hflush : flushNow throws m' = .ok () m'') :
    ReloadedAfter m''.disk path
      (mapEntries (bump (call.entry io m.manager)) m.manager.fileEntries)
      (call.entry io m.manager) := by
  obtain ⟨-, -, m₁, hp, rfl⟩ := AppendCall.run_ok hrun
  rw [AppendCall.persist_pushed hm, hdef, if_pos rfl] at hp
  cases hp
  have hpush := AppendCall.pushed_persistedAt io call hm
  have hfin := AppendCall.finish_persistedAt io call
    (s := { (call.pushed io m).manager with flushed := false })
    ⟨hpush.persist, hpush.sessionFile⟩
  rw [flushNow_eq hfin] at hflush
  simp only [AppendCall.finish_flushed, Bool.false_and, Bool.false_eq_true,
    if_false, AppendCall.finish_fileEntries, AppendCall.pushed_fileEntries,
    hentries] at hflush
  split at hflush
  · cases hflush
  · cases hflush
    rw [hentries]
    refine reloadedAfter ((Disk.write_self _ _ _).trans ?_)
    rw [fileText_eq (by simp)]
    rfl

-- ======== the crash

/-- What is left of a session file after a crash, `k` bytes of it and `m`
zeros, is opened as its survivors, provided the header is one of them.
They are the lines of the repaired file, a second repair finds nothing,
and opening goes on with them as loading gives them. Every entry appended
then is reloaded behind them as a record of its own: at once, or, where
the append is deferred, after the next flush. -/
theorem open_crashed {h : SessionHeader} {fs : List FileEntry} {k m : Nat}
    (hfile : disk path
      = some ((linesOf (.session h :: fs)).take k ++ List.replicate m 0))
    (hheader : survivors m k (.session h :: fs) ≠ []) :
    let gs := survivors m k (.session h :: fs)
    let disk' := repairJsonlDamage disk path
    disk' path = some (linesOf gs)
      ∧ loadEntriesFromFile disk' path = some (applyChildUsageAttributions gs)
      ∧ repairJsonlDamage disk' path = disk'
      ∧ (io.writeFileAtomicSync 0 = false →
        ∃ m₁, openSession io cwd dir path disk = some (.ok () m₁))
      ∧ ∀ m₁, openSession io cwd dir path disk = some (.ok () m₁) →
        m₁.manager.fileEntries
            = openedEntries io path (applyChildUsageAttributions gs)
          ∧ m₁.disk path = some (linesOf (openedRecords io path gs))
          ∧ ∀ io' call id m₂, AppendCall.run io' call m₁ = .ok id m₂ →
            (call.deferred io' m₁.manager = false →
              ReloadedAfter m₂.disk path (openedRecords io path gs)
                (call.entry io' m₁.manager))
            ∧ (call.deferred io' m₁.manager = true →
              ∀ throws m₃, flushNow throws m₂ = .ok () m₃ →
                ReloadedAfter m₃.disk path
                  (mapEntries (bump (call.entry io' m₁.manager))
                    m₁.manager.fileEntries)
                  (call.entry io' m₁.manager)) := by
  intro gs disk'
  have hexists : (disk path).isSome = true := by
    rw [hfile]
    rfl
  have hlines : disk' path = some (linesOf gs) := (repair_cut hfile).1
  obtain ⟨gs', hgs⟩ := survivors_cons hheader
  have hgs : gs = .session h :: gs' := hgs
  rw [hgs] at hlines ⊢
  have hload := (Records.lines _).load hlines
  refine ⟨hlines, hload, repair_lines hlines, fun hio => ?_,
    fun m₁ hopen => ?_⟩
  · obtain ⟨as, has⟩ := apply_cons_session h gs'
    rw [finalizeLoadedEntries] at hload
    obtain ⟨s, -, heq⟩ := openSession_eq io cwd dir hexists hload
      (by rw [has]; exact List.cons_ne_nil _ _)
    rw [hio, Bool.and_false] at heq
    exact ⟨_, heq⟩
  · obtain ⟨hon, hdisk⟩ := open_records hexists hlines hopen
    refine ⟨hon.fileEntries, hdisk, fun io' call id m₂ hrun => ⟨fun hdef => ?_,
      fun hdef throws m₃ hflush => ?_⟩⟩
    · obtain ⟨h', rs, hcons⟩ := openedRecords_cons io path h gs'
      rw [hcons] at hdisk ⊢
      exact append_records hon.persistedAt hon.flushed hdisk hrun hdef
    · obtain ⟨as, has⟩ := apply_cons_session h gs'
      obtain ⟨h', es, hcons⟩ := openedEntries_cons_session io path h as
      exact flush_deferred hon.persistedAt
        (hon.fileEntries.trans (has ▸ hcons)) hrun hdef hflush

-- ======== a small session

/-- A session of one question. -/
def askedFile : List FileEntry :=
  [.session (headerOf "s"), .entry (userEntry "a" none "hi")]

/-- The length of its first line. -/
def headerLength : Nat := (entryLine (.session (headerOf "s"))).length

/-- What a crash in its second line left: a byte of it, and two zeros. -/
def crashedDisk : Disk := fun p =>
  if p = "/s.jsonl" then
    some ((linesOf askedFile).take (headerLength + 1) ++ List.replicate 2 0)
  else none

theorem survivors_crashed :
    survivors 2 (headerLength + 1) askedFile
      = [.session (headerOf "s")] := by
  have hline : ¬(entryLine (.entry (userEntry "a" none "hi"))).length ≤ 1 := by
    have hne := entryText_ne_nil (.entry (userEntry "a" none "hi"))
    rw [ne_eq, ← List.length_eq_zero_iff] at hne
    rw [entryLine, List.length_append, List.length_singleton]
    omega
  have hfits : (entryLine (.session (headerOf "s"))).length
      ≤ headerLength + 1 := Nat.le_add_right ..
  have hrest : headerLength + 1
      - (entryLine (.session (headerOf "s"))).length = 1 :=
    Nat.add_sub_cancel_left ..
  rw [askedFile, survivors, if_pos hfits, hrest, survivors, if_neg hline,
    if_neg (fun h => absurd h.1 (by decide))]

/-- Its header is recovered, and it opens. -/
theorem open_crashed_header :
    repairJsonlDamage crashedDisk "/s.jsonl" "/s.jsonl"
        = some (linesOf [.session (headerOf "s")])
      ∧ ∃ m₁, openSession (ioOf "") "/" "/" "/s.jsonl" crashedDisk
        = some (.ok () m₁) := by
  have hheader : survivors 2 (headerLength + 1) askedFile ≠ [] := by
    rw [survivors_crashed]
    exact List.cons_ne_nil _ _
  obtain ⟨hlines, -, -, hopens, -⟩ :=
    @open_crashed (ioOf "") "/" "/" "/s.jsonl" crashedDisk _ _ _ _ rfl hheader
  rw [← askedFile, survivors_crashed] at hlines
  exact ⟨hlines, hopens rfl⟩

/-- Its file, undamaged. -/
def askedDisk : Disk := fun p =>
  if p = "/s.jsonl" then some (linesOf askedFile) else none

/-- A second question. -/
def secondQuestion : AppendCall := .appendMessage question

/-- A second question appended to it is not reloaded: it is not written
before there is an answer. -/
theorem open_crashed_defers :
    askedDisk "/s.jsonl"
        = some ((linesOf askedFile).take (linesOf askedFile).length
          ++ List.replicate 0 0)
      ∧ ∃ m₁ id m₂ fs,
        openSession (ioOf "b") "/" "/" "/s.jsonl" askedDisk
            = some (.ok () m₁)
          ∧ secondQuestion.run (ioOf "b") m₁ = .ok id m₂
          ∧ loadEntriesFromFile m₂.disk "/s.jsonl" = some fs
          ∧ ∀ e ∈ entriesOf fs, e.id ≠ id := by
  have hfile : askedDisk "/s.jsonl" = some (linesOf askedFile) := rfl
  have hwhole : (linesOf askedFile).take (linesOf askedFile).length
      ++ List.replicate 0 0 = linesOf askedFile := by
    rw [List.take_length, List.replicate_zero, List.append_nil]
  have hload : loadEntriesFromFile askedDisk "/s.jsonl" = some askedFile :=
    (Records.lines askedFile).load hfile
  have hrepair : loadEntriesFromFile (repairJsonlDamage askedDisk "/s.jsonl")
      "/s.jsonl" = some askedFile := by
    rw [repair_lines hfile]
    exact hload
  have hversion : 3 ≤ versionOf askedFile := by
    rw [askedFile, versionOf_current _ rfl]
  obtain ⟨m₁, hopen, hdisk, hon, hno⟩ := openSession_current (ioOf "b") "/" "/"
    rfl hrepair (List.cons_ne_nil _ _) hversion rfl
  have hid : (secondQuestion.entry (ioOf "b") m₁.manager).id = "b" := by
    have h : (secondQuestion.entry (ioOf "b") m₁.manager).id
        = generateId m₁.manager.byId.has fun _ => "b" := rfl
    rw [h, hon.byId]
    rfl
  have hdef : secondQuestion.deferred (ioOf "b") m₁.manager = true := by
    rw [AppendCall.deferred, hno]
    rfl
  have hrun := AppendCall.run_eq (ioOf "b") secondQuestion m₁
  rw [AppendCall.persist_pushed hon.persistedAt, hdef] at hrun
  refine ⟨by rw [hwhole, hfile], m₁, _, _, askedFile, hopen, hrun, ?_, ?_⟩
  · simp only [hdisk, repair_lines hfile]
    exact hload
  · intro e he
    rw [hid]
    have hmem : e.id ∈ (entriesOf askedFile).map (·.id) :=
      List.mem_map_of_mem he
    have hids : (entriesOf askedFile).map (·.id) = ["a"] := rfl
    rw [hids, List.mem_singleton] at hmem
    rw [hmem]
    decide

end OneHarness.Session
