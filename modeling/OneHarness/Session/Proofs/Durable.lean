/-
The file is the session: what every operation keeps.

`Live` is the session in memory: a header first, distinct ids, every
assistant message with the last usage attributed to it, the index filed
from the entries, and a leaf that is one of them. `Stored` is the file: as
long as the manager takes it for flushed and it is there, it is whole and
loads as the entries in memory. `Sound` is both, and each operation keeps
it (`sound_append`, `sound_rollback`, `sound_branched`, ...), which is all
a run needs.

# Two ways to lose it

An append that throws in the middle of its line leaves the entry in
memory and part of it in the file; only the variants with a rollback take
the entry back and write the file anew. And a branched session may keep
an attribution that a later one has overtaken, which the loader applies
again. Both are conditions on a step here (`Untorn`, `KeepsSettled`).
-/
import OneHarness.Session.Proofs.Appends
import OneHarness.Session.Proofs.Open

namespace OneHarness.Session

open Lib Lib.Lines

-- ======== the session's shape

/-- The session in memory. -/
structure Live (s : SessionManager) : Prop where
  header : ∃ h fs, s.fileEntries = .session h :: fs
  distinct : DistinctIds s.getEntries
  settled : Settled s.getEntries
  byId : s.byId = indexOf s.getEntries
  leaf : ∀ id, s.leafId = some id → ∃ e ∈ s.getEntries, e.id = id

/-- The file, as long as the manager takes it for flushed: whole, and
loaded as the entries in memory. -/
def Stored (m : Machine) : Prop :=
  ∀ file bytes, m.manager.sessionFile = some file →
    m.manager.flushed = true → m.disk file = some bytes →
    ∃ ds, Records bytes ds
      ∧ finalizeLoadedEntries ds = m.manager.fileEntries

structure Sound (m : Machine) : Prop where
  persisted : ∃ file, PersistedAt m.manager file
  live : Live m.manager
  stored : Stored m

/-- The manager takes its file for flushed, and it is there. -/
structure Written (m : Machine) : Prop where
  flushed : m.manager.flushed = true
  exists_file : ∃ file bytes,
    m.manager.sessionFile = some file ∧ m.disk file = some bytes

variable {io : Io} {call : AppendCall} {m m' : Machine} {s s' : SessionManager}

/-- A session that is sound and written is reloaded as it is, and its
file needs no repair. -/
theorem Sound.reload (hs : Sound m) (hw : Written m) :
    ∃ file, m.manager.sessionFile = some file
      ∧ repairJsonlDamage m.disk file = m.disk
      ∧ loadEntriesFromFile m.disk file = some m.manager.fileEntries := by
  obtain ⟨hflushed, file, bytes, hfile, hbytes⟩ := hw
  obtain ⟨ds, hrec, hds⟩ := hs.stored file bytes hfile hflushed hbytes
  exact ⟨file, hfile, hrec.repair hbytes, hds ▸ hrec.load hbytes⟩

/-- What `Live` reads. -/
theorem Live.congr (h : Live s) (hf : s'.fileEntries = s.fileEntries)
    (hb : s'.byId = s.byId) (hl : s'.leafId = s.leafId) : Live s' where
  header := hf ▸ h.header
  distinct := by
    rw [SessionManager.getEntries, hf]
    exact h.distinct
  settled := by
    rw [SessionManager.getEntries, hf]
    exact h.settled
  byId := by
    rw [SessionManager.getEntries, hf, hb]
    exact h.byId
  leaf := by
    rw [SessionManager.getEntries, hf, hl]
    exact h.leaf

/-- A live session is loaded as it is written. -/
theorem Live.finalize (h : Live s) :
    finalizeLoadedEntries s.fileEntries = s.fileEntries := by
  obtain ⟨hd, fs, hcons⟩ := h.header
  have hself := (applyChildUsageAttributions_eq_self h.distinct).2 h.settled
  rw [hcons] at hself ⊢
  exact hself

theorem Live.records (h : Live s) :
    Records (fileText s.fileEntries) s.fileEntries := by
  obtain ⟨hd, fs, hcons⟩ := h.header
  rw [fileText_eq (by rw [hcons]; exact List.cons_ne_nil _ _)]
  exact Records.lines _

variable {file : String}

section
variable {R : List UInt8 → List FileEntry → Prop}

/-- The file, where its bytes hold records as `R` has it. -/
def StoredAs (R : List UInt8 → List FileEntry → Prop) (m : Machine) : Prop :=
  ∀ file bytes, m.manager.sessionFile = some file →
    m.manager.flushed = true → m.disk file = some bytes →
    ∃ ds, R bytes ds ∧ finalizeLoadedEntries ds = m.manager.fileEntries

/-- A file that was just written whole. -/
theorem storedAs_of_rewrite (h : Live m.manager)
    (hwhole : R (fileText m.manager.fileEntries) m.manager.fileEntries)
    (hfile : m.manager.sessionFile = some file)
    (hdisk : m.disk file = some (fileText m.manager.fileEntries)) :
    StoredAs R m := by
  intro f bytes hf _ hb
  obtain rfl : file = f := Option.some.inj (hfile.symm.trans hf)
  rw [hdisk] at hb
  cases hb
  exact ⟨_, hwhole, h.finalize⟩

theorem storedAs_of_unflushed (h : m.manager.flushed = false) :
    StoredAs R m := by
  intro file bytes _ hf
  rw [h] at hf
  cases hf

end

theorem stored_of_rewrite (h : Live m.manager)
    (hfile : m.manager.sessionFile = some file)
    (hdisk : m.disk file = some (fileText m.manager.fileEntries)) :
    Stored m := storedAs_of_rewrite h h.records hfile hdisk

theorem stored_of_unflushed (h : m.manager.flushed = false) : Stored m :=
  storedAs_of_unflushed h

variable {ds fs : List FileEntry}

/-- What was loaded, and the records it was loaded from. -/
theorem finalize_entries (h : finalizeLoadedEntries ds = fs) (hne : fs ≠ [])
    (hnd : DistinctIds (entriesOf fs)) :
    DistinctIds (entriesOf ds)
      ∧ entriesOf fs = (entriesOf ds).map (settle (entriesOf ds)) := by
  unfold finalizeLoadedEntries at h
  split at h
  case h_1 header rest =>
    subst h
    rw [DistinctIds, applyChildUsageAttributions,
      map_id_applyAttributionsFrom] at hnd
    refine ⟨hnd, ?_⟩
    rw [applyChildUsageAttributions_eq_map hnd, entriesOf_mapEntries]
  case h_2 => exact absurd h.symm hne

variable {x : SessionEntry}

/-- What is new to a session is new to the records of its file. -/
theorem Fresh.of_loaded
    (h : entriesOf fs = (entriesOf ds).map (settle (entriesOf ds)))
    (hx : Fresh (entriesOf fs) x) : Fresh (entriesOf ds) x where
  id := by
    intro e he heq
    refine hx.id (settle (entriesOf ds) e) ?_ ((settle_id _ _).trans heq)
    rw [h]
    exact List.mem_map_of_mem he
  unattributed := by
    intro ha
    rw [← lastUsage_settle _ (entriesOf ds), ← h]
    exact hx.unattributed ha

theorem exists_header (h : finalizeLoadedEntries ds = fs) (hne : fs ≠ []) :
    ∃ hd rest, fs = .session hd :: rest := by
  unfold finalizeLoadedEntries at h
  split at h
  case h_1 header rest => exact ⟨header, _, h.symm⟩
  case h_2 => exact absurd h.symm hne

/-- The manager of a session that was just opened is live. -/
theorem live_opened {path : String}
    (hon : OpenedOn s path fs) (hheader : ∃ h rest, fs = .session h :: rest)
    (hnd : DistinctIds (entriesOf fs)) (hsettled : Settled (entriesOf fs)) :
    Live s := by
  have hes : s.getEntries = entriesOf fs := by
    rw [SessionManager.getEntries, hon.fileEntries]
  refine ⟨?_, ?_, ?_, ?_, ?_⟩
  · rw [hon.fileEntries]
    exact hheader
  · rwa [hes]
  · rwa [hes]
  · rw [hes, hon.byId]
  · intro id hid
    rw [hon.leafId, Option.map_eq_some_iff] at hid
    obtain ⟨e, he, rfl⟩ := hid
    rw [hes]
    exact ⟨e, List.mem_of_getLast? he, rfl⟩

/-- A session opened on a whole file is sound. -/
theorem sound_opened {path : String}
    {bytes : List UInt8} (hon : OpenedOn m.manager path fs)
    (hbytes : m.disk path = some bytes) (hrec : Records bytes ds)
    (hds : finalizeLoadedEntries ds = fs) (hne : fs ≠ [])
    (hnd : DistinctIds (entriesOf fs)) : Sound m := by
  refine ⟨⟨path, hon.persistedAt⟩,
    live_opened hon (exists_header hds hne) hnd (settled_of_finalize hds hnd),
    ?_⟩
  intro file bs hf _ hb
  obtain rfl : path = file :=
    Option.some.inj (hon.persistedAt.sessionFile.symm.trans hf)
  rw [hbytes] at hb
  cases hb
  exact ⟨ds, hrec, hds.trans hon.fileEntries.symm⟩

-- ======== the appends

/-- The entry an append makes is new to the session. -/
def FreshEntry (io : Io) (call : AppendCall) (s : SessionManager) : Prop :=
  Fresh s.getEntries (call.entry io s)

theorem entriesOf_pushed (io : Io) (call : AppendCall) (m : Machine) :
    (call.pushed io m).manager.getEntries
      = m.manager.getEntries.map (bump (call.entry io m.manager))
        ++ [call.entry io m.manager] := by
  rw [SessionManager.getEntries, AppendCall.pushed_fileEntries,
    entriesOf_append, entriesOf_mapEntries]
  rfl

/-- An append keeps the session live. -/
theorem Live.pushed (h : Live m.manager) (hx : FreshEntry io call m.manager) :
    Live (call.pushed io m).manager := by
  have hids : ∀ es : List SessionEntry,
      (es.map (bump (call.entry io m.manager))).map (·.id)
        = es.map (·.id) := by
    intro es
    rw [List.map_map]
    exact List.map_congr_left fun e _ => bump_id _ e
  have hnd : DistinctIds (call.pushed io m).manager.getEntries := by
    rw [entriesOf_pushed, DistinctIds, List.map_append, List.nodup_append',
      hids]
    refine ⟨h.distinct, List.nodup_singleton _, ?_⟩
    intro id hid hid'
    obtain ⟨e, he, rfl⟩ := List.mem_map.1 hid
    exact hx.id e he (by simpa using hid')
  refine ⟨?_, hnd, ?_, ?_, ?_⟩
  · obtain ⟨hd, fs, hcons⟩ := h.header
    rw [AppendCall.pushed_fileEntries, hcons]
    exact ⟨hd, _, rfl⟩
  · rw [entriesOf_pushed]
    exact h.settled.concat hx
  · have hkeys : (call.entry io m.manager).id
        ∉ JsMap.keys ((m.manager.getEntries.map
          (bump (call.entry io m.manager))).map fun e => (e.id, e)) := by
      intro hmem
      rw [JsMap.keys, List.map_map] at hmem
      obtain ⟨e, he, heq⟩ := List.mem_map.1 hmem
      obtain ⟨y, hy, rfl⟩ := List.mem_map.1 he
      exact hx.id y hy ((bump_id _ y).symm.trans heq)
    have hmap : (m.manager.byId.map fun p =>
          (p.1, bump (call.entry io m.manager) p.2))
        = (m.manager.getEntries.map
          (bump (call.entry io m.manager))).map fun e => (e.id, e) := by
      rw [h.byId, indexOf_eq_map h.distinct, List.map_map, List.map_map]
      refine List.map_congr_left fun e _ => ?_
      exact congrArg (·, bump (call.entry io m.manager) e)
        (bump_id (call.entry io m.manager) e).symm
    rw [AppendCall.pushed_byId, hmap, JsMap.set_of_not_mem _ hkeys,
      indexOf_eq_map hnd, entriesOf_pushed, List.map_append]
    rfl
  · intro id hid
    rw [AppendCall.pushed_leafId, Option.some.injEq] at hid
    refine ⟨call.entry io m.manager, ?_, hid⟩
    rw [entriesOf_pushed]
    exact List.mem_append_right _ List.mem_cons_self

variable {m₁ : Machine}

section
variable {R : List UInt8 → List FileEntry → Prop}
  (hline : ∀ {bytes : List UInt8} {ds : List FileEntry}, R bytes ds →
    ∀ e, R (bytes ++ entryLine e) (ds ++ [e]))
include hline

/-- One more line in a file that held the session. -/
theorem storedAs_of_line (hs : Sound m) (hR : StoredAs R m)
    (hx : FreshEntry io call m.manager)
    (hm : PersistedAt m.manager file) (hflushed : m.manager.flushed = true)
    {bytes : List UInt8} (hbytes : m.disk file = some bytes) :
    StoredAs R { call.pushed io m with
      disk := m.disk.write file
        (bytes ++ entryLine (.entry (call.entry io m.manager))) } := by
  obtain ⟨ds, hrec, hfin⟩ := hR file bytes hm.sessionFile hflushed hbytes
  have hpush := AppendCall.pushed_persistedAt io call hm
  obtain ⟨hd, fs, hcons⟩ := hs.live.header
  have hne : m.manager.fileEntries ≠ [] := by
    rw [hcons]
    exact List.cons_ne_nil _ _
  obtain ⟨hnd, hes⟩ := finalize_entries hfin hne hs.live.distinct
  intro f bs hf _ hb
  obtain rfl : file = f := Option.some.inj (hpush.sessionFile.symm.trans hf)
  obtain rfl := Option.some.inj ((Disk.write_self _ _ _).symm.trans hb)
  refine ⟨_, hline hrec _, ?_⟩
  rw [finalize_concat hnd (Fresh.of_loaded hes hx) (hfin ▸ hne), hfin]
  exact (AppendCall.pushed_fileEntries io call m).symm

/-- A persisted append leaves the file as it should be. -/
theorem storedAs_of_persist (hs : Sound m) (hR : StoredAs R m)
    (hwhole : ∀ {s : SessionManager}, Live s →
      R (fileText s.fileEntries) s.fileEntries)
    (hx : FreshEntry io call m.manager)
    (hp : persistEntry io (call.entry io m.manager) (call.pushed io m)
      = .ok () m₁) :
    StoredAs R m₁ ∧ ∃ flushed,
      m₁.manager = { (call.pushed io m).manager with flushed := flushed } := by
  obtain ⟨file, hm⟩ := hs.persisted
  have hpush := AppendCall.pushed_persistedAt io call hm
  have hlive := hs.live.pushed hx
  rw [AppendCall.persist_pushed hm] at hp
  split at hp
  · cases hp
    exact ⟨storedAs_of_unflushed rfl, false, rfl⟩
  · split at hp
    · split at hp
      · cases hp
      · cases hp
        have hlive' : Live { (call.pushed io m).manager with flushed := true } :=
          hlive.congr rfl rfl rfl
        exact ⟨storedAs_of_rewrite hlive' (hwhole hlive') hpush.sessionFile
          (Disk.write_self _ _ _), true, rfl⟩
    · rename_i hwrite
      rw [Bool.or_eq_true, not_or, Bool.not_eq_true', Bool.not_eq_false] at hwrite
      obtain ⟨hflushed, hsome⟩ := hwrite
      cases hb : m.disk file with
      | none =>
        rw [hb] at hsome
        exact absurd rfl hsome
      | some bytes =>
        simp only [appendFile, AppendCall.pushed_disk, hb,
          Option.getD_some] at hp
        split at hp
        case h_1 =>
          cases hp
          exact ⟨storedAs_of_line hline hs hR hx hm hflushed hb,
            (call.pushed io m).manager.flushed, rfl⟩
        case h_2 => cases hp

end

/-- A persisted append leaves the file stored. -/
theorem persist_ok (hs : Sound m)
    (hx : FreshEntry io call m.manager)
    (hp : persistEntry io (call.entry io m.manager) (call.pushed io m)
      = .ok () m₁) :
    Stored m₁ ∧ ∃ flushed,
      m₁.manager = { (call.pushed io m).manager with flushed := flushed } :=
  storedAs_of_persist Records.append hs hs.stored Live.records hx hp

/-- An entry that is persisted and not deferred is written. -/
theorem persist_written (hm : PersistedAt m.manager file)
    (hdef : call.deferred io m.manager = false)
    (hp : persistEntry io (call.entry io m.manager) (call.pushed io m)
      = .ok () m₁) : Written m₁ := by
  have hpush := AppendCall.pushed_persistedAt io call hm
  rw [AppendCall.persist_pushed hm, hdef] at hp
  simp only [Bool.false_eq_true, if_false] at hp
  split at hp
  · split at hp
    · cases hp
    · cases hp
      exact ⟨rfl, file, _, hpush.sessionFile, Disk.write_self _ _ _⟩
  · rename_i hwrite
    rw [Bool.or_eq_true, not_or, Bool.not_eq_true', Bool.not_eq_false]
      at hwrite
    unfold appendFile at hp
    split at hp
    case h_1 =>
      cases hp
      exact ⟨(AppendCall.pushed_flushed io call m).trans hwrite.1, file, _,
        hpush.sessionFile, Disk.write_self _ _ _⟩
    case h_2 => cases hp

/-- What a flush leaves: nothing changed but the file, and it is
written. -/
theorem flushNow_ok {throws : Bool} {u : Unit}
    (hm : PersistedAt m.manager file) (h : flushNow throws m = .ok u m') :
    Written m' ∧ m'.manager = { m.manager with flushed := true } := by
  rw [flushNow_eq hm] at h
  split at h
  · rename_i hflushed
    cases h
    rw [Bool.and_eq_true, Option.isSome_iff_exists] at hflushed
    obtain ⟨hflushed, bytes, hbytes⟩ := hflushed
    refine ⟨⟨hflushed, file, bytes, hm.sessionFile, hbytes⟩, ?_⟩
    rw [← hflushed]
  · split at h
    · cases h
    · cases h
      exact ⟨⟨rfl, file, _, hm.sessionFile, Disk.write_self _ _ _⟩, rfl⟩

variable {e : String}

theorem flushNow_error {throws : Bool}
    (hm : PersistedAt m.manager file) (h : flushNow throws m = .error e m') :
    m' = m := by
  rw [flushNow_eq hm] at h
  split at h
  · cases h
  · split at h
    · cases h
      rfl
    · cases h

/-- Where an append throws in the middle of its line, the file is torn. -/
def Untorn (io : Io) (call : AppendCall) (m : Machine) : Prop :=
  ∀ n file, io.appendFileSync = some n → m.manager.sessionFile = some file →
    m.manager.flushed = true → (m.disk file).isSome = true →
    call.deferred io m.manager = false →
    (entryLine (.entry (call.entry io m.manager))).length ≤ n

/-- An append that was not persisted: the entry is in memory. -/
theorem persist_error
    (hp : persistEntry io (call.entry io m.manager) (call.pushed io m)
      = .error e m₁)
    (hpersisted : ∃ file, PersistedAt m.manager file) :
    m₁.manager = (call.pushed io m).manager := by
  obtain ⟨file, hm⟩ := hpersisted
  rw [AppendCall.persist_pushed hm] at hp
  split at hp
  · cases hp
  · split at hp
    · split at hp
      · cases hp
        rfl
      · cases hp
    · unfold appendFile at hp
      split at hp
      case h_1 => cases hp
      case h_2 =>
        cases hp
        rfl

/-- Unless its line is torn, the file is stored all the same. -/
theorem persist_error_stored (hs : Sound m)
    (hx : FreshEntry io call m.manager) (huntorn : Untorn io call m)
    (hp : persistEntry io (call.entry io m.manager) (call.pushed io m)
      = .error e m₁) : Stored m₁ := by
  obtain ⟨file, hm⟩ := hs.persisted
  have hpush := AppendCall.pushed_persistedAt io call hm
  rw [AppendCall.persist_pushed hm] at hp
  split at hp
  · cases hp
  · rename_i hdef
    split at hp
    · rename_i hmissing
      split at hp
      · cases hp
        -- nothing was written, because the file was not to be trusted
        intro f bytes hf hflushed hb
        obtain rfl : file = f :=
          Option.some.inj (hpush.sessionFile.symm.trans hf)
        rw [AppendCall.pushed_flushed] at hflushed
        rw [AppendCall.pushed_disk] at hb
        rw [hflushed, hb] at hmissing
        exact absurd hmissing (by simp)
      · cases hp
    · rename_i hwrite
      rw [Bool.or_eq_true, not_or, Bool.not_eq_true', Bool.not_eq_false]
        at hwrite
      obtain ⟨hflushed, hsome⟩ := hwrite
      cases hb : m.disk file with
      | none =>
        rw [hb] at hsome
        exact absurd rfl hsome
      | some bytes =>
        simp only [appendFile, AppendCall.pushed_disk, hb,
          Option.getD_some] at hp
        split at hp
        case h_1 => cases hp
        case h_2 n hfault =>
          cases hp
          have hlen := huntorn n file hfault hm.sessionFile hflushed
            (by rw [hb]; rfl) (by simpa using hdef)
          rw [List.take_of_length_le hlen]
          exact storedAs_of_line Records.append hs hs.stored hx hm
            hflushed hb

/-- What an append leaves, and when it leaves the session sound. -/
def AppendSpec (io : Io) (call : AppendCall) (m : Machine) :
    EStateM.Result String Machine String → Prop
  | .ok id m' => call.refuses m.manager = none
      ∧ id = (call.entry io m.manager).id ∧ Sound m'
      ∧ (∃ flushed, m'.manager = call.finish io
        { (call.pushed io m).manager with flushed := flushed })
      ∧ (call.deferred io m.manager = false → Written m')
  | .error _ m' =>
    m' = m ∨ (call.refuses m.manager = none
      ∧ m'.manager = (call.pushed io m).manager
      ∧ (Untorn io call m → Sound m'))

theorem append_spec (io : Io) (call : AppendCall) (hs : Sound m)
    (hx : FreshEntry io call m.manager) :
    AppendSpec io call m (call.run io m) := by
  rw [AppendCall.run_eq]
  cases hr : call.refuses m.manager with
  | some e => exact Or.inl rfl
  | none =>
    obtain ⟨file, hm⟩ := hs.persisted
    have hpush := AppendCall.pushed_persistedAt io call hm
    have hlive := hs.live.pushed hx
    cases hp : persistEntry io (call.entry io m.manager)
        (call.pushed io m) with
    | ok u m₁ =>
      obtain ⟨hstored, flushed, hman⟩ := persist_ok hs hx hp
      have hm₁ : PersistedAt m₁.manager file := by
        rw [hman]
        exact ⟨hpush.persist, hpush.sessionFile⟩
      have hfin := AppendCall.finish_persistedAt io call hm₁
      refine ⟨hr, rfl, ⟨⟨file, hfin⟩, ?_, ?_⟩,
        ⟨flushed, congrArg (call.finish io ·) hman⟩, fun hdef => ?_⟩
      · refine hlive.congr ?_ ?_ ?_
        · exact (AppendCall.finish_fileEntries io call _).trans
            (by rw [hman])
        · exact (AppendCall.finish_byId io call _).trans (by rw [hman])
        · exact (AppendCall.finish_leafId io call _).trans (by rw [hman])
      · intro f bytes hf hflushed hb
        obtain ⟨ds, hrec, hds⟩ := hstored f bytes
          (hm₁.sessionFile.trans (hfin.sessionFile.symm.trans hf))
          ((AppendCall.finish_flushed io call _).symm.trans hflushed) hb
        exact ⟨ds, hrec,
          hds.trans (AppendCall.finish_fileEntries io call _).symm⟩
      · obtain ⟨hflushed, f, bytes, hf, hb⟩ := persist_written hm hdef hp
        obtain rfl : file = f :=
          Option.some.inj (hm₁.sessionFile.symm.trans hf)
        exact ⟨(AppendCall.finish_flushed io call _).trans hflushed,
          file, bytes, hfin.sessionFile, hb⟩
    | error e m₁ =>
      have hman := persist_error hp ⟨file, hm⟩
      refine Or.inr ⟨hr, hman, fun huntorn => ⟨⟨file, ?_⟩, ?_,
        persist_error_stored hs hx huntorn hp⟩⟩
      · exact hman ▸ hpush
      · exact hman ▸ hlive

-- ======== the rollback

/-- A call that does nothing but append its entry. -/
structure Plain (call : AppendCall) : Prop where
  prepare : ∀ s, call.prepare s = s
  finish : ∀ io s, call.finish io s = s
  refuses : ∀ s, call.refuses s = none

theorem Plain.pushed (h : Plain call) (io : Io) (m : Machine) :
    call.pushed io m = { m with
      manager := m.manager.pushEntry (call.entry io m.manager) } := by
  rw [AppendCall.pushed, h.prepare]

theorem Live.fresh_key (h : Live s)
    (hx : Fresh s.getEntries x) : x.id ∉ JsMap.keys s.byId := by
  rw [h.byId, indexOf_eq_map h.distinct, JsMap.keys, List.map_map]
  intro hmem
  obtain ⟨e, he, heq⟩ := List.mem_map.1 hmem
  exact hx.id e he heq

/-- The leaf an append leaves is new. -/
theorem Live.fresh_leaf (h : Live s)
    (hx : Fresh s.getEntries x) : some x.id ≠ s.leafId := by
  intro heq
  obtain ⟨e, he, hid⟩ := h.leaf x.id heq.symm
  exact hx.id e he hid

/-- Taking the entry back leaves the session as it was, unflushed. -/
theorem undo_pushed (h : Live m.manager) (hx : FreshEntry io call m.manager)
    (hplain : Plain call) (flushed : Bool) :
    let s' := undoAppend m.manager.leafId
      { (call.pushed io m).manager with flushed := flushed }
    s'.fileEntries = m.manager.fileEntries ∧ s'.byId = m.manager.byId
      ∧ s'.leafId = m.manager.leafId ∧ s'.flushed = false
      ∧ s'.persist = m.manager.persist
      ∧ s'.sessionFile = m.manager.sessionFile := by
  rw [hplain.pushed]
  refine ⟨List.dropLast_concat, ?_, rfl, rfl, rfl, rfl⟩
  have hset := JsMap.set_of_not_mem (call.entry io m.manager)
    (h.fresh_key hx)
  exact (congrArg (JsMap.delete · _) hset).trans
    (JsMap.delete_concat _ (h.fresh_key hx))

/-- The append of a rollback variant, flushed. -/
def flushedAppend (io : Io) (append : Op String) : Op String := do
  let entryId ← append
  flushNow (io.writeFileAtomicSync 1)
  return entryId

/-- An append that fails with its entry in memory is undone, and the file
is flushed, or no longer trusted. -/
theorem rollback_error {append : Op String}
    (h : flushedAppend io append m = .error e m₁)
    (hleaf : m₁.manager.leafId ≠ none
      ∧ m₁.manager.leafId ≠ m.manager.leafId) :
    appendEntryWithRollback io append m
      = .error e
        (match flushNow (io.writeFileAtomicSync 2)
          { m₁ with manager := undoAppend m.manager.leafId m₁.manager } with
        | .ok _ m₂ => m₂
        | .error _ m₂ =>
          { m₂ with manager := { m₂.manager with flushed := false } }) := by
  unfold flushedAppend at h
  unfold appendEntryWithRollback
  rw [get_bind, tryCatch_apply, h]
  simp only [get_bind, if_pos hleaf, modifyManager_bind]
  have htry := tryCatch_apply (flushNow (io.writeFileAtomicSync 2))
    (fun _ => setFlushed false)
    { m₁ with manager := undoAppend m.manager.leafId m₁.manager }
  cases hf : flushNow (io.writeFileAtomicSync 2)
      { m₁ with manager := undoAppend m.manager.leafId m₁.manager } with
  | ok u m₂ =>
    rw [hf] at htry
    exact bind_of_ok htry
  | error e' m₂ =>
    rw [hf] at htry
    exact bind_of_ok htry

theorem rollback_ok {append : Op String} {id : String}
    (h : flushedAppend io append m = .ok id m₁) :
    appendEntryWithRollback io append m = .ok id m₁ := by
  unfold flushedAppend at h
  unfold appendEntryWithRollback
  rw [get_bind, tryCatch_apply, h]

/-- Flushing keeps the session sound. -/
theorem sound_flushNow (hs : Sound m) (throws : Bool) :
    Sound (outcome (flushNow throws m)).machine := by
  obtain ⟨file, hm⟩ := hs.persisted
  rw [flushNow_eq hm]
  split
  · exact hs
  · split
    · exact hs
    · exact ⟨⟨file, hm.persist, hm.sessionFile⟩, hs.live.congr rfl rfl rfl,
        stored_of_rewrite (hs.live.congr rfl rfl rfl) hm.sessionFile
          (Disk.write_self _ _ _)⟩

/-- The undo of a failed append leaves the session as it was and sound,
whatever the append left in the file. -/
theorem sound_undo (hs : Sound m)
    (hx : FreshEntry io call m.manager) (hplain : Plain call)
    (hman : ∃ flushed,
      m₁.manager = { (call.pushed io m).manager with flushed := flushed }) :
    let m' := match flushNow (io.writeFileAtomicSync 2)
        { m₁ with manager := undoAppend m.manager.leafId m₁.manager } with
      | .ok _ m₂ => m₂
      | .error _ m₂ =>
        { m₂ with manager := { m₂.manager with flushed := false } }
    Sound m' ∧ m'.manager.fileEntries = m.manager.fileEntries := by
  obtain ⟨file, hm⟩ := hs.persisted
  obtain ⟨flushed, hman⟩ := hman
  obtain ⟨hf, hb, hl, hu, hp, hfile⟩ :=
    undo_pushed hs.live hx hplain flushed
  rw [← hman] at hf hb hl hu hp hfile
  have hmu : PersistedAt (undoAppend m.manager.leafId m₁.manager) file :=
    ⟨hp.trans hm.persist, hfile.trans hm.sessionFile⟩
  have hundo : Sound
      { m₁ with manager := undoAppend m.manager.leafId m₁.manager } :=
    ⟨⟨file, hmu⟩, hs.live.congr hf hb hl, stored_of_unflushed hu⟩
  have hflush := sound_flushNow hundo (io.writeFileAtomicSync 2)
  intro m'
  cases h : flushNow (io.writeFileAtomicSync 2)
      { m₁ with manager := undoAppend m.manager.leafId m₁.manager } with
  | ok u m₂ =>
    have hm' : m' = m₂ := by
      simp only [m', h]
    rw [h] at hflush
    rw [hm']
    refine ⟨hflush, ?_⟩
    rw [(flushNow_ok hmu h).2]
    exact hf
  | error e m₂ =>
    have hm' : m' = { m₂ with
        manager := { m₂.manager with flushed := false } } := by
      simp only [m', h]
    obtain rfl := flushNow_error hmu h
    rw [hm']
    exact ⟨⟨⟨file, hmu.persist, hmu.sessionFile⟩,
      hundo.live.congr rfl rfl rfl, stored_of_unflushed rfl⟩, hf⟩

/-- A rollback variant appends and writes its entry, or leaves the session
as it was; either way it is sound, whatever fails on the way. -/
def RollbackSpec (io : Io) (call : AppendCall) (m : Machine) :
    EStateM.Result String Machine String → Prop
  | .ok id m' => id = (call.entry io m.manager).id ∧ Sound m' ∧ Written m'
      ∧ m'.manager = { (call.pushed io m).manager with flushed := true }
  | .error _ m' =>
    Sound m' ∧ m'.manager.fileEntries = m.manager.fileEntries

theorem rollback_spec (io : Io) (hs : Sound m)
    (hx : FreshEntry io call m.manager) (hplain : Plain call) :
    RollbackSpec io call m (appendEntryWithRollback io (call.run io) m) := by
  have hleaf : ∀ m₁ : Machine, (∃ flushed, m₁.manager
      = { (call.pushed io m).manager with flushed := flushed }) →
      m₁.manager.leafId ≠ none ∧ m₁.manager.leafId ≠ m.manager.leafId := by
    rintro m₁ ⟨flushed, hman⟩
    have hid : m₁.manager.leafId = some (call.entry io m.manager).id := by
      rw [hman]
      rfl
    rw [hid]
    exact ⟨Option.some_ne_none _, hs.live.fresh_leaf hx⟩
  have hspec := append_spec io call hs hx
  cases hrun : call.run io m with
  | error e m₁ =>
    rw [hrun] at hspec
    have hman : m₁.manager = (call.pushed io m).manager := by
      rcases hspec with rfl | ⟨-, hman, -⟩
      · -- a plain call refuses nothing
        rw [AppendCall.run_eq, hplain.refuses] at hrun
        cases hp : persistEntry io (call.entry io m₁.manager)
            (call.pushed io m₁) with
        | ok u m₂ =>
          simp only [hp] at hrun
          cases hrun
        | error e' m₂ =>
          simp only [hp] at hrun
          cases hrun
          exact persist_error hp hs.persisted
      · exact hman
    have herr : flushedAppend io (call.run io) m = .error e m₁ :=
      bind_of_error hrun
    have hman' : ∃ flushed, m₁.manager
        = { (call.pushed io m).manager with flushed := flushed } :=
      ⟨_, hman⟩
    rw [rollback_error herr (hleaf m₁ hman')]
    exact sound_undo hs hx hplain hman'
  | ok id m₁ =>
    rw [hrun] at hspec
    obtain ⟨-, hid, hs₁, ⟨flushed, hman⟩, -⟩ := hspec
    rw [hplain.finish] at hman
    obtain ⟨file, hm₁⟩ := hs₁.persisted
    cases hf : flushNow (io.writeFileAtomicSync 1) m₁ with
    | ok u m₂ =>
      have hok : flushedAppend io (call.run io) m = .ok id m₂ :=
        (bind_of_ok hrun).trans (bind_of_ok hf)
      have hflush := sound_flushNow hs₁ (io.writeFileAtomicSync 1)
      rw [hf] at hflush
      obtain ⟨hwritten, hman₂⟩ := flushNow_ok hm₁ hf
      rw [rollback_ok hok]
      exact ⟨hid, hflush, hwritten, by rw [hman₂, hman]⟩
    | error e m₂ =>
      have herr : flushedAppend io (call.run io) m = .error e m₂ :=
        (bind_of_ok hrun).trans (bind_of_error hf)
      obtain rfl := flushNow_error hm₁ hf
      rw [rollback_error herr (hleaf m₂ ⟨flushed, hman⟩)]
      exact sound_undo hs hx hplain ⟨flushed, hman⟩

end OneHarness.Session
