/-
A refinement that fails is recorded or not applied, exactly when the write to
the history that all sessions share gets the record down
(`refinement_recorded`).

The state file is replaced before any record is written. In a session the
record is kept in memory by the append that fails to write it, so that every
failure after it finds the record. A global refinement is first recorded in the
shared history, and a failure there leaves the session without a record.
-/
import OneHarness.Lib.Json.Torn
import OneHarness.Lib.Text
import OneHarness.Refinement.History
import OneHarness.Session.Proofs.Ops
import OneHarness.Session.Runs

namespace OneHarness.Refinement

open Lib
open Session (Op Machine SessionManager SessionEntry EntryBody trim outcome)

-- ======== statement vocabulary

/-- The history tells these edits of this refinement. -/
def Recorded (w : RefineWorld) (id : String)
    (appliedEdits : List AppliedRefinementEdit) : Prop :=
  ∃ record ∈ loadRefinementHistory w, record.get "id" = some (.str id)
    ∧ record.get "appliedEdits" = some (appliedEditsJson appliedEdits)

/-- When the refinement fails, no state file has changed or the history tells
the edits. -/
def RecordedOrUnchanged (paths : HarnessPaths) (io : RefineIo)
    (request : RefineRequest) (w : RefineWorld) : Prop :=
  ∀ error, (applyRefine paths io request w).2 = .error error →
    (applyRefine paths io request w).1.states = w.states
      ∨ ∃ scope dir, refineTarget paths request w = .ok (scope, dir)
        ∧ Recorded (applyRefine paths io request w).1 request.plan.id
          (refinement paths io request w scope dir).2.appliedEdits

/-- A global refinement that is saved gets its record into the shared history,
be it without the newline. -/
def HistoryWritten (paths : HarnessPaths) (io : RefineIo)
    (request : RefineRequest) (w : RefineWorld) : Prop :=
  ∀ dir, refineTarget paths request w = .ok (.globalScope, dir) →
    (io.disposed || io.loadHistoryThrows || io.applyThrows || io.aborted
      || io.saveThrows) = false →
    ∀ written, io.historyThrows = some written →
      (recordText (refinement paths io request w .globalScope dir).2).length
        ≤ written

/-- The shared history is made of whole lines. -/
def WholeLines (w : RefineWorld) : Prop :=
  ∀ bytes, w.history = some bytes → bytes = [] ∨ ∃ lines, bytes = lines ++ [0x0a]

/-- The history does not know the refinement yet. -/
def NewId (request : RefineRequest) (w : RefineWorld) : Prop :=
  ∀ record ∈ loadRefinementHistory w,
    record.get "id" ≠ some (.str request.plan.id)

-- ======== the session

/-- Of the manager only the flag for the file changes. -/
def Unflushed (s s' : SessionManager) : Prop :=
  ∃ flushed, s' = { s with flushed := flushed }

theorem Unflushed.refl (s : SessionManager) : Unflushed s s := ⟨s.flushed, rfl⟩

variable {s : SessionManager}

theorem Unflushed.trans {s' s'' : SessionManager} (h : Unflushed s s')
    (h' : Unflushed s' s'') : Unflushed s s'' := by
  obtain ⟨flushed, rfl⟩ := h
  obtain ⟨flushed', rfl⟩ := h'
  exact ⟨flushed', rfl⟩

theorem Unflushed.entries {s' : SessionManager} (h : Unflushed s s') :
    s'.fileEntries = s.fileEntries := by
  obtain ⟨flushed, rfl⟩ := h
  rfl

/-- However the operation ends. -/
def Writes {α : Type} (op : Op α) : Prop :=
  ∀ m, Unflushed m.manager (outcome (op m)).machine.manager

variable {α β : Type}

theorem Writes.bind {op : Op α} {next : α → Op β} (h : Writes op)
    (hnext : ∀ a, Writes (next a)) : Writes (op >>= next) := by
  intro m
  have hfirst := h m
  cases hop : op m with
  | ok a m' =>
    rw [Session.bind_of_ok hop]
    rw [hop] at hfirst
    exact hfirst.trans (hnext a m')
  | error e m' =>
    rw [Session.bind_of_error hop]
    rw [hop] at hfirst
    exact hfirst

theorem Writes.tryCatch {op : Op α} {handle : String → Op α} (h : Writes op)
    (hhandle : ∀ error, Writes (handle error)) :
    Writes (MonadExcept.tryCatch op handle) := by
  intro m
  have hfirst := h m
  rw [Session.tryCatch_apply]
  cases hop : op m with
  | ok a m' =>
    rw [hop] at hfirst
    exact hfirst
  | error e m' =>
    rw [hop] at hfirst
    exact hfirst.trans (hhandle e m')

theorem writes_throw (error : String) : Writes (throw error : Op α) :=
  fun m => Unflushed.refl m.manager

theorem writes_pure (a : α) : Writes (pure a) :=
  fun m => Unflushed.refl m.manager

theorem writes_setFlushed (flushed : Bool) : Writes (Session.setFlushed flushed) :=
  fun _ => ⟨flushed, rfl⟩

theorem writes_rewriteFile (throws : Bool) :
    Writes (Session.rewriteFile throws) := by
  intro m
  unfold Session.rewriteFile
  split
  · split_ifs <;> exact Unflushed.refl m.manager
  · exact Unflushed.refl m.manager

theorem writes_appendFile (throws : Option Nat) (file : String)
    (line : List UInt8) : Writes (Session.appendFile throws file line) := by
  intro m
  unfold Session.appendFile
  cases throws <;> exact Unflushed.refl m.manager

theorem writes_flushNow (throws : Bool) : Writes (Session.flushNow throws) := by
  intro m
  unfold Session.flushNow
  rw [Session.get_bind]
  cases m.manager.persist with
  | false => exact Unflushed.refl m.manager
  | true =>
    cases m.manager.sessionFile with
    | none => exact Unflushed.refl m.manager
    | some file =>
      dsimp only
      split_ifs
      · exact Unflushed.refl m.manager
      · exact (writes_rewriteFile throws).bind
          (fun _ => writes_setFlushed true) m

section
variable (io : Session.Io)

theorem writes_persistEntry (entry : SessionEntry) :
    Writes (Session.persistEntry io entry) := by
  intro m
  unfold Session.persistEntry
  rw [Session.get_bind]
  cases m.manager.persist with
  | false => exact Unflushed.refl m.manager
  | true =>
    cases m.manager.sessionFile with
    | none => exact Unflushed.refl m.manager
    | some file =>
      dsimp only
      split_ifs
      · exact writes_setFlushed false m
      · exact (writes_rewriteFile _).bind
          (fun _ => writes_setFlushed true) m
      · exact writes_appendFile _ _ _ m

/-- An entry is in memory when its line is written, or is not. -/
theorem appendBody_pushes (body : EntryBody) (m : Machine) :
    Unflushed (m.manager.pushEntry (Session.newEntry io body m.manager))
      (outcome (Session.appendBody io body m)).machine.manager := by
  unfold Session.appendBody Session.appendEntry
  rw [Session.get_bind]
  exact ((writes_persistEntry io _).bind fun _ => writes_pure _)
    { m with manager :=
      m.manager.pushEntry (Session.newEntry io body m.manager) }

theorem undoAppend_entries {previousLeafId : Option String}
    (h : s.leafId ≠ none) :
    (Session.undoAppend previousLeafId s).fileEntries
      = s.fileEntries.dropLast := by
  unfold Session.undoAppend
  cases hleaf : s.leafId with
  | none => exact absurd hleaf h
  | some leafId => rfl

theorem flushed_pushes (body : EntryBody) (m : Machine) :
    Unflushed (m.manager.pushEntry (Session.newEntry io body m.manager))
      (outcome ((Session.appendBody io body >>= fun entryId =>
        Session.flushNow (io.writeFileAtomicSync 1) >>= fun _ =>
          pure entryId) m)).machine.manager := by
  have hpushed := appendBody_pushes io body m
  cases happend : Session.appendBody io body m with
  | ok id m' =>
    rw [happend] at hpushed
    rw [Session.bind_of_ok happend]
    exact hpushed.trans
      (((writes_flushNow _).bind fun _ => writes_pure id) m')
  | error e m' =>
    rw [happend] at hpushed
    rw [Session.bind_of_error happend]
    exact hpushed

/-- With the rollback the entry is in memory, or nothing is new. -/
theorem rollback_entries (body : EntryBody) (m : Machine) :
    (outcome (Session.appendEntryWithRollback io (Session.appendBody io body)
        m)).machine.manager.fileEntries = m.manager.fileEntries
      ∨ ∃ entry, entry.body = body
        ∧ (outcome (Session.appendEntryWithRollback io
            (Session.appendBody io body) m)).machine.manager.fileEntries
          = m.manager.fileEntries ++ [.entry entry] := by
  have hpushed := flushed_pushes io body m
  unfold Session.appendEntryWithRollback
  rw [Session.get_bind, Session.tryCatch_apply]
  cases happend : (Session.appendBody io body >>= fun entryId =>
      Session.flushNow (io.writeFileAtomicSync 1) >>= fun _ =>
        (pure entryId : Op String)) m with
  | ok id m' =>
    rw [happend] at hpushed
    obtain ⟨flushed, hmanager⟩ := hpushed
    right
    refine ⟨Session.newEntry io body m.manager, rfl, ?_⟩
    show m'.manager.fileEntries = _
    rw [show m'.manager = _ from hmanager]
    rfl
  | error e m' =>
    rw [happend] at hpushed
    obtain ⟨flushed, hmanager⟩ := hpushed
    have hentries : m'.manager.fileEntries = m.manager.fileEntries
        ++ [.entry (Session.newEntry io body m.manager)] := by
      rw [show m'.manager = _ from hmanager]
      rfl
    dsimp only
    rw [Session.get_bind]
    split_ifs with hleaf
    · left
      rw [Session.modifyManager_bind]
      have hrest : Writes ((tryCatch
          (Session.flushNow (io.writeFileAtomicSync 2))
          fun _ => Session.setFlushed false) >>= fun _ =>
            (throw e : Op String)) :=
        ((writes_flushNow _).tryCatch fun _ => writes_setFlushed false).bind
          fun _ => writes_throw e
      have hundone := (hrest { m' with
        manager := Session.undoAppend m.manager.leafId m'.manager }).entries
      refine hundone.trans ?_
      rw [undoAppend_entries hleaf.1, hentries, List.dropLast_concat]
    · exact .inr ⟨_, rfl, hentries⟩

theorem getRefinementHistory_push (entries : List Session.FileEntry)
    (entry : SessionEntry) :
    getRefinementHistory (Session.entriesOf (entries ++ [.entry entry]))
      = getRefinementHistory (Session.entriesOf entries)
        ++ (entryRecord entry.body).toList := by
  rw [Session.entriesOf_append]
  unfold getRefinementHistory
  rw [List.filterMap_append]
  refine congrArg (_ ++ ·) ?_
  show List.filterMap (fun entry : SessionEntry => entryRecord entry.body)
    [entry] = _
  cases hrecord : entryRecord entry.body with
  | none => exact List.filterMap_cons_none hrecord
  | some record => exact List.filterMap_cons_some hrecord

/-- A message is no record. -/
theorem appendDurableRefineMessage_records
    (message : Session.CustomMessageEntry) (m : Machine) :
    getRefinementHistory
        (appendDurableRefineMessage io message m).manager.getEntries
      = getRefinementHistory m.manager.getEntries := by
  have hmachine : appendDurableRefineMessage io message m
      = (outcome (Session.appendEntryWithRollback io
          (Session.appendBody io (.customMessage message)) m)).machine := by
    unfold appendDurableRefineMessage Session.appendCustomMessageEntryWithRollback
      Session.appendCustomMessageEntry
    cases Session.appendEntryWithRollback io
      (Session.appendBody io (.customMessage message)) m <;> rfl
  rw [hmachine]
  unfold SessionManager.getEntries
  rcases rollback_entries io (.customMessage message) m with
    hsame | ⟨entry, hbody, hpushed⟩
  · rw [hsame]
  · have hnone : entryRecord entry.body = none := by
      rw [hbody]
      rfl
    rw [hpushed, getRefinementHistory_push, hnone]
    exact List.append_nil _

end

section
variable (result : RefinementResult)

theorem RefinementResult.toJson_get_id :
    result.toJson.get "id" = some (.str result.id) := by
  unfold RefinementResult.toJson
  cases result.rollbackOf <;> cases result.scope <;> rfl

theorem RefinementResult.toJson_get_appliedEdits :
    result.toJson.get "appliedEdits"
      = some (appliedEditsJson result.appliedEdits) := by
  unfold RefinementResult.toJson
  cases result.rollbackOf <;> cases result.scope <;> rfl

theorem RefinementResult.isRefinementResult :
    isRefinementResult result.toJson = true := by
  unfold Refinement.isRefinementResult
  rw [result.toJson_get_id, result.toJson_get_appliedEdits]
  rfl

end

/-- The record is the last one of the session, written or not. -/
theorem recordRefinement_records (io : RefineIo) (result : RefinementResult)
    (m : Machine) :
    getRefinementHistory (recordRefinement io result m).1.manager.getEntries
      = getRefinementHistory m.manager.getEntries ++ [result.toJson] := by
  have hpushed := (appendBody_pushes io.audit
    (.custom "prime-agent.refinement" (some result.toJson)) m).entries
  have hsome : entryRecord (.custom "prime-agent.refinement"
      (some result.toJson)) = some result.toJson := by
    show (some result.toJson).filter Refinement.isRefinementResult = _
    rw [Option.filter_some, if_pos result.isRefinementResult]
  have haudit : getRefinementHistory (Session.entriesOf
        (outcome (Session.appendCustomEntry io.audit "prime-agent.refinement"
          (some result.toJson) m)).machine.manager.fileEntries)
      = getRefinementHistory m.manager.getEntries ++ [result.toJson] := by
    unfold Session.appendCustomEntry
    rw [hpushed]
    refine (getRefinementHistory_push _ _).trans ?_
    show _ ++ (entryRecord (.custom "prime-agent.refinement"
      (some result.toJson))).toList = _
    rw [hsome]
    rfl
  have houtcome := appendDurableRefineMessage_records io.outcome
    (io.createRefinementOutcomeMessage result)
  have hnotice := appendDurableRefineMessage_records io.notice
    (io.createRefinementNoticeMessage result)
  unfold recordRefinement
  cases happend : Session.appendCustomEntry io.audit "prime-agent.refinement"
      (some result.toJson) m with
  | error error m' =>
    rw [happend] at haudit
    exact (houtcome m').trans haudit
  | ok id m' =>
    rw [happend] at haudit
    dsimp only
    split_ifs
    · exact (houtcome m').trans haudit
    · exact (hnotice _).trans ((houtcome m').trans haudit)
    · exact (hnotice _).trans ((houtcome m').trans haudit)
    · exact (houtcome m').trans haudit

-- ======== one record

/-- All that is asked of a record. -/
def Same (record other : Json) : Prop :=
  record.get "id" = other.get "id"
    ∧ record.get "appliedEdits" = other.get "appliedEdits"

theorem getLast?_append (k : String) (ms ns : List (String × Json)) :
    Json.getLast? k (ms ++ ns) = (Json.getLast? k ns).or (Json.getLast? k ms) := by
  induction ms with
  | nil => exact (Option.or_none).symm
  | cons m ms ih =>
    obtain ⟨k', v⟩ := m
    rw [List.cons_append, Json.getLast?, ih]
    rw [Json.getLast?]
    cases Json.getLast? k ns <;> cases Json.getLast? k ms <;> rfl

theorem getLast?_filter {k other : String} (h : k ≠ other)
    (ms : List (String × Json)) :
    Json.getLast? k (ms.filter (·.1 ≠ other)) = Json.getLast? k ms := by
  induction ms with
  | nil => rfl
  | cons m ms ih =>
    obtain ⟨k', v⟩ := m
    by_cases hk : k' = other
    · rw [List.filter_cons_of_neg (by simpa using hk), ih, Json.getLast?,
        if_neg (fun heq => h (heq.symm.trans hk))]
      cases Json.getLast? k ms <;> rfl
    · rw [List.filter_cons_of_pos (by simpa using hk), Json.getLast?, ih,
        Json.getLast?]

theorem get_withScope {k : String} (h : k ≠ "scope") (result scope : Json) :
    (withScope result scope).get k = result.get k := by
  cases result with
  | obj ms =>
    show Json.getLast? k (ms.filter (·.1 ≠ "scope") ++ [("scope", scope)]) = _
    rw [getLast?_append, getLast?_filter h, Json.getLast?, if_neg (Ne.symm h)]
    rfl
  | null => rfl
  | bool b => rfl
  | num n => rfl
  | str s => rfl
  | arr xs => rfl

theorem same_withScope (result scope : Json) :
    Same (withScope result scope) result :=
  ⟨get_withScope (by decide) result scope, get_withScope (by decide) result scope⟩

theorem mem_setRecord (records : List Json) (result : Json) :
    result ∈ setRecord records result := by
  unfold setRecord
  split_ifs with hany
  · obtain ⟨other, hmem, hsame⟩ := List.any_eq_true.1 hany
    apply List.mem_map.2
    exact ⟨other, hmem, if_pos hsame⟩
  · exact List.mem_append_right _ (List.mem_singleton_self result)

/-- What is set in the session is the record, up to its scope. -/
theorem setSessionRecord_eq (records : List Json) (result : Json) :
    ∃ set, Same set result ∧ setSessionRecord records result
      = setRecord records set := by
  unfold setSessionRecord
  dsimp only
  split
  · exact ⟨_, same_withScope _ _, rfl⟩
  · exact ⟨_, ⟨rfl, rfl⟩, rfl⟩

/-- The last record of the session is in the history. -/
theorem mem_merge_last (globals session : List Json) (result : Json) :
    ∃ record ∈ mergeRefinementHistory globals (session ++ [result]),
      Same record result := by
  unfold mergeRefinementHistory
  rw [List.foldl_append]
  obtain ⟨set, hsame, heq⟩ := setSessionRecord_eq
    (session.foldl setSessionRecord (globals.foldl setRecord [])) result
  refine ⟨set, ?_, hsame⟩
  show set ∈ setSessionRecord _ result
  rw [heq]
  exact mem_setRecord _ set

-- ======== known ids

/-- A record has that id. -/
def Knows (records : List Json) (id : String) : Prop :=
  ∃ record ∈ records, record.get "id" = some (.str id)

variable {result : Json} {id : String}

theorem sameId_str {other : Json} (hid : other.get "id" = some (.str id)) :
    sameId result other = true ↔ result.get "id" = some (.str id) := by
  unfold sameId
  rw [hid]
  cases hresult : result.get "id" with
  | none => simp [sameValue]
  | some value => cases value <;> simp [sameValue]

variable {records : List Json}

theorem knows_setRecord :
    Knows (setRecord records result) id
      ↔ Knows records id ∨ result.get "id" = some (.str id) := by
  constructor
  · rintro ⟨record, hmem, hid⟩
    unfold setRecord at hmem
    split_ifs at hmem
    · obtain ⟨other, hother, heq⟩ := List.mem_map.1 hmem
      by_cases hsame : sameId result other = true
      · rw [if_pos hsame] at heq
        rw [heq]
        exact .inr hid
      · rw [if_neg hsame] at heq
        rw [heq] at hother
        exact .inl ⟨record, hother, hid⟩
    · rcases List.mem_append.1 hmem with hold | hnew
      · exact .inl ⟨record, hold, hid⟩
      · rw [List.mem_singleton.1 hnew] at hid
        exact .inr hid
  · rintro (⟨record, hmem, hid⟩ | hid)
    · by_cases hsame : sameId result record = true
      · exact ⟨result, mem_setRecord _ _, (sameId_str hid).1 hsame⟩
      · refine ⟨record, ?_, hid⟩
        unfold setRecord
        split_ifs
        · exact List.mem_map.2 ⟨record, hmem, if_neg hsame⟩
        · exact List.mem_append_left _ hmem
    · exact ⟨result, mem_setRecord _ _, hid⟩

theorem knows_setSessionRecord : Knows (setSessionRecord records result) id
      ↔ Knows records id ∨ result.get "id" = some (.str id) := by
  obtain ⟨set, hsame, heq⟩ := setSessionRecord_eq records result
  rw [heq, knows_setRecord, hsame.1]

theorem knows_cons {record : Json} :
    Knows (record :: records) id
      ↔ record.get "id" = some (.str id) ∨ Knows records id := by
  unfold Knows
  rw [List.exists_mem_cons_iff]

theorem knows_foldl {set : List Json → Json → List Json}
    (hset : ∀ records result, Knows (set records result) id
      ↔ Knows records id ∨ result.get "id" = some (.str id))
    (results records : List Json) :
    Knows (results.foldl set records) id
      ↔ Knows records id ∨ Knows results id := by
  induction results generalizing records with
  | nil =>
    constructor
    · exact .inl
    · rintro (hknows | ⟨record, hmem, -⟩)
      · exact hknows
      · exact absurd hmem List.not_mem_nil
  | cons result results ih =>
    rw [List.foldl_cons, ih, hset, knows_cons, or_assoc]

theorem knows_merge (globals session : List Json) (id : String) :
    Knows (mergeRefinementHistory globals session) id
      ↔ Knows globals id ∨ Knows session id := by
  unfold mergeRefinementHistory
  rw [knows_foldl (fun _ _ => knows_setSessionRecord),
    knows_foldl (fun _ _ => knows_setRecord)]
  constructor
  · rintro ((⟨record, hmem, -⟩ | hglobals) | hsession)
    · exact absurd hmem List.not_mem_nil
    · exact .inl hglobals
    · exact .inr hsession
  · rintro (hglobals | hsession)
    · exact .inl (.inr hglobals)
    · exact .inr hsession

/-- A record stays when the session has none of its id. -/
theorem mem_foldl_setSessionRecord
    (hid : result.get "id" = some (.str id)) {session : List Json}
    (hsession : ¬Knows session id)
    (hmem : result ∈ records) :
    result ∈ session.foldl setSessionRecord records := by
  induction session generalizing records with
  | nil => exact hmem
  | cons other session ih =>
    rw [knows_cons, not_or] at hsession
    apply ih hsession.2
    obtain ⟨set, hsame, heq⟩ := setSessionRecord_eq records other
    have hother : sameId set result ≠ true := by
      rw [Ne, sameId_str hid, hsame.1]
      exact hsession.1
    rw [heq]
    unfold setRecord
    split_ifs
    · exact List.mem_map.2 ⟨result, hmem, if_neg hother⟩
    · exact List.mem_append_left _ hmem

/-- The last record of the shared history is in the history, when the session
has none of its id. -/
theorem mem_merge_global {globals session : List Json}
    (hid : result.get "id" = some (.str id))
    (hsession : ¬Knows session id) :
    result ∈ mergeRefinementHistory (globals ++ [result]) session := by
  unfold mergeRefinementHistory
  rw [List.foldl_append]
  exact mem_foldl_setSessionRecord hid hsession (mem_setRecord _ result)

-- ======== the shared history

theorem toJson_eq_obj (result : RefinementResult) :
    ∃ members, result.toJson = .obj members :=
  ⟨_, rfl⟩

/-- An object's text starts and ends with its braces. -/
theorem stringify_obj (members : List (String × Json)) :
    ∃ inner, Json.stringify (.obj members) = '{' :: (inner ++ ['}']) := by
  rw [Json.stringify]
  exact ⟨_, rfl⟩

theorem trim_braced (inner : List Char) :
    trim (String.ofList ('{' :: (inner ++ ['}'])))
      = String.ofList ('{' :: (inner ++ ['}'])) := by
  have hopen : Session.isTrimmed '{' = false := by decide
  have hclose : Session.isTrimmed '}' = false := by decide
  unfold Session.trim
  rw [String.toList_ofList, List.dropWhile_cons_of_neg (by rw [hopen]; decide),
    List.reverse_cons, List.reverse_append, List.reverse_singleton]
  show String.ofList (List.dropWhile _
    ('}' :: (inner.reverse ++ ['{']))).reverse = _
  rw [List.dropWhile_cons_of_neg (by rw [hclose]; decide)]
  simp

/-- Trimming what starts with a brace leaves its start. -/
theorem trim_open (cs : List Char) :
    ∃ kept, kept <+: '{' :: cs ∧ kept ≠ []
      ∧ trim (String.ofList ('{' :: cs)) = String.ofList kept := by
  have hopen : Session.isTrimmed '{' = false := by decide
  refine ⟨(('{' :: cs).reverse.dropWhile Session.isTrimmed).reverse, ?_, ?_, ?_⟩
  · rw [← List.reverse_suffix, List.reverse_reverse]
    exact List.dropWhile_suffix _
  · intro hnil
    rw [List.reverse_eq_nil_iff, List.dropWhile_eq_nil_iff] at hnil
    have htrimmed := hnil '{' (by simp)
    rw [hopen] at htrimmed
    cases htrimmed
  · unfold Session.trim
    rw [String.toList_ofList,
      List.dropWhile_cons_of_neg (by rw [hopen]; decide)]

/-- A line of a global record is read as that record. -/
theorem historyLine_record {result : RefinementResult}
    (hscope : result.scope = some .globalScope) :
    ∃ record, historyLine result.toJson.stringify = some record
      ∧ Same record result.toJson := by
  obtain ⟨members, hmembers⟩ := toJson_eq_obj result
  obtain ⟨inner, hinner⟩ := stringify_obj members
  have hscoped : recordScope result.toJson = some (some (.str "global")) := by
    have hget : result.toJson.get "scope" = some (.str "global") := by
      unfold RefinementResult.toJson
      rw [hscope]
      cases result.rollbackOf <;> rfl
    unfold recordScope
    rw [hget]
    rfl
  have htrim : trim (String.ofList result.toJson.stringify)
      = String.ofList result.toJson.stringify := by
    rw [hmembers, hinner]
    exact trim_braced inner
  have hne : String.ofList result.toJson.stringify ≠ "" := by
    rw [hmembers, hinner]
    intro hempty
    have hlist := congrArg String.toList hempty
    rw [String.toList_ofList] at hlist
    cases hlist
  refine ⟨withScope result.toJson (.str "global"), ?_, same_withScope _ _⟩
  unfold historyLine withDefaultRefinementScope
  rw [htrim]
  dsimp only
  rw [if_neg hne, String.toList_ofList, Json.parse_stringify,
    Option.filter_some, if_pos result.isRefinementResult, Option.bind_some,
    hscoped]
  rfl

theorem historyLine_nil : historyLine [] = none := by
  unfold historyLine
  exact if_pos (by decide)

/-- Part of a record is none. -/
theorem historyLine_torn (result : RefinementResult) {torn : List UInt8}
    (htorn : torn <+: recordText result) (hpart : torn ≠ recordText result) :
    historyLine (Utf8.decode torn) = none := by
  obtain ⟨members, hmembers⟩ := toJson_eq_obj result
  obtain ⟨inner, hinner⟩ := stringify_obj members
  obtain ⟨n, m, hdecode, hcut⟩ := Utf8.decode_prefix htorn
  have hlt : m < result.toJson.stringify.length := by
    rcases hcut with ⟨heq, -⟩ | hlt
    · by_contra hle
      rw [List.take_of_length_le (by omega)] at heq
      exact hpart heq
    · exact hlt
  cases torn with
  | nil =>
    rw [Utf8.decode_nil]
    exact historyLine_nil
  | cons b torn =>
    have hm : m ≠ 0 := by
      rintro rfl
      -- the first byte is the brace
      unfold recordText at htorn
      rw [hmembers, hinner, Utf8.encode_cons] at htorn
      obtain rfl := (List.cons_prefix_cons.1 htorn).1
      rw [Utf8.decode_ascii (by decide), List.take_zero,
        List.nil_append] at hdecode
      cases n with
      | zero => cases hdecode
      | succ n =>
        rw [List.replicate_succ, List.cons.injEq] at hdecode
        exact absurd hdecode.1 (by decide)
    obtain ⟨k, rfl⟩ := Nat.exists_eq_succ_of_ne_zero hm
    rw [hmembers, hinner] at hdecode hlt
    rw [List.take_succ_cons, List.cons_append] at hdecode
    rw [hdecode]
    obtain ⟨kept, hkept, hne, htrim⟩ := trim_open
      ((inner ++ ['}']).take k ++ List.replicate n Utf8.replacement)
    have hparse : Json.parse kept = none := by
      rw [← List.cons_append] at hkept
      have htake : '{' :: (inner ++ ['}']).take k
          <+: Json.stringify (.obj members) := by
        rw [hinner, ← List.take_succ_cons]
        exact List.take_prefix _ _
      have hshort : ∀ p : List Char, p <+: '{' :: (inner ++ ['}']).take k →
          p ≠ Json.stringify (.obj members) := by
        rintro p hp rfl
        have hlength := hp.length_le
        rw [hinner, List.length_cons, List.length_cons,
          List.length_take] at hlength
        rw [List.length_cons] at hlt
        omega
      rcases Json.prefix_append_cases hkept with hin | ⟨rest, rfl, hrest⟩
      · have hnone := Json.parse_torn_obj (hin.trans htake) hne
          (hshort kept hin) (g := []) (fun c hc => absurd hc List.not_mem_nil)
        rwa [List.append_nil] at hnone
      · apply Json.parse_torn_obj htake (List.cons_ne_nil _ _)
          (hshort _ (List.prefix_refl _))
        intro c hc
        rw [List.eq_of_mem_replicate (hrest.subset hc)]
        decide
    unfold historyLine
    rw [htrim]
    dsimp only
    split_ifs
    · rfl
    · rw [String.toList_ofList, hparse]
      rfl

theorem loadGlobal_nil : loadGlobalRefinementHistory (some []) = [] := by
  unfold loadGlobalRefinementHistory
  dsimp only
  rw [Utf8.decode_nil, List.splitOn_nil]
  exact List.filterMap_cons_none historyLine_nil

/-- Lines that follow whole lines are read after them. -/
theorem loadGlobal_append {bytes written : List UInt8}
    (h : bytes = [] ∨ ∃ lines, bytes = lines ++ [0x0a]) :
    loadGlobalRefinementHistory (some (bytes ++ written))
      = loadGlobalRefinementHistory (some bytes)
        ++ loadGlobalRefinementHistory (some written) := by
  rcases h with rfl | ⟨lines, rfl⟩
  · rw [loadGlobal_nil]
    rfl
  · unfold loadGlobalRefinementHistory
    have hdecode : ∀ rest : List UInt8, Utf8.decode (lines ++ [0x0a] ++ rest)
        = Utf8.decode lines ++ '\n' :: Utf8.decode rest := by
      intro rest
      rw [List.append_assoc, List.singleton_append,
        Utf8.decode_append (by decide), Utf8.decode_ascii (by decide)]
      rfl
    have hlast := hdecode []
    rw [List.append_nil, Utf8.decode_nil] at hlast
    dsimp only
    rw [hdecode, hlast, List.splitOn_append_cons_self,
      List.splitOn_append_cons_self, List.filterMap_append,
      List.filterMap_append]
    have hempty : List.filterMap historyLine (List.splitOn '\n' []) = [] :=
      List.filterMap_cons_none historyLine_nil
    rw [hempty, List.append_nil]

variable {written : Nat}

/-- All of the record, and perhaps its newline. -/
theorem loadGlobal_record {result : RefinementResult}
    (hscope : result.scope = some .globalScope)
    (h : (recordText result).length ≤ written) :
    ∃ record, loadGlobalRefinementHistory
        (some ((recordText result ++ [0x0a]).take written)) = [record]
      ∧ Same record result.toJson := by
  obtain ⟨record, hline, hsame⟩ := historyLine_record hscope
  have hnewline : '\n' ∉ result.toJson.stringify := by
    intro hmem
    exact absurd (Json.printable_stringify _ '\n' hmem) (by decide)
  refine ⟨record, ?_, hsame⟩
  rw [List.take_append, List.take_of_length_le h]
  unfold loadGlobalRefinementHistory recordText
  dsimp only
  rw [Utf8.decode_encode_append]
  have hrest : ∀ n : Nat, List.take n [(0x0a : UInt8)] = []
      ∨ List.take n [(0x0a : UInt8)] = [0x0a] := by
    intro n
    cases n with
    | zero => exact .inl rfl
    | succ n => exact .inr (by rw [List.take_succ_cons, List.take_nil])
  rcases hrest (written - (recordText result).length) with hnone | hall
  · unfold recordText at hnone
    rw [hnone, Utf8.decode_nil, List.append_nil,
      List.splitOn_eq_singleton hnewline]
    exact List.filterMap_cons_some hline
  · unfold recordText at hall
    rw [hall, Utf8.decode_ascii (by decide), Utf8.decode_nil]
    show List.filterMap _ (List.splitOn '\n' (result.toJson.stringify
      ++ ['\n'])) = _
    rw [List.splitOn_append_cons_self_of_not_mem hnewline,
      List.filterMap_cons_some hline]
    rfl

theorem loadGlobal_torn {result : RefinementResult}
    (h : written < (recordText result).length) :
    loadGlobalRefinementHistory
      (some ((recordText result ++ [0x0a]).take written)) = [] := by
  rw [List.take_append_of_le_length (Nat.le_of_lt h)]
  have hnone := historyLine_torn result (List.take_prefix written _)
    (by
      intro heq
      have hlength := congrArg List.length heq
      rw [List.length_take] at hlength
      omega)
  have hnewline : '\n' ∉ Utf8.decode ((recordText result).take written) := by
    obtain ⟨n, m, hdecode, -⟩ := Utf8.decode_prefix
      (List.take_prefix written (recordText result))
    rw [hdecode]
    intro hmem
    rcases List.mem_append.1 hmem with hin | hin
    · exact absurd (Json.printable_stringify _ '\n' (List.mem_of_mem_take hin))
        (by decide)
    · exact absurd (List.eq_of_mem_replicate hin) (by decide)
  unfold loadGlobalRefinementHistory
  dsimp only
  rw [List.splitOn_eq_singleton hnewline]
  exact List.filterMap_cons_none hnone

-- ======== the steps

section
variable {paths : HarnessPaths} {io : RefineIo} {request : RefineRequest}
  {w : RefineWorld} {scope : HarnessScope} {dir : String}

/-- The steps up to the saving succeed. -/
def Saves (io : RefineIo) : Prop :=
  (io.disposed || io.loadHistoryThrows || io.applyThrows || io.aborted
    || io.saveThrows) = false

theorem Saves.flags (h : Saves io) : io.disposed = false
    ∧ io.loadHistoryThrows = false ∧ io.applyThrows = false
    ∧ io.aborted = false ∧ io.saveThrows = false := by
  unfold Saves at h
  rw [Bool.or_eq_false_iff, Bool.or_eq_false_iff, Bool.or_eq_false_iff,
    Bool.or_eq_false_iff] at h
  exact ⟨h.1.1.1.1, h.1.1.1.2, h.1.1.2, h.1.2, h.2⟩

/-- Unless it is saved, nothing has changed. -/
theorem applyRefine_early (h : ¬(Saves io ∧ ∃ scope dir,
      refineTarget paths request w = .ok (scope, dir))) :
    (applyRefine paths io request w).1 = w := by
  unfold applyRefine
  by_cases hdisposed : io.disposed = true
  · rw [if_pos hdisposed]
  · by_cases hload : io.loadHistoryThrows = true
    · rw [if_neg hdisposed, if_pos hload]
    · rw [if_neg hdisposed, if_neg hload]
      cases htarget : refineTarget paths request w with
      | error error => rfl
      | ok target =>
        dsimp only
        split_ifs with happly haborted hsave
        · rfl
        · rfl
        · rfl
        all_goals
          exfalso
          apply h
          refine ⟨?_, target.1, target.2, htarget⟩
          unfold Saves
          rw [Bool.eq_false_of_not_eq_true hdisposed,
            Bool.eq_false_of_not_eq_true hload,
            Bool.eq_false_of_not_eq_true happly,
            Bool.eq_false_of_not_eq_true haborted,
            Bool.eq_false_of_not_eq_true hsave]
          rfl

theorem applyRefine_saved (h : Saves io)
    (htarget : refineTarget paths request w = .ok (scope, dir)) :
    applyRefine paths io request w
      = if scope = .globalScope ∧ io.historyThrows.isSome then
          (saveRefinement paths io request w scope dir,
            .error "appendFileSync")
        else
          ({ saveRefinement paths io request w scope dir with
              machine := (recordRefinement io
                (refinement paths io request w scope dir).2 w.machine).1 },
            (recordRefinement io (refinement paths io request w scope dir).2
              w.machine).2.map fun _ =>
                (refinement paths io request w scope dir).2) := by
  obtain ⟨hdisposed, hload, happly, haborted, hsave⟩ := h.flags
  unfold applyRefine
  rw [hdisposed, hload, happly, haborted, hsave, htarget]
  rfl

theorem refinement_id :
    (refinement paths io request w scope dir).2.id = request.plan.id := rfl

theorem refinement_scope :
    (refinement paths io request w scope dir).2.scope = some scope := rfl

/-- The saved state has one more refinement. -/
theorem saveRefinement_states :
    (saveRefinement paths io request w scope dir).states ≠ w.states := by
  intro hsame
  have hpath := congrFun hsame (paths.getHarnessStatePath dir)
  have hsaved : some (some (refinement paths io request w scope dir).1)
      = w.states (paths.getHarnessStatePath dir) := by
    rw [← hpath]
    exact (if_pos rfl).symm
  have hmore : (refinement paths io request w scope dir).1.refinements.length
      = (loadHarnessState (w.states (paths.getHarnessStatePath dir))
          scope).refinements.length + 1 := List.length_append
  rw [← hsaved] at hmore
  have hload : (loadHarnessState
      (some (some (refinement paths io request w scope dir).1))
        scope).refinements
      = (refinement paths io request w scope dir).1.refinements := rfl
  rw [hload] at hmore
  omega

/-- What is recorded in the session is found, whatever fails after it. -/
theorem recorded_session :
    Recorded { saveRefinement paths io request w scope dir with
        machine := (recordRefinement io
          (refinement paths io request w scope dir).2 w.machine).1 }
      request.plan.id
      (refinement paths io request w scope dir).2.appliedEdits := by
  unfold Recorded loadRefinementHistory
  dsimp only
  rw [recordRefinement_records]
  obtain ⟨record, hmem, hid, hedits⟩ := mem_merge_last
    (loadGlobalRefinementHistory
      (saveRefinement paths io request w scope dir).history)
    (getRefinementHistory w.machine.manager.getEntries)
    (refinement paths io request w scope dir).2.toJson
  refine ⟨record, hmem, ?_, ?_⟩
  · rw [hid, RefinementResult.toJson_get_id, refinement_id]
  · rw [hedits, RefinementResult.toJson_get_appliedEdits]

/-- Where the append to the shared history stops, the session has no record of
its own: the history tells the refinement exactly if its text is complete. -/
theorem recorded_global (hthrows : io.historyThrows = some written)
    (hwhole : WholeLines w) (hnew : NewId request w) :
    Recorded (saveRefinement paths io request w .globalScope dir)
        request.plan.id
        (refinement paths io request w .globalScope dir).2.appliedEdits
      ↔ (recordText (refinement paths io request w .globalScope dir).2).length
        ≤ written := by
  set result := (refinement paths io request w .globalScope dir).2 with hresult
  have hscope : result.scope = some .globalScope := refinement_scope
  have hunknown : ¬Knows (loadRefinementHistory w) request.plan.id := by
    rintro ⟨record, hmem, hid⟩
    exact hnew record hmem hid
  unfold loadRefinementHistory at hunknown
  rw [knows_merge, not_or] at hunknown
  have hbytes : w.history.getD [] = []
      ∨ ∃ lines, w.history.getD [] = lines ++ [0x0a] := by
    cases hhistory : w.history with
    | none => exact .inl rfl
    | some bytes => exact hwhole bytes hhistory
  have hold : loadGlobalRefinementHistory (some (w.history.getD []))
      = loadGlobalRefinementHistory w.history := by
    cases w.history with
    | none => exact loadGlobal_nil
    | some bytes => rfl
  have hhistory : loadGlobalRefinementHistory
        (saveRefinement paths io request w .globalScope dir).history
      = loadGlobalRefinementHistory w.history
        ++ loadGlobalRefinementHistory
          (some ((recordText result ++ [0x0a]).take written)) := by
    show loadGlobalRefinementHistory (appendGlobalRefinement io.historyThrows
      w.history result) = _
    rw [hthrows]
    unfold appendGlobalRefinement
    dsimp only
    rw [Option.elim_some, loadGlobal_append hbytes, hold]
  unfold Recorded loadRefinementHistory
  rw [hhistory]
  show (∃ record ∈ mergeRefinementHistory _ (getRefinementHistory
    w.machine.manager.getEntries), _) ↔ _
  by_cases hwritten : (recordText result).length ≤ written
  · obtain ⟨record, hload, hid, hedits⟩ := loadGlobal_record hscope hwritten
    rw [hload]
    have hrecord : record.get "id" = some (.str request.plan.id) := by
      rw [hid, RefinementResult.toJson_get_id, hresult, refinement_id]
    refine ⟨fun _ => hwritten, fun _ => ⟨record,
      mem_merge_global hrecord hunknown.2, hrecord, ?_⟩⟩
    rw [hedits, RefinementResult.toJson_get_appliedEdits]
  · rw [loadGlobal_torn (Nat.lt_of_not_le hwritten), List.append_nil]
    constructor
    · rintro ⟨record, hmem, hid, -⟩
      exact absurd hid (hnew record hmem)
    · exact fun hle => absurd hle hwritten

theorem historyWritten_iff (hsaves : Saves io)
    (htarget : refineTarget paths request w = .ok (.globalScope, dir))
    (hthrows : io.historyThrows = some written) :
    (recordText (refinement paths io request w .globalScope dir).2).length
        ≤ written
      ↔ HistoryWritten paths io request w := by
  constructor
  · intro hle dir' htarget' _ written' hthrows'
    rw [htarget] at htarget'
    rw [hthrows] at hthrows'
    cases htarget'
    cases hthrows'
    exact hle
  · intro h
    exact h dir htarget hsaves written hthrows

end

-- ======== the failures

/-- A refinement that fails is recorded or not applied: always when the shared
history is written, and in a history of whole lines that does not know it
exactly when its record gets down. -/
theorem refinement_recorded (paths : HarnessPaths) (io : RefineIo)
    (request : RefineRequest) (w : RefineWorld) :
    (io.historyThrows = none → RecordedOrUnchanged paths io request w)
      ∧ (WholeLines w → NewId request w →
        (RecordedOrUnchanged paths io request w
          ↔ HistoryWritten paths io request w)) := by
  by_cases hearly : Saves io ∧ ∃ scope dir,
      refineTarget paths request w = .ok (scope, dir)
  · obtain ⟨hsaves, scope, dir, htarget⟩ := hearly
    have hrun := applyRefine_saved hsaves htarget
    by_cases hstops : scope = .globalScope ∧ io.historyThrows.isSome
    · rw [if_pos hstops] at hrun
      obtain ⟨rfl, hsome⟩ := hstops
      obtain ⟨written, hthrows⟩ := Option.isSome_iff_exists.1 hsome
      refine ⟨fun hnone => ?_, fun hwhole hnew => ?_⟩
      · rw [hnone] at hthrows
        cases hthrows
      · rw [← show _ ↔ HistoryWritten paths io request w from
          historyWritten_iff hsaves htarget hthrows,
          ← recorded_global hthrows hwhole hnew]
        unfold RecordedOrUnchanged
        rw [hrun]
        constructor
        · intro h
          rcases h _ rfl with hsame | ⟨scope', dir', htarget', hrecorded⟩
          · exact absurd hsame saveRefinement_states
          · rw [htarget] at htarget'
            cases htarget'
            exact hrecorded
        · intro hrecorded error _
          exact .inr ⟨_, _, htarget, hrecorded⟩
    · rw [if_neg hstops] at hrun
      have hholds : RecordedOrUnchanged paths io request w := by
        intro error _
        rw [hrun]
        exact .inr ⟨scope, dir, htarget, recorded_session⟩
      refine ⟨fun _ => hholds, fun _ _ => ⟨fun _ => ?_, fun _ => hholds⟩⟩
      intro dir' htarget' _ written hthrows
      rw [htarget] at htarget'
      cases htarget'
      exact absurd ⟨rfl, by rw [hthrows]; rfl⟩ hstops
  · have hholds : RecordedOrUnchanged paths io request w := by
      intro error _
      rw [applyRefine_early hearly]
      exact .inl rfl
    refine ⟨fun _ => hholds, fun _ _ => ⟨fun _ => ?_, fun _ => hholds⟩⟩
    intro dir htarget hsaves
    exact absurd ⟨hsaves, .globalScope, dir, htarget⟩ hearly

-- ======== a global refinement

def plainPaths : HarnessPaths where
  globalHarnessStateDir := "agent"
  localHarnessStateDir := none
  getHarnessStatePath dir := dir ++ "/harness_state.json"
  dirname path := path
  resolve path := path

/-- Nothing fails in the session. -/
def plainIo : Session.Io where
  now := "2026-01-01T00:00:00.000Z"
  randomUUID _ _ := "00000000"
  createSessionId _ := "session"
  captureGitContext _ := none
  newRlmDepth := .ok none
  resolveSessionRlmDepth _ _ := Numeral.ofNat 0
  appendFileSync := none
  writeFileAtomicSync _ := false

def plainMessage : Session.CustomMessageEntry where
  customType := "prime-agent.refinement"
  content := .text "refined"
  details := none
  display := true

/-- The append to the shared history stops after so many bytes. -/
def stoppedIo (written : Nat) : RefineIo where
  disposed := false
  loadHistoryThrows := false
  applyThrows := false
  aborted := false
  saveThrows := false
  historyThrows := some written
  audit := plainIo
  outcome := plainIo
  outcomeListenerThrows := false
  notice := plainIo
  noticeListenerThrows := false
  now _ := "2026-01-01T00:00:00.000Z"
  createRefinementOutcomeMessage _ := plainMessage
  createRefinementNoticeMessage _ := plainMessage

/-- A new session, without any harness. -/
def plainWorld : RefineWorld where
  machine :=
    { disk := fun _ => none
      manager :=
        { sessionId := "session"
          sessionFile := none
          sessionDir := "sessions"
          cwd := "/"
          persist := false
          flushed := false
          hasAssistantEntry := false
          fileEntries := []
          byId := []
          labelsById := []
          labelTimestampsById := []
          leafId := none } }
  states _ := none
  history := none

/-- A memory is created for all sessions. -/
def plainRequest : RefineRequest where
  rollbackId := none
  global := true
  plan :=
    { proposal :=
        { summary := "remember"
          rationale := "seen"
          edits :=
            [{ action := "create"
               kind := "memory"
               id := some "lesson"
               title := some "Lesson"
               content := some "Keep records."
               path := none
               reference := none
               arguments := none
               metadata := none
               reason := none }]
          expectedOutcome := "recalled" }
      id := "refine_20260101000000000"
      rollbackOf := none
      rollbackScope := none }
  baselineState := none

theorem plainWorld_wholeLines : WholeLines plainWorld := by
  intro bytes hbytes
  cases hbytes

theorem plainWorld_newId : NewId plainRequest plainWorld :=
  fun _ hmem => absurd hmem List.not_mem_nil

/-- Stopped after the record, or within the newline. -/
theorem refinement_recorded_late :
    RecordedOrUnchanged plainPaths (stoppedIo 1000) plainRequest plainWorld := by
  apply ((refinement_recorded plainPaths (stoppedIo 1000) plainRequest
    plainWorld).2 plainWorld_wholeLines plainWorld_newId).2
  intro dir htarget _ written hthrows
  cases htarget
  cases hthrows
  decide +kernel

/-- Stopped before the first byte, the refinement is applied and nothing tells
of it. -/
theorem not_refinement_recorded_stopped :
    ¬RecordedOrUnchanged plainPaths (stoppedIo 0) plainRequest plainWorld := by
  intro h
  have htarget : refineTarget plainPaths plainRequest plainWorld
      = .ok (.globalScope, "agent") := rfl
  have hsaves : Saves (stoppedIo 0) := rfl
  have hrun := applyRefine_saved hsaves htarget
  rw [if_pos ⟨rfl, rfl⟩] at hrun
  unfold RecordedOrUnchanged at h
  rw [hrun] at h
  rcases h _ rfl with hsame | ⟨scope, dir, htarget', hrecorded⟩
  · exact saveRefinement_states hsame
  · rw [htarget] at htarget'
    cases htarget'
    have hle := (recorded_global rfl plainWorld_wholeLines
      plainWorld_newId).1 hrecorded
    exact absurd hle (by decide +kernel)

end OneHarness.Refinement
