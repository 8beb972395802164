/-
Only the current attempt finalizes an MCP account, in every run whose
operations are careful (`World.only_current_attempt_finalizes`).

The invariant: a nonce on a record belongs to an attempt that owns it. Each
operation of a batch keeps it (`verdict_owned`), and so does the way through
the file (`get_parse_serialize`).
-/
import OneHarness.Mcp.ConnectionStores
import OneHarness.Mcp.Proofs.Settlement

namespace OneHarness.Mcp

open Lib

-- ======== the file

/-- The records with what an entry of the file says. -/
def readEntry (now : ℚ) (records : Records) (entry : Text × Option RawRecord) :
    Records :=
  match sanitizeRecord entry.2 now with
  | some record =>
    if record.connectionId = entry.1 then records.set entry.1 record
    else records
  | none => records

variable {now : ℚ} {id : Text} {record : McpConnectionRecord}

/-- What is read back of a file is one of its entries. -/
theorem get_parseRecords {entries : List (Text × Option RawRecord)}
    (h : (parseRecords (.connections entries) now).get id = some record) :
    ∃ raw, (id, raw) ∈ entries ∧ sanitizeRecord raw now = some record := by
  have hfold : ∀ (entries : List (Text × Option RawRecord)) (start : Records),
      (entries.foldl (readEntry now) start).get id = some record →
      start.get id = some record
        ∨ ∃ raw, (id, raw) ∈ entries
          ∧ sanitizeRecord raw now = some record := by
    intro entries
    induction entries with
    | nil => exact fun start h => .inl h
    | cons entry entries ih =>
      intro start h
      rcases ih _ h with hget | ⟨raw, hmem, hraw⟩
      · obtain ⟨key, value⟩ := entry
        rw [readEntry] at hget
        dsimp only at hget
        cases hvalue : sanitizeRecord value now with
        | none =>
          rw [hvalue] at hget
          exact .inl hget
        | some record' =>
          rw [hvalue] at hget
          dsimp only at hget
          by_cases hkey : record'.connectionId = key
          · rw [if_pos hkey, JsMap.get_set] at hget
            by_cases hid : key = id
            · rw [if_pos hid] at hget
              right
              refine ⟨value, ?_, hvalue.trans hget⟩
              rw [← hid]
              exact List.mem_cons_self
            · rw [if_neg hid] at hget
              exact .inl hget
          · rw [if_neg hkey] at hget
            exact .inl hget
      · exact .inr ⟨raw, List.mem_cons_of_mem _ hmem, hraw⟩
  rcases hfold entries [] h with hnil | hmem
  · cases hnil
  · exact hmem

theorem nodup_parseRecords (file : ConnectionsFile) (now : ℚ) :
    (parseRecords file now).keys.Nodup := by
  cases file with
  | unusable => exact List.nodup_nil
  | connections entries =>
    have hfold : ∀ (entries : List (Text × Option RawRecord))
        (start : Records), start.keys.Nodup →
        (entries.foldl (readEntry now) start).keys.Nodup := by
      intro entries
      induction entries with
      | nil => exact fun start h => h
      | cons entry entries ih =>
        intro start h
        apply ih
        rw [readEntry]
        split
        · split
          · exact JsMap.nodup_keys_set h _ _
          · exact h
        · exact h
    exact hfold entries [] List.nodup_nil

/-- The nonce of an entry, whenever it is read. -/
theorem sanitizeRecord_attemptId {raw : Option RawRecord}
    (h : sanitizeRecord raw now = some record) :
    ∃ value, raw = some value ∧ record.attemptId
        = (RawField.given? value.attemptId).map (·.take 100)
      ∧ ∀ now', ((sanitizeRecord raw now').bind (·.attemptId))
        = record.attemptId := by
  cases raw with
  | none => cases h
  | some value =>
    refine ⟨value, rfl, ?_⟩
    simp only [sanitizeRecord, Option.bind_eq_bind, Option.bind_some,
      Option.bind_eq_some_iff, Option.pure_def, Option.some.injEq] at h
    obtain ⟨connectionId, hconnection, serviceId, hservice, endpoint,
      hendpoint, label, hlabel, status, hstatus, rfl⟩ := h
    refine ⟨rfl, fun now' => ?_⟩
    simp only [sanitizeRecord, Option.bind_eq_bind, Option.bind_some,
      hconnection, hservice, hendpoint, hlabel, hstatus, Option.pure_def]

variable {attemptId : Text}

/-- A nonce that is read back was written, if it is not too long. -/
theorem get_parse_serialize (arrange : Arrangement) {records : Records}
    (hnodup : records.keys.Nodup)
    (h : (parseRecords (serializeRecords arrange records) now).get id
      = some record) (hattempt : record.attemptId = some attemptId) :
    ∃ saved written, records.get id = some saved
      ∧ saved.attemptId = some written ∧ attemptId = written.take 100 := by
  obtain ⟨raw, hmem, hraw⟩ := get_parseRecords h
  obtain ⟨⟨id', saved⟩, hsaved, heq⟩ := List.mem_map.1 hmem
  obtain ⟨rfl, rfl⟩ := Prod.mk.inj heq
  have hget := JsMap.get_of_mem hnodup
    ((arrange.perm records).mem_iff.1 hsaved)
  obtain ⟨value, hvalue, hnonce, -⟩ := sanitizeRecord_attemptId hraw
  rw [← Option.some.inj hvalue, hattempt] at hnonce
  obtain ⟨written, hwritten, htake⟩ := Option.map_eq_some_iff.1 hnonce.symm
  refine ⟨saved, written, hget, ?_, htake.symm⟩
  have htext := (Option.filter_eq_some_iff.1 hwritten).1
  cases hattemptId : saved.attemptId with
  | none =>
    simp only [McpConnectionRecord.raw, hattemptId, Option.map_none,
      RawField.text?] at htext
    cases htext
  | some nonce =>
    simp only [McpConnectionRecord.raw, hattemptId, Option.map_some,
      RawField.text?] at htext
    exact htext

-- ======== the nonces

/-- The nonce on a record. -/
def nonce (records : Records) (id : Text) : Option Text :=
  (records.get id).bind (·.attemptId)

theorem nonce_set (records : Records) (id id' : Text)
    (record : McpConnectionRecord) :
    nonce (records.set id record) id'
      = if id = id' then record.attemptId else nonce records id' := by
  unfold nonce
  rw [JsMap.get_set]
  by_cases h : id = id'
  · rw [if_pos h, if_pos h]
    rfl
  · rw [if_neg h, if_neg h]

theorem nonce_delete (records : Records) (id id' : Text) :
    nonce (records.delete id) id'
      = if id = id' then none else nonce records id' := by
  unfold nonce
  rw [JsMap.get_delete]
  by_cases h : id = id'
  · rw [if_pos h, if_pos h]
    rfl
  · rw [if_neg h, if_neg h]

theorem nonce_applyUpsert (records : Records) (record : McpConnectionRecord)
    (now : ℚ) (id : Text) :
    nonce (applyUpsert records record now) id
      = if record.connectionId = id then record.attemptId
        else nonce records id := nonce_set _ _ _ _

theorem nonce_of_get {records : Records} (h : records.get id = some record) :
    nonce records id = record.attemptId := by
  rw [nonce, h]
  rfl

/-- Each nonce on a record is that of an attempt that owns the account. -/
structure OwnedRecords (log : List Commit) (records : Records) : Prop where
  nodup : records.keys.Nodup
  owned : ∀ id attemptId, nonce records id = some attemptId →
    World.Owned log id attemptId
  short : ∀ id attemptId, nonce records id = some attemptId →
    attemptId.length ≤ 100

section
variable {log : List Commit} {records records' : Records} {commit : Commit}

section
variable (h : OwnedRecords log records)
include h

/-- A nonce is granted by what is committed, or was there and is not
revoked. -/
theorem OwnedRecords.append (hnodup : records'.keys.Nodup)
    (hnonce : ∀ id attemptId, nonce records' id = some attemptId →
      World.Grants id attemptId commit ∧ attemptId.length ≤ 100
        ∨ nonce records id = some attemptId
          ∧ ¬ World.Revokes id attemptId commit) :
    OwnedRecords (log ++ [commit]) records' := by
  refine ⟨hnodup, ?_, ?_⟩
  · intro id attemptId hid
    rcases hnonce id attemptId hid with ⟨hgrants, -⟩ | ⟨hold, hrevokes⟩
    · exact Grant.Held.granted hgrants
    · apply (h.owned id attemptId hold).append
      intro d hd
      rw [List.mem_singleton.1 hd]
      exact hrevokes
  · intro id attemptId hid
    rcases hnonce id attemptId hid with ⟨-, hshort⟩ | ⟨hold, -⟩
    · exact hshort
    · exact h.short id attemptId hold

/-- What revokes the nonces of one account leaves none on its record. -/
theorem OwnedRecords.revoke (hnodup : records'.keys.Nodup)
    (hnone : nonce records' id = none)
    (hkept : ∀ id', id ≠ id' → nonce records' id' = nonce records id')
    (hrevokes : ∀ id' attemptId, World.Revokes id' attemptId commit →
      id = id') : OwnedRecords (log ++ [commit]) records' := by
  apply h.append hnodup
  intro id' attemptId hid
  right
  have hne : id ≠ id' := by
    rintro rfl
    rw [hnone] at hid
    cases hid
  rw [hkept id' hne] at hid
  exact ⟨hid, fun hrev => hne (hrevokes id' attemptId hrev)⟩

/-- The record is taken away. -/
theorem OwnedRecords.delete
    (hrevokes : ∀ id' attemptId, World.Revokes id' attemptId commit →
      id = id') : OwnedRecords (log ++ [commit]) (records.delete id) := by
  refine h.revoke (JsMap.nodup_keys_delete h.nodup id) ?_ ?_ hrevokes
  · rw [nonce_delete, if_pos rfl]
  · intro id' hne
    rw [nonce_delete, if_neg hne]

/-- The record loses its nonce. -/
theorem OwnedRecords.set_none (hnone : record.attemptId = none)
    (hrevokes : ∀ id' attemptId, World.Revokes id' attemptId commit →
      id = id') : OwnedRecords (log ++ [commit]) (records.set id record) := by
  refine h.revoke (JsMap.nodup_keys_set h.nodup id record) ?_ ?_ hrevokes
  · rw [nonce_set, if_pos rfl]
    exact hnone
  · intro id' hne
    rw [nonce_set, if_neg hne]

/-- There is no nonce to revoke. -/
theorem OwnedRecords.keep (hnone : nonce records id = none)
    (hrevokes : ∀ id' attemptId, World.Revokes id' attemptId commit →
      id = id') : OwnedRecords (log ++ [commit]) records :=
  h.revoke h.nodup hnone (fun _ _ => rfl) hrevokes

/-- The record gets a nonce, or keeps the one it has. -/
theorem OwnedRecords.set
    (hnonce : ∀ attemptId, record.attemptId = some attemptId →
      World.Grants id attemptId commit ∧ attemptId.length ≤ 100
        ∨ nonce records id = some attemptId)
    (hrevokes : ∀ id' attemptId, ¬ World.Revokes id' attemptId commit) :
    OwnedRecords (log ++ [commit]) (records.set id record) := by
  apply h.append (JsMap.nodup_keys_set h.nodup id record)
  intro id' attemptId hid
  rw [nonce_set] at hid
  by_cases heq : id = id'
  · rw [if_pos heq] at hid
    subst heq
    rcases hnonce attemptId hid with hgrants | hold
    · exact .inl hgrants
    · exact .inr ⟨hold, hrevokes id attemptId⟩
  · rw [if_neg heq] at hid
    exact .inr ⟨hid, hrevokes id' attemptId⟩

end

end

-- ======== the operations

/-- What a verdict may do to records whose nonces are owned. -/
structure VerdictOwned (log : List Commit) (before : Records) (ticket : Nat)
    (v : Verdict) : Prop where
  records : OwnedRecords (log ++ ((v.entry ticket).map (·.commit)).toList)
    (v.records before)
  finalize : ∀ id attemptId,
    (v.entry ticket).map (·.commit) = some (.finalize id attemptId) →
      World.Owned log id attemptId
  verify : ∀ current expected,
    (v.entry ticket).map (·.commit) = some (.verify current expected) →
      current = expected

theorem VerdictOwned.settles {log : List Commit} {before : Records}
    {ticket : Nat} (h : OwnedRecords log before) (outcome : Outcome) :
    VerdictOwned log before ticket (.settles outcome) := by
  constructor
  · show OwnedRecords (log ++ []) before
    rw [List.append_nil]
    exact h
  · intro id attemptId heq
    cases heq
  · intro current expected heq
    cases heq

theorem VerdictOwned.of_commit {log : List Commit} {before after : Records}
    {ticket : Nat} {v : Verdict} {commit : Commit} (changes : Bool)
    (hentry : v.entry ticket = some ⟨ticket, commit, changes⟩)
    (hrecords : v.records before = after)
    (h : OwnedRecords (log ++ [commit]) after)
    (hfinalize : ∀ id attemptId, commit = .finalize id attemptId →
      World.Owned log id attemptId)
    (hverify : ∀ current expected, commit = .verify current expected →
      current = expected) : VerdictOwned log before ticket v := by
  have hcommit : (v.entry ticket).map (·.commit) = some commit := by
    rw [hentry]
    rfl
  refine ⟨?_, ?_, ?_⟩
  · rw [hcommit, hrecords]
    exact h
  · intro id attemptId heq
    exact hfinalize id attemptId (Option.some.inj (hcommit.symm.trans heq))
  · intro current expected heq
    exact hverify current expected (Option.some.inj (hcommit.symm.trans heq))

section
variable {callbacks : Callbacks} {log : List Commit} {records : Records}
  (h : OwnedRecords log records) (ticket : Nat)

include h

theorem upsert_owned (hcareful : record.attemptId = none
      ∨ record.attemptId = (records.get record.connectionId).bind
        (·.attemptId)) :
    VerdictOwned log records ticket
      (.applies (applyUpsert records record now) (.upsert record)) := by
  apply VerdictOwned.of_commit true rfl rfl
  · apply h.set
    · intro attemptId hattempt
      right
      rcases hcareful with hnone | hsame
      · rw [show record.attemptId = some attemptId from hattempt] at hnone
        cases hnone
      · exact hsame.symm.trans hattempt
    · exact fun _ _ hrevokes => hrevokes
  · intro id attemptId heq
    cases heq
  · intro current expected heq
    cases heq

theorem remove_owned (id : Text) :
    VerdictOwned log records ticket
      (.applies (records.delete id) (.remove id)) := by
  apply VerdictOwned.of_commit true rfl rfl
  · exact h.delete fun id' attemptId hrevokes => hrevokes
  · intro id attemptId heq
    cases heq
  · intro current expected heq
    cases heq

theorem claim_owned (id attemptId : Text) (guarded : Bool)
    (hcareful : (∀ outcome, claimConnectionId callbacks records ticket id
        attemptId guarded ≠ .settles outcome) → attemptId.length ≤ 100) :
    VerdictOwned log records ticket
      (claimConnectionId callbacks records ticket id attemptId guarded) := by
  unfold claimConnectionId at hcareful ⊢
  cases hget : records.get id with
  | none => exact .settles h _
  | some existing =>
    rw [hget] at hcareful
    dsimp only at hcareful ⊢
    by_cases hclaimed : existing.attemptId ≠ none
    · rw [if_pos hclaimed]
      exact .settles h _
    · rw [if_neg hclaimed] at hcareful ⊢
      by_cases hguard : guarded ∧
          callbacks.isStillCurrent ticket existing ≠ some true
      · rw [if_pos hguard]
        exact .settles h _
      · rw [if_neg hguard] at hcareful ⊢
        have hshort := hcareful fun outcome heq => by cases heq
        apply VerdictOwned.of_commit true rfl rfl
        · apply h.set
          · intro attemptId' hattempt
            left
            rw [← Option.some.inj hattempt]
            exact ⟨⟨rfl, rfl⟩, hshort⟩
          · exact fun _ _ hrevokes => hrevokes
        · intro id attemptId heq
          cases heq
        · intro current expected heq
          cases heq

theorem release_owned (id attemptId : Text) :
    VerdictOwned log records ticket (releaseClaim records id attemptId) := by
  unfold releaseClaim
  split
  · exact .settles h _
  · split
    · exact .settles h _
    · apply VerdictOwned.of_commit true rfl rfl
      · exact h.set_none rfl fun id' attemptId hrevokes => hrevokes
      · intro id attemptId heq
        cases heq
      · intro current expected heq
        cases heq

theorem reserve_owned (record : McpConnectionRecord)
    (hcareful : (∀ outcome, reserve callbacks records ticket record
        ≠ .settles outcome) → ∀ attemptId, record.attemptId = some attemptId →
      attemptId.length ≤ 100) :
    VerdictOwned log records ticket
      (reserve callbacks records ticket record) := by
  unfold reserve at hcareful ⊢
  by_cases hhas : records.has record.connectionId
  · rw [if_pos hhas]
    exact .settles h _
  · rw [if_neg hhas] at hcareful ⊢
    have hshort := hcareful fun outcome heq => by cases heq
    apply VerdictOwned.of_commit true rfl rfl
    · apply h.set
      · intro attemptId hattempt
        left
        exact ⟨⟨rfl, hattempt⟩, hshort attemptId hattempt⟩
      · exact fun _ _ hrevokes => hrevokes
    · intro id attemptId heq
      cases heq
    · intro current expected heq
      cases heq

theorem removeReservation_owned (id attemptId : Text) :
    VerdictOwned log records ticket
      (removeReservation records id attemptId) := by
  unfold removeReservation
  split
  · exact .settles h _
  · split
    · apply VerdictOwned.of_commit true rfl rfl
      · exact h.delete fun id' attemptId hrevokes => hrevokes
      · intro id attemptId heq
        cases heq
      · intro current expected heq
        cases heq
    · exact .settles h _

theorem removal_owned {v : Verdict} {after : Records}
    (changes : Bool)
    (hentry : v.entry ticket = some ⟨ticket, .removal id, changes⟩)
    (hrecords : v.records records = after)
    (hafter : OwnedRecords (log ++ [.removal id]) after) :
    VerdictOwned log records ticket v := by
  apply VerdictOwned.of_commit changes hentry hrecords hafter
  · intro id attemptId heq
    cases heq
  · intro current expected heq
    cases heq

theorem removeAccount_owned (id : Text) (preserve : Bool)
    (hcareful : (∀ outcome, removeAccount callbacks records ticket id preserve
        ≠ .settles outcome) → preserve → ∀ existing,
      records.get id = some existing → existing.status ≠ .pending →
        existing.attemptId = none) :
    VerdictOwned log records ticket
      (removeAccount callbacks records ticket id preserve) := by
  have hrevokes : ∀ id' attemptId,
      World.Revokes id' attemptId (.removal id) → id = id' :=
    fun id' attemptId hrevokes => hrevokes
  unfold removeAccount at hcareful ⊢
  cases hremoval : callbacks.removal ticket with
  | none => exact .settles h _
  | some credentialRemoved =>
    rw [hremoval] at hcareful
    dsimp only at hcareful ⊢
    cases hget : records.get id with
    | none =>
      apply removal_owned h ticket false rfl rfl
      apply h.keep _ hrevokes
      rw [nonce, hget]
      rfl
    | some existing =>
      rw [hget] at hcareful
      dsimp only at hcareful ⊢
      by_cases hremove : ¬ preserve = true ∨ existing.status = .pending
      · rw [if_pos hremove]
        exact removal_owned h ticket true rfl rfl (h.delete hrevokes)
      · rw [if_neg hremove] at hcareful ⊢
        rw [not_or, not_not] at hremove
        apply removal_owned h ticket false rfl rfl
        apply h.keep _ hrevokes
        rw [nonce_of_get hget]
        apply hcareful _ hremove.1 existing rfl hremove.2
        exact fun outcome heq => by cases heq

theorem removeAccountForProvider_owned (providerId : Text) :
    VerdictOwned log records ticket
      (removeAccountForProvider callbacks records ticket providerId) := by
  unfold removeAccountForProvider
  generalize resolveMcpAccountLogoutTarget providerId records.values = target
  dsimp only
  have hrevokes : ∀ id' attemptId,
      World.Revokes id' attemptId (.removal target.connectionId) →
      target.connectionId = id' := fun id' attemptId hrevokes => hrevokes
  -- without the attempt that is active
  have hwithout : OwnedRecords (log ++ [.removal target.connectionId])
      (withoutActive records target.connectionId) := by
    rw [withoutActive]
    cases hget : records.get target.connectionId with
    | none =>
      apply h.keep _ hrevokes
      rw [nonce, hget]
      rfl
    | some existing =>
      dsimp only
      by_cases hattempt : existing.attemptId ≠ none
      · rw [if_pos hattempt]
        exact h.set_none rfl hrevokes
      · rw [if_neg hattempt]
        apply h.keep _ hrevokes
        rw [nonce_of_get hget]
        exact not_not.1 hattempt
  split
  · exact .settles h _
  · split
    · exact removal_owned h ticket _ rfl rfl hwithout
    · split
      · next hget =>
          rw [withoutActive, hget] at hwithout
          exact removal_owned h ticket false rfl rfl hwithout
      · next existing hget =>
          split
          · exact removal_owned h ticket true rfl rfl (h.delete hrevokes)
          · exact removal_owned h ticket _ rfl rfl hwithout

theorem finalize_owned (id attemptId : Text) (compensated : Bool)
    (hcareful : ∀ existing committedRecord, records.get id = some existing →
      existing.attemptId = some attemptId →
      callbacks.commit ticket existing = some committedRecord →
        committedRecord.connectionId = id) :
    VerdictOwned log records ticket
      (finalizeAttempt callbacks records ticket id attemptId compensated) := by
  unfold finalizeAttempt
  split
  · exact .settles h _
  · next existing hget =>
      split
      · exact .settles h _
      · next hattempt =>
          have hattempt := not_not.1 hattempt
          split
          · exact .settles h _
          · next committedRecord hcommit =>
              have hid := hcareful existing committedRecord hget hattempt
                hcommit
              have hafter : OwnedRecords (log ++ [.finalize id attemptId])
                  (applyUpsert records committedRecord.withoutAttempt
                    (callbacks.now ticket)) := by
                refine h.revoke (JsMap.nodup_keys_set h.nodup _ _) ?_ ?_
                  fun id' attemptId hrevokes => hrevokes.1
                · rw [nonce_applyUpsert]
                  exact if_pos hid
                · intro id' hne
                  rw [nonce_applyUpsert]
                  exact if_neg fun heq => hne (hid.symm.trans heq)
              apply VerdictOwned.of_commit true rfl rfl hafter
              · intro id' attemptId' heq
                obtain ⟨rfl, rfl⟩ := Commit.finalize.inj heq
                exact h.owned id attemptId
                  ((nonce_of_get hget).trans hattempt)
              · intro current expected heq
                cases heq

theorem verify_owned (record : McpConnectionRecord)
    (expected : Option McpConnectionRecord)
    (hcareful : (∀ outcome, verify callbacks records ticket record expected
        ≠ .settles outcome) → record.attemptId = none)
    (hthrows : verify callbacks records ticket record expected ≠ .throws) :
    VerdictOwned log records ticket
      (verify callbacks records ticket record expected) := by
  unfold verify at hcareful hthrows ⊢
  dsimp only at hcareful hthrows ⊢
  by_cases hcurrent : (records.get record.connectionId).bind (·.attemptId)
      = none ∧ records.get record.connectionId = expected
  · rw [if_pos hcurrent] at hcareful hthrows ⊢
    cases hverified : callbacks.verified ticket with
    | none =>
      rw [hverified] at hthrows
      exact absurd rfl hthrows
    | some verified =>
      cases verified with
      | false => exact .settles h _
      | true =>
        rw [hverified] at hcareful
        have hnone := hcareful fun outcome heq => by cases heq
        apply VerdictOwned.of_commit true rfl rfl
        · apply h.set
          · intro attemptId hattempt
            rw [show record.attemptId = some attemptId from hattempt]
              at hnone
            cases hnone
          · exact fun _ _ hrevokes => hrevokes
        · intro id attemptId heq
          cases heq
        · intro current' expected' heq
          obtain ⟨rfl, rfl⟩ := Commit.verify.inj heq
          exact hcurrent.2
  · rw [if_neg hcurrent]
    exact .settles h _

end

/-- An operation that is careful, where it is applied, keeps the nonces
owned. -/
theorem verdict_owned {callbacks : Callbacks} {log : List Commit}
    {records : Records} (h : OwnedRecords log records) (op : Operation)
    (hcareful : (∀ outcome, verdict callbacks records op ≠ .settles outcome) →
      World.Careful callbacks records op)
    (hthrows : verdict callbacks records op ≠ .throws) :
    VerdictOwned log records op.ticket (verdict callbacks records op) := by
  obtain ⟨ticket, kind, run⟩ := op
  cases kind with
  | upsert record =>
    exact upsert_owned h ticket (hcareful fun outcome heq => by cases heq)
  | remove connectionId => exact remove_owned h ticket connectionId
  | verify record expectedRecord =>
    exact verify_owned h ticket record expectedRecord hcareful hthrows
  | claimConnectionId connectionId attemptId guarded =>
    exact claim_owned h ticket connectionId attemptId guarded hcareful
  | releaseClaim connectionId attemptId =>
    exact release_owned h ticket connectionId attemptId
  | reserve record => exact reserve_owned h ticket record hcareful
  | removeReservation connectionId attemptId =>
    exact removeReservation_owned h ticket connectionId attemptId
  | finalizeAttempt connectionId attemptId compensated =>
    apply finalize_owned h ticket connectionId attemptId compensated
    intro existing committedRecord hget hattempt hcommit
    refine hcareful ?_ existing committedRecord hget hattempt hcommit
    intro outcome heq
    simp only [verdict, finalizeAttempt, hget, hattempt, hcommit, ne_eq,
      not_true, if_false] at heq
    cases heq
  | removeAccountForProvider providerId =>
    exact removeAccountForProvider_owned h ticket providerId
  | removeAccount connectionId preserveCompletedRecord =>
    exact removeAccount_owned h ticket connectionId preserveCompletedRecord
      hcareful

-- ======== the batch

/-- What is committed in turn is sound: each finalize is by the owner, each
verification of the record that it was computed for. -/
structure SoundLog (log : List Commit) : Prop where
  finalize : ∀ before id attemptId after,
    log = before ++ .finalize id attemptId :: after →
      World.Owned before id attemptId
  verify : ∀ current expected, .verify current expected ∈ log →
    current = expected

theorem SoundLog.concat {log : List Commit} (h : SoundLog log)
    {commit : Commit}
    (hfinalize : ∀ id attemptId, commit = .finalize id attemptId →
      World.Owned log id attemptId)
    (hverify : ∀ current expected, commit = .verify current expected →
      current = expected) : SoundLog (log ++ [commit]) := by
  constructor
  · intro before id attemptId after heq
    rcases List.eq_nil_or_concat after with rfl | ⟨after', last, rfl⟩
    · obtain ⟨rfl, hlast⟩ := List.append_inj' heq rfl
      exact hfinalize id attemptId (List.cons.inj hlast).1
    · have heq' : log ++ [commit]
          = (before ++ .finalize id attemptId :: after') ++ [last] := by
        rw [heq, List.concat_eq_append, List.append_assoc]
        rfl
      exact h.finalize before id attemptId after' (List.append_inj' heq' rfl).1
  · intro current expected hmem
    rcases List.mem_append.1 hmem with hmem | hmem
    · exact h.verify current expected hmem
    · exact hverify current expected (List.mem_singleton.1 hmem).symm

theorem entries_cons (p : Processed) (op : Operation) (v : Verdict) :
    Processed.entries { p with done := (op, v) :: p.done }
      = (v.entry op.ticket).toList ++ p.entries := by
  simp only [Processed.entries, List.filterMap_cons]
  cases v.entry op.ticket with
  | none => rfl
  | some e => rfl

/-- A careful batch keeps the nonces owned. -/
theorem process_owned {callbacks : Callbacks} (ops : List Operation)
    {log : List Commit} {records : Records} (h : OwnedRecords log records)
    (hlog : SoundLog log)
    (hcareful : World.CarefulBatch callbacks records ops) :
    OwnedRecords
        (log ++ (process callbacks records ops).entries.map (·.commit))
        (process callbacks records ops).records
      ∧ SoundLog
        (log ++ (process callbacks records ops).entries.map (·.commit)) := by
  induction ops generalizing log records with
  | nil =>
    have hnil : log ++ (process callbacks records []).entries.map (·.commit)
        = log := List.append_nil log
    rw [hnil]
    exact ⟨h, hlog⟩
  | cons op ops ih =>
    obtain ⟨hop, hops⟩ := hcareful
    by_cases hthrows : verdict callbacks records op = .throws
    · rw [process_throws callbacks records op ops hthrows]
      have hnil : log ++ (Processed.entries ⟨[], records, op :: ops⟩).map
          (·.commit) = log := List.append_nil log
      rw [hnil]
      exact ⟨h, hlog⟩
    · have howned := verdict_owned h op hop hthrows
      generalize hv : verdict callbacks records op = v at *
      rw [process_cons callbacks records op ops hv hthrows]
      have hnext : SoundLog
          (log ++ ((v.entry op.ticket).map (·.commit)).toList) := by
        cases hentry : (v.entry op.ticket).map (·.commit) with
        | none =>
          rw [Option.toList_none, List.append_nil]
          exact hlog
        | some commit =>
          apply hlog.concat
          · intro id attemptId heq
            exact howned.finalize id attemptId (hentry.trans (heq ▸ rfl))
          · intro current expected heq
            exact howned.verify current expected
              (hentry.trans (heq ▸ rfl))
      obtain ⟨hrecords, hlog'⟩ := ih howned.records hnext hops
      generalize process callbacks (v.records records) ops = rest at *
      have hentries : log ++ (Processed.entries
            { rest with done := (op, v) :: rest.done }).map (·.commit)
          = log ++ ((v.entry op.ticket).map (·.commit)).toList
            ++ rest.entries.map (·.commit) := by
        rw [entries_cons, List.map_append, List.append_assoc]
        cases v.entry op.ticket with
        | none => rfl
        | some e => rfl
      rw [hentries]
      exact ⟨hrecords, hlog'⟩

-- ======== the world

theorem nonce_eq_some {records : Records}
    (h : nonce records id = some attemptId) :
    ∃ record, records.get id = some record
      ∧ record.attemptId = some attemptId := Option.bind_eq_some_iff.1 h

/-- The records that are read back are owned by those who own the written
ones. -/
theorem OwnedRecords.read {log : List Commit} {records : Records}
    (h : OwnedRecords log records) (arrange : Arrangement) (now : ℚ) :
    OwnedRecords log (parseRecords (serializeRecords arrange records) now) := by
  have hsame : ∀ id attemptId,
      nonce (parseRecords (serializeRecords arrange records) now) id
        = some attemptId → nonce records id = some attemptId := by
    intro id attemptId hid
    obtain ⟨record, hget, hattempt⟩ := nonce_eq_some hid
    obtain ⟨saved, written, hsaved, hwritten, htake⟩ :=
      get_parse_serialize arrange h.nodup hget hattempt
    have hnonce := (nonce_of_get hsaved).trans hwritten
    rw [htake, List.take_of_length_le (h.short id written hnonce)]
    exact hnonce
  exact ⟨nodup_parseRecords _ now,
    fun id attemptId hid => h.owned id attemptId (hsame id attemptId hid),
    fun id attemptId hid => h.short id attemptId (hsame id attemptId hid)⟩

variable {w : World}

namespace World

variable (arrange : Arrangement)

structure Inv (w : World) : Prop where
  records : ∀ now, OwnedRecords w.log (parseRecords w.file now)
  log : SoundLog w.log

theorem inv_opened (file : ConnectionsFile) (records : Nat → Records) :
    Inv (opened file records) := by
  have hclaims : ∀ commit ∈ claimedIn file, ∃ id attemptId,
      commit = .claim id attemptId := by
    intro commit hmem
    cases file with
    | unusable => cases hmem
    | connections entries =>
      obtain ⟨⟨id, raw⟩, -, heq⟩ := List.mem_filterMap.1 hmem
      obtain ⟨attemptId, -, rfl⟩ := Option.map_eq_some_iff.1 heq
      exact ⟨id, attemptId, rfl⟩
  constructor
  · intro now
    refine ⟨nodup_parseRecords file now, ?_, ?_⟩
    · intro id attemptId hid
      obtain ⟨record, hget, hattempt⟩ := nonce_eq_some hid
      cases file with
      | unusable => cases hget
      | connections entries =>
        obtain ⟨raw, hmem, hraw⟩ := get_parseRecords hget
        obtain ⟨value, -, -, hany⟩ := sanitizeRecord_attemptId hraw
        have hclaim : Commit.claim id attemptId
            ∈ claimedIn (.connections entries) := by
          apply List.mem_filterMap.2 ⟨(id, raw), hmem, _⟩
          dsimp only
          rw [hany 0, hattempt]
          rfl
        apply Grant.Held.of_mem hclaim ⟨rfl, rfl⟩
        intro d hd
        obtain ⟨id', attemptId', rfl⟩ := hclaims d hd
        exact fun hrevokes => hrevokes
    · intro id attemptId hid
      obtain ⟨record, hget, hattempt⟩ := nonce_eq_some hid
      cases file with
      | unusable => cases hget
      | connections entries =>
        obtain ⟨raw, -, hraw⟩ := get_parseRecords hget
        obtain ⟨value, -, htaken, -⟩ := sanitizeRecord_attemptId hraw
        rw [hattempt] at htaken
        obtain ⟨written, -, htake⟩ := Option.map_eq_some_iff.1 htaken.symm
        rw [← htake, List.length_take]
        omega
  · constructor
    · intro before id attemptId after heq
      have hmem : Commit.finalize id attemptId ∈ claimedIn file := by
        rw [show claimedIn file = _ from heq]
        exact List.mem_append_right _ List.mem_cons_self
      obtain ⟨id', attemptId', h⟩ := hclaims _ hmem
      cases h
    · intro current expected hmem
      obtain ⟨id', attemptId', h⟩ := hclaims _ hmem
      cases h

/-- A flush commits all of its batch or nothing, unless its lock is
compromised after the write. -/
theorem flush_cases (callbacks : Callbacks) (readAt : ℚ)
    {fault : Option Fault} (hfault : fault ≠ some .compromisedAfter)
    (run : Nat) (file : ConnectionsFile) (recordsById : Records)
    (batch pendingOps : List Operation) :
    let r := Mcp.flush arrange callbacks readAt fault run file recordsById
      batch pendingOps
    let p := process callbacks (parseRecords file readAt) batch
    r.file = file ∧ r.committed = []
      ∨ fault = none ∧ p.left = [] ∧ r.file = serializeRecords arrange p.records
        ∧ r.committed = p.entries := by
  dsimp only
  generalize hp : process callbacks (parseRecords file readAt) batch = p
  cases fault with
  | none =>
    cases hleft : p.left with
    | nil => simp [Mcp.flush, hp, hleft]
    | cons first others => simp [Mcp.flush, hp, hleft]
  | some fault =>
    cases fault with
    | lockFails => exact .inl ⟨rfl, rfl⟩
    | stopsBefore => exact .inl ⟨rfl, rfl⟩
    | writeFails =>
      cases hleft : p.left with
      | nil => simp [Mcp.flush, hp, hleft]
      | cons first others => simp [Mcp.flush, hp, hleft]
    | compromisedAfter => exact absurd rfl hfault

theorem Inv.step (h : Inv w) (event : Event)
    (hguard : w.Guard event) : Inv (step arrange w event) := by
  cases event with
  | call store kind now => exact ⟨h.records, h.log⟩
  | queueVerifyResult store record now => exact ⟨h.records, h.log⟩
  | flush store => exact ⟨h.records, h.log⟩
  | load store readAt => exact ⟨h.records, h.log⟩
  | run store =>
    simp only [World.step]
    split
    · exact h
    · exact ⟨h.records, h.log⟩
  | lockedSection store callbacks readAt fault =>
    obtain ⟨hfault, hcareful⟩ := hguard
    simp only [World.step]
    cases hrunning : (w.stores store).running with
    | none => exact h
    | some batch =>
      dsimp only
      rcases flush_cases arrange callbacks readAt hfault
          ((w.stores store).begun - 1) w.file (w.stores store).recordsById
          batch (w.stores store).pendingOps with
        ⟨hfile, hcommitted⟩ | ⟨rfl, hleft, hfile, hcommitted⟩
      · rw [hfile, hcommitted, List.map_nil, List.append_nil]
        exact ⟨h.records, h.log⟩
      · rw [hfile, hcommitted]
        obtain ⟨hrecords, hlog⟩ := process_owned batch (h.records readAt)
          h.log (hcareful batch hrunning rfl hleft)
        exact ⟨fun now => hrecords.read arrange now, hlog⟩

/-- Who can finalize an account has its nonce. -/
theorem nonce_of_canFinalize (h : w.CanFinalize id attemptId now) :
    nonce (parseRecords w.file now) id = some attemptId := by
  obtain ⟨callbacks, ticket, compensated, hnot⟩ := h
  unfold finalizeAttempt at hnot
  cases hget : (parseRecords w.file now).get id with
  | none =>
    rw [hget] at hnot
    exact absurd rfl hnot
  | some existing =>
    rw [hget] at hnot
    dsimp only at hnot
    rw [nonce_of_get hget]
    by_contra hne
    rw [if_pos hne] at hnot
    exact hnot rfl

theorem Inv.exclusive (h : Inv w) : w.Exclusive where
  finalize := h.log.finalize
  unique := fun _ _ _ _ hcan hcan' => Option.some.inj
    ((nonce_of_canFinalize hcan).symm.trans (nonce_of_canFinalize hcan'))
  verify := h.log.verify

/-- Only the current attempt finalizes an account, for any number of stores
over one file and in any interleaving of their operations, when each
operation that is applied is careful. -/
theorem only_current_attempt_finalizes (file : ConnectionsFile)
    (records : Nat → Records) (events : List Event)
    (h : Run.Guarded (step arrange) Guard (opened file records) events) :
    Run.Along (step arrange) Exclusive (opened file records) events := by
  have hinv : Run.Along (step arrange) Inv (opened file records) events :=
    Run.along_of_kept (fun w event hinv hguard => hinv.step arrange event hguard)
      (inv_opened file records) h
  exact hinv.mono fun w hinv => hinv.exclusive

-- ======== an account

def notes : Text := units "notes"

def firstLogin : Text := units "n1"

/-- Callbacks that return; the commit leaves a connected record. -/
def returning : Callbacks where
  isStillCurrent := fun _ _ => some true
  verified := fun _ => some true
  removal := fun _ => some true
  commit := fun _ _ => some unverified
  compensates := fun _ => true
  now := fun _ => 0

/-- A call and the flush that carries it out. -/
def carriedOut (kind : OperationKind) : List Event :=
  [.call 0 kind 0, .run 0, .lockedSection 0 returning 0 none]

/-- One store over a file with a connected account. -/
def connected : World :=
  opened (serializeRecords asTheyCome [(notes, unverified)]) fun _ => []

def loginRun : List Event :=
  carriedOut (.claimConnectionId notes firstLogin false)
    ++ carriedOut (.finalizeAttempt notes firstLogin false)

theorem loginRun_log :
    (loginRun.foldl (step asTheyCome) connected).log
      = [.claim notes firstLogin, .finalize notes firstLogin] := by
  decide +kernel

theorem only_current_attempt_finalizes_login :
    (loginRun.foldl (step asTheyCome) connected).log
        = [.claim notes firstLogin, .finalize notes firstLogin]
      ∧ Run.Along (step asTheyCome) Exclusive connected loginRun := by
  refine ⟨loginRun_log, ?_⟩
  apply only_current_attempt_finalizes
  refine ⟨trivial, trivial, ⟨nofun, ?_⟩, trivial, trivial, ⟨nofun, ?_⟩,
    trivial⟩
  · intro batch hbatch _ _
    have heq : [⟨0, .claimConnectionId notes firstLogin false, some 0⟩]
      = batch := Option.some.inj hbatch
    subst heq
    have hshort : firstLogin.length ≤ 100 := by decide
    exact ⟨fun _ => hshort, trivial⟩
  · intro batch hbatch _ _
    have heq : [⟨1, .finalizeAttempt notes firstLogin false, some 1⟩]
      = batch := Option.some.inj hbatch
    subst heq
    refine ⟨fun _ existing committedRecord _ _ hcommit => ?_, trivial⟩
    rw [← Option.some.inj hcommit]
    rfl

/-- A logout that preserves the completed record, while a login is under
way. -/
def logoutRun : List Event :=
  carriedOut (.claimConnectionId notes firstLogin false)
    ++ carriedOut (.removeAccount notes true)
    ++ carriedOut (.finalizeAttempt notes firstLogin false)

theorem logoutRun_log :
    (logoutRun.foldl (step asTheyCome) connected).log
      = [.claim notes firstLogin] ++ [.removal notes]
        ++ [.finalize notes firstLogin] := by
  decide +kernel

theorem finalize_after_logout :
    ¬ Exclusive (logoutRun.foldl (step asTheyCome) connected) := by
  intro h
  have howned : Owned ([.claim notes firstLogin] ++ [.removal notes]) notes
      firstLogin := h.finalize _ notes firstLogin [] logoutRun_log
  have hrevokes : Revokes notes firstLogin (.removal notes) := rfl
  have hgrants : ¬ Grants notes firstLogin (.removal notes) := id
  exact Grant.not_held_concat hrevokes hgrants howned

end World

end OneHarness.Mcp
