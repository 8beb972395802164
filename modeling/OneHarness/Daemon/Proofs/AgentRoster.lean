/-
The indexes of the roster stay exact all along a run exactly if no step takes
the entry that the index names for an active session away from another entry
of the session (`roster_exact_iff`).

The index by file is unique, and that by active session sound, after every
run (`Inv`). A deletion removes one entry from the map and from both indexes
(`Left`); a write removes its own entry and the one that has its file, and
puts the new one (`write_left`).
-/
import OneHarness.Daemon.AgentRoster

namespace OneHarness.Daemon.AgentRoster

open Lib

variable {canonicalPath : String → String}

-- ======== the invariant

structure Inv (canonicalPath : String → String) (r : AgentRoster) : Prop where
  keyed : ∀ agentId entry, r.get agentId = some entry → entry.agentId = agentId
  active : SecondaryIndex.Sound activeSessionId r.get r.agentIdByActiveSessionId
  file : SecondaryIndex.Unique (sessionFile canonicalPath) r.get
    r.agentIdBySessionFile
  replayed : ∀ agentId, agentId ∈ r.mutations.foldl replay [] ↔
    ∃ entry, r.get agentId = some entry

/-- The index by active session names an entry wherever one has it. -/
def Complete (r : AgentRoster) : Prop :=
  SecondaryIndex.Complete activeSessionId r.get r.agentIdByActiveSessionId

theorem Inv.empty : Inv canonicalPath empty where
  keyed := fun _ _ heq => by cases heq
  active := fun _ _ heq => by cases heq
  file := by
    intro _ _
    constructor
    · intro heq
      cases heq
    · rintro ⟨_, heq, -⟩
      cases heq
  replayed := by
    intro _
    constructor
    · exact fun h => absurd h List.not_mem_nil
    · rintro ⟨_, heq⟩
      cases heq

theorem Complete.empty : Complete empty := fun _ _ _ heq => by cases heq

/-- The agents of `S` have left the look-up and the indexes. -/
structure Left (S : String → Prop) (get get' : String → Option AgentRosterEntry)
    (r r' : AgentRoster) : Prop where
  active : SecondaryIndex.Removed S get get' r.agentIdByActiveSessionId
    r'.agentIdByActiveSessionId
  file : SecondaryIndex.Removed S get get' r.agentIdBySessionFile
    r'.agentIdBySessionFile

theorem Left.trans {S T : String → Prop}
    {get get' get'' : String → Option AgentRosterEntry}
    {r r' r'' : AgentRoster} (h : Left S get get' r r')
    (h' : Left T get' get'' r' r'') :
    Left (fun agentId => S agentId ∨ T agentId) get get'' r r'' :=
  ⟨h.active.trans h'.active, h.file.trans h'.file⟩

-- ======== the mutations

/-- The mutations tell the ids. -/
def Replayed (r : AgentRoster) : Prop :=
  ∀ agentId, agentId ∈ r.mutations.foldl replay [] ↔
    ∃ entry, r.get agentId = some entry

theorem mem_replay_write {ids : List String} {agentId agentId' : String} :
    agentId' ∈ replay ids (.write agentId)
      ↔ agentId' ∈ ids ∨ agentId' = agentId := by
  simp only [replay]
  by_cases hmem : agentId ∈ ids
  · rw [if_pos hmem]
    refine ⟨.inl, ?_⟩
    rintro (h | rfl)
    · exact h
    · exact hmem
  · rw [if_neg hmem, List.mem_append, List.mem_singleton]

theorem mem_replay_delete {ids : List String} {agentId agentId' : String} :
    agentId' ∈ replay ids (.delete agentId)
      ↔ agentId' ∈ ids ∧ agentId' ≠ agentId := by
  simp only [replay]
  rw [List.mem_filter, decide_eq_true_iff]

theorem Replayed.deleted {r r' : AgentRoster} (h : Replayed r)
    {agentId : String}
    (hmutations : r'.mutations = r.mutations ++ [.delete agentId])
    (hgone : r'.get agentId = none)
    (hkept : ∀ k, k ≠ agentId → r'.get k = r.get k) : Replayed r' := by
  intro k
  rw [hmutations, List.foldl_append, List.foldl_cons, List.foldl_nil,
    mem_replay_delete, h k]
  by_cases hk : k = agentId
  · subst hk
    rw [hgone]
    constructor
    · exact fun hboth => absurd rfl hboth.2
    · rintro ⟨_, heq⟩
      cases heq
  · rw [hkept k hk]
    exact and_iff_left hk

theorem Replayed.written {r r' : AgentRoster} (h : Replayed r)
    {agentId : String} {entry : AgentRosterEntry}
    (hmutations : r'.mutations = r.mutations ++ [.write agentId])
    (hput : r'.get agentId = some entry)
    (hkept : ∀ k, k ≠ agentId → r'.get k = r.get k) : Replayed r' := by
  intro k
  rw [hmutations, List.foldl_append, List.foldl_cons, List.foldl_nil,
    mem_replay_write, h k]
  by_cases hk : k = agentId
  · subst hk
    exact iff_of_true (.inr rfl) ⟨entry, hput⟩
  · rw [hkept k hk]
    exact or_iff_left hk

-- ======== a deletion

theorem delete_get (r : AgentRoster) (agentId k : String) :
    (r.delete canonicalPath agentId).get k
      = if k = agentId then none else r.get k := by
  unfold delete
  cases hget : r.entries.get agentId with
  | none =>
    by_cases hk : k = agentId
    · rw [if_pos hk, hk]
      exact hget
    · rw [if_neg hk]
  | some entry =>
    show (r.entries.delete agentId).get k = _
    rw [JsMap.get_delete]
    by_cases hk : k = agentId
    · rw [if_pos hk.symm, if_pos hk]
    · rw [if_neg fun heq => hk heq.symm, if_neg hk]
      rfl

theorem delete_absent {r : AgentRoster} {agentId : String}
    (h : r.entries.get agentId = none) : r.delete canonicalPath agentId = r := by
  unfold AgentRoster.delete
  rw [h]

theorem Replayed.delete {r : AgentRoster} (h : Replayed r) (agentId : String) :
    Replayed (r.delete canonicalPath agentId) := by
  have hget : ∀ k, (r.delete canonicalPath agentId).get k
      = if k = agentId then none else r.get k := delete_get r agentId
  cases hentry : r.entries.get agentId with
  | none =>
    rw [delete_absent hentry]
    exact h
  | some entry =>
    apply h.deleted
    · show (r.delete canonicalPath agentId).mutations = _
      unfold AgentRoster.delete
      rw [hentry]
      rfl
    · rw [hget, if_pos rfl]
    · intro k hk
      rw [hget, if_neg hk]

/-- An entry that is there leaves the map and the indexes. -/
theorem delete_left {r : AgentRoster} {get get' : String → Option AgentRosterEntry}
    {agentId : String} {entry : AgentRosterEntry}
    (hactive : SecondaryIndex.Sound activeSessionId get
      r.agentIdByActiveSessionId)
    (hfile : SecondaryIndex.Sound (sessionFile canonicalPath) get
      r.agentIdBySessionFile)
    (hentry : r.get agentId = some entry) (hkey : entry.agentId = agentId)
    (hget : get agentId = some entry) (hgone : get' agentId = none)
    (hkept : ∀ k, k ≠ agentId → get' k = get k) :
    Left (· = agentId) get get' r (r.delete canonicalPath agentId) := by
  unfold delete
  rw [show r.entries.get agentId = some entry from hentry]
  constructor
  · have hdrop := SecondaryIndex.Removed.drop hactive hget hgone hkept
    rw [← hkey] at hdrop ⊢
    exact hdrop
  · have hdrop := SecondaryIndex.Removed.drop hfile hget hgone hkept
    rw [← hkey] at hdrop ⊢
    exact hdrop

theorem Inv.delete_left {r : AgentRoster} (h : Inv canonicalPath r)
    (agentId : String) :
    Left (· = agentId) r.get (r.delete canonicalPath agentId).get r
      (r.delete canonicalPath agentId) := by
  have hget : ∀ k, (r.delete canonicalPath agentId).get k
      = if k = agentId then none else r.get k := delete_get r agentId
  cases hentry : r.entries.get agentId with
  | none =>
    rw [delete_absent hentry]
    exact ⟨.absent h.active hentry, .absent (fun a k => (h.file a k).1) hentry⟩
  | some entry =>
    apply AgentRoster.delete_left h.active (fun a k => (h.file a k).1) hentry
      (h.keyed agentId entry hentry) hentry
    · rw [hget, if_pos rfl]
    · intro k hk
      rw [hget, if_neg hk]

theorem Inv.delete {r : AgentRoster} (h : Inv canonicalPath r)
    (agentId : String) : Inv canonicalPath (r.delete canonicalPath agentId) := by
  have hleft := h.delete_left agentId
  constructor
  · intro k entry hget
    rw [delete_get] at hget
    by_cases hk : k = agentId
    · rw [if_pos hk] at hget
      cases hget
    · rw [if_neg hk] at hget
      exact h.keyed k entry hget
  · exact hleft.active.sound h.active
  · exact hleft.file.unique h.file
  · exact Replayed.delete h.replayed agentId

theorem complete_delete_iff {r : AgentRoster} (h : Inv canonicalPath r)
    (hcomplete : Complete r) (agentId : String) :
    Complete (r.delete canonicalPath agentId)
      ↔ KeepsActive canonicalPath r (.delete agentId) := by
  have hiff := (h.delete_left agentId).active.complete_iff hcomplete none
  constructor
  · intro hafter id hindex
    have hbut : SecondaryIndex.CompleteBut activeSessionId none
        (r.delete canonicalPath agentId).get
        (r.delete canonicalPath agentId).agentIdByActiveSessionId :=
      fun k v a hget hkey _ => hafter k v a hget hkey
    exact hiff.1 hbut id agentId hindex rfl (fun heq => by cases heq)
  · intro hkeeps
    have hbut := hiff.2 (by
      rintro id _ hindex rfl -
      exact hkeeps id hindex)
    exact fun k v a hget hkey => hbut k v a hget hkey fun heq => by cases heq

-- ======== a write

section
variable {r : AgentRoster} (h : Inv canonicalPath r) (stored : AgentRosterEntry)

/-- The look-up without the entry of `agentId`. -/
def without (get : String → Option AgentRosterEntry) (agentId : String) :
    String → Option AgentRosterEntry :=
  fun k => if k = agentId then none else get k

/-- The roster without the indexes of the entry that is replaced. -/
def unindexed (canonicalPath : String → String) (r : AgentRoster)
    (agentId : String) : AgentRoster :=
  match r.entries.get agentId with
  | some previous => r.dropIndexes canonicalPath previous
  | none => r

theorem unindexed_get (agentId k : String) :
    (unindexed canonicalPath r agentId).get k = r.get k := by
  unfold unindexed
  cases r.entries.get agentId <;> rfl

theorem unindexed_mutations (agentId : String) :
    (unindexed canonicalPath r agentId).mutations = r.mutations := by
  unfold unindexed
  cases r.entries.get agentId <;> rfl

include h

theorem unindexed_left (agentId : String) :
    Left (· = agentId) r.get (without r.get agentId) r
      (unindexed canonicalPath r agentId) := by
  have hgone : without r.get agentId agentId = none := if_pos rfl
  have hkept : ∀ k, k ≠ agentId → without r.get agentId k = r.get k :=
    fun k hk => if_neg hk
  unfold unindexed
  cases hentry : r.entries.get agentId with
  | none =>
    have hsame : without r.get agentId = r.get := by
      funext k
      by_cases hk : k = agentId
      · rw [hk, hgone]
        exact hentry.symm
      · exact hkept k hk
    rw [hsame]
    exact ⟨.absent h.active hentry, .absent (fun a k => (h.file a k).1) hentry⟩
  | some previous =>
    have hkey : previous.agentId = agentId := h.keyed agentId previous hentry
    constructor
    · have hdrop := SecondaryIndex.Removed.drop h.active hentry hgone hkept
      rw [← hkey] at hdrop ⊢
      exact hdrop
    · have hdrop := SecondaryIndex.Removed.drop (fun a k => (h.file a k).1)
        hentry hgone hkept
      rw [← hkey] at hdrop ⊢
      exact hdrop

/-- What a write leaves of the roster before it puts the new entry. -/
def cleared (canonicalPath : String → String) (r : AgentRoster)
    (stored : AgentRosterEntry) : AgentRoster :=
  match sessionFile canonicalPath stored with
  | none => unindexed canonicalPath r stored.agentId
  | some file =>
    (unindexed canonicalPath r stored.agentId).displace canonicalPath file
      stored.agentId

/-- The agents whose entries a write takes away. -/
def Leaves (canonicalPath : String → String) (r : AgentRoster)
    (stored : AgentRosterEntry) (agentId : String) : Prop :=
  agentId = stored.agentId ∨ Displaced canonicalPath r stored agentId

theorem displaced_iff {file : String}
    (hfile : sessionFile canonicalPath stored = some file) (agentId : String) :
    Displaced canonicalPath r stored agentId ↔
      (unindexed canonicalPath r stored.agentId).agentIdBySessionFile.get file
        = some agentId := by
  rw [(unindexed_left h stored.agentId).file.unique h.file]
  constructor
  · rintro ⟨hne, file', entry, hfile', hget, hentry⟩
    rw [hfile] at hfile'
    cases hfile'
    exact ⟨entry, (if_neg hne).trans hget, hentry⟩
  · rintro ⟨entry, hget, hentry⟩
    by_cases hne : agentId = stored.agentId
    · rw [show without r.get stored.agentId agentId = none from if_pos hne]
        at hget
      cases hget
    · exact ⟨hne, file, entry, hfile, (if_neg hne).symm.trans hget, hentry⟩

theorem cleared_left :
    ∃ get, Left (Leaves canonicalPath r stored) r.get get r
        (cleared canonicalPath r stored)
      ∧ get stored.agentId = none
      ∧ ∀ k, k ≠ stored.agentId →
        (cleared canonicalPath r stored).get k = get k := by
  have hleft := unindexed_left h stored.agentId
  have hnone : without r.get stored.agentId stored.agentId = none := if_pos rfl
  have hsame : ∀ k, k ≠ stored.agentId →
      (unindexed canonicalPath r stored.agentId).get k
        = without r.get stored.agentId k := by
    intro k hk
    rw [unindexed_get]
    exact (if_neg hk).symm
  have hstay : (∀ k, ¬ Displaced canonicalPath r stored k) →
      Left (Leaves canonicalPath r stored) r.get (without r.get stored.agentId) r
        (unindexed canonicalPath r stored.agentId) := by
    intro hnot
    have hS : Leaves canonicalPath r stored = (· = stored.agentId) := by
      funext k
      exact propext (or_iff_left (hnot k))
    rw [hS]
    exact hleft
  unfold cleared
  cases hfile : sessionFile canonicalPath stored with
  | none =>
    refine ⟨_, hstay ?_, hnone, hsame⟩
    rintro k ⟨-, file, _, hfile', -⟩
    rw [hfile] at hfile'
    cases hfile'
  | some file =>
    have hdisplaced := displaced_iff h stored hfile
    dsimp only
    unfold displace
    cases hindex : (unindexed canonicalPath r
        stored.agentId).agentIdBySessionFile.get file with
    | none =>
      refine ⟨_, hstay ?_, hnone, hsame⟩
      intro k hk
      rw [hdisplaced, hindex] at hk
      cases hk
    | some existing =>
      have hex := (hdisplaced existing).2 hindex
      obtain ⟨hne, _, entry, -, hget, -⟩ := id hex
      dsimp only
      rw [if_pos hne]
      have hdelete : Left (· = existing) (without r.get stored.agentId)
          (without (without r.get stored.agentId) existing)
          (unindexed canonicalPath r stored.agentId)
          ((unindexed canonicalPath r stored.agentId).delete canonicalPath
            existing) := by
        apply delete_left (hleft.active.sound h.active)
          (fun a k => (hleft.file.unique h.file a k).1)
        · rw [unindexed_get]
          exact hget
        · exact h.keyed existing entry hget
        · exact (if_neg hne).trans hget
        · exact if_pos rfl
        · exact fun k hk => if_neg hk
      have hS : Leaves canonicalPath r stored
          = fun k => k = stored.agentId ∨ k = existing := by
        funext k
        apply propext
        apply or_congr_right
        rw [hdisplaced, hindex]
        exact ⟨fun heq => (Option.some.inj heq).symm, fun heq => heq ▸ rfl⟩
      refine ⟨without (without r.get stored.agentId) existing, ?_, ?_, ?_⟩
      · rw [hS]
        exact hleft.trans hdelete
      · exact (if_neg hne.symm).trans hnone
      · intro k hk
        rw [delete_get]
        unfold without
        by_cases hke : k = existing
        · rw [if_pos hke, if_pos hke]
        · rw [if_neg hke, if_neg hke, unindexed_get, if_neg hk]

/-- No other entry has the file any more. -/
theorem cleared_free {file : String}
    (hfile : sessionFile canonicalPath stored = some file) :
    (cleared canonicalPath r stored).agentIdBySessionFile.get file = none := by
  obtain ⟨get, hleft, hnone, hkept⟩ := cleared_left h stored
  cases hindex : (cleared canonicalPath r stored).agentIdBySessionFile.get file with
  | none => rfl
  | some k =>
    exfalso
    obtain ⟨hindex', hstays⟩ := (hleft.file.index file k).1 hindex
    obtain ⟨entry, hget, hentry⟩ := (h.file file k).1 hindex'
    apply hstays
    by_cases hk : k = stored.agentId
    · exact .inl hk
    · exact .inr ⟨hk, file, entry, hfile, hget, hentry⟩

omit h in
/-- The new entry is put, and the indexes point at it. -/
def put (canonicalPath : String → String) (r : AgentRoster)
    (stored : AgentRosterEntry) : AgentRoster :=
  { r with
    entries := r.entries.set stored.agentId stored
    agentIdByActiveSessionId :=
      SecondaryIndex.point activeSessionId r.agentIdByActiveSessionId
        stored.agentId stored
    agentIdBySessionFile :=
      SecondaryIndex.point (sessionFile canonicalPath) r.agentIdBySessionFile
        stored.agentId stored
    mutations := r.mutations ++ [.write stored.agentId] }

omit h in
theorem write_eq (entry : WorkerRosterEntry) (carried : Marks)
    (workerId : Option String) (statusLabel : Option StatusLabel) :
    r.write canonicalPath entry carried workerId statusLabel
      = put canonicalPath
        (cleared canonicalPath r
          (AgentRoster.stored entry carried workerId statusLabel))
        (AgentRoster.stored entry carried workerId statusLabel) := by
  unfold write claimFile put cleared unindexed SecondaryIndex.point
  dsimp only
  cases sessionFile canonicalPath
    (AgentRoster.stored entry carried workerId statusLabel) <;> rfl

theorem cleared_replayed : Replayed (cleared canonicalPath r stored) := by
  have hunindexed : Replayed (unindexed canonicalPath r stored.agentId) := by
    intro k
    rw [unindexed_mutations, unindexed_get]
    exact h.replayed k
  unfold cleared
  cases sessionFile canonicalPath stored with
  | none => exact hunindexed
  | some file =>
    dsimp only
    unfold displace
    cases (unindexed canonicalPath r
        stored.agentId).agentIdBySessionFile.get file with
    | none => exact hunindexed
    | some existing =>
      dsimp only
      split
      · exact hunindexed.delete existing
      · exact hunindexed

omit h in
/-- Besides the new entry the map is as it was cleared. -/
theorem put_get {get : String → Option AgentRosterEntry}
    (hkept : ∀ k, k ≠ stored.agentId →
      (cleared canonicalPath r stored).get k = get k) :
    (put canonicalPath (cleared canonicalPath r stored) stored).get
        stored.agentId = some stored
      ∧ ∀ k, k ≠ stored.agentId →
        (put canonicalPath (cleared canonicalPath r stored) stored).get k
          = get k :=
  ⟨JsMap.get_set_self _ _ _, fun k hk =>
    (JsMap.get_set_ne _ _ hk.symm).trans (hkept k hk)⟩

theorem write_inv :
    Inv canonicalPath (put canonicalPath (cleared canonicalPath r stored) stored)
      := by
  obtain ⟨get, hleft, hnone, hkept⟩ := cleared_left h stored
  obtain ⟨hput, hsame⟩ := put_get stored hkept
  constructor
  · intro k entry hget
    by_cases hk : k = stored.agentId
    · rw [hk, hput] at hget
      cases hget
      exact hk.symm
    · rw [hsame k hk] at hget
      by_cases hS : Leaves canonicalPath r stored k
      · rw [hleft.active.gone k hS] at hget
        cases hget
      · rw [hleft.active.kept k hS] at hget
        exact h.keyed k entry hget
  · exact (hleft.active.sound h.active).put hnone hput hsame
  · exact (hleft.file.unique h.file).put hnone
      (fun file hfile => cleared_free h stored hfile) hput hsame
  · apply (cleared_replayed h stored).written rfl hput
    intro k hk
    exact JsMap.get_set_ne _ _ hk.symm

theorem complete_put_iff (hcomplete : Complete r) :
    Complete (put canonicalPath (cleared canonicalPath r stored) stored) ↔
      ∀ id agentId, r.agentIdByActiveSessionId.get id = some agentId →
        Leaves canonicalPath r stored agentId → activeSessionId stored ≠ some id →
        ∀ agentId' entry', r.get agentId' = some entry' →
          activeSessionId entry' = some id →
            Leaves canonicalPath r stored agentId' := by
  obtain ⟨get, hleft, hnone, hkept⟩ := cleared_left h stored
  obtain ⟨hput, hsame⟩ := put_get stored hkept
  rw [← hleft.active.complete_iff hcomplete]
  exact SecondaryIndex.complete_put_iff hnone hput hsame

end

-- ======== the marks

/-- New marks change neither ids nor keys. -/
theorem amend_get {r : AgentRoster} (agentId : String)
    (statusLabel : Option (Option StatusLabel))
    (lastHeardFromAt : Option (Option String)) (k : String) :
    (r.get k = none ∧ (r.amend agentId statusLabel lastHeardFromAt).get k = none)
      ∨ ∃ entry entry', r.get k = some entry
        ∧ (r.amend agentId statusLabel lastHeardFromAt).get k = some entry'
        ∧ entry'.agentId = entry.agentId ∧ entry'.summary = entry.summary := by
  have hself : (r.get k = none ∧ r.get k = none) ∨ ∃ entry entry',
      r.get k = some entry ∧ r.get k = some entry'
        ∧ entry'.agentId = entry.agentId ∧ entry'.summary = entry.summary := by
    cases hget : r.get k with
    | none => exact .inl ⟨rfl, rfl⟩
    | some entry => exact .inr ⟨entry, entry, rfl, rfl, rfl, rfl⟩
  unfold amend
  cases hentry : r.entries.get agentId with
  | none => exact hself
  | some entry =>
    by_cases hk : agentId = k
    · subst hk
      exact .inr ⟨entry, _, hentry, JsMap.get_set_self _ _ _, rfl, rfl⟩
    · have hsame : ∀ entry', (r.entries.set agentId entry').get k = r.get k :=
        fun entry' => JsMap.get_set_ne _ _ hk
      show (r.get k = none ∧ (r.entries.set agentId _).get k = none) ∨ ∃ entry
        entry', r.get k = some entry
          ∧ (r.entries.set agentId _).get k = some entry'
          ∧ entry'.agentId = entry.agentId ∧ entry'.summary = entry.summary
      rw [hsame]
      exact hself

section
variable {r : AgentRoster} (agentId : String)
  (statusLabel : Option (Option StatusLabel))
  (lastHeardFromAt : Option (Option String))

/-- The keys of an entry are in its summary. -/
theorem amend_has {key : AgentRosterEntry → Option String}
    (hkey : ∀ e e' : AgentRosterEntry, e'.summary = e.summary → key e' = key e)
    (k a : String) :
    (∃ e, (r.amend agentId statusLabel lastHeardFromAt).get k = some e
        ∧ key e = some a)
      ↔ ∃ e, r.get k = some e ∧ key e = some a := by
  rcases amend_get (r := r) agentId statusLabel lastHeardFromAt k with
    ⟨hold, hnew⟩ | ⟨entry, entry', hold, hnew, -, hsummary⟩
  · rw [hold, hnew]
  · rw [hold, hnew]
    constructor
    · rintro ⟨_, heq, ha⟩
      cases heq
      exact ⟨entry, rfl, (hkey entry entry' hsummary).symm.trans ha⟩
    · rintro ⟨_, heq, ha⟩
      cases heq
      exact ⟨entry', rfl, (hkey entry entry' hsummary).trans ha⟩

theorem activeSessionId_of_summary (e e' : AgentRosterEntry)
    (h : e'.summary = e.summary) : activeSessionId e' = activeSessionId e := by
  unfold activeSessionId
  rw [h]

theorem sessionFile_of_summary (e e' : AgentRosterEntry)
    (h : e'.summary = e.summary) :
    sessionFile canonicalPath e' = sessionFile canonicalPath e := by
  unfold sessionFile
  rw [h]

theorem amend_indexes :
    (r.amend agentId statusLabel lastHeardFromAt).agentIdByActiveSessionId
        = r.agentIdByActiveSessionId
      ∧ (r.amend agentId statusLabel lastHeardFromAt).agentIdBySessionFile
        = r.agentIdBySessionFile := by
  unfold amend
  cases r.entries.get agentId <;> exact ⟨rfl, rfl⟩

theorem Inv.amend (h : Inv canonicalPath r) :
    Inv canonicalPath (r.amend agentId statusLabel lastHeardFromAt) := by
  obtain ⟨hactive, hfile⟩ := amend_indexes (r := r) agentId statusLabel
    lastHeardFromAt
  constructor
  · intro k entry hget
    rcases amend_get (r := r) agentId statusLabel lastHeardFromAt k with
      ⟨-, hnew⟩ | ⟨entry', _, hold, hnew, hid, -⟩
    · rw [hnew] at hget
      cases hget
    · rw [hnew] at hget
      cases hget
      exact hid.trans (h.keyed k entry' hold)
  · intro a k hindex
    rw [hactive] at hindex
    exact (amend_has _ _ _ activeSessionId_of_summary k a).2 (h.active a k hindex)
  · intro a k
    rw [hfile, h.file]
    exact (amend_has _ _ _ sessionFile_of_summary k a).symm
  · unfold AgentRoster.amend
    cases hentry : r.entries.get agentId with
    | none => exact h.replayed
    | some entry =>
      have hreplayed : Replayed r := h.replayed
      refine Replayed.written hreplayed rfl
        (JsMap.get_set_self r.entries agentId _) ?_
      intro k hk
      exact JsMap.get_set_ne _ _ hk.symm

theorem Complete.amend (h : Complete r) :
    Complete (r.amend agentId statusLabel lastHeardFromAt) := by
  intro k entry a hget hkey
  rw [(amend_indexes agentId statusLabel lastHeardFromAt).1]
  obtain ⟨entry', hget', hkey'⟩ :=
    (amend_has _ _ _ activeSessionId_of_summary k a).1 ⟨entry, hget, hkey⟩
  exact h k entry' a hget' hkey'

end

-- ======== the runs

theorem Inv.step {r : AgentRoster} (h : Inv canonicalPath r) (op : Op) :
    Inv canonicalPath (step canonicalPath r op) := by
  cases op with
  | write entry carried workerId statusLabel =>
    show Inv _ (r.write canonicalPath entry carried workerId statusLabel)
    rw [write_eq]
    exact write_inv h _
  | delete agentId => exact h.delete agentId
  | amend agentId statusLabel lastHeardFromAt =>
    exact h.amend agentId statusLabel lastHeardFromAt

theorem complete_step_iff {r : AgentRoster} (h : Inv canonicalPath r)
    (hcomplete : Complete r) (op : Op) :
    Complete (step canonicalPath r op) ↔ KeepsActive canonicalPath r op := by
  cases op with
  | write entry carried workerId statusLabel =>
    show Complete (r.write canonicalPath entry carried workerId statusLabel) ↔ _
    rw [write_eq]
    exact complete_put_iff h _ hcomplete
  | delete agentId => exact complete_delete_iff h hcomplete agentId
  | amend agentId statusLabel lastHeardFromAt =>
    exact iff_of_true (hcomplete.amend agentId statusLabel lastHeardFromAt)
      trivial

/-- All but one part of what the indexes promise holds always. -/
theorem exact_iff_complete {r : AgentRoster} (h : Inv canonicalPath r) :
    Exact canonicalPath r ↔ Complete r := by
  constructor
  · intro hexact k entry id hget hkey
    obtain ⟨entry', hentry'⟩ := hexact.complete k entry id hget hkey
    unfold byActiveSessionId at hentry'
    obtain ⟨k', hindex, -⟩ := Option.bind_eq_some_iff.1 hentry'
    exact ⟨k', hindex⟩
  · intro hcomplete
    constructor
    · intro k k' entry entry' file hget hget' hfile hfile'
      have hindex := (h.file file k).2 ⟨entry, hget, hfile⟩
      have hindex' := (h.file file k').2 ⟨entry', hget', hfile'⟩
      exact Option.some.inj (hindex.symm.trans hindex')
    · intro file entry
      unfold bySessionFile
      rw [Option.bind_eq_some_iff]
      constructor
      · rintro ⟨k, hindex, hget⟩
        obtain ⟨entry', hget', hfile⟩ := (h.file file k).1 hindex
        rw [hget] at hget'
        cases hget'
        exact ⟨k, hget, hfile⟩
      · rintro ⟨k, hget, hfile⟩
        exact ⟨k, (h.file file k).2 ⟨entry, hget, hfile⟩, hget⟩
    · intro id entry hentry
      obtain ⟨k, hindex, hget⟩ := Option.bind_eq_some_iff.1 hentry
      obtain ⟨entry', hget', hkey⟩ := h.active id k hindex
      rw [hget] at hget'
      cases hget'
      exact ⟨hkey, k, hget⟩
    · intro k entry id hget hkey
      obtain ⟨k', hindex⟩ := hcomplete k entry id hget hkey
      obtain ⟨entry', hget', -⟩ := h.active id k' hindex
      exact ⟨entry', Option.bind_eq_some_iff.2 ⟨k', hindex, hget'⟩⟩
    · intro k
      rw [h.replayed, ← not_iff_not, ← JsMap.get_eq_none_iff]
      unfold get
      cases r.entries.get k <;> simp

/-- The indexes are exact all along a run exactly if no step takes the entry
that is named for an active session away from another one that has it. -/
theorem roster_exact_iff (canonicalPath : String → String) (ops : List Op) :
    Run.Along (step canonicalPath) (Exact canonicalPath) empty ops
      ↔ Run.Guarded (step canonicalPath) (KeepsActive canonicalPath) empty
        ops := by
  have hexact : ∀ r op, Inv canonicalPath r → Exact canonicalPath r →
      (Exact canonicalPath (step canonicalPath r op)
        ↔ KeepsActive canonicalPath r op) := by
    intro r op hinv hexact
    rw [exact_iff_complete (hinv.step op)]
    exact complete_step_iff hinv ((exact_iff_complete hinv).1 hexact) op
  exact Run.along_iff_guarded (fun _ op hinv => hinv.step op) hexact Inv.empty
    ((exact_iff_complete Inv.empty).2 Complete.empty)

def resident (agentId file : String) : WorkerRosterEntry where
  agentId := agentId
  queuedChild := false
  summary := ⟨.idle, false, some "active", some file⟩

/-- The second entry of an active session is deleted, and the first one is not
found any more. -/
theorem active_session_lost :
    ¬ Run.Along (step id) (Exact id) empty
      [.write (resident "a" "/a.jsonl") ⟨none, none, none⟩ none none,
        .write (resident "b" "/b.jsonl") ⟨none, none, none⟩ none none,
        .delete "b"] := by
  intro halong
  obtain ⟨entry, hentry⟩ := halong.last.complete "a" _ "active" rfl rfl
  have hnone : byActiveSessionId (List.foldl (step id) empty
      [.write (resident "a" "/a.jsonl") ⟨none, none, none⟩ none none,
        .write (resident "b" "/b.jsonl") ⟨none, none, none⟩ none none,
        .delete "b"]) "active" = none := rfl
  rw [hnone] at hentry
  cases hentry

end OneHarness.Daemon.AgentRoster
