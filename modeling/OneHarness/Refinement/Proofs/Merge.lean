/-
Merging a global and a local state keeps every entry of both exactly when no
entry that is moved out of the way lands on another one (`keeps_iff`).

A local entry whose id is taken is written under `scope:id`, and nothing
asks whether that key is taken too. The merged records grow by one with each
entry unless its key is there already, so the entries are all kept exactly
when every key is fresh. What the keys are is said without the merged
records: a key with a scope in front is one that an entry brought along
itself (`mem_keys_moved`), and an id is taken by a global entry, by a name
every object has, or by an earlier local entry that was moved there
(`finds_iff`).
-/
import OneHarness.Refinement.Harness
import Mathlib.Data.List.Perm.Basic

namespace OneHarness.Refinement

open Lib

-- ======== statement vocabulary

/-- The keys of a record are distinct. -/
def DistinctIds (state : HarnessState) : Prop :=
  ∀ kind, (state.entries kind).keys.Nodup

/-- Every entry of both states is there once, with a scope. -/
def KeepsEvery (globalState : HarnessState)
    (localState : Option HarnessState) : Prop :=
  ∀ kind, ((mergeHarnessStates globalState localState).entries kind).values.Perm
    ((globalState.entries kind).values.map (·.scopedTo .globalScope)
      ++ (localEntries localState kind).values.map (·.scopedTo .localScope))

/-- The key a local entry is moved to. -/
def namespaced (p : String × HarnessEntry) : String :=
  movedId (p.2.scopedTo .localScope) p.1

/-- An id is taken when a local entry comes to it: by a global entry, by a
name every object has, or by an earlier local entry (the latest first) that
was moved there because its own id was taken. -/
def Taken (globals : JsMap String HarnessEntry) :
    List (String × HarnessEntry) → String → Prop
  | [], id => id ∈ globals.keys ∨ id ∈ objectNames
  | p :: earlier, id =>
    Taken globals earlier id
      ∨ (namespaced p = id ∧ Taken globals earlier p.1)

/-- Whatever is moved finds its place empty, and no global entry is called
`__proto__`. -/
structure Clear (globals locals : JsMap String HarnessEntry) : Prop where
  proto : "__proto__" ∉ globals.keys
  moved : ∀ before p after, locals = before ++ p :: after →
    Taken globals before.reverse p.1 →
    namespaced p ∉ globals.keys ∧ namespaced p ∉ JsMap.keys before

-- ======== namespaced keys

section
variable (p : String × HarnessEntry)

theorem colon_mem_namespaced : ':' ∈ (namespaced p).toList := by
  rw [namespaced, movedId, String.toList_append, String.toList_append]
  exact List.mem_append_left _ (List.mem_append_right _ (by decide))

/-- No name every object has carries a scope. -/
theorem namespaced_not_mem_objectNames : namespaced p ∉ objectNames := by
  have hnames : ∀ name ∈ objectNames, ':' ∉ name.toList := by decide
  exact fun hmem => hnames _ hmem (colon_mem_namespaced p)

theorem namespaced_ne_proto : namespaced p ≠ "__proto__" := fun heq =>
  namespaced_not_mem_objectNames p (heq ▸ by decide)

end

variable {id : String}

theorem scopeName_inj {scope scope' : HarnessScope} {id' : String}
    (h : scope.name ++ ":" ++ id = scope'.name ++ ":" ++ id') : id = id' := by
  have hlist := congrArg String.toList h
  simp only [String.toList_append] at hlist
  apply String.toList_inj.1
  cases scope with
  | localScope =>
    cases scope' with
    | localScope => exact List.append_cancel_left hlist
    | globalScope => exact absurd (List.cons.inj hlist).1 (by decide)
  | globalScope =>
    cases scope' with
    | localScope => exact absurd (List.cons.inj hlist).1 (by decide)
    | globalScope => exact List.append_cancel_left hlist

variable {p : String × HarnessEntry}

/-- A key with a scope in front is of one id. -/
theorem namespaced_inj {q : String × HarnessEntry}
    (h : namespaced p = namespaced q) : p.1 = q.1 := scopeName_inj h

-- ======== one assignment

variable (records : MergedRecords)

namespace MergedRecords

theorem length_assign_le (id : String) (entry : HarnessEntry) :
    (records.assign id entry).own.length ≤ records.own.length + 1 := by
  rw [assign]
  by_cases hproto : id = "__proto__"
  · rw [if_pos hproto]
    exact Nat.le_succ _
  · rw [if_neg hproto]
    have hkeys := congrArg List.length (JsMap.keys_set records.own id entry)
    rw [JsMap.keys, List.length_map] at hkeys
    change (records.own.set id entry).length ≤ _
    rw [hkeys]
    by_cases hmem : id ∈ records.own.keys
    · rw [if_pos hmem, JsMap.keys, List.length_map]
      exact Nat.le_succ _
    · rw [if_neg hmem, List.length_append, JsMap.keys, List.length_map]
      exact Nat.le_refl _

/-- An assignment that makes the record longer has a fresh key. -/
theorem fresh_of_length {records : MergedRecords}
    (entry : HarnessEntry)
    (h : records.own.length < (records.assign id entry).own.length) :
    id ∉ records.own.keys := by
  intro hmem
  rw [assign] at h
  by_cases hproto : id = "__proto__"
  · rw [if_pos hproto] at h
    exact Nat.lt_irrefl _ h
  · rw [if_neg hproto] at h
    have hkeys := congrArg List.length (JsMap.keys_set records.own id entry)
    rw [if_pos hmem, JsMap.keys, JsMap.keys, List.length_map,
      List.length_map] at hkeys
    change _ < (records.own.set id entry).length at h
    omega

end MergedRecords

/-- The key a local entry is written under. -/
def mergedId (records : MergedRecords) (p : String × HarnessEntry) : String :=
  if records.finds p.1 then namespaced p else p.1

theorem mergeLocal_eq (p : String × HarnessEntry) :
    mergeLocal records p
      = records.assign (mergedId records p) (p.2.scopedTo .localScope) := rfl

theorem length_mergeGlobal_le (globals : JsMap String HarnessEntry)
    (records : MergedRecords) :
    (globals.foldl mergeGlobal records).own.length
      ≤ records.own.length + globals.length := by
  induction globals generalizing records with
  | nil => exact Nat.le_refl _
  | cons p globals ih =>
    have hstep : (mergeGlobal records p).own.length ≤ _ :=
      records.length_assign_le p.1 (p.2.scopedTo .globalScope)
    have hrest := ih (mergeGlobal records p)
    rw [List.foldl_cons, List.length_cons]
    omega

theorem length_mergeLocal_le (locals : JsMap String HarnessEntry)
    (records : MergedRecords) :
    (locals.foldl mergeLocal records).own.length
      ≤ records.own.length + locals.length := by
  induction locals generalizing records with
  | nil => exact Nat.le_refl _
  | cons p locals ih =>
    have hstep : (mergeLocal records p).own.length ≤ _ :=
      records.length_assign_le (mergedId records p) _
    have hrest := ih (mergeLocal records p)
    rw [List.foldl_cons, List.length_cons]
    omega

-- ======== the globals

/-- The global entries as they are filed. -/
def filedGlobals (globals : JsMap String HarnessEntry) :
    JsMap String HarnessEntry :=
  globals.map fun p => (p.1, p.2.scopedTo .globalScope)

theorem keys_filedGlobals (globals : JsMap String HarnessEntry) :
    (filedGlobals globals).keys = globals.keys := by
  rw [filedGlobals, JsMap.keys, List.map_map]
  rfl

/-- Global entries are filed as they are. -/
theorem mergeGlobal_all {globals : JsMap String HarnessEntry}
    (hnd : globals.keys.Nodup) (hproto : "__proto__" ∉ globals.keys) :
    globals.foldl mergeGlobal ⟨[], none⟩ = ⟨filedGlobals globals, none⟩ := by
  -- induction from the left: what was filed has other keys
  have hfold : ∀ (rest done : JsMap String HarnessEntry),
      JsMap.keys (done ++ rest) = globals.keys →
      rest.foldl mergeGlobal ⟨filedGlobals done, none⟩
        = ⟨filedGlobals (done ++ rest), none⟩ := by
    intro rest
    induction rest with
    | nil =>
      intro done _
      rw [List.append_nil]
      rfl
    | cons p rest ih =>
      intro done hkeys
      have hsplit : done ++ p :: rest = (done ++ [p]) ++ rest := by
        rw [List.append_assoc, List.singleton_append]
      have hmem : p.1 ∈ globals.keys := by
        rw [← hkeys, JsMap.keys, List.map_append]
        exact List.mem_append_right _ List.mem_cons_self
      have hfresh : p.1 ∉ (filedGlobals done).keys := by
        rw [keys_filedGlobals]
        rw [← hkeys, JsMap.keys, List.map_append] at hnd
        exact fun hdone => (List.nodup_append.1 hnd).2.2 _ hdone _
          List.mem_cons_self rfl
      have hne : p.1 ≠ "__proto__" := fun heq => hproto (heq ▸ hmem)
      have hstep : mergeGlobal ⟨filedGlobals done, none⟩ p
          = ⟨filedGlobals (done ++ [p]), none⟩ := by
        rw [mergeGlobal, MergedRecords.assign, if_neg hne,
          JsMap.set_of_not_mem _ hfresh, filedGlobals, filedGlobals,
          List.map_append]
        rfl
      rw [List.foldl_cons, hstep, hsplit]
      exact ih _ (hsplit ▸ hkeys)
  exact hfold globals [] rfl

/-- A global `__proto__` is not filed. -/
theorem length_mergeGlobal_lt {globals : JsMap String HarnessEntry}
    (hproto : "__proto__" ∈ globals.keys) :
    (globals.foldl mergeGlobal ⟨[], none⟩).own.length < globals.length := by
  obtain ⟨p, hmem, hkey⟩ := List.mem_map.1 hproto
  obtain ⟨done, rest, rfl⟩ := List.append_of_mem hmem
  rw [List.foldl_append, List.foldl_cons]
  have hdone := length_mergeGlobal_le done ⟨[], none⟩
  generalize done.foldl mergeGlobal ⟨[], none⟩ = records at hdone ⊢
  have hstep : (mergeGlobal records p).own = records.own := by
    rw [mergeGlobal, MergedRecords.assign, if_pos hkey]
  have hrest := length_mergeGlobal_le rest (mergeGlobal records p)
  rw [hstep] at hrest
  rw [List.length_append, List.length_cons]
  change _ ≤ 0 + _ at hdone
  omega

-- ======== the locals

variable {before : JsMap String HarnessEntry}

section
variable {globals : JsMap String HarnessEntry}

theorem keys_concat (before : JsMap String HarnessEntry)
    (p : String × HarnessEntry) :
    JsMap.keys (before ++ [p]) = JsMap.keys before ++ [p.1] := List.map_append

/-- The records when the first local entries are merged. -/
def mergedWith (globals before : JsMap String HarnessEntry) : MergedRecords :=
  before.foldl mergeLocal ⟨filedGlobals globals, none⟩

theorem mergedWith_concat (globals before : JsMap String HarnessEntry)
    (p : String × HarnessEntry) :
    mergedWith globals (before ++ [p])
      = mergeLocal (mergedWith globals before) p := List.foldl_concat ..

theorem mergedId_ne_proto
    (p : String × HarnessEntry) : mergedId records p ≠ "__proto__" := by
  rw [mergedId]
  by_cases hfinds : records.finds p.1 = true
  · rw [if_pos hfinds]
    exact namespaced_ne_proto p
  · rw [if_neg hfinds]
    rintro heq
    apply hfinds
    rw [heq, MergedRecords.finds]
    have hname : objectNames.contains "__proto__" = true := by decide
    rw [hname, Bool.or_true, Bool.true_or]

theorem mergeLocal_own (p : String × HarnessEntry) :
    mergeLocal records p
      = ⟨records.own.set (mergedId records p) (p.2.scopedTo .localScope),
        records.proto⟩ := by
  rw [mergeLocal_eq, MergedRecords.assign, if_neg (mergedId_ne_proto records p)]

theorem proto_mergedWith (globals before : JsMap String HarnessEntry) :
    (mergedWith globals before).proto = none := by
  induction before using List.reverseRecOn with
  | nil => rfl
  | append_singleton before p ih =>
    rw [mergedWith_concat, mergeLocal_own]
    exact ih

/-- What a merge adds to the keys. -/
theorem mem_keys_concat :
    id ∈ (mergedWith globals (before ++ [p])).own.keys
      ↔ id ∈ (mergedWith globals before).own.keys
        ∨ mergedId (mergedWith globals before) p = id := by
  rw [mergedWith_concat, mergeLocal_own]
  dsimp only
  rw [JsMap.keys_set]
  by_cases hmem : mergedId (mergedWith globals before) p
      ∈ (mergedWith globals before).own.keys
  · rw [if_pos hmem]
    exact (or_iff_left_of_imp fun heq => heq ▸ hmem).symm
  · rw [if_neg hmem, List.mem_append, List.mem_singleton, eq_comm (a := id)]

theorem finds_mergedWith :
    (mergedWith globals before).finds id = true
      ↔ id ∈ (mergedWith globals before).own.keys ∨ id ∈ objectNames := by
  rw [MergedRecords.finds, proto_mergedWith, Bool.or_eq_true,
    Bool.or_eq_true, JsMap.has_eq_true_iff, List.contains_iff_mem]
  exact or_iff_left Bool.false_ne_true

/-- An id is found exactly when it is taken. -/
theorem finds_iff
    (hnd : (JsMap.keys before).Nodup) (hid : id ∉ JsMap.keys before) :
    (mergedWith globals before).finds id = true
      ↔ Taken globals before.reverse id := by
  induction before using List.reverseRecOn generalizing id with
  | nil =>
    rw [finds_mergedWith]
    change id ∈ (filedGlobals globals).keys ∨ _ ↔ _
    rw [keys_filedGlobals]
    exact Iff.rfl
  | append_singleton before p ih =>
    rw [keys_concat] at hnd hid
    obtain ⟨hnd', -, hp⟩ := List.nodup_append.1 hnd
    have hfirst : p.1 ∉ JsMap.keys before := fun hmem =>
      hp _ hmem _ List.mem_cons_self rfl
    have hbefore : id ∉ JsMap.keys before := fun hmem =>
      hid (List.mem_append_left _ hmem)
    have hne : p.1 ≠ id := fun heq =>
      hid (heq ▸ List.mem_append_right _ List.mem_cons_self)
    -- the new key is this id only when the entry was moved there
    have hkey : mergedId (mergedWith globals before) p = id
        ↔ namespaced p = id ∧ Taken globals before.reverse p.1 := by
      rw [mergedId, ← ih hnd' hfirst]
      by_cases hfinds : (mergedWith globals before).finds p.1 = true
      · rw [if_pos hfinds]
        exact (and_iff_left hfinds).symm
      · rw [if_neg hfinds]
        exact iff_of_false hne fun h => hfinds h.2
    rw [finds_mergedWith, mem_keys_concat, hkey, or_right_comm,
      ← finds_mergedWith, ih hnd' hbefore, List.reverse_append]
    exact Iff.rfl

/-- A key with a scope in front is a global entry's or an earlier local
one's own id. -/
theorem mem_keys_moved
    {q : String × HarnessEntry} (hq : q.1 ∉ JsMap.keys before) :
    namespaced q ∈ (mergedWith globals before).own.keys
      ↔ namespaced q ∈ globals.keys ∨ namespaced q ∈ JsMap.keys before := by
  induction before using List.reverseRecOn with
  | nil =>
    change _ ∈ (filedGlobals globals).keys ↔ _
    rw [keys_filedGlobals]
    exact (or_iff_left List.not_mem_nil).symm
  | append_singleton before p ih =>
    rw [keys_concat, List.mem_append, List.mem_singleton] at hq ⊢
    have hbefore : q.1 ∉ JsMap.keys before := fun hmem => hq (.inl hmem)
    rw [mem_keys_concat, mergedId]
    by_cases hfinds : (mergedWith globals before).finds p.1 = true
    · -- it was moved: to a key of its own id, and its id has one already
      rw [if_pos hfinds]
      constructor
      · rintro (hmem | heq)
        · exact ((ih hbefore).1 hmem).imp_right .inl
        · exact absurd (.inr (namespaced_inj heq).symm) hq
      · rintro (hmem | hmem | heq)
        · exact .inl ((ih hbefore).2 (.inl hmem))
        · exact .inl ((ih hbefore).2 (.inr hmem))
        · rw [finds_mergedWith] at hfinds
          exact .inl (heq ▸ hfinds.resolve_right
            (heq ▸ namespaced_not_mem_objectNames q))
    · rw [if_neg hfinds, ih hbefore, or_assoc, eq_comm (a := p.1)]

/-- The key of a local entry is fresh exactly when its place is empty,
should it be moved. -/
theorem fresh_iff (hnd : (JsMap.keys (before ++ [p])).Nodup) :
    mergedId (mergedWith globals before) p
        ∉ (mergedWith globals before).own.keys
      ↔ (Taken globals before.reverse p.1 →
        namespaced p ∉ globals.keys ∧ namespaced p ∉ JsMap.keys before) := by
  rw [keys_concat] at hnd
  obtain ⟨hnd', -, hp⟩ := List.nodup_append.1 hnd
  have hfirst : p.1 ∉ JsMap.keys before := fun hmem =>
    hp _ hmem _ List.mem_cons_self rfl
  rw [mergedId, ← finds_iff hnd' hfirst, ← not_or, ← mem_keys_moved hfirst]
  by_cases hfinds : (mergedWith globals before).finds p.1 = true
  · rw [if_pos hfinds]
    exact ⟨fun h _ => h, fun h => h hfinds⟩
  · rw [if_neg hfinds]
    refine iff_of_true (fun hmem => hfinds ?_) fun h => absurd h hfinds
    exact finds_mergedWith.2 (.inl hmem)

end

-- ======== the result

variable {locals : JsMap String HarnessEntry}

/-- Every key is fresh when the records end up as long as they can. -/
theorem fresh_of_full {globals : JsMap String HarnessEntry}
    (hfull : (mergedWith globals locals).own.length
      = globals.length + locals.length)
    {after : JsMap String HarnessEntry}
    (hsplit : locals = before ++ p :: after) :
    mergedId (mergedWith globals before) p
      ∉ (mergedWith globals before).own.keys := by
  apply MergedRecords.fresh_of_length (p.2.scopedTo .localScope)
  have hbefore := length_mergeLocal_le before ⟨filedGlobals globals, none⟩
  have hafter := length_mergeLocal_le after
    (mergeLocal (mergedWith globals before) p)
  have hall : mergedWith globals locals
      = after.foldl mergeLocal (mergeLocal (mergedWith globals before) p) := by
    rw [hsplit, mergedWith, List.foldl_append]
    rfl
  have hglobals : (filedGlobals globals).length = globals.length :=
    List.length_map _
  rw [← hall, hfull, hsplit, List.length_append, List.length_cons,
    mergeLocal_eq] at hafter
  change (mergedWith globals before).own.length ≤ _ at hbefore
  dsimp only at hbefore
  omega

/-- Entries with fresh keys are all there, in the order they came. -/
theorem values_of_fresh {globals : JsMap String HarnessEntry}
    (hfresh : ∀ before p after, locals = before ++ p :: after →
      mergedId (mergedWith globals before) p
        ∉ (mergedWith globals before).own.keys) :
    (mergedWith globals locals).own.values
      = globals.values.map (·.scopedTo .globalScope)
        ++ locals.values.map (·.scopedTo .localScope) := by
  induction locals using List.reverseRecOn with
  | nil =>
    change (filedGlobals globals).values = _ ++ []
    rw [List.append_nil, filedGlobals, JsMap.values, JsMap.values,
      List.map_map, List.map_map]
    rfl
  | append_singleton locals p ih =>
    have hbefore : ∀ before q after, locals = before ++ q :: after →
        mergedId (mergedWith globals before) q
          ∉ (mergedWith globals before).own.keys := by
      intro before q after hsplit
      apply hfresh before q (after ++ [p])
      rw [hsplit, List.append_assoc, List.cons_append]
    rw [mergedWith_concat, mergeLocal_own]
    dsimp only
    rw [JsMap.set_of_not_mem _ (hfresh locals p [] rfl), JsMap.values,
      List.map_append]
    change (mergedWith globals locals).own.values ++ _ = _
    rw [ih hbefore, List.append_assoc, JsMap.values, JsMap.values,
      JsMap.values, List.map_append, List.map_append]
    rfl

theorem mergeKind_values_iff {globals : JsMap String HarnessEntry}
    (hglobals : globals.keys.Nodup) (hlocals : locals.keys.Nodup) :
    (mergeKind globals locals).own.values.Perm
        (globals.values.map (·.scopedTo .globalScope)
          ++ locals.values.map (·.scopedTo .localScope))
      ↔ Clear globals locals := by
  constructor
  · intro hperm
    have hlength := hperm.length_eq
    simp only [JsMap.values, List.length_append, List.length_map] at hlength
    have hproto : "__proto__" ∉ globals.keys := by
      intro hmem
      have hlt := length_mergeGlobal_lt hmem
      have hle := length_mergeLocal_le locals
        (globals.foldl mergeGlobal ⟨[], none⟩)
      rw [mergeKind] at hlength
      omega
    refine ⟨hproto, fun before p after hsplit => ?_⟩
    rw [mergeKind, mergeGlobal_all hglobals hproto] at hlength
    have hnd : (JsMap.keys (before ++ [p])).Nodup := by
      apply List.Nodup.sublist _ hlocals
      rw [hsplit, JsMap.keys, JsMap.keys]
      exact (List.Sublist.append_left
        (List.singleton_sublist.2 List.mem_cons_self) before).map _
    exact (fresh_iff hnd).1 (fresh_of_full hlength hsplit)
  · intro hclear
    rw [mergeKind, mergeGlobal_all hglobals hclear.proto]
    refine List.Perm.of_eq (values_of_fresh fun before p after hsplit => ?_)
    have hnd : (JsMap.keys (before ++ [p])).Nodup := by
      apply List.Nodup.sublist _ hlocals
      rw [hsplit, JsMap.keys, JsMap.keys]
      exact (List.Sublist.append_left
        (List.singleton_sublist.2 List.mem_cons_self) before).map _
    exact (fresh_iff hnd).2 (hclear.moved before p after hsplit)

/-- A merge keeps every entry exactly when whatever is moved finds its place
empty. -/
theorem keeps_iff (globalState : HarnessState)
    (localState : Option HarnessState) (hglobals : DistinctIds globalState)
    (hlocals : ∀ state, localState = some state → DistinctIds state) :
    KeepsEvery globalState localState
      ↔ ∀ kind, Clear (globalState.entries kind)
          (localEntries localState kind) := by
  refine forall_congr' fun kind => ?_
  apply mergeKind_values_iff (hglobals kind)
  cases localState with
  | none => exact List.nodup_nil
  | some state => exact hlocals state rfl kind

-- ======== two merges

def mergeEntry (id content : String) : HarnessEntry where
  id := id
  kind := .memory
  title := id
  content := content
  path := ""
  scope := none
  reference := []
  arguments := []
  metadata := []
  source := "refine"
  createdAt := ""
  updatedAt := ""
  version := 1

/-- A state with memories only. -/
def memories (records : JsMap String HarnessEntry) : HarnessState where
  schema := 1
  entries kind := if kind = .memory then records else []
  refinements := []

def sharedNote (content : String) : HarnessState :=
  memories [("shared", mergeEntry "shared" content)]

theorem distinctIds_memories {records : JsMap String HarnessEntry}
    (h : records.keys.Nodup) : DistinctIds (memories records) := by
  intro kind
  by_cases hkind : kind = .memory
  · rw [memories]
    dsimp only
    rw [if_pos hkind]
    exact h
  · rw [memories]
    dsimp only
    rw [if_neg hkind]
    exact List.nodup_nil

/-- A local note of the same name is moved, and both are kept. -/
theorem keeps_sharedNote :
    KeepsEvery (sharedNote "global") (some (sharedNote "local")) := by
  apply (keeps_iff (sharedNote "global") (some (sharedNote "local"))
    (distinctIds_memories (by decide)) ?_).2
  · intro kind
    cases kind with
    | memory =>
      refine ⟨by decide, fun before p after hsplit _ => ?_⟩
      have hlength := congrArg List.length hsplit
      rw [List.length_append] at hlength
      cases before with
      | nil =>
        obtain ⟨rfl, -⟩ := List.cons.inj hsplit
        exact ⟨by decide, List.not_mem_nil⟩
      | cons q before =>
        have hshort : 1 = before.length + 1 + (after.length + 1) := hlength
        omega
    | prompt | skill | subagent =>
      refine ⟨by decide, fun before p after hsplit _ => ?_⟩
      exact absurd (hsplit ▸ List.append_ne_nil_of_right_ne_nil before
        (List.cons_ne_nil p after)) (fun h => h rfl)
  · intro state hstate
    rw [← Option.some.inj hstate]
    exact distinctIds_memories (by decide)

/-- A global note that already has the name the local one is moved to is
lost. -/
theorem not_keeps_shadowed :
    ¬KeepsEvery
      (memories [("shared", mergeEntry "shared" "global"),
        ("local:shared", mergeEntry "local:shared" "lost")])
      (some (sharedNote "local")) := by
  intro h
  have hlength := (h .memory).length_eq
  exact absurd hlength (by decide)

end OneHarness.Refinement
