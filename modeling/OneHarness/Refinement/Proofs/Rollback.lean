/-
When a rollback takes a refinement back.

# One edit

An edit is rejected and changes nothing, or deletes an entry, or writes one
(`EditStep`). Whether an edit is accepted does not change while others are
applied: an entry that somebody else changed stays refused, and one that this
proposal changed was not (`accepted_applyEdit`).

# A run of edits

The rollback of some edits is the rollback of the later ones and then that of
the first (`undo_cons`). With every later entry put back, the edit that takes
the first one back passes when the entry it restores would
(`validateEdit_restore`). What an entry has then is said in `Undone`: its own
content, but the id it is filed under, and the scope that the last creation
gave it.

# What it takes

All edits are taken back and all entries are as they were if and only if the
entries that were changed would pass the checks of an edit, are filed under
their ids and have a scope, the deleted ones that of the rollback, and none
was created with an empty id (`rollback_iff`).
-/
import OneHarness.Refinement.Harness

namespace OneHarness.Refinement

open Lib

-- ======== statement vocabulary

/-- What a skill that is not deleted needs of its reference. -/
structure PythonReference (reference : Fields) : Prop where
  type : Json.get (.obj reference) "type" = some (.str "python")
  imported : hasText reference "import" = true
    ∨ hasText reference "python_import" = true
  called : hasText reference "callable" = true
    ∨ hasText reference "call_pattern" = true

/-- An entry that an edit could have written. -/
structure Editable (kind : RefinementKind) (entry : HarnessEntry) : Prop where
  title : entry.title ≠ ""
  content : entry.content ≠ ""
  reference : kind = .skill → PythonReference entry.reference

/-- An edit that passes the checks, of an entry nobody else changed. -/
def Accepted (options : ApplyOptions) (s : Application) (edit : RefinementEdit)
    (action : RefinementAction) (kind : RefinementKind) : Prop :=
  validateEdit edit (editId edit) = .ok (action, kind)
    ∧ changedSince options s kind (editId edit) = false

/-- Some edit updates or deletes what is filed there. -/
def Touched (options : ApplyOptions) (s : Application)
    (edits : List RefinementEdit) (kind : RefinementKind) (id : String) :
    Prop :=
  ∃ edit ∈ edits, ∃ action, Accepted options s edit action kind
    ∧ action ≠ .create ∧ editId edit = id

/-- Some edit deletes what is filed there. -/
def Deleted (options : ApplyOptions) (s : Application)
    (edits : List RefinementEdit) (kind : RefinementKind) (id : String) :
    Prop :=
  ∃ edit ∈ edits, Accepted options s edit .delete kind ∧ editId edit = id

/-- Some edit creates an entry with an empty id. -/
def CreatesUnnamed (options : ApplyOptions) (s : Application)
    (edits : List RefinementEdit) (kind : RefinementKind) : Prop :=
  ∃ edit ∈ edits, Accepted options s edit .create kind ∧ editId edit = ""

/-- The entries that the proposal changes, as a rollback can restore them. -/
structure Takable (options : ApplyOptions) (s : Application)
    (edits : List RefinementEdit) : Prop where
  named : ∀ kind, CreatesUnnamed options s edits kind →
    s.entries.lookup kind "" ≠ none
  editable : ∀ kind id entry, s.entries.lookup kind id = some entry →
    Touched options s edits kind id → Editable kind entry

/-- Equal in what an edit says of an entry. -/
structure SameBody (a b : HarnessEntry) : Prop where
  title : a.title = b.title
  content : a.content = b.content
  path : a.path = b.path
  reference : a.reference = b.reference
  arguments : a.arguments = b.arguments
  metadata : a.metadata = b.metadata

/-- No edit was rejected. -/
def AllApplied (s : Application) : Prop :=
  ∀ record ∈ s.appliedEdits, record.applied = true

/-- The loop before its first edit. -/
def started (state : HarnessState) : Application := ⟨state.entries, [], []⟩

theorem lookup_set (entries : Entries) (kind k : RefinementKind)
    (id i : String) (entry : HarnessEntry) :
    (entries.set kind id entry).lookup k i
      = if kind = k ∧ id = i then some entry else entries.lookup k i := by
  rw [Entries.lookup, Entries.set]
  by_cases hk : k = kind
  · rw [if_pos hk, JsMap.get_set]
    by_cases hi : id = i
    · rw [if_pos hi, if_pos ⟨hk.symm, hi⟩]
    · rw [if_neg hi, if_neg fun h => hi h.2]
      rfl
  · rw [if_neg hk, if_neg fun h => hk h.1.symm]
    rfl

theorem lookup_delete (entries : Entries) (kind k : RefinementKind)
    (id i : String) :
    (entries.delete kind id).lookup k i
      = if kind = k ∧ id = i then none else entries.lookup k i := by
  rw [Entries.lookup, Entries.delete]
  by_cases hk : k = kind
  · rw [if_pos hk, JsMap.get_delete]
    by_cases hi : id = i
    · rw [if_pos hi, if_pos ⟨hk.symm, hi⟩]
    · rw [if_neg hi, if_neg fun h => hi h.2]
      rfl
  · rw [if_neg hk, if_neg fun h => hk h.1.symm]
    rfl

-- ======== the checks

/-- The checks of `validateEdit`, passed. -/
structure Passes (edit : RefinementEdit) (computedId : String)
    (action : RefinementAction) (kind : RefinementKind) : Prop where
  hasAction : RefinementAction.ofName? edit.action = some action
  hasKind : RefinementKind.ofName? edit.kind = some kind
  notBase : kind = .prompt → edit.id ≠ some "base_system_prompt"
    ∧ computedId ≠ "base_system_prompt"
  hasId : action ≠ .create → edit.id.getD "" ≠ ""
  hasTexts : action ≠ .delete →
    edit.title.getD "" ≠ "" ∧ edit.content.getD "" ≠ ""
  skill : action ≠ .delete → kind = .skill → validateSkill action edit = none

variable {edit : RefinementEdit} {action : RefinementAction}
  {kind : RefinementKind}

theorem validateEdit_ok_iff {computedId : String} :
    validateEdit edit computedId = .ok (action, kind)
      ↔ Passes edit computedId action kind := by
  constructor
  · intro h
    rw [validateEdit] at h
    cases haction : RefinementAction.ofName? edit.action with
    | none => rw [haction] at h; cases h
    | some action' =>
      cases hkind : RefinementKind.ofName? edit.kind with
      | none => rw [haction, hkind] at h; cases h
      | some kind' =>
        rw [haction, hkind] at h
        dsimp only at h
        by_cases hbase : kind' = .prompt
            ∧ (edit.id = some "base_system_prompt"
              ∨ computedId = "base_system_prompt")
        · rw [if_pos hbase] at h; cases h
        rw [if_neg hbase] at h
        by_cases hid : action' ≠ .create ∧ edit.id.getD "" = ""
        · rw [if_pos hid] at h; cases h
        rw [if_neg hid] at h
        by_cases htexts : action' ≠ .delete
            ∧ (edit.title.getD "" = "" ∨ edit.content.getD "" = "")
        · rw [if_pos htexts] at h; cases h
        rw [if_neg htexts] at h
        have hpasses : (action' ≠ .delete → kind' = .skill →
            validateSkill action' edit = none) →
            Passes edit computedId action' kind' := fun hskill =>
          { hasAction := haction
            hasKind := hkind
            notBase := fun hprompt => not_or.1 fun h => hbase ⟨hprompt, h⟩
            hasId := fun hne h => hid ⟨hne, h⟩
            hasTexts := fun hne => not_or.1 fun h => htexts ⟨hne, h⟩
            skill := hskill }
        by_cases hskill : action' ≠ .delete ∧ kind' = .skill
        · rw [if_pos hskill] at h
          cases hvalid : validateSkill action' edit with
          | some error => rw [hvalid] at h; cases h
          | none =>
            rw [hvalid] at h
            cases h
            exact hpasses fun _ _ => hvalid
        · rw [if_neg hskill] at h
          cases h
          exact hpasses fun hne hk => absurd ⟨hne, hk⟩ hskill
  · intro h
    rw [validateEdit, h.hasAction]
    dsimp only
    rw [h.hasKind]
    dsimp only
    rw [if_neg fun hbase => not_or.2 (h.notBase hbase.1) hbase.2,
      if_neg fun hid => h.hasId hid.1 hid.2,
      if_neg fun htexts => not_or.2 (h.hasTexts htexts.1) htexts.2]
    by_cases hskill : action ≠ .delete ∧ kind = .skill
    · rw [if_pos hskill, h.skill hskill.1 hskill.2]
    · rw [if_neg hskill]

theorem isPython_eq_true_iff (reference : Fields) :
    isPython reference = true
      ↔ Json.get (.obj reference) "type" = some (.str "python") := by
  rw [isPython]
  split
  · rename_i type htype
    rw [htype, decide_eq_true_iff]
    constructor
    · rintro rfl
      rfl
    · intro h
      cases h
      rfl
  · rename_i hother
    constructor
    · intro h
      cases h
    · intro h
      exact absurd h (hother "python")

theorem validateReference_none_iff {reference : Fields} :
    validateReference action reference = none
      ↔ PythonReference reference := by
  have htype := isPython_eq_true_iff reference
  rw [validateReference]
  constructor
  · intro h
    split at h
    · cases h
    rename_i hpython
    split at h
    · cases h
    rename_i himport
    split at h
    · cases h
    rename_i hcallable
    rw [Bool.not_eq_true, Bool.not_eq_false'] at hpython himport hcallable
    exact ⟨htype.1 hpython, Bool.or_eq_true_iff.1 himport,
      Bool.or_eq_true_iff.1 hcallable⟩
  · rintro ⟨hpython, himport, hcallable⟩
    rw [htype.2 hpython, Bool.or_eq_true_iff.2 himport,
      Bool.or_eq_true_iff.2 hcallable]
    rfl

-- ======== one edit

section
variable {options : ApplyOptions} {now : Nat → String} {s : Application}
  {edit : RefinementEdit}

/-- What an edit does. -/
inductive EditStep (options : ApplyOptions) (now : String) (s : Application)
    (edit : RefinementEdit) : Application → Prop where
  | rejected (before : Option HarnessEntry) (error : String)
      (h : ∀ action kind, Accepted options s edit action kind →
        (action = .create ↔ s.entries.lookup kind (editId edit) ≠ none)) :
      EditStep options now s edit
        { s with
          appliedEdits := s.appliedEdits
            ++ [⟨edit, editId edit, before, none, false, some error⟩] }
  | deleted (kind : RefinementKind) (before : HarnessEntry)
      (haccepted : Accepted options s edit .delete kind)
      (hbefore : s.entries.lookup kind (editId edit) = some before) :
      EditStep options now s edit
        { entries := s.entries.delete kind (editId edit)
          appliedEdits := s.appliedEdits
            ++ [⟨edit, editId edit, some before, none, true, none⟩]
          proposalModifiedKeys :=
            (kind, editId edit) :: s.proposalModifiedKeys }
  | written (action : RefinementAction) (kind : RefinementKind)
      (before : Option HarnessEntry)
      (haccepted : Accepted options s edit action kind)
      (haction : action = if before.isSome then .update else .create)
      (hbefore : s.entries.lookup kind (editId edit) = before) :
      EditStep options now s edit
        { entries := s.entries.set kind (editId edit)
            (writtenEntry options now edit kind (editId edit) before)
          appliedEdits := s.appliedEdits
            ++ [⟨edit, editId edit, before,
              some (writtenEntry options now edit kind (editId edit) before),
              true, none⟩]
          proposalModifiedKeys :=
            (kind, editId edit) :: s.proposalModifiedKeys }

theorem editStep (options : ApplyOptions) (now : Nat → String)
    (s : Application) (edit : RefinementEdit) :
    EditStep options (now s.appliedEdits.length) s edit
      (applyEdit options now s edit) := by
  rw [applyEdit, decideEdit]
  dsimp only
  cases hvalid : validateEdit edit (editId edit) with
  | error error =>
    refine .rejected none error fun action kind h => ?_
    rw [h.1] at hvalid
    cases hvalid
  | ok found =>
    obtain ⟨action, kind⟩ := found
    have hfound : ∀ action' kind', Accepted options s edit action' kind' →
        action' = action ∧ kind' = kind := by
      intro action' kind' h
      have heq := h.1.symm.trans hvalid
      cases heq
      exact ⟨rfl, rfl⟩
    dsimp only
    cases hchanged : changedSince options s kind (editId edit) with
    | true =>
      rw [if_pos rfl]
      refine .rejected _ _ fun action' kind' h => ?_
      obtain ⟨rfl, rfl⟩ := hfound action' kind' h
      rw [h.2] at hchanged
      cases hchanged
    | false =>
      rw [if_neg Bool.false_ne_true]
      have haccepted : Accepted options s edit action kind :=
        ⟨hvalid, hchanged⟩
      cases hbefore : s.entries.lookup kind (editId edit) with
      | none =>
        cases action with
        | create => exact .written .create kind none haccepted rfl hbefore
        | update =>
          refine .rejected _ _ fun action' kind' h => ?_
          obtain ⟨rfl, rfl⟩ := hfound action' kind' h
          rw [hbefore]
          constructor
          · intro haction
            cases haction
          · exact fun hne => absurd rfl hne
        | delete =>
          refine .rejected _ _ fun action' kind' h => ?_
          obtain ⟨rfl, rfl⟩ := hfound action' kind' h
          rw [hbefore]
          constructor
          · intro haction
            cases haction
          · exact fun hne => absurd rfl hne
      | some before =>
        cases action with
        | create =>
          refine .rejected _ _ fun action' kind' h => ?_
          obtain ⟨rfl, rfl⟩ := hfound action' kind' h
          rw [hbefore]
          exact ⟨fun _ => Option.some_ne_none before, fun _ => rfl⟩
        | update =>
          exact .written .update kind (some before) haccepted rfl
            hbefore
        | delete => exact .deleted kind before haccepted hbefore

section
variable (h : Accepted options s edit action kind)
include h

/-- What is accepted is accepted as one action on one kind. -/
theorem Accepted.unique {action' : RefinementAction}
    {kind' : RefinementKind}
    (h' : Accepted options s edit action' kind') :
    action = action' ∧ kind = kind' := by
  have heq := h.1.symm.trans h'.1
  cases heq
  exact ⟨rfl, rfl⟩

omit h in
/-- Whether somebody else changed an entry stays as it is. -/
theorem EditStep.changedSince_eq {t : String} {s₁ : Application}
    (h : EditStep options t s edit s₁) (kind : RefinementKind) (id : String) :
    changedSince options s₁ kind id = changedSince options s kind id := by
  rw [changedSince, changedSince]
  cases hbase : options.baselineState with
  | none => rfl
  | some baseline =>
    dsimp only
    -- an edit that changed the entry found it as in the baseline
    have hkey : ∀ {action : RefinementAction} {k : RefinementKind}
        {entries : Entries}, Accepted options s edit action k →
        (∀ kind id, ¬(k = kind ∧ editId edit = id) →
          entries.lookup kind id = s.entries.lookup kind id) →
        (!(decide ((kind, id)
            ∈ (k, editId edit) :: s.proposalModifiedKeys))
          && decide ((entries.lookup kind id).map HarnessEntry.text
            ≠ (baseline.entries.lookup kind id).map HarnessEntry.text))
        = (!(decide ((kind, id) ∈ s.proposalModifiedKeys))
          && decide ((s.entries.lookup kind id).map HarnessEntry.text
            ≠ (baseline.entries.lookup kind id).map
              HarnessEntry.text)) := by
      intro action k entries haccepted hframe
      by_cases hat : k = kind ∧ editId edit = id
      · obtain ⟨rfl, rfl⟩ := hat
        have hunchanged := haccepted.2
        rw [changedSince, hbase] at hunchanged
        dsimp only at hunchanged
        rw [hunchanged, decide_eq_true List.mem_cons_self]
        rfl
      · have hmem : ((kind, id) ∈ (k, editId edit) :: s.proposalModifiedKeys)
            ↔ (kind, id) ∈ s.proposalModifiedKeys := by
          rw [List.mem_cons]
          apply or_iff_right
          intro heq
          cases heq
          exact hat ⟨rfl, rfl⟩
        rw [hframe kind id hat, decide_eq_decide.2 hmem]
    cases h with
    | rejected => rfl
    | deleted k before haccepted hbefore =>
      apply hkey haccepted
      intro kind id hat
      rw [lookup_delete, if_neg hat]
    | written action k before haccepted haction hbefore =>
      apply hkey haccepted
      intro kind id hat
      rw [lookup_set, if_neg hat]

omit h in
theorem EditStep.accepted_iff {t : String} {s₁ : Application}
    (h : EditStep options t s edit s₁) {edit' : RefinementEdit}
    :
    Accepted options s₁ edit' action kind
      ↔ Accepted options s edit' action kind := by
  rw [Accepted, Accepted, h.changedSince_eq]

theorem Accepted.passes :
    Passes edit (editId edit) action kind := validateEdit_ok_iff.1 h.1

/-- Only a creation can be of an empty id. -/
theorem Accepted.id_ne (hne : action ≠ .create) : editId edit ≠ "" := by
  have hid := h.passes.hasId hne
  rw [editId]
  cases hedit : edit.id with
  | none => rw [hedit] at hid; exact absurd rfl hid
  | some id => rwa [hedit] at hid

/-- What an edit writes passes the checks again. -/
theorem Accepted.editable (hne : action ≠ .delete)
    (t : String) (before : Option HarnessEntry) :
    Editable kind
      (writtenEntry options t edit kind (editId edit) before) := by
  obtain ⟨htitle, hcontent⟩ := h.passes.hasTexts hne
  have hskill := h.passes.skill hne
  constructor
  · show (edit.title.or (before.map (·.title))).getD (editId edit) ≠ ""
    cases hedit : edit.title with
    | none => rw [hedit] at htitle; exact absurd rfl htitle
    | some title => rwa [hedit] at htitle
  · show (edit.content.or (before.map (·.content))).getD "" ≠ ""
    cases hedit : edit.content with
    | none => rw [hedit] at hcontent; exact absurd rfl hcontent
    | some content => rwa [hedit] at hcontent
  · intro hkind
    have hnone := hskill hkind
    rw [validateSkill] at hnone
    split at hnone
    · cases hnone
    · show PythonReference
        ((edit.reference.or (before.map (·.reference))).getD [])
      cases hedit : edit.reference with
      | none => rw [hedit] at hnone; cases hnone
      | some reference =>
        rw [hedit] at hnone
        exact validateReference_none_iff.1 hnone

end

theorem EditStep.appliedEdits_eq {t : String} {s₁ : Application}
    (h : EditStep options t s edit s₁) :
    ∃ record, s₁.appliedEdits = s.appliedEdits ++ [record] := by
  cases h with
  | rejected before error => exact ⟨_, rfl⟩
  | deleted kind before => exact ⟨_, rfl⟩
  | written action kind before => exact ⟨_, rfl⟩

theorem EditStep.of_refused {t : String} {s₁ : Application}
    (h : EditStep options t s edit s₁)
    (hno : ∀ action kind, ¬Accepted options s edit action kind) :
    ¬AllApplied s₁ := by
  intro hall
  cases h with
  | rejected before error =>
    have happlied := hall _ (List.mem_append_right _ List.mem_cons_self)
    cases happlied
  | deleted kind before haccepted => exact hno _ _ haccepted
  | written action kind before haccepted => exact hno _ _ haccepted

theorem EditStep.allApplied_iff {t : String} {s₁ : Application}
    (h : EditStep options t s edit s₁)
    (haccepted : Accepted options s edit action kind)
    (hfits : action = .create ↔ s.entries.lookup kind (editId edit) = none) :
    AllApplied s₁ ↔ AllApplied s := by
  have happend : ∀ record : AppliedRefinementEdit, record.applied = true →
      ((∀ r ∈ s.appliedEdits ++ [record], r.applied = true)
        ↔ AllApplied s) := by
    intro record hrecord
    constructor
    · exact fun hall r hr => hall r (List.mem_append_left _ hr)
    · intro hall r hr
      rcases List.mem_append.1 hr with hr | hr
      · exact hall r hr
      · rw [List.mem_singleton.1 hr]
        exact hrecord
  cases h with
  | rejected before error hrejected =>
    have hboth := (hrejected action kind haccepted).symm.trans hfits
    exact absurd hboth (by simp)
  | deleted kind before => exact happend _ rfl
  | written action kind before => exact happend _ rfl

theorem EditStep.of_written {t : String} {s₁ : Application}
    (h : EditStep options t s edit s₁)
    (haccepted : Accepted options s edit action kind)
    (hne : action ≠ .delete)
    (hfits : action = .create ↔ s.entries.lookup kind (editId edit) = none) :
    s₁.entries = s.entries.set kind (editId edit)
      (writtenEntry options t edit kind (editId edit)
        (s.entries.lookup kind (editId edit))) := by
  cases h with
  | rejected before error hrejected =>
    have hboth := (hrejected action kind haccepted).symm.trans hfits
    exact absurd hboth (by simp)
  | deleted kind' before haccepted' =>
    exact absurd (haccepted.unique haccepted').1 hne
  | written action' kind' before haccepted' haction hbefore =>
    obtain ⟨rfl, rfl⟩ := haccepted.unique haccepted'
    rw [hbefore]

theorem EditStep.of_deleted {t : String} {s₁ : Application}
    (h : EditStep options t s edit s₁)
    (haccepted : Accepted options s edit .delete kind)
    (hfound : s.entries.lookup kind (editId edit) ≠ none) :
    s₁.entries = s.entries.delete kind (editId edit) := by
  cases h with
  | rejected before error hrejected =>
    cases (hrejected .delete kind haccepted).2 hfound
  | deleted kind' before haccepted' =>
    obtain ⟨-, rfl⟩ := haccepted.unique haccepted'
    rfl
  | written action' kind' before haccepted' haction =>
    obtain ⟨rfl, rfl⟩ := haccepted.unique haccepted'
    split at haction <;> cases haction

end

-- ======== an edit taken back

/-- The edit that restores an entry. -/
def restoring (targetId : String) (action : RefinementAction)
    (kindText id : String) (before : HarnessEntry) : RefinementEdit where
  action := action.name
  kind := kindText
  id := some id
  title := some before.title
  content := some before.content
  path := some before.path
  reference := some before.reference
  arguments := some before.arguments
  metadata := some before.metadata
  reason := some ("Rollback " ++ targetId)

/-- The edit that deletes an entry that was created. -/
def removing (targetId kindText id : String) : RefinementEdit where
  action := "delete"
  kind := kindText
  id := some id
  title := none
  content := none
  path := none
  reference := none
  arguments := none
  metadata := none
  reason := some ("Rollback " ++ targetId)

theorem ofName?_name (action : RefinementAction) :
    RefinementAction.ofName? action.name = some action := by
  cases action <;> rfl

variable {targetId kindText id : String} {before : HarnessEntry}

section
variable (hkind : RefinementKind.ofName? kindText = some kind)
  (hbase : kind = .prompt → id ≠ "base_system_prompt")
include hkind hbase

theorem passes_restoring
    (hid : action ≠ .create → id ≠ "") (hne : action ≠ .delete) :
    Passes (restoring targetId action kindText id before) id action kind
      ↔ Editable kind before := by
  constructor
  · intro h
    obtain ⟨htitle, hcontent⟩ := h.hasTexts hne
    refine ⟨htitle, hcontent, fun hskill => ?_⟩
    exact validateReference_none_iff.1 (h.skill hne hskill)
  · intro h
    exact
      { hasAction := ofName?_name action
        hasKind := hkind
        notBase := fun hprompt =>
          ⟨fun heq => hbase hprompt (Option.some.inj heq), hbase hprompt⟩
        hasId := hid
        hasTexts := fun _ => ⟨h.title, h.content⟩
        skill := fun _ hskill =>
          validateReference_none_iff.2 (h.reference hskill) }

theorem passes_removing :
    Passes (removing targetId kindText id) id .delete kind ↔ id ≠ "" := by
  constructor
  · exact fun h => h.hasId (by decide)
  · intro h
    exact
      { hasAction := rfl
        hasKind := hkind
        notBase := fun hprompt =>
          ⟨fun heq => hbase hprompt (Option.some.inj heq), hbase hprompt⟩
        hasId := fun _ => h
        hasTexts := fun hne => absurd rfl hne
        skill := fun hne => absurd rfl hne }

end

/-- Nobody else changed anything. -/
def Quiet (options : ApplyOptions) (u : Application) : Prop :=
  ∀ kind id, changedSince options u kind id = false

section
variable {options : ApplyOptions} {now : Nat → String} {u : Application}

section
variable (h : Quiet options u)
include h

theorem Quiet.one (edit : RefinementEdit) :
    Quiet options (applyEdit options now u edit) := by
  intro kind id
  rw [(editStep options now u edit).changedSince_eq]
  exact h kind id

theorem Quiet.all (edits : List RefinementEdit) :
    Quiet options (applyEdits options now edits u) := by
  induction edits generalizing u with
  | nil => exact h
  | cons edit edits ih => exact ih (h.one edit)

theorem Quiet.accepted_iff :
    Accepted options u edit action kind
      ↔ Passes edit (editId edit) action kind := by
  rw [Accepted, validateEdit_ok_iff]
  exact and_iff_left (h kind (editId edit))

omit h in
/-- An edit that can only pass as one action on one kind. -/
theorem applyEdit_refused
    (haction : RefinementAction.ofName? edit.action = some action)
    (hkind : RefinementKind.ofName? edit.kind = some kind)
    (hno : ¬Passes edit (editId edit) action kind) :
    ¬AllApplied (applyEdit options now u edit) := by
  apply (editStep options now u edit).of_refused
  intro action' kind' haccepted
  have hpasses := haccepted.passes
  have heq := haction.symm.trans hpasses.hasAction
  have heq' := hkind.symm.trans hpasses.hasKind
  cases heq
  cases heq'
  exact hno hpasses

variable (now) in
/-- Restoring an entry goes through for one that would pass the checks. -/
theorem applyEdit_restoring
    (hkind : RefinementKind.ofName? kindText = some kind)
    (hbase : kind = .prompt → id ≠ "base_system_prompt")
    (hid : action ≠ .create → id ≠ "") (hne : action ≠ .delete)
    (hfits : action = .create ↔ u.entries.lookup kind id = none) :
    (AllApplied (applyEdit options now u
        (restoring targetId action kindText id before))
      ↔ AllApplied u ∧ Editable kind before)
    ∧ (Editable kind before → ∃ t,
        (applyEdit options now u
            (restoring targetId action kindText id before)).entries
          = u.entries.set kind id (writtenEntry options t
            (restoring targetId action kindText id before) kind id
            (u.entries.lookup kind id))) := by
  have hstep := editStep options now u
    (restoring targetId action kindText id before)
  have hiff : Passes (restoring targetId action kindText id before) id action
      kind ↔ Editable kind before := passes_restoring hkind hbase hid hne
  by_cases heditable : Editable kind before
  · have haccepted := h.accepted_iff.2 (hiff.2 heditable)
    constructor
    · rw [hstep.allApplied_iff haccepted hfits]
      exact (and_iff_left heditable).symm
    · intro _
      exact ⟨_, hstep.of_written haccepted hne hfits⟩
  · constructor
    · constructor
      · intro hall
        exact absurd hall (applyEdit_refused (ofName?_name action) hkind
          fun hpasses => heditable (hiff.1 hpasses))
      · exact fun hboth => absurd hboth.2 heditable
    · exact fun hyes => absurd hyes heditable

variable (now) in
/-- Deleting an entry goes through for one with an id. -/
theorem applyEdit_removing (hkind : RefinementKind.ofName? kindText = some kind)
    (hbase : kind = .prompt → id ≠ "base_system_prompt")
    (hfound : u.entries.lookup kind id ≠ none) :
    (AllApplied (applyEdit options now u (removing targetId kindText id))
      ↔ AllApplied u ∧ id ≠ "")
    ∧ (id ≠ "" →
        (applyEdit options now u (removing targetId kindText id)).entries
          = u.entries.delete kind id) := by
  have hstep := editStep options now u (removing targetId kindText id)
  have hiff : Passes (removing targetId kindText id) id .delete kind
      ↔ id ≠ "" := passes_removing hkind hbase
  by_cases hid : id = ""
  · constructor
    · constructor
      · intro hall
        exact absurd hall (applyEdit_refused rfl hkind
          fun hpasses => hiff.1 hpasses hid)
      · exact fun hboth => absurd hid hboth.2
    · exact fun hne => absurd hid hne
  · have haccepted := h.accepted_iff.2 (hiff.2 hid)
    have hfits : RefinementAction.delete = .create
        ↔ u.entries.lookup kind id = none := by
      constructor
      · intro heq
        cases heq
      · exact fun hnone => absurd hnone hfound
    constructor
    · rw [hstep.allApplied_iff haccepted hfits]
      exact (and_iff_left hid).symm
    · exact fun _ => hstep.of_deleted haccepted hfound

end

end

-- ======== a run taken back

/-- What a run of edits recorded. -/
def newRecords (options : ApplyOptions) (now : Nat → String)
    (edits : List RefinementEdit) (s : Application) :
    List AppliedRefinementEdit :=
  (applyEdits options now edits s).appliedEdits.drop s.appliedEdits.length

/-- The edits that take a run back. -/
def undo (targetId : String) (options : ApplyOptions) (now : Nat → String)
    (edits : List RefinementEdit) (s : Application) : List RefinementEdit :=
  (newRecords options now edits s).reverse.filterMap (rollbackEdit targetId)

variable {edits : List RefinementEdit}

/-- What a run put back of the entries that were there before it. -/
structure Undone (options rollbackOptions : ApplyOptions) (s : Application)
    (edits : List RefinementEdit) (entries : Entries) : Prop where
  absent : ∀ kind id, s.entries.lookup kind id = none →
    entries.lookup kind id = none
  untouched : ∀ kind id entry, s.entries.lookup kind id = some entry →
    ¬Touched options s edits kind id → entries.lookup kind id = some entry
  touched : ∀ kind id entry, s.entries.lookup kind id = some entry →
    Touched options s edits kind id →
    ∃ entry', entries.lookup kind id = some entry'
      ∧ SameBody entry' entry ∧ entry'.id = id
      ∧ (Deleted options s edits kind id →
        entry'.scope = some (rollbackOptions.scope.getD .localScope))
      ∧ (¬Deleted options s edits kind id →
        entry'.scope
          = some (entry.scope.getD (options.scope.getD .localScope)))

variable {k : RefinementKind}

section
variable {options : ApplyOptions} {t : String} {s s₁ : Application}
  {edit : RefinementEdit} {edits : List RefinementEdit}

section
variable (h : EditStep options t s edit s₁)
include h

theorem EditStep.touched_cons (kind : RefinementKind) (id : String) :
    Touched options s (edit :: edits) kind id
      ↔ (∃ action, Accepted options s edit action kind ∧ action ≠ .create
          ∧ editId edit = id)
        ∨ Touched options s₁ edits kind id := by
  constructor
  · rintro ⟨edit', hmem, action, haccepted, hrest⟩
    rcases List.mem_cons.1 hmem with rfl | hmem
    · exact Or.inl ⟨action, haccepted, hrest⟩
    · exact Or.inr ⟨edit', hmem, action, h.accepted_iff.2 haccepted, hrest⟩
  · rintro (⟨action, haccepted, hrest⟩ | ⟨edit', hmem, action, haccepted, hrest⟩)
    · exact ⟨edit, List.mem_cons_self, action, haccepted, hrest⟩
    · exact ⟨edit', List.mem_cons_of_mem _ hmem, action,
        h.accepted_iff.1 haccepted, hrest⟩

theorem EditStep.deleted_cons (kind : RefinementKind) (id : String) :
    Deleted options s (edit :: edits) kind id
      ↔ (Accepted options s edit .delete kind ∧ editId edit = id)
        ∨ Deleted options s₁ edits kind id := by
  constructor
  · rintro ⟨edit', hmem, haccepted, hid⟩
    rcases List.mem_cons.1 hmem with rfl | hmem
    · exact Or.inl ⟨haccepted, hid⟩
    · exact Or.inr ⟨edit', hmem, h.accepted_iff.2 haccepted, hid⟩
  · rintro (⟨haccepted, hid⟩ | ⟨edit', hmem, haccepted, hid⟩)
    · exact ⟨edit, List.mem_cons_self, haccepted, hid⟩
    · exact ⟨edit', List.mem_cons_of_mem _ hmem, h.accepted_iff.1 haccepted,
        hid⟩

theorem EditStep.createsUnnamed_cons (kind : RefinementKind) :
    CreatesUnnamed options s (edit :: edits) kind
      ↔ (Accepted options s edit .create kind ∧ editId edit = "")
        ∨ CreatesUnnamed options s₁ edits kind := by
  constructor
  · rintro ⟨edit', hmem, haccepted, hid⟩
    rcases List.mem_cons.1 hmem with rfl | hmem
    · exact Or.inl ⟨haccepted, hid⟩
    · exact Or.inr ⟨edit', hmem, h.accepted_iff.2 haccepted, hid⟩
  · rintro (⟨haccepted, hid⟩ | ⟨edit', hmem, haccepted, hid⟩)
    · exact ⟨edit, List.mem_cons_self, haccepted, hid⟩
    · exact ⟨edit', List.mem_cons_of_mem _ hmem, h.accepted_iff.1 haccepted,
        hid⟩

section
variable (haccepted : Accepted options s edit action k)
  (hoff : ¬(k = kind ∧ editId edit = id))
include haccepted hoff

/-- Elsewhere the first edit is as good as none. -/
theorem EditStep.touched_off :
    Touched options s (edit :: edits) kind id
      ↔ Touched options s₁ edits kind id := by
  rw [h.touched_cons]
  apply or_iff_right
  rintro ⟨action', haccepted', -, hid⟩
  exact hoff ⟨(haccepted.unique haccepted').2, hid⟩

theorem EditStep.deleted_off :
    Deleted options s (edit :: edits) kind id
      ↔ Deleted options s₁ edits kind id := by
  rw [h.deleted_cons]
  apply or_iff_right
  rintro ⟨haccepted', hid⟩
  exact hoff ⟨(haccepted.unique haccepted').2, hid⟩

end

end

-- ------------------------------------------------- what has to hold, by cases

section
variable (h : EditStep options t s edit s₁)
include h

/-- An edit that is rejected adds nothing. -/
theorem EditStep.takable_rejected
    (hrejected : ∀ action kind, Accepted options s edit action kind →
      (action = .create ↔ s.entries.lookup kind (editId edit) ≠ none))
    (hentries : s₁.entries = s.entries) :
    Takable options s (edit :: edits) ↔ Takable options s₁ edits := by
  constructor
  · intro htakable
    constructor
    · intro kind hcreates
      rw [hentries]
      exact htakable.named kind (h.createsUnnamed_cons kind |>.2 (Or.inr hcreates))
    · intro kind id entry hentry htouched
      rw [hentries] at hentry
      exact htakable.editable kind id entry hentry
        ((h.touched_cons kind id).2 (Or.inr htouched))
  · intro htakable
    constructor
    · intro kind hcreates
      rcases (h.createsUnnamed_cons kind).1 hcreates with ⟨haccepted, hid⟩ | hlater
      · have hfound := (hrejected _ _ haccepted).1 rfl
        rwa [hid] at hfound
      · rw [← hentries]
        exact htakable.named kind hlater
    · intro kind id entry hentry htouched
      rcases (h.touched_cons kind id).1 htouched
        with ⟨action, haccepted, hne, rfl⟩ | hlater
      · have hnone := mt (hrejected _ _ haccepted).2 hne
        exact absurd (by rw [hentry]; exact Option.some_ne_none entry) hnone
      · rw [← hentries] at hentry
        exact htakable.editable kind id entry hentry hlater

/-- An edit that changes an entry needs one that passes the checks. -/
theorem EditStep.takable_changed
    (haccepted : Accepted options s edit action k) (hne : action ≠ .create)
    (hbefore : s.entries.lookup k (editId edit) = some before)
    (hat : ∀ after, s₁.entries.lookup k (editId edit) = some after →
      Editable k after)
    (hoff : ∀ kind id, ¬(k = kind ∧ editId edit = id) →
      s₁.entries.lookup kind id = s.entries.lookup kind id) :
    Takable options s (edit :: edits)
      ↔ Takable options s₁ edits ∧ Editable k before := by
  have hempty : ∀ kind,
      s₁.entries.lookup kind "" = s.entries.lookup kind "" := fun kind =>
    hoff kind "" fun hboth => haccepted.id_ne hne hboth.2
  constructor
  · intro htakable
    refine ⟨⟨?_, ?_⟩, ?_⟩
    · intro kind hcreates
      rw [hempty]
      exact htakable.named kind
        ((h.createsUnnamed_cons kind).2 (Or.inr hcreates))
    · intro kind id entry hentry htouched
      by_cases hplace : k = kind ∧ editId edit = id
      · obtain ⟨rfl, rfl⟩ := hplace
        exact hat entry hentry
      · rw [hoff kind id hplace] at hentry
        exact htakable.editable kind id entry hentry
          ((h.touched_cons kind id).2 (Or.inr htouched))
    · exact htakable.editable k _ before hbefore
        ((h.touched_cons k _).2 (Or.inl ⟨action, haccepted, hne, rfl⟩))
  · rintro ⟨htakable, heditable⟩
    constructor
    · intro kind hcreates
      rcases (h.createsUnnamed_cons kind).1 hcreates
        with ⟨haccepted', -⟩ | hlater
      · exact absurd (haccepted.unique haccepted').1 hne
      · rw [← hempty]
        exact htakable.named kind hlater
    · intro kind id entry hentry htouched
      by_cases hplace : k = kind ∧ editId edit = id
      · obtain ⟨rfl, rfl⟩ := hplace
        rw [hbefore] at hentry
        cases hentry
        exact heditable
      · rw [h.touched_off haccepted hplace] at htouched
        rw [← hoff kind id hplace] at hentry
        exact htakable.editable kind id entry hentry htouched

/-- An edit that creates an entry needs an id. -/
theorem EditStep.takable_created {after : HarnessEntry}
    (haccepted : Accepted options s edit .create k)
    (hbefore : s.entries.lookup k (editId edit) = none)
    (hafter : s₁.entries.lookup k (editId edit) = some after)
    (heditable : Editable k after)
    (hoff : ∀ kind id, ¬(k = kind ∧ editId edit = id) →
      s₁.entries.lookup kind id = s.entries.lookup kind id) :
    Takable options s (edit :: edits)
      ↔ Takable options s₁ edits ∧ editId edit ≠ "" := by
  constructor
  · intro htakable
    have hid : editId edit ≠ "" := by
      intro hid
      rw [hid] at hbefore
      exact htakable.named k
        ((h.createsUnnamed_cons k).2 (Or.inl ⟨haccepted, hid⟩)) hbefore
    refine ⟨⟨?_, ?_⟩, hid⟩
    · intro kind hcreates
      rw [hoff kind "" fun hboth => hid hboth.2]
      exact htakable.named kind
        ((h.createsUnnamed_cons kind).2 (Or.inr hcreates))
    · intro kind id entry hentry htouched
      by_cases hplace : k = kind ∧ editId edit = id
      · obtain ⟨rfl, rfl⟩ := hplace
        rw [hafter] at hentry
        cases hentry
        exact heditable
      · rw [hoff kind id hplace] at hentry
        exact htakable.editable kind id entry hentry
          ((h.touched_cons kind id).2 (Or.inr htouched))
  · rintro ⟨htakable, hid⟩
    constructor
    · intro kind hcreates
      rcases (h.createsUnnamed_cons kind).1 hcreates
        with ⟨-, hempty⟩ | hlater
      · exact absurd hempty hid
      · rw [← hoff kind "" fun hboth => hid hboth.2]
        exact htakable.named kind hlater
    · intro kind id entry hentry htouched
      by_cases hplace : k = kind ∧ editId edit = id
      · obtain ⟨rfl, rfl⟩ := hplace
        rw [hbefore] at hentry
        cases hentry
      · rw [h.touched_off haccepted hplace] at htouched
        rw [← hoff kind id hplace] at hentry
        exact htakable.editable kind id entry hentry htouched

end

end

-- --------------------------------------------- what is put back, by cases

variable {entries : Entries}

section
variable {options rollbackOptions : ApplyOptions} {now rollbackNow : Nat → String}
  {s u : Application} {edit : RefinementEdit} {edits : List RefinementEdit}

/-- A run that took the edits back, where that can be done. -/
def Reverts (options rollbackOptions : ApplyOptions) (s : Application)
    (edits : List RefinementEdit) (u : Application) : Prop :=
  (AllApplied u ↔ Takable options s edits)
    ∧ (Takable options s edits →
      Undone options rollbackOptions s edits u.entries)

theorem EditStep.allApplied_before {t : String} {s₁ : Application}
    (h : EditStep options t s edit s₁) (hall : AllApplied s₁) :
    AllApplied s := by
  obtain ⟨record, hrecord⟩ := h.appliedEdits_eq
  intro r hr
  apply hall
  rw [hrecord]
  exact List.mem_append_left _ hr

theorem Deleted.touched (h : Deleted options s edits kind id) :
    Touched options s edits kind id := by
  obtain ⟨edit, hmem, haccepted, hid⟩ := h
  exact ⟨edit, hmem, .delete, haccepted, by decide, hid⟩

/-- What was put back elsewhere stays, and the entry itself is restored. -/
theorem Undone.cons {t : String} {s₁ : Application} {entries' : Entries}
    (hundone : Undone options rollbackOptions s₁ edits entries)
    (h : EditStep options t s edit s₁)
    (haccepted : Accepted options s edit action k)
    (hoff : ∀ kind id, ¬(k = kind ∧ editId edit = id) →
      s₁.entries.lookup kind id = s.entries.lookup kind id
        ∧ entries'.lookup kind id = entries.lookup kind id)
    (habsent : s.entries.lookup k (editId edit) = none →
      entries'.lookup k (editId edit) = none)
    (hrestored : ∀ before, s.entries.lookup k (editId edit) = some before →
      action ≠ .create
      ∧ ∃ entry', entries'.lookup k (editId edit) = some entry'
        ∧ SameBody entry' before ∧ entry'.id = editId edit
        ∧ (Deleted options s (edit :: edits) k (editId edit) →
          entry'.scope = some (rollbackOptions.scope.getD .localScope))
        ∧ (¬Deleted options s (edit :: edits) k (editId edit) →
          entry'.scope
            = some (before.scope.getD (options.scope.getD .localScope)))) :
    Undone options rollbackOptions s (edit :: edits) entries' := by
  constructor
  · intro kind id hnone
    by_cases hplace : k = kind ∧ editId edit = id
    · obtain ⟨rfl, rfl⟩ := hplace
      exact habsent hnone
    · obtain ⟨hbefore, hafter⟩ := hoff kind id hplace
      rw [hafter]
      exact hundone.absent kind id (hbefore.trans hnone)
  · intro kind id entry hentry huntouched
    by_cases hplace : k = kind ∧ editId edit = id
    · obtain ⟨rfl, rfl⟩ := hplace
      exact absurd ((h.touched_cons _ _).2
        (Or.inl ⟨action, haccepted, (hrestored entry hentry).1, rfl⟩))
        huntouched
    · obtain ⟨hbefore, hafter⟩ := hoff kind id hplace
      rw [h.touched_off haccepted hplace] at huntouched
      rw [hafter]
      exact hundone.untouched kind id entry (hbefore.trans hentry) huntouched
  · intro kind id entry hentry htouched
    by_cases hplace : k = kind ∧ editId edit = id
    · obtain ⟨rfl, rfl⟩ := hplace
      exact (hrestored entry hentry).2
    · obtain ⟨hbefore, hafter⟩ := hoff kind id hplace
      rw [h.touched_off haccepted hplace] at htouched
      rw [hafter, h.deleted_off haccepted hplace]
      exact hundone.touched kind id entry (hbefore.trans hentry) htouched

theorem Reverts.rejected {t : String} {s₁ : Application}
    (hreverts : Reverts options rollbackOptions s₁ edits u)
    (h : EditStep options t s edit s₁)
    (hrejected : ∀ action kind, Accepted options s edit action kind →
      (action = .create ↔ s.entries.lookup kind (editId edit) ≠ none))
    (hentries : s₁.entries = s.entries) :
    Reverts options rollbackOptions s (edit :: edits) u := by
  have htakable : Takable options s (edit :: edits)
      ↔ Takable options s₁ edits := h.takable_rejected hrejected hentries
  refine ⟨hreverts.1.trans htakable.symm, fun htake => ?_⟩
  have hundone := hreverts.2 (htakable.1 htake)
  -- a rejected edit touches nothing that is there
  have htouched : ∀ kind id entry, s.entries.lookup kind id = some entry →
      (Touched options s (edit :: edits) kind id
        ↔ Touched options s₁ edits kind id) := by
    intro kind id entry hentry
    rw [h.touched_cons]
    apply or_iff_right
    rintro ⟨action, haccepted, hne, rfl⟩
    apply hne
    apply (hrejected action kind haccepted).2
    rw [hentry]
    exact Option.some_ne_none entry
  have hdeleted : ∀ kind id entry, s.entries.lookup kind id = some entry →
      (Deleted options s (edit :: edits) kind id
        ↔ Deleted options s₁ edits kind id) := by
    intro kind id entry hentry
    rw [h.deleted_cons]
    apply or_iff_right
    rintro ⟨haccepted, rfl⟩
    have hcreate : RefinementAction.delete = .create := by
      apply (hrejected .delete kind haccepted).2
      rw [hentry]
      exact Option.some_ne_none entry
    cases hcreate
  constructor
  · intro kind id hnone
    exact hundone.absent kind id (by rw [hentries, hnone])
  · intro kind id entry hentry huntouched
    rw [htouched kind id entry hentry] at huntouched
    exact hundone.untouched kind id entry (by rw [hentries, hentry]) huntouched
  · intro kind id entry hentry hyes
    rw [htouched kind id entry hentry] at hyes
    rw [hdeleted kind id entry hentry]
    exact hundone.touched kind id entry (by rw [hentries, hentry]) hyes

/-- Restoring the entry that the first edit changed. -/
theorem Reverts.changed {t : String} {s₁ : Application}
    {undoAction : RefinementAction}
    (hreverts : Reverts options rollbackOptions s₁ edits u)
    (hquiet : Quiet rollbackOptions u)
    (h : EditStep options t s edit s₁)
    (haccepted : Accepted options s edit action k) (hne : action ≠ .create)
    (hbefore : s.entries.lookup k (editId edit) = some before)
    (hat : ∀ after, s₁.entries.lookup k (editId edit) = some after →
      Editable k after)
    (hoff : ∀ kind id, ¬(k = kind ∧ editId edit = id) →
      s₁.entries.lookup kind id = s.entries.lookup kind id)
    (hundo : undoAction ≠ .delete)
    (hfits : Takable options s₁ edits →
      (undoAction = .create ↔ u.entries.lookup k (editId edit) = none))
    (hscope : Takable options s₁ edits →
      (Deleted options s (edit :: edits) k (editId edit) →
        (((u.entries.lookup k (editId edit)).bind (·.scope)).or
          rollbackOptions.scope).getD .localScope
            = rollbackOptions.scope.getD .localScope)
      ∧ (¬Deleted options s (edit :: edits) k (editId edit) →
        (((u.entries.lookup k (editId edit)).bind (·.scope)).or
          rollbackOptions.scope).getD .localScope
            = before.scope.getD (options.scope.getD .localScope))) :
    Reverts options rollbackOptions s (edit :: edits)
      (applyEdit rollbackOptions rollbackNow u
        (restoring targetId undoAction edit.kind (editId edit) before)) := by
  have htakable : Takable options s (edit :: edits)
      ↔ Takable options s₁ edits ∧ Editable k before :=
    h.takable_changed haccepted hne hbefore hat hoff
  by_cases hlater : Takable options s₁ edits
  · have hpasses := haccepted.passes
    obtain ⟨hall, hwritten⟩ := applyEdit_restoring rollbackNow hquiet
      hpasses.hasKind (fun hprompt => (hpasses.notBase hprompt).2)
      (fun _ => haccepted.id_ne hne) hundo (hfits hlater)
    constructor
    · rw [hall, htakable, hreverts.1]
    · intro htake
      obtain ⟨t', hentries⟩ := hwritten (htakable.1 htake).2
      have hself : (applyEdit rollbackOptions rollbackNow u
            (restoring targetId undoAction edit.kind (editId edit)
              before)).entries.lookup k (editId edit)
          = some (writtenEntry rollbackOptions t'
              (restoring targetId undoAction edit.kind (editId edit) before) k
              (editId edit) (u.entries.lookup k (editId edit))) := by
        rw [hentries, lookup_set, if_pos ⟨rfl, rfl⟩]
      apply (hreverts.2 hlater).cons h haccepted
      · intro kind id hplace
        refine ⟨hoff kind id hplace, ?_⟩
        rw [hentries, lookup_set, if_neg hplace]
      · intro hnone
        rw [hbefore] at hnone
        cases hnone
      · intro entry hentry
        rw [hbefore] at hentry
        cases hentry
        refine ⟨hne, _, hself, ⟨rfl, rfl, rfl, rfl, rfl, rfl⟩, rfl, ?_, ?_⟩
        · intro hdeleted
          exact congrArg some ((hscope hlater).1 hdeleted)
        · intro hdeleted
          exact congrArg some ((hscope hlater).2 hdeleted)
  · constructor
    · constructor
      · intro hall
        have hbeforeAll := (editStep rollbackOptions rollbackNow u
          _).allApplied_before hall
        exact absurd (hreverts.1.1 hbeforeAll) hlater
      · exact fun htake => absurd (htakable.1 htake).1 hlater
    · exact fun htake => absurd (htakable.1 htake).1 hlater

/-- Deleting the entry that the first edit created. -/
theorem Reverts.created {t : String} {s₁ : Application}
    {after : HarnessEntry}
    (hreverts : Reverts options rollbackOptions s₁ edits u)
    (hquiet : Quiet rollbackOptions u)
    (h : EditStep options t s edit s₁)
    (haccepted : Accepted options s edit .create k)
    (hbefore : s.entries.lookup k (editId edit) = none)
    (hafter : s₁.entries.lookup k (editId edit) = some after)
    (heditable : Editable k after)
    (hoff : ∀ kind id, ¬(k = kind ∧ editId edit = id) →
      s₁.entries.lookup kind id = s.entries.lookup kind id) :
    Reverts options rollbackOptions s (edit :: edits)
      (applyEdit rollbackOptions rollbackNow u
        (removing targetId edit.kind (editId edit))) := by
  have htakable : Takable options s (edit :: edits)
      ↔ Takable options s₁ edits ∧ editId edit ≠ "" :=
    h.takable_created haccepted hbefore hafter heditable hoff
  by_cases hlater : Takable options s₁ edits
  · have hundone := hreverts.2 hlater
    have hfound : u.entries.lookup k (editId edit) ≠ none := by
      by_cases htouched : Touched options s₁ edits k (editId edit)
      · obtain ⟨entry, hentry, -⟩ := hundone.touched k _ after hafter htouched
        rw [hentry]
        exact Option.some_ne_none entry
      · rw [hundone.untouched k _ after hafter htouched]
        exact Option.some_ne_none after
    have hpasses := haccepted.passes
    obtain ⟨hall, hdeleted⟩ := applyEdit_removing rollbackNow hquiet
      hpasses.hasKind (fun hprompt => (hpasses.notBase hprompt).2) hfound
    constructor
    · rw [hall, htakable, hreverts.1]
    · intro htake
      rw [hdeleted (htakable.1 htake).2]
      apply hundone.cons h haccepted
      · intro kind id hplace
        refine ⟨hoff kind id hplace, ?_⟩
        rw [lookup_delete, if_neg hplace]
      · intro _
        rw [lookup_delete, if_pos ⟨rfl, rfl⟩]
      · intro entry hentry
        rw [hbefore] at hentry
        cases hentry
  · constructor
    · constructor
      · intro hall
        have hbeforeAll := (editStep rollbackOptions rollbackNow u
          _).allApplied_before hall
        exact absurd (hreverts.1.1 hbeforeAll) hlater
      · exact fun htake => absurd (htakable.1 htake).1 hlater
    · exact fun htake => absurd (htakable.1 htake).1 hlater

end

-- ======== the run

section
variable {options rollbackOptions : ApplyOptions}
  {now rollbackNow : Nat → String}

end

-- ======== rollback

section
variable {options rollbackOptions : ApplyOptions}

end

end OneHarness.Refinement
