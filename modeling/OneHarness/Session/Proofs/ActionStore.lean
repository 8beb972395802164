/-
No run of the store loses or doubles an action, if no foreign action with the
id of an owned one is released, and runs by priority keep the lanes in order
exactly if each enqueued action finds what is queued behind what is not
(`action_store_iff`).

Three kinds of steps: those that change lifecycles only (`Relabeled`), those
that put an action into a lane (`Inserted`), and those that take one out. A
lane with an action put in is a permutation of the action and the lane.
-/
import OneHarness.Session.ActionStore

namespace OneHarness.Session.Actions

open Lib ActionStore

variable {s s' : ActionStore}

-- ======== the lanes

theorem list_setList (lane : List Ref) (policy policy' : DeliveryPolicy) :
    (s.setList lane policy).list policy'
      = if policy = policy' then lane else s.list policy' := by
  cases policy <;> cases policy' <;> rfl

variable {action : Ref}

theorem mem_ownedActions :
    action ∈ s.ownedActions ↔ ∃ policy, action ∈ s.list policy := by
  unfold ownedActions
  rw [List.mem_append]
  constructor
  · rintro (h | h)
    · exact ⟨.nextTurnBoundary, h⟩
    · exact ⟨.whenRunIdle, h⟩
  · rintro ⟨policy, h⟩
    cases policy with
    | nextTurnBoundary => exact .inl h
    | whenRunIdle => exact .inr h

section
variable (h : Kept s)

include h

theorem lane_nodup (policy : DeliveryPolicy) : (s.list policy).Nodup := by
  have honce := List.nodup_append.1 h.once
  cases policy with
  | nextTurnBoundary => exact honce.1
  | whenRunIdle => exact honce.2.1

end

/-- The lanes are disjoint as far as each has its own delivery. -/
theorem owned_nodup (hnodup : ∀ policy, (s.list policy).Nodup)
    (hdelivery : ∀ policy, ∀ action ∈ s.list policy,
      (s.actions action).delivery = policy) : s.ownedActions.Nodup := by
  apply List.nodup_append.2
  refine ⟨hnodup .nextTurnBoundary, hnodup .whenRunIdle, ?_⟩
  rintro action hnext _ hidle rfl
  have hboth := (hdelivery .nextTurnBoundary action hnext).symm.trans
    (hdelivery .whenRunIdle action hidle)
  cases hboth

/-- The same actions are owned, with the same ids and tickets. -/
theorem Kept.of_same_owned (h : Kept s)
    (hnodup : ∀ policy, (s'.list policy).Nodup)
    (hdelivery : ∀ policy, ∀ action ∈ s'.list policy,
      (s'.actions action).delivery = policy)
    (howned : ∀ action, action ∈ s'.ownedActions ↔ action ∈ s.ownedActions)
    (hids : ∀ action, (s'.actions action).id = (s.actions action).id)
    (htickets : s'.tickets = s.tickets) : Kept s' where
  once := owned_nodup hnodup hdelivery
  delivery := hdelivery
  distinct := by
    intro action hmem action' hmem' heq
    rw [hids, hids] at heq
    exact h.distinct action ((howned action).1 hmem) action'
      ((howned action').1 hmem') heq
  tickets := by
    intro id
    rw [htickets, h.tickets]
    constructor
    · rintro ⟨action, hmem, hid⟩
      exact ⟨action, (howned action).2 hmem, (hids action).trans hid⟩
    · rintro ⟨action, hmem, hid⟩
      exact ⟨action, (howned action).1 hmem, (hids action).symm.trans hid⟩

-- ======== the lifecycles

/-- Only lifecycles have changed, and none from a terminal one. -/
structure Relabeled (s s' : ActionStore) : Prop where
  lanes : ∀ policy, s'.list policy = s.list policy
  tickets : s'.tickets = s.tickets
  id : ∀ action, (s'.actions action).id = (s.actions action).id
  delivery : ∀ action, (s'.actions action).delivery = (s.actions action).delivery
  rank : ∀ action, (s'.actions action).rank = (s.actions action).rank
  terminal : ∀ action, terminal (s.actions action).state →
    (s'.actions action).state = (s.actions action).state

theorem Relabeled.refl (s : ActionStore) : Relabeled s s :=
  ⟨fun _ => rfl, rfl, fun _ => rfl, fun _ => rfl, fun _ => rfl, fun _ _ => rfl⟩

theorem Relabeled.trans {s'' : ActionStore} (h : Relabeled s s')
    (h' : Relabeled s' s'') : Relabeled s s'' where
  lanes := fun policy => (h'.lanes policy).trans (h.lanes policy)
  tickets := h'.tickets.trans h.tickets
  id := fun action => (h'.id action).trans (h.id action)
  delivery := fun action => (h'.delivery action).trans (h.delivery action)
  rank := fun action => (h'.rank action).trans (h.rank action)
  terminal := by
    intro action hterminal
    have hstate := h.terminal action hterminal
    rw [← hstate] at hterminal ⊢
    exact h'.terminal action hterminal

theorem Relabeled.owned (h : Relabeled s s') :
    s'.ownedActions = s.ownedActions := by
  unfold ownedActions
  rw [show s'.nextTurnBoundary = s.nextTurnBoundary from h.lanes .nextTurnBoundary,
    show s'.whenRunIdle = s.whenRunIdle from h.lanes .whenRunIdle]

theorem Relabeled.kept (h : Relabeled s s') (hkept : Kept s) : Kept s' := by
  apply hkept.of_same_owned
  · intro policy
    rw [h.lanes]
    exact lane_nodup hkept policy
  · intro policy action hmem
    rw [h.lanes] at hmem
    rw [h.delivery]
    exact hkept.delivery policy action hmem
  · intro action
    rw [h.owned]
  · exact h.id
  · exact h.tickets

variable {next : ActionLifecycle} {rollbackProof : Option RollbackProof}

theorem transitionSessionAction_ok {action value : SessionAction}
    (h : transitionSessionAction action next rollbackProof = .ok value) :
    value = { action with lifecycle := next }
      ∧ next.state ∈ legalTransitions action.state := by
  simp only [transitionSessionAction] at h
  by_cases hlegal : next.state ∉ legalTransitions action.state
  · rw [if_pos hlegal] at h
    cases h
  · rw [if_neg hlegal] at h
    refine ⟨?_, not_not.1 hlegal⟩
    by_cases hrollback : action.state = .committing ∧ next.state = .queued
    · rw [if_pos hrollback] at h
      cases rollbackProof with
      | none => cases h
      | some proof =>
        dsimp only at h
        split at h
        · cases h
        · split at h
          · cases h
          · exact (Except.ok.inj h).symm
    · rw [if_neg hrollback] at h
      exact (Except.ok.inj h).symm

theorem legalTransitions_of_terminal {state : ActionState}
    (h : terminal state) : legalTransitions state = [] := by
  cases state <;> first | rfl | cases h

/-- A transition gives an action that is not done its new lifecycle. -/
theorem transition_ok (h : s.transition action next rollbackProof = .ok s') :
    s' = s.setAction action { s.actions action with lifecycle := next }
      ∧ ¬ terminal (s.actions action).state := by
  unfold transition at h
  cases hvalue : transitionSessionAction (s.actions action) next rollbackProof with
  | error message =>
    rw [hvalue] at h
    cases h
  | ok value =>
    rw [hvalue] at h
    obtain ⟨rfl, hlegal⟩ := transitionSessionAction_ok hvalue
    refine ⟨(Except.ok.inj h).symm, ?_⟩
    intro hterminal
    rw [legalTransitions_of_terminal hterminal] at hlegal
    exact List.not_mem_nil hlegal

theorem transition_relabeled
    (h : s.transition action next rollbackProof = .ok s') : Relabeled s s' := by
  obtain ⟨rfl, hlive⟩ := transition_ok h
  have hactions : ∀ r,
      ((s.setAction action { s.actions action with lifecycle := next }).actions r)
        = if r = action then { s.actions action with lifecycle := next }
          else s.actions r := fun _ => rfl
  constructor
  · intro policy
    cases policy <;> rfl
  · rfl
  · intro r
    rw [hactions]
    split
    · rename_i heq
      rw [heq]
    · rfl
  · intro r
    rw [hactions]
    split
    · rename_i heq
      rw [heq]
    · rfl
  · intro r
    rw [hactions]
    split
    · rename_i heq
      rw [heq]
      rfl
    · rfl
  · intro r hterminal
    rw [hactions, if_neg]
    rintro rfl
    exact hlive hterminal

/-- No action is queued that was not. -/
def NoneRequeued (s s' : ActionStore) : Prop :=
  ∀ action, s'.isQueued action → s.isQueued action

theorem transition_none_requeued (hnext : next.state ≠ .queued)
    (h : s.transition action next rollbackProof = .ok s') : NoneRequeued s s' := by
  obtain ⟨rfl, -⟩ := transition_ok h
  intro r hqueued
  unfold isQueued at hqueued ⊢
  by_cases hr : r = action
  · exfalso
    apply hnext
    have hstate := of_decide_eq_true hqueued
    rw [show (s.setAction action { s.actions action with lifecycle := next }).actions
      r = { s.actions action with lifecycle := next } from if_pos hr] at hstate
    exact hstate
  · rw [show (s.setAction action { s.actions action with lifecycle := next }).actions
      r = s.actions r from if_neg hr] at hqueued
    exact hqueued

theorem cancelAll_relabeled (candidates : List Ref) :
    ∀ s : ActionStore, Relabeled s (s.cancelAll candidates).1
      ∧ NoneRequeued s (s.cancelAll candidates).1 := by
  induction candidates with
  | nil => exact fun s => ⟨.refl s, fun _ h => h⟩
  | cons action rest ih =>
    intro s
    unfold cancelAll
    cases hstep : s.transition action .cancelled none with
    | error message => exact ⟨.refl s, fun _ h => h⟩
    | ok s' =>
      obtain ⟨hrest, hnone⟩ := ih s'
      have hcancelled := transition_none_requeued (fun h => by cases h) hstep
      exact ⟨(transition_relabeled hstep).trans hrest,
        fun action h => hcancelled action (hnone action h)⟩

-- ======== insertion

/-- An action is put into a lane. -/
theorem inserted_perm (lane : List Ref) (index : Nat) (action : Ref) :
    (lane.take index ++ action :: lane.drop index).Perm (action :: lane) := by
  have hsplit : (lane.take index ++ lane.drop index).Perm lane := by
    rw [List.take_append_drop]
  exact List.perm_middle.trans (hsplit.cons action)

variable {placement : SessionActionPlacement}

section
variable (h : s.enqueue action placement = .ok s')
include h

/-- What `enqueue` does, if it does not throw. -/
theorem enqueue_ok :
    (s.actions action).state = .queued
      ∧ (s.actions action).id ∉ s.tickets.keys
      ∧ s'.actions = s.actions
      ∧ s'.tickets = s.tickets.set (s.actions action).id
        ⟨(s.actions action).id⟩
      ∧ ∀ policy, s'.list policy =
        if (s.actions action).delivery = policy then
          let lane := s.list policy
          let index := s.insertionIndex lane action placement
          lane.take index ++ action :: lane.drop index
        else s.list policy := by
  simp only [enqueue] at h
  by_cases hqueued : (s.actions action).state ≠ .queued
  · rw [if_pos hqueued] at h
    cases h
  · rw [if_neg hqueued] at h
    by_cases hticket : s.tickets.has (s.actions action).id
    · rw [if_pos hticket] at h
      cases h
    · rw [if_neg hticket] at h
      rw [← Except.ok.inj h]
      refine ⟨not_not.1 hqueued, fun hmem => hticket
        (JsMap.has_eq_true_iff.2 hmem), ?_, rfl, ?_⟩
      · cases (s.actions action).delivery <;> rfl
      · intro policy
        cases hdelivery : (s.actions action).delivery <;> cases policy <;> rfl

theorem enqueue_perm :
    (s'.list (s.actions action).delivery).Perm
        (action :: s.list (s.actions action).delivery)
      ∧ ∀ policy, (s.actions action).delivery ≠ policy →
        s'.list policy = s.list policy := by
  obtain ⟨-, -, -, -, hlanes⟩ := enqueue_ok h
  constructor
  · rw [hlanes, if_pos rfl]
    exact inserted_perm _ _ _
  · intro policy hne
    rw [hlanes, if_neg hne]

theorem enqueue_owned (action' : Ref) :
    action' ∈ s'.ownedActions ↔ action' = action ∨ action' ∈ s.ownedActions := by
  obtain ⟨hperm, hother⟩ := enqueue_perm h
  rw [mem_ownedActions, mem_ownedActions]
  constructor
  · rintro ⟨policy, hmem⟩
    by_cases hpolicy : (s.actions action).delivery = policy
    · rw [← hpolicy] at hmem
      rcases List.mem_cons.1 (hperm.subset hmem) with heq | hmem
      · exact .inl heq
      · exact .inr ⟨_, hmem⟩
    · rw [hother policy hpolicy] at hmem
      exact .inr ⟨policy, hmem⟩
  · rintro (rfl | ⟨policy, hmem⟩)
    · exact ⟨_, hperm.symm.subset List.mem_cons_self⟩
    · refine ⟨policy, ?_⟩
      by_cases hpolicy : (s.actions action).delivery = policy
      · rw [← hpolicy] at hmem ⊢
        exact hperm.symm.subset (List.mem_cons_of_mem _ hmem)
      · rw [hother policy hpolicy]
        exact hmem

end

theorem enqueue_kept (hkept : Kept s)
    (h : s.enqueue action placement = .ok s') : Kept s' := by
  obtain ⟨-, hfree, hactions, htickets, -⟩ := enqueue_ok h
  obtain ⟨hperm, hother⟩ := enqueue_perm h
  have howned := enqueue_owned h
  have hnew : ∀ action' ∈ s.ownedActions,
      (s.actions action').id ≠ (s.actions action).id := fun action' hmem heq =>
    hfree ((hkept.tickets _).2 ⟨action', hmem, heq⟩)
  have hout : ∀ policy, action ∉ s.list policy := fun policy hmem =>
    hnew action (mem_ownedActions.2 ⟨policy, hmem⟩) rfl
  have hdelivery : ∀ policy, ∀ action' ∈ s'.list policy,
      (s'.actions action').delivery = policy := by
    intro policy action' hmem
    rw [hactions]
    by_cases hpolicy : (s.actions action).delivery = policy
    · rw [← hpolicy] at hmem ⊢
      rcases List.mem_cons.1 (hperm.subset hmem) with rfl | hmem
      · rfl
      · exact hkept.delivery _ action' hmem
    · rw [hother policy hpolicy] at hmem
      exact hkept.delivery policy action' hmem
  constructor
  · apply owned_nodup _ hdelivery
    intro policy
    by_cases hpolicy : (s.actions action).delivery = policy
    · rw [← hpolicy]
      apply hperm.nodup_iff.2
      exact List.nodup_cons.2 ⟨hout _, lane_nodup hkept _⟩
    · rw [hother policy hpolicy]
      exact lane_nodup hkept policy
  · exact hdelivery
  · intro a ha b hb hid
    rw [hactions] at hid
    rcases (howned a).1 ha with rfl | ha
    · rcases (howned b).1 hb with rfl | hb
      · rfl
      · exact absurd hid.symm (hnew b hb)
    · rcases (howned b).1 hb with rfl | hb
      · exact absurd hid (hnew a ha)
      · exact hkept.distinct a ha b hb hid
  · intro id
    rw [htickets, JsMap.keys_set, if_neg hfree, List.mem_append,
      List.mem_singleton, hkept.tickets, hactions]
    constructor
    · rintro (⟨action', hmem, hid⟩ | rfl)
      · exact ⟨action', (howned action').2 (.inr hmem), hid⟩
      · exact ⟨action, (howned action).2 (.inl rfl), rfl⟩
    · rintro ⟨action', hmem, hid⟩
      rcases (howned action').1 hmem with rfl | hmem
      · exact .inr hid.symm
      · exact .inl ⟨action', hmem, hid⟩

-- ======== release

theorem releaseTerminal_ok (h : s.releaseTerminal action = .ok s') :
    terminal (s.actions action).state
      ∧ s'.actions = s.actions
      ∧ s'.tickets = s.tickets.delete (s.actions action).id
      ∧ ∀ policy, s'.list policy =
        if (s.actions action).delivery = policy then (s.list policy).erase action
        else s.list policy := by
  simp only [releaseTerminal] at h
  by_cases hterminal : terminal (s.actions action).state
  · rw [if_neg (not_not.2 hterminal)] at h
    rw [← Except.ok.inj h]
    refine ⟨hterminal, ?_, rfl, ?_⟩
    · cases (s.actions action).delivery <;> rfl
    · intro policy
      cases hdelivery : (s.actions action).delivery <;> cases policy <;> rfl
  · rw [if_pos hterminal] at h
    cases h

theorem release_owned (hkept : Kept s)
    (h : s.releaseTerminal action = .ok s') (action' : Ref) :
    action' ∈ s'.ownedActions ↔ action' ≠ action ∧ action' ∈ s.ownedActions := by
  obtain ⟨-, -, -, hlanes⟩ := releaseTerminal_ok h
  rw [mem_ownedActions, mem_ownedActions]
  constructor
  · rintro ⟨policy, hmem⟩
    rw [hlanes] at hmem
    by_cases hpolicy : (s.actions action).delivery = policy
    · rw [if_pos hpolicy] at hmem
      obtain ⟨hne, hmem⟩ := (lane_nodup hkept policy).mem_erase_iff.1 hmem
      exact ⟨hne, policy, hmem⟩
    · rw [if_neg hpolicy] at hmem
      refine ⟨?_, policy, hmem⟩
      rintro rfl
      exact hpolicy (hkept.delivery policy action' hmem)
  · rintro ⟨hne, policy, hmem⟩
    refine ⟨policy, ?_⟩
    rw [hlanes]
    by_cases hpolicy : (s.actions action).delivery = policy
    · rw [if_pos hpolicy]
      exact (List.mem_erase_of_ne hne).2 hmem
    · rw [if_neg hpolicy]
      exact hmem

/-- A release takes an action and its ticket: no ticket of another action. -/
theorem release_kept_iff (hkept : Kept s)
    (h : s.releaseTerminal action = .ok s') :
    Kept s' ↔ action ∈ s.ownedActions
      ∨ ∀ action' ∈ s.ownedActions,
        (s.actions action').id ≠ (s.actions action).id := by
  obtain ⟨-, hactions, htickets, hlanes⟩ := releaseTerminal_ok h
  have howned := release_owned hkept h
  constructor
  · intro hkept'
    by_contra hnot
    obtain ⟨hout, hshared⟩ := not_or.1 hnot
    apply hshared
    intro action' hmem hid
    have hne : action' ≠ action := fun heq => hout (heq ▸ hmem)
    have hticket := (hkept'.tickets (s.actions action).id).2
      ⟨action', (howned action').2 ⟨hne, hmem⟩, by rw [hactions]; exact hid⟩
    rw [htickets, JsMap.mem_keys_delete] at hticket
    exact hticket.2 rfl
  · intro hsafe
    have hother : ∀ action' ∈ s.ownedActions, action' ≠ action →
        (s.actions action').id ≠ (s.actions action).id := by
      intro action' hmem hne hid
      rcases hsafe with howns | hnone
      · exact hne (hkept.distinct action' hmem action howns hid)
      · exact hnone action' hmem hid
    have hsub : ∀ policy, (s'.list policy).Sublist (s.list policy) := by
      intro policy
      rw [hlanes]
      split
      · exact List.erase_sublist
      · exact List.Sublist.refl _
    have hdelivery : ∀ policy, ∀ action' ∈ s'.list policy,
        (s'.actions action').delivery = policy := by
      intro policy action' hmem
      rw [hactions]
      exact hkept.delivery policy action' ((hsub policy).subset hmem)
    constructor
    · exact owned_nodup (fun policy => (lane_nodup hkept policy).sublist
        (hsub policy)) hdelivery
    · exact hdelivery
    · intro a ha b hb hid
      rw [hactions] at hid
      exact hkept.distinct a ((howned a).1 ha).2 b ((howned b).1 hb).2 hid
    · intro id
      rw [htickets, JsMap.mem_keys_delete, hkept.tickets, hactions]
      constructor
      · rintro ⟨⟨action', hmem, rfl⟩, hne⟩
        exact ⟨action', (howned action').2 ⟨fun heq => hne (heq ▸ rfl), hmem⟩,
          rfl⟩
      · rintro ⟨action', hmem, rfl⟩
        obtain ⟨hne, hmem⟩ := (howned action').1 hmem
        exact ⟨⟨action', hmem, rfl⟩, hother action' hmem hne⟩

-- ======== swaps and moves

theorem swapQueued_ok {left right : Ref} (h : s.swapQueued left right = .ok s') :
    s'.actions = s.actions ∧ s'.tickets = s.tickets
      ∧ ∀ policy, (s'.list policy).Perm (s.list policy) := by
  simp only [swapQueued] at h
  split at h
  · cases h
  · split at h
    · cases h
    · rename_i hmem
      obtain ⟨hleft, hright⟩ := not_or.1 hmem
      rw [← Except.ok.inj h]
      refine ⟨by cases (s.actions left).delivery <;> rfl,
        by cases (s.actions left).delivery <;> rfl, fun policy => ?_⟩
      rw [list_setList]
      split
      · rename_i hpolicy
        rw [← hpolicy]
        have hi := List.idxOf_lt_length_of_mem (not_not.1 hleft)
        have hj := List.idxOf_lt_length_of_mem (not_not.1 hright)
        have hperm := List.set_set_perm hi hj
        rw [List.getElem_idxOf, List.getElem_idxOf] at hperm
        exact hperm
      · exact List.Perm.refl _

theorem swap_kept (hkept : Kept s) {left right : Ref}
    (h : s.swapQueued left right = .ok s') : Kept s' := by
  obtain ⟨hactions, htickets, hperm⟩ := swapQueued_ok h
  apply hkept.of_same_owned
  · intro policy
    exact (hperm policy).nodup_iff.2 (lane_nodup hkept policy)
  · intro policy action hmem
    rw [hactions]
    exact hkept.delivery policy action ((hperm policy).subset hmem)
  · intro action
    rw [mem_ownedActions, mem_ownedActions]
    exact exists_congr fun policy => (hperm policy).mem_iff
  · intro action
    rw [hactions]
  · exact htickets

variable {delivery : DeliveryPolicy} {index : Option Rat}

/-- A move takes an action out of its lane and puts it into one. -/
theorem moveQueued_ok (h : s.moveQueued action delivery index = .ok s') :
    action ∈ s.list (s.actions action).delivery
      ∧ (∀ r, s'.actions r =
        if r = action then { s.actions action with delivery := delivery }
        else s.actions r)
      ∧ s'.tickets = s.tickets
      ∧ ∀ policy, (s'.list policy).Perm
        (let taken :=
          if (s.actions action).delivery = policy then
            (s.list policy).erase action
          else s.list policy
        if delivery = policy then action :: taken else taken) := by
  simp only [moveQueued] at h
  split at h
  · cases h
  · split at h
    · cases h
    · rename_i hmem
      rw [← Except.ok.inj h]
      refine ⟨not_not.1 hmem, fun r => ?_, ?_, fun policy => ?_⟩
      · cases delivery <;> cases hdelivery : (s.actions action).delivery <;> rfl
      · cases delivery <;> cases hdelivery : (s.actions action).delivery <;> rfl
      · rw [list_setList]
        have htaken : ((s.setList ((s.list (s.actions action).delivery).erase
            action) (s.actions action).delivery).setAction action
              { s.actions action with delivery := delivery }).list policy
            = if (s.actions action).delivery = policy then
                (s.list policy).erase action
              else s.list policy := by
          cases hdelivery : (s.actions action).delivery <;> cases policy <;> rfl
        dsimp only
        split
        · rename_i hpolicy
          subst hpolicy
          rw [← htaken]
          exact inserted_perm _ _ _
        · rw [htaken]

theorem move_permutes (h : s.moveQueued action delivery index = .ok s') :
    s'.ownedActions.Perm s.ownedActions
      ∧ ((s.actions action).delivery = delivery →
        ∀ policy, (s'.list policy).Perm (s.list policy)) := by
  obtain ⟨hmem, -, -, hlanes⟩ := moveQueued_ok h
  have hsame : (s.actions action).delivery = delivery →
      ∀ policy, (s'.list policy).Perm (s.list policy) := by
    intro heq policy
    have hlane := hlanes policy
    rw [heq] at hlane hmem
    by_cases hpolicy : delivery = policy
    · rw [if_pos hpolicy, if_pos hpolicy] at hlane
      rw [hpolicy] at hmem
      exact hlane.trans (List.perm_cons_erase hmem).symm
    · rw [if_neg hpolicy, if_neg hpolicy] at hlane
      exact hlane
  refine ⟨?_, hsame⟩
  by_cases heq : (s.actions action).delivery = delivery
  · exact (hsame heq .nextTurnBoundary).append (hsame heq .whenRunIdle)
  · have hnext := hlanes .nextTurnBoundary
    have hidle := hlanes .whenRunIdle
    cases hdelivery : (s.actions action).delivery with
    | nextTurnBoundary =>
      rw [hdelivery] at hmem hnext hidle heq
      cases delivery with
      | nextTurnBoundary => exact absurd rfl heq
      | whenRunIdle =>
        have hback := List.perm_cons_erase (show action ∈ s.nextTurnBoundary
          from hmem)
        exact (hnext.append hidle).trans (List.perm_middle.trans
          (hback.symm.append_right s.whenRunIdle))
    | whenRunIdle =>
      rw [hdelivery] at hmem hnext hidle heq
      cases delivery with
      | nextTurnBoundary =>
        have hback := List.perm_cons_erase (show action ∈ s.whenRunIdle
          from hmem)
        exact (hnext.append hidle).trans (List.perm_middle.symm.trans
          (hback.symm.append_left s.nextTurnBoundary))
      | whenRunIdle => exact absurd rfl heq

theorem move_kept (hkept : Kept s)
    (h : s.moveQueued action delivery index = .ok s') :
    Kept s' := by
  obtain ⟨hmem, hactions, htickets, hlanes⟩ := moveQueued_ok h
  obtain ⟨hpermutes, -⟩ := move_permutes h
  have hnodup : s'.ownedActions.Nodup := hpermutes.nodup_iff.2 hkept.once
  have hlane : ∀ policy, (s'.list policy).Nodup := by
    intro policy
    have honce := List.nodup_append.1 hnodup
    cases policy with
    | nextTurnBoundary => exact honce.1
    | whenRunIdle => exact honce.2.1
  apply hkept.of_same_owned hlane
  · intro policy action' hmem'
    rw [hactions]
    have hin := (hlanes policy).subset hmem'
    dsimp only at hin
    by_cases hmoved : action' = action
    · rw [if_pos hmoved]
      subst hmoved
      by_contra hne
      rw [if_neg hne] at hin
      by_cases hpolicy : (s.actions action').delivery = policy
      · rw [if_pos hpolicy] at hin
        exact ((lane_nodup hkept policy).mem_erase_iff.1 hin).1 rfl
      · rw [if_neg hpolicy] at hin
        exact hpolicy (hkept.delivery policy action' hin)
    · rw [if_neg hmoved]
      apply hkept.delivery policy action'
      have htaken : action' ∈ if (s.actions action).delivery = policy then
          (s.list policy).erase action else s.list policy := by
        by_cases hpolicy : delivery = policy
        · rw [if_pos hpolicy] at hin
          exact (List.mem_cons.1 hin).resolve_left hmoved
        · rw [if_neg hpolicy] at hin
          exact hin
      split at htaken
      · exact List.mem_of_mem_erase htaken
      · exact htaken
  · intro action'
    exact hpermutes.mem_iff
  · intro action'
    rw [hactions]
    split
    · rename_i heq
      rw [heq]
    · rfl
  · exact htickets

-- ======== every step

/-- What throws changes nothing, so what holds of each result holds. -/
theorem orElse_elim {P : ActionStore → Prop} {r : Except String ActionStore}
    (hsame : P s) (hok : ∀ s', r = .ok s' → P s') : P (orElse s r) := by
  cases r with
  | ok s' => exact hok s' rfl
  | error message => exact hsame

theorem step_permutes (w : World) (op : Op) :
    Permutes w.store (step w op).store op := by
  cases op with
  | swapQueued left right =>
    show ∀ policy, ((orElse w.store (w.store.swapQueued left right)).list
      policy).Perm (w.store.list policy)
    intro policy
    apply orElse_elim (P := fun s' => (s'.list policy).Perm (w.store.list policy))
    · exact List.Perm.refl _
    · intro s' h
      exact (swapQueued_ok h).2.2 policy
  | moveQueued action delivery index =>
    have hmove := orElse_elim (s := w.store)
      (r := w.store.moveQueued action delivery index)
      (P := fun s' => s'.ownedActions.Perm w.store.ownedActions
        ∧ ((w.store.actions action).delivery = delivery →
          ∀ policy, (s'.list policy).Perm (w.store.list policy)))
    exact hmove ⟨List.Perm.refl _, fun _ _ => List.Perm.refl _⟩
      fun s' h => move_permutes h
  | _ => exact trivial

theorem step_kept_iff {w : World} (hkept : Kept w.store) (op : Op) :
    Kept (step w op).store ↔ ReleasesOwned w op := by
  cases op with
  | enqueue action placement =>
    apply iff_of_true _ trivial
    simp only [step]
    cases h : w.store.enqueue action placement with
    | ok s' => exact enqueue_kept hkept h
    | error message => exact hkept
  | selectFirst =>
    apply iff_of_true _ trivial
    apply orElse_elim hkept
    intro s' h
    unfold selectFirst at h
    split at h
    · exact (transition_relabeled h).kept hkept
    · rw [← Except.ok.inj h]
      exact hkept
  | remove predicate candidates =>
    exact iff_of_true ((cancelAll_relabeled _ _).1.kept hkept) trivial
  | rollback action proof =>
    exact iff_of_true (orElse_elim hkept fun s' h =>
      (transition_relabeled h).kept hkept) trivial
  | swapQueued left right =>
    exact iff_of_true (orElse_elim hkept fun s' h => swap_kept hkept h) trivial
  | moveQueued action delivery index =>
    exact iff_of_true (orElse_elim hkept fun s' h => move_kept hkept h) trivial
  | transition action next rollbackProof =>
    exact iff_of_true (orElse_elim hkept fun s' h =>
      (transition_relabeled h).kept hkept) trivial
  | releaseTerminal action =>
    simp only [step, ReleasesOwned]
    cases h : w.store.releaseTerminal action with
    | ok s' =>
      have hterminal := (releaseTerminal_ok h).1
      rw [show orElse w.store (.ok s') = s' from rfl, release_kept_iff hkept h]
      exact ⟨fun hsafe _ => hsafe, fun hsafe => hsafe hterminal⟩
    | error message =>
      apply iff_of_true hkept
      intro hterminal
      exfalso
      simp only [releaseTerminal, hterminal, not_true_eq_false, if_false] at h
      cases h

end OneHarness.Session.Actions
