/-
No two follow-ups with one queue key are queued in any run in which no action
that is being committed is put back while another with its key is still to be
sent (`one_followUp_per_key`).

Coalescing looks for an owner that is queued, selected or being prepared: a
follow-up is pending in those states. No step makes an action pending that was
not, except an admission, which finds no pending owner of its key, and a
rollback of what is being committed, which looks for none.
-/
import OneHarness.Session.Admission
import OneHarness.Session.Proofs.ActionStore

namespace OneHarness.Session.Actions

open Lib ActionStore SessionQueue

-- ======== statement vocabulary

/-- No two queued follow-ups have one key. -/
def OneFollowUpPerKey (q : SessionQueue) : Prop :=
  ∀ a ∈ q.store.queuedActions .whenRunIdle,
    ∀ b ∈ q.store.queuedActions .whenRunIdle,
      q.hasKey a = true → q.queueKey a = q.queueKey b → a = b

/-- A follow-up that is queued, or that may still be put back. -/
def PendingFollowUp (q : SessionQueue) (action : Ref) : Prop :=
  action ∈ q.store.whenRunIdle ∧ isClearable (q.action action) = true
    ∧ q.hasKey action = true

/-- What is being committed is put back only while no pending follow-up has
its key. -/
def RollsBackAlone (q : SessionQueue) : QueueStep → Prop
  | .rollback action _ =>
    (q.action action).state = .committing → action ∈ q.store.whenRunIdle →
      ∀ other, PendingFollowUp q other →
        q.queueKey other ≠ q.queueKey action
  | _ => True

-- ======== the invariant

/-- No two pending follow-ups have one key. -/
def OnePendingPerKey (q : SessionQueue) : Prop :=
  ∀ a b, PendingFollowUp q a → PendingFollowUp q b →
    q.queueKey a = q.queueKey b → a = b

theorem OnePendingPerKey.queued {q : SessionQueue} (h : OnePendingPerKey q) :
    OneFollowUpPerKey q := by
  intro a ha b hb hkey heq
  have hclearable : ∀ c, q.store.isQueued c = true →
      isClearable (q.action c) = true := by
    intro c hc
    have hstate : (q.action c).state = .queued := of_decide_eq_true hc
    rw [isClearable, hstate]
  obtain ⟨ha, haq⟩ := List.mem_filter.1 ha
  obtain ⟨hb, hbq⟩ := List.mem_filter.1 hb
  have hbkey : q.hasKey b = true := by
    rw [hasKey, ← heq]
    exact hkey
  exact h a b ⟨ha, hclearable a haq, hkey⟩ ⟨hb, hclearable b hbq, hbkey⟩ heq

/-- Nothing becomes pending, and what is pending keeps its key. -/
def Shrinks (q q' : SessionQueue) : Prop :=
  ∀ action, PendingFollowUp q' action →
    PendingFollowUp q action ∧ q'.queueKey action = q.queueKey action

theorem Shrinks.refl (q : SessionQueue) : Shrinks q q :=
  fun _ h => ⟨h, rfl⟩

theorem Shrinks.one {q q' : SessionQueue} (h : Shrinks q q')
    (hone : OnePendingPerKey q) : OnePendingPerKey q' := by
  intro a b ha hb heq
  obtain ⟨ha, hakey⟩ := h a ha
  obtain ⟨hb, hbkey⟩ := h b hb
  rw [hakey, hbkey] at heq
  exact hone a b ha hb heq

-- ======== the store

/-- The queue with another store. -/
def SessionQueue.withStore (q : SessionQueue) (store : ActionStore) :
    SessionQueue := { q with store := store }

/-- The actions that are clearable were, the lanes have lost some at most, and
turns are turns. -/
structure StoreShrinks (s s' : ActionStore) : Prop where
  lane : ∀ action ∈ s'.whenRunIdle, action ∈ s.whenRunIdle
  clearable : ∀ action, isClearable (s'.actions action) = true →
    isClearable (s.actions action) = true
  payload : ∀ action, (s'.actions action).payload = (s.actions action).payload

theorem StoreShrinks.refl (s : ActionStore) : StoreShrinks s s :=
  ⟨fun _ h => h, fun _ h => h, fun _ => rfl⟩

variable {s s' : ActionStore}

theorem StoreShrinks.trans {s'' : ActionStore} (h : StoreShrinks s s')
    (h' : StoreShrinks s' s'') : StoreShrinks s s'' :=
  ⟨fun action hmem => h.lane action (h'.lane action hmem),
    fun action hclear => h.clearable action (h'.clearable action hclear),
    fun action => (h'.payload action).trans (h.payload action)⟩

variable {store : ActionStore} {action : Ref}

theorem queueKey_withStore {q : SessionQueue}
    (h : (store.actions action).payload = (q.action action).payload) :
    (q.withStore store).queueKey action = q.queueKey action := by
  rw [queueKey, queueKey]
  show (if (store.actions action).payload.isTurn then q.turnKeys action
    else none) = _
  rw [h]

theorem StoreShrinks.shrinks {q : SessionQueue}
    (h : StoreShrinks q.store store) : Shrinks q (q.withStore store) := by
  intro action ⟨hlane, hclear, hkey⟩
  have hsame := queueKey_withStore (q := q) (h.payload action)
  rw [hasKey, hsame] at hkey
  exact ⟨⟨h.lane action hlane, h.clearable action hclear, hkey⟩, hsame⟩

variable {next : ActionLifecycle}

/-- What a legal transition makes clearable was, but for what comes back from
being committed. -/
theorem clearable_of_legal {action : SessionAction}
    (hlegal : next.state ∈ legalTransitions action.state)
    (hback : action.state = .committing → next.state ≠ .queued)
    (h : isClearable { action with lifecycle := next } = true) :
    isClearable action = true := by
  unfold isClearable at h ⊢
  have hstate : ({ action with lifecycle := next } : SessionAction).state
      = next.state := rfl
  rw [hstate] at h
  generalize next.state = state at hlegal hback h
  cases hprevious : action.state with
  | queued => rfl
  | selected => rfl
  | preparing => rfl
  | committing =>
    rw [hprevious] at hlegal
    simp only [legalTransitions, List.mem_cons, List.not_mem_nil,
      or_false] at hlegal
    rcases hlegal with rfl | rfl | rfl | rfl
    · exact absurd rfl (hback hprevious)
    · cases h
    · cases h
    · cases h
  | running =>
    rw [hprevious] at hlegal
    simp only [legalTransitions, List.mem_cons, List.not_mem_nil,
      or_false] at hlegal
    rcases hlegal with rfl | rfl | rfl <;> cases h
  | completed =>
    rw [hprevious] at hlegal
    cases hlegal
  | failed =>
    rw [hprevious] at hlegal
    cases hlegal
  | cancelled =>
    rw [hprevious] at hlegal
    cases hlegal

variable {proof : Option RollbackProof}

theorem transition_legal (h : s.transition action next proof = .ok s') :
    s' = s.setAction action { s.actions action with lifecycle := next }
      ∧ next.state ∈ legalTransitions (s.actions action).state := by
  unfold transition at h
  cases hvalue : transitionSessionAction (s.actions action) next proof with
  | error message =>
    rw [hvalue] at h
    cases h
  | ok value =>
    rw [hvalue] at h
    obtain ⟨rfl, hlegal⟩ := transitionSessionAction_ok hvalue
    exact ⟨(Except.ok.inj h).symm, hlegal⟩

theorem transition_shrinks
    (hback : (s.actions action).state = .committing → next.state ≠ .queued)
    (h : s.transition action next proof = .ok s') : StoreShrinks s s' := by
  obtain ⟨rfl, hlegal⟩ := transition_legal h
  refine ⟨fun _ hmem => hmem, fun r hclear => ?_, fun r => ?_⟩
  · by_cases hr : r = action
    · subst hr
      rw [setAction] at hclear
      dsimp only at hclear
      rw [if_pos rfl] at hclear
      exact clearable_of_legal hlegal hback hclear
    · rw [setAction] at hclear
      dsimp only at hclear
      rwa [if_neg hr] at hclear
  · show (if r = action then _ else s.actions r).payload = _
    by_cases hr : r = action
    · rw [if_pos hr, hr]
    · rw [if_neg hr]

theorem selectFirst_shrinks (h : s.selectFirst = .ok s') :
    StoreShrinks s s' := by
  unfold selectFirst at h
  split at h
  · exact transition_shrinks (fun _ heq => by cases heq) h
  · rw [← Except.ok.inj h]
    exact .refl s

theorem cancelAll_shrinks (candidates : List Ref) :
    ∀ s : ActionStore, StoreShrinks s (s.cancelAll candidates).1 := by
  induction candidates with
  | nil => exact fun s => .refl s
  | cons action rest ih =>
    intro s
    unfold cancelAll
    cases hstep : s.transition action .cancelled none with
    | error message => exact .refl s
    | ok s' =>
      exact (transition_shrinks (fun _ heq => by cases heq) hstep).trans
        (ih s')

theorem release_shrinks
    (h : s.releaseTerminal action = .ok s') : StoreShrinks s s' := by
  obtain ⟨-, hactions, -, hlanes⟩ := releaseTerminal_ok h
  refine ⟨fun r hmem => ?_, fun r hclear => ?_, fun r => ?_⟩
  · have hlane : s'.whenRunIdle = _ := hlanes .whenRunIdle
    rw [hlane] at hmem
    split at hmem
    · exact List.mem_of_mem_erase hmem
    · exact hmem
  · rwa [hactions] at hclear
  · rw [hactions]

theorem releaseAll_shrinks (actions : List Ref) :
    ∀ s : ActionStore, StoreShrinks s (releaseAll s actions) := by
  induction actions with
  | nil => exact fun s => .refl s
  | cons action rest ih =>
    intro s
    have hfirst : StoreShrinks s (orElse s (s.releaseTerminal action)) :=
      orElse_elim (.refl s) fun s' h => release_shrinks h
    exact hfirst.trans (ih _)

theorem swap_shrinks {left right : Ref}
    (h : s.swapQueued left right = .ok s') : StoreShrinks s s' := by
  obtain ⟨hactions, -, hlanes⟩ := swapQueued_ok h
  refine ⟨fun r hmem => ?_, fun r hclear => ?_, fun r => ?_⟩
  · exact (hlanes .whenRunIdle).subset hmem
  · rwa [hactions] at hclear
  · rw [hactions]

/-- A move leaves the other actions, and their lanes. -/
theorem move_others {item r : Ref}
    {lane : DeliveryPolicy} {index : Option Rat}
    (h : s.moveQueued item lane index = .ok s') (hr : r ≠ item) :
    s'.actions r = s.actions r
      ∧ (r ∈ s'.whenRunIdle → r ∈ s.whenRunIdle) := by
  obtain ⟨-, hactions, -, hlanes⟩ := moveQueued_ok h
  constructor
  · rw [hactions, if_neg hr]
  · intro hmem
    have hin := (hlanes .whenRunIdle).subset hmem
    dsimp only at hin
    have htaken : r ∈ if (s.actions item).delivery = .whenRunIdle then
        (s.list .whenRunIdle).erase item else s.list .whenRunIdle := by
      by_cases hlane : lane = .whenRunIdle
      · rw [if_pos hlane] at hin
        exact (List.mem_cons.1 hin).resolve_left hr
      · rwa [if_neg hlane] at hin
    split at htaken
    · exact List.mem_of_mem_erase htaken
    · exact htaken

-- ======== the session

variable {placement : SessionActionPlacement} {options : AdmissionOptions}
  {admission : Admission}

section
variable {q q' : SessionQueue}

theorem cancelSessionActions_shrinks (q : SessionQueue)
    (predicate : Ref → SessionAction → Bool) (candidates : Option (List Ref)) :
    Shrinks q (q.cancelSessionActions predicate candidates) := by
  unfold cancelSessionActions
  have hcancelled := cancelAll_shrinks
    ((candidates.getD q.store.clearableActions).filter fun action =>
      predicate action (q.store.actions action)) q.store
  cases hremove : q.store.remove predicate candidates with
  | mk store thrown =>
    rw [remove] at hremove
    rw [hremove] at hcancelled
    cases thrown with
    | some message => exact hcancelled.shrinks
    | none =>
      exact (hcancelled.trans (releaseAll_shrinks _ store)).shrinks

/-- In its other lane an action has no key. -/
theorem moveToLane_shrinks (q : SessionQueue) (item : Ref)
    (lane : DeliveryPolicy) : Shrinks q (q.moveToLane item lane) := by
  intro action ⟨hlane, hclear, hkey⟩
  by_cases haction : action = item
  · exfalso
    have hnone : (q.moveToLane item lane).queueKey action = none := by
      rw [queueKey, moveToLane]
      dsimp only
      rw [if_pos haction]
      exact ite_self none
    rw [hasKey, hnone] at hkey
    cases hkey
  · have hothers : ((q.moveToLane item lane).action action = q.action action)
        ∧ (action ∈ (q.moveToLane item lane).store.whenRunIdle →
          action ∈ q.store.whenRunIdle) := by
      apply orElse_elim (P := fun s => s.actions action = q.action action
        ∧ (action ∈ s.whenRunIdle → action ∈ q.store.whenRunIdle))
      · exact ⟨rfl, fun hmem => hmem⟩
      · intro s' h
        exact move_others h haction
    obtain ⟨hsame, hin⟩ := hothers
    have hqueue : (q.moveToLane item lane).queueKey action
        = q.queueKey action := by
      rw [queueKey, queueKey, hsame]
      show (if (q.action action).payload.isTurn then
        if action = item then none else q.turnKeys action else none) = _
      rw [if_neg haction]
    rw [hasKey, hqueue] at hkey
    rw [hsame] at hclear
    exact ⟨⟨hin hlane, hclear, hkey⟩, hqueue⟩

theorem mutate_shrinks (q : SessionQueue) (item : Ref)
    (mutation : QueuedMessageMutation) :
    Shrinks q (q.mutateQueuedMessage item mutation) := by
  cases mutation with
  | delete => exact cancelSessionActions_shrinks q _ none
  | move neighbor =>
    have hswap : StoreShrinks q.store
        (orElse q.store (q.store.swapQueued item neighbor)) :=
      orElse_elim (.refl _) fun s' h => swap_shrinks h
    exact hswap.shrinks
  | replace lane =>
    rw [mutateQueuedMessage]
    split_ifs
    · exact .refl q
    · exact moveToLane_shrinks q item lane

/-- An admitted follow-up with a key found no pending one that has it. -/
theorem owner_none (h : q.coalescedFollowUpOwner action = none)
    (hdelivery : (q.action action).delivery = .whenRunIdle)
    (hkey : q.hasKey action = true) {other : Ref}
    (hother : PendingFollowUp q other) :
    q.queueKey other ≠ q.queueKey action := by
  intro heq
  obtain ⟨hlane, hclear, -⟩ := hother
  have hturn : (q.action action).payload.isTurn = true := by
    by_contra hturn
    rw [hasKey, queueKey, if_neg hturn] at hkey
    cases hkey
  have hguard : ¬((q.action action).delivery ≠ .whenRunIdle
      ∨ (q.action action).payload.isTurn = false
      ∨ q.hasKey action = false) := by
    rw [hdelivery, hturn, hkey]
    decide
  rw [coalescedFollowUpOwner, if_neg hguard, List.find?_eq_none] at h
  have hunfinished : other ∈ q.store.unfinishedActions := by
    refine List.mem_filter.2 ⟨List.mem_append_right _ hlane, ?_⟩
    have hstate := hclear
    unfold isClearable at hstate
    show (!terminal (q.action other).state) = true
    cases hcase : (q.action other).state <;> rw [hcase] at hstate <;>
      first | rfl | cases hstate
  apply h other hunfinished
  rw [heq, hclear]
  simp

/-- Enqueued, an action is the only one that may have become pending. -/
theorem enqueue_pending (h : q.store.enqueue action placement = .ok store)
    (r : Ref) (hpending : PendingFollowUp (q.withStore store) r) :
    (q.withStore store).queueKey r = q.queueKey r
      ∧ q.hasKey r = true
      ∧ (PendingFollowUp q r
        ∨ r = action ∧ (q.action action).delivery = .whenRunIdle) := by
  obtain ⟨-, -, hactions, -, -⟩ := enqueue_ok h
  obtain ⟨hperm, hother⟩ := enqueue_perm h
  obtain ⟨hlane, hclear, hkey⟩ := hpending
  have hqueue : (q.withStore store).queueKey r = q.queueKey r :=
    queueKey_withStore (by rw [hactions]; rfl)
  have hsame : (q.withStore store).action r = q.action r := by
    show store.actions r = _
    rw [hactions]
    rfl
  rw [hasKey, hqueue] at hkey
  rw [hsame] at hclear
  refine ⟨hqueue, hkey, ?_⟩
  by_cases hdelivery : (q.action action).delivery = .whenRunIdle
  · have hdelivery' : (q.store.actions action).delivery = .whenRunIdle :=
      hdelivery
    rw [hdelivery'] at hperm
    rcases List.mem_cons.1 (hperm.subset hlane) with heq | hin
    · exact .inr ⟨heq, hdelivery⟩
    · exact .inl ⟨hin, hclear, hkey⟩
  · have hsamelane : store.whenRunIdle = q.store.whenRunIdle :=
      hother .whenRunIdle hdelivery
    have hlane' : r ∈ store.whenRunIdle := hlane
    rw [hsamelane] at hlane'
    exact .inl ⟨hlane', hclear, hkey⟩

theorem enqueue_one (hone : OnePendingPerKey q)
    (howner : q.coalescedFollowUpOwner action = none)
    (h : q.store.enqueue action placement = .ok store) :
    OnePendingPerKey (q.withStore store) := by
  intro a b ha hb heq
  obtain ⟨hakey, hahas, ha⟩ := enqueue_pending h a ha
  obtain ⟨hbkey, hbhas, hb⟩ := enqueue_pending h b hb
  rw [hakey, hbkey] at heq
  rcases ha with ha | ⟨rfl, hdelivery⟩
  · rcases hb with hb | ⟨rfl, hdelivery⟩
    · exact hone a b ha hb heq
    · exact absurd heq (owner_none howner hdelivery hbhas ha)
  · rcases hb with hb | ⟨rfl, -⟩
    · exact absurd heq.symm (owner_none howner hdelivery hahas hb)
    · rfl

theorem enqueueInput_one (hone : OnePendingPerKey q)
    (howner : q.coalescedFollowUpOwner action = none)
    (h : q.enqueueInput action options = .ok (q', admission)) :
    OnePendingPerKey q' := by
  unfold enqueueInput at h
  cases henqueue : q.store.enqueue action (placement options) with
  | error message =>
    rw [henqueue] at h
    cases h
  | ok store =>
    rw [henqueue] at h
    have henqueued := enqueue_one hone howner henqueue
    dsimp only at h
    split at h
    · cases hselect : store.selectFirst with
      | error message =>
        rw [hselect] at h
        cases h
      | ok selected =>
        rw [hselect] at h
        obtain ⟨rfl, -⟩ := Prod.mk.inj (Except.ok.inj h)
        have hshrinks : Shrinks (q.withStore store)
            ((q.withStore store).withStore selected) :=
          (selectFirst_shrinks hselect).shrinks
        exact hshrinks.one henqueued
    · obtain ⟨rfl, -⟩ := Prod.mk.inj (Except.ok.inj h)
      exact henqueued

theorem admit_one (hrestore : options.restore = false)
    (hone : OnePendingPerKey q)
    (h : q.admitSessionInput action options = .ok (q', admission)) :
    OnePendingPerKey q' := by
  unfold admitSessionInput at h
  dsimp only at h
  split_ifs at h with _ _ _ hrestored
  · rw [hrestore] at hrestored
    cases hrestored
  · cases howner : q.coalescedFollowUpOwner action with
    | some owner =>
      rw [howner] at h
      obtain ⟨rfl, -⟩ := Prod.mk.inj (Except.ok.inj h)
      exact hone
    | none =>
      rw [howner] at h
      exact enqueueInput_one hone howner h

/-- Put back, an action is the only one that may have become pending. -/
theorem rollback_pending (h : q.store.rollback action proof = .ok store)
    (r : Ref) (hpending : PendingFollowUp (q.withStore store) r) :
    (q.withStore store).queueKey r = q.queueKey r
      ∧ (PendingFollowUp q r ∨ r = action ∧ action ∈ q.store.whenRunIdle) := by
  obtain ⟨rfl, -⟩ := transition_legal h
  obtain ⟨hlane, hclear, hkey⟩ := hpending
  by_cases hr : r = action
  · subst hr
    refine ⟨queueKey_withStore ?_, .inr ⟨rfl, hlane⟩⟩
    rw [setAction]
    dsimp only
    rw [if_pos rfl]
    rfl
  · have hsame : (q.store.setAction action
        { q.store.actions action with lifecycle := .queued }).actions r
        = q.action r := if_neg hr
    have hqueue : (q.withStore _).queueKey r = q.queueKey r :=
      queueKey_withStore (congrArg SessionAction.payload hsame)
    rw [hasKey, hqueue] at hkey
    have hclear' : isClearable (q.action r) = true := by
      rw [← hsame]
      exact hclear
    exact ⟨hqueue, .inl ⟨hlane, hclear', hkey⟩⟩

theorem rollback_one (hone : OnePendingPerKey q)
    (hguard : RollsBackAlone q (.rollback action proof)) :
    OnePendingPerKey (queueStep q (.rollback action proof)) := by
  by_cases hcommitting : (q.action action).state = .committing
  · rw [queueStep]
    cases h : q.store.rollback action proof with
    | error message => exact hone
    | ok store =>
      show OnePendingPerKey (q.withStore store)
      intro a b ha hb heq
      obtain ⟨hakey, ha⟩ := rollback_pending h a ha
      obtain ⟨hbkey, hb⟩ := rollback_pending h b hb
      rw [hakey, hbkey] at heq
      rcases ha with ha | ⟨rfl, hlane⟩
      · rcases hb with hb | ⟨rfl, hlane⟩
        · exact hone a b ha hb heq
        · exact absurd heq (hguard hcommitting hlane a ha)
      · rcases hb with hb | ⟨rfl, -⟩
        · exact absurd heq.symm (hguard hcommitting hlane b hb)
        · rfl
  · have hrollback : StoreShrinks q.store
        (orElse q.store (q.store.rollback action proof)) :=
      orElse_elim (.refl _) fun s' h =>
        transition_shrinks (fun heq => absurd heq hcommitting) h
    exact hrollback.shrinks.one hone

theorem queueStep_one (q : SessionQueue) (step : QueueStep)
    (hone : OnePendingPerKey q) (hguard : RollsBackAlone q step) :
    OnePendingPerKey (queueStep q step) := by
  cases step with
  | submit action front preserveOrder immediatelyEligible =>
    rw [queueStep]
    cases h : q.admitSessionInput action
        ⟨false, front, preserveOrder, immediatelyEligible⟩ with
    | error message => exact hone
    | ok admitted => exact admit_one rfl hone h
  | cancel predicate candidates =>
    exact (cancelSessionActions_shrinks q predicate candidates).one hone
  | mutate item mutation =>
    rw [queueStep]
    split_ifs
    · exact (mutate_shrinks q item mutation).one hone
    · exact hone
  | select =>
    have hselect : StoreShrinks q.store (orElse q.store q.store.selectFirst) :=
      orElse_elim (.refl _) fun s' h => selectFirst_shrinks h
    exact hselect.shrinks.one hone
  | advance action next =>
    rw [queueStep]
    split_ifs with hnext
    · exact hone
    · have hadvance : StoreShrinks q.store
          (orElse q.store (q.store.transition action next none)) :=
        orElse_elim (.refl _) fun s' h =>
          transition_shrinks (fun _ => hnext) h
      exact hadvance.shrinks.one hone
  | rollback action proof => exact rollback_one hone hguard
  | release action =>
    have hrelease : StoreShrinks q.store
        (orElse q.store (q.store.releaseTerminal action)) :=
      orElse_elim (.refl _) fun s' h => release_shrinks h
    exact hrelease.shrinks.one hone
  | gates disposed admissionPauses => exact hone

end

-- ======== every run

/-- A run that puts back what is being committed only while no other
follow-up with its key is to be sent never has two queued under one key. -/
theorem one_followUp_per_key (actions : Ref → SessionAction)
    (turnKeys : Ref → Option String) (agentMessage : Ref → Bool)
    (steps : List QueueStep)
    (h : Run.Guarded queueStep RollsBackAlone
      (.initial actions turnKeys agentMessage) steps) :
    Run.Along queueStep OneFollowUpPerKey
      (.initial actions turnKeys agentMessage) steps := by
  have hstart : OnePendingPerKey (.initial actions turnKeys agentMessage) :=
    fun a b ha => absurd ha.1 List.not_mem_nil
  exact (Run.along_of_kept queueStep_one hstart h).mono
    fun q hone => hone.queued

/-- A heartbeat. -/
def heartbeatTurn (id : String) : SessionAction where
  id := id
  delivery := .whenRunIdle
  priority := .background
  payload := .turn []
  lifecycle := .queued

def heartbeats (r : Ref) : SessionAction :=
  heartbeatTurn (if r = 0 then "first" else "second")

/-- A heartbeat that cannot be committed, put back and asked for again. -/
def putBackRun : List QueueStep :=
  [.submit 0 false false false, .select, .advance 0 .preparing,
    .advance 0 .committing, .rollback 0 (some ⟨true, []⟩),
    .submit 1 false false false]

theorem one_heartbeat :
    Run.Along queueStep OneFollowUpPerKey
      (.initial heartbeats (fun _ => some "heartbeat") fun _ => false)
      putBackRun := by
  apply one_followUp_per_key
  refine ⟨trivial, trivial, trivial, trivial, ?_, trivial, trivial⟩
  intro _ _ other hpending
  have hlane : other ∈ [0] := hpending.1
  have hclear := hpending.2.1
  rw [List.mem_singleton.1 hlane] at hclear
  exact absurd hclear (by decide)

/-- A heartbeat that comes due while the last one is being committed, which
fails. -/
def committedRun : List QueueStep :=
  [.submit 0 false false false, .select, .advance 0 .preparing,
    .advance 0 .committing, .submit 1 false false false,
    .rollback 0 (some ⟨true, []⟩)]

theorem not_one_heartbeat :
    ¬Run.Along queueStep OneFollowUpPerKey
      (.initial heartbeats (fun _ => some "heartbeat") fun _ => false)
      committedRun := by
  intro h
  have hlast := h.last 0 (by decide) 1 (by decide) (by decide) (by decide)
  cases hlast

end OneHarness.Session.Actions
