/-
The order of the lanes, and the main result about the store
(`action_store_iff`).

In a run by priority a lane splits where the scan from its end stops
(`lane_split`): behind the new action only queued ones of a lower rank come.
So the lane stays ordered exactly if none of a lower rank is before the split,
which is what the guard says (`finds_iff`).
-/
import Mathlib.Data.List.DropRight
import OneHarness.Session.Proofs.ActionStore

namespace OneHarness.Session.Actions

open Lib ActionStore

-- ======== the log

/-- What is enqueued is owned until it is done, and comes once. -/
structure Logged (w : World) : Prop where
  once : w.enqueued.Nodup
  owned : ∀ action ∈ w.store.ownedActions, action ∈ w.enqueued
  released : ∀ action ∈ w.enqueued, action ∈ w.store.ownedActions
    ∨ terminal (w.store.actions action).state

/-- `a` is to be delivered before `b`. -/
def Before (w : World) (a b : Ref) : Prop :=
  (w.store.actions b).rank < (w.store.actions a).rank
    ∨ (w.store.actions a).rank = (w.store.actions b).rank
      ∧ w.enqueued.idxOf a < w.enqueued.idxOf b

/-- A step that queues and moves nothing. -/
structure Quiet (w w' : World) : Prop where
  queued : ∀ policy,
    (w'.store.queuedActions policy).Sublist (w.store.queuedActions policy)
  rank : ∀ action,
    (w'.store.actions action).rank = (w.store.actions action).rank
  enqueued : w'.enqueued = w.enqueued
  owned : ∀ action, action ∈ w'.store.ownedActions →
    action ∈ w.store.ownedActions
  gone : ∀ action ∈ w.store.ownedActions, action ∈ w'.store.ownedActions
    ∨ terminal (w'.store.actions action).state
  terminal : ∀ action, terminal (w.store.actions action).state →
    terminal (w'.store.actions action).state

theorem Quiet.refl (w : World) : Quiet w w :=
  ⟨fun _ => List.Sublist.refl _, fun _ => rfl, rfl, fun _ h => h,
    fun _ h => .inl h, fun _ h => h⟩

theorem Quiet.ordered {w w' : World} (h : Quiet w w') (hordered : Ordered w) :
    Ordered w' := by
  intro policy
  apply ((hordered policy).sublist (h.queued policy)).imp
  intro a b hab
  rw [h.rank, h.rank, h.enqueued]
  exact hab

theorem Quiet.logged {w w' : World} (h : Quiet w w') (hlogged : Logged w) :
    Logged w' where
  once := by
    rw [h.enqueued]
    exact hlogged.once
  owned := by
    intro action hmem
    rw [h.enqueued]
    exact hlogged.owned action (h.owned action hmem)
  released := by
    intro action hmem
    rw [h.enqueued] at hmem
    rcases hlogged.released action hmem with howned | hterminal
    · exact h.gone action howned
    · exact .inr (h.terminal action hterminal)

variable {s' : ActionStore}

theorem quiet_of_relabeled {w : World}
    (h : Relabeled w.store s') (hnone : NoneRequeued w.store s') :
    Quiet w { w with store := s' } where
  queued := by
    intro policy
    show ((s'.list policy).filter s'.isQueued).Sublist
      ((w.store.list policy).filter w.store.isQueued)
    rw [h.lanes]
    exact List.monotone_filter_right _ hnone
  rank := h.rank
  enqueued := rfl
  owned := by
    intro action hmem
    rw [← h.owned]
    exact hmem
  gone := by
    intro action hmem
    rw [← h.owned] at hmem
    exact .inl hmem
  terminal := by
    intro action hterminal
    show terminal (s'.actions action).state
    rw [h.terminal action hterminal]
    exact hterminal

theorem release_quiet {w : World} (hkept : Kept w.store) {action : Ref}
    (h : w.store.releaseTerminal action = .ok s') :
    Quiet w { w with store := s' } := by
  obtain ⟨hterminal, hactions, -, hlanes⟩ := releaseTerminal_ok h
  have howned := release_owned hkept h
  have hqueued : s'.isQueued = w.store.isQueued := by
    funext r
    unfold isQueued
    rw [hactions]
  constructor
  · intro policy
    show ((s'.list policy).filter s'.isQueued).Sublist
      ((w.store.list policy).filter w.store.isQueued)
    rw [hqueued, hlanes]
    apply List.Sublist.filter
    split
    · exact List.erase_sublist
    · exact List.Sublist.refl _
  · intro r
    show (s'.actions r).rank = _
    rw [hactions]
  · rfl
  · intro r hmem
    exact ((howned r).1 hmem).2
  · intro r hmem
    by_cases hr : r = action
    · right
      show terminal (s'.actions r).state
      rw [hactions, hr]
      exact hterminal
    · exact .inl ((howned r).2 ⟨hr, hmem⟩)
  · intro r hdone
    show terminal (s'.actions r).state
    rw [hactions]
    exact hdone

-- ======== the scan

section
variable {s : ActionStore} (rank : Nat) (lane : List Ref)

/-- What the scan from the end passes. -/
def passes (s : ActionStore) (rank : Nat) (item : Ref) : Bool :=
  s.isQueued item ∧ (s.actions item).rank < rank

theorem priorityIndex_eq :
    s.priorityIndex rank lane = (lane.rdropWhile (passes s rank)).length := by
  unfold priorityIndex
  have hsplit : lane.rdropWhile (passes s rank) ++ lane.rtakeWhile (passes s rank)
      = lane := List.rdropWhile_append_rtakeWhile
  have hlength := congrArg List.length hsplit
  have htake : (lane.rtakeWhile (passes s rank)).length
      = (lane.reverse.takeWhile (passes s rank)).length := by
    unfold List.rtakeWhile
    rw [List.length_reverse]
  rw [List.length_append, htake] at hlength
  show lane.length - (lane.reverse.takeWhile (passes s rank)).length = _
  omega

/-- The lane splits where the scan stops. -/
theorem lane_split :
    lane.take (s.priorityIndex rank lane) = lane.rdropWhile (passes s rank)
      ∧ lane.drop (s.priorityIndex rank lane)
        = lane.rtakeWhile (passes s rank) := by
  rw [priorityIndex_eq]
  have hsplit : lane.rdropWhile (passes s rank) ++ lane.rtakeWhile (passes s rank)
      = lane := List.rdropWhile_append_rtakeWhile
  generalize lane.rdropWhile (passes s rank) = before at hsplit ⊢
  generalize lane.rtakeWhile (passes s rank) = after at hsplit ⊢
  rw [← hsplit]
  exact ⟨List.take_left' rfl, List.drop_left' rfl⟩

end

-- ======== the enqueue

variable {placement : SessionActionPlacement}

section
variable {w : World} {action : Ref}

/-- What is queued stays behind the new action, as far as the scan comes. -/
theorem queued_split (h : w.store.enqueue action .priority = .ok s') :
    let rank := (w.store.actions action).rank
    let lane := w.store.list (w.store.actions action).delivery
    s'.queuedActions (w.store.actions action).delivery
        = (lane.rdropWhile (passes w.store rank)).filter w.store.isQueued
          ++ action :: (lane.rtakeWhile (passes w.store rank)).filter
            w.store.isQueued := by
  obtain ⟨hqueued, -, hactions, -, hlanes⟩ := enqueue_ok h
  have hsame : s'.isQueued = w.store.isQueued := by
    funext r
    unfold isQueued
    rw [hactions]
  obtain ⟨htake, hdrop⟩ := lane_split (s := w.store)
    (w.store.actions action).rank
    (w.store.list (w.store.actions action).delivery)
  intro rank lane
  unfold queuedActions
  rw [hlanes, if_pos rfl, hsame]
  show (lane.take (w.store.priorityIndex rank lane)
    ++ action :: lane.drop (w.store.priorityIndex rank lane)).filter _ = _
  rw [htake, hdrop, List.filter_append, List.filter_cons_of_pos]
  exact decide_eq_true hqueued

/-- The guard: none of a lower rank is before the split. -/
theorem finds_iff (hordered : Ordered w) (hqueued :
      (w.store.actions action).state = .queued)
    (hfree : ¬ w.store.tickets.has (w.store.actions action).id)
    :
    FindsSuffix w (.enqueue action placement) ↔
      ∀ queued ∈ ((w.store.list (w.store.actions action).delivery).rdropWhile
          (passes w.store (w.store.actions action).rank)).filter
            w.store.isQueued,
        (w.store.actions action).rank ≤ (w.store.actions queued).rank := by
  have hpairs := hordered (w.store.actions action).delivery
  unfold queuedActions at hpairs
  simp only [FindsSuffix]
  generalize w.store.list (w.store.actions action).delivery = lane at hpairs ⊢
  have hsplit : lane.rdropWhile (passes w.store (w.store.actions action).rank)
      ++ lane.rtakeWhile (passes w.store (w.store.actions action).rank) = lane :=
    List.rdropWhile_append_rtakeWhile
  constructor
  · intro hfinds queued hmem
    obtain ⟨hmem, hq⟩ := List.mem_filter.1 hmem
    rcases List.eq_nil_or_concat (lane.rdropWhile
      (passes w.store (w.store.actions action).rank)) with hnil | ⟨init, z, heq⟩
    · rw [hnil] at hmem
      exact absurd hmem List.not_mem_nil
    · have hstop : ¬ passes w.store (w.store.actions action).rank z := by
        have hne : lane.rdropWhile
            (passes w.store (w.store.actions action).rank) ≠ [] := by
          rw [heq]
          simp
        have hlast := List.rdropWhile_last_not _ _ hne
        simp only [heq, List.concat_eq_append, List.getLast_append_singleton]
          at hlast
        exact hlast
      rw [List.concat_eq_append] at heq
      rw [heq, List.append_assoc] at hsplit
      by_cases hz : w.store.isQueued z
      · have hrank : (w.store.actions action).rank ≤ (w.store.actions z).rank := by
          by_contra hlt
          exact hstop (decide_eq_true ⟨hz, by omega⟩)
        rw [heq] at hmem
        rcases List.mem_append.1 hmem with hmem | hmem
        · rw [← hsplit, List.filter_append] at hpairs
          have hafter := (List.pairwise_append.1 hpairs).2.2 queued
            (List.mem_filter.2 ⟨hmem, hq⟩) z
            (List.mem_filter.2 ⟨List.mem_cons_self, hz⟩)
          rcases hafter with hlt | ⟨hsame, -⟩
          · omega
          · omega
        · rw [List.mem_singleton.1 hmem]
          exact hrank
      · rw [heq] at hmem
        rcases List.mem_append.1 hmem with hmem | hmem
        · exact hfinds hqueued hfree init z _ hsplit.symm hz queued hmem hq
        · rw [List.mem_singleton.1 hmem] at hq
          exact absurd hq hz
  · intro hall _ _ behind item ahead hlane hitem queued hmem hq
    apply hall queued
    refine List.mem_filter.2 ⟨?_, hq⟩
    rw [← hsplit] at hlane
    rcases List.append_eq_append_iff.1 hlane with ⟨c, heq, htail⟩ | ⟨c, heq, htail⟩
    · -- The item would be queued, as all behind the split.
      exfalso
      have hin : item ∈ lane.rtakeWhile
          (passes w.store (w.store.actions action).rank) := by
        rw [htail]
        exact List.mem_append_right _ List.mem_cons_self
      have hpasses : passes w.store (w.store.actions action).rank item :=
        List.mem_rtakeWhile_imp hin
      unfold passes at hpasses
      exact hitem (of_decide_eq_true hpasses).1
    · rw [heq]
      exact List.mem_append_left _ hmem

/-- What was enqueued before is not enqueued again. -/
theorem enqueued_new (hlogged : Logged w) (hkept : Kept w.store)
    (h : w.store.enqueue action placement = .ok s') : action ∉ w.enqueued := by
  obtain ⟨hqueued, hfree, -⟩ := enqueue_ok h
  intro hmem
  rcases hlogged.released action hmem with howned | hterminal
  · exact hfree ((hkept.tickets _).2 ⟨action, howned, rfl⟩)
  · rw [hqueued] at hterminal
    cases hterminal

/-- A new action keeps the order exactly if it finds what is queued behind. -/
theorem enqueue_ordered_iff (hlogged : Logged w) (hordered : Ordered w)
    (hkept : Kept w.store)
    (h : w.store.enqueue action .priority = .ok s') :
    Ordered ⟨s', w.enqueued ++ [action]⟩
      ↔ FindsSuffix w (.enqueue action .priority) := by
  obtain ⟨hqueued, hfree, hactions, -, hlanes⟩ := enqueue_ok h
  have hsplit := queued_split h
  dsimp only at hsplit
  rw [finds_iff hordered hqueued fun hhas => hfree (JsMap.has_eq_true_iff.1 hhas)]
  have hnew := enqueued_new hlogged hkept h
  -- Of two actions that were there, the log says the same.
  have hbefore : ∀ a ∈ w.store.ownedActions, ∀ b ∈ w.store.ownedActions,
      (Before ⟨s', w.enqueued ++ [action]⟩ a b ↔ Before w a b) := by
    intro a ha b hb
    unfold Before
    dsimp only
    rw [hactions, List.idxOf_append_of_mem (hlogged.owned a ha),
      List.idxOf_append_of_mem (hlogged.owned b hb)]
  have hlast : ∀ a ∈ w.store.ownedActions,
      (w.enqueued ++ [action]).idxOf a < (w.enqueued ++ [action]).idxOf action := by
    intro a ha
    have hmem := hlogged.owned a ha
    rw [List.idxOf_append_of_mem hmem, List.idxOf_append_of_notMem hnew]
    have hlt := List.idxOf_lt_length_of_mem hmem
    omega
  have howned : ∀ policy, ∀ a ∈ w.store.queuedActions policy,
      a ∈ w.store.ownedActions := fun policy a ha =>
    mem_ownedActions.2 ⟨policy, List.mem_of_mem_filter ha⟩
  have hold := hordered (w.store.actions action).delivery
  have hparts : w.store.queuedActions (w.store.actions action).delivery
      = ((w.store.list (w.store.actions action).delivery).rdropWhile
          (passes w.store (w.store.actions action).rank)).filter w.store.isQueued
        ++ ((w.store.list (w.store.actions action).delivery).rtakeWhile
          (passes w.store (w.store.actions action).rank)).filter
            w.store.isQueued := by
    rw [← List.filter_append, List.rdropWhile_append_rtakeWhile]
    rfl
  have hbehind : ∀ b ∈ ((w.store.list
      (w.store.actions action).delivery).rtakeWhile
        (passes w.store (w.store.actions action).rank)).filter w.store.isQueued,
      (w.store.actions b).rank < (w.store.actions action).rank := by
    intro b hb
    have hpasses : passes w.store (w.store.actions action).rank b :=
      List.mem_rtakeWhile_imp (List.mem_of_mem_filter hb)
    unfold passes at hpasses
    exact (of_decide_eq_true hpasses).2
  have hmem := howned (w.store.actions action).delivery
  rw [hparts] at hmem hold
  generalize ((w.store.list (w.store.actions action).delivery).rdropWhile
    (passes w.store (w.store.actions action).rank)).filter w.store.isQueued
    = before at hsplit hold hmem ⊢
  generalize ((w.store.list (w.store.actions action).delivery).rtakeWhile
    (passes w.store (w.store.actions action).rank)).filter w.store.isQueued
    = after at hsplit hold hmem hbehind
  constructor
  · intro hnext queued hin
    have hpairs := hnext (w.store.actions action).delivery
    rw [hsplit] at hpairs
    have hpair := (List.pairwise_append.1 hpairs).2.2 queued hin action
      List.mem_cons_self
    dsimp only at hpair
    rw [hactions] at hpair
    omega
  · intro hall policy
    by_cases hpolicy : (w.store.actions action).delivery = policy
    · rw [← hpolicy, hsplit]
      obtain ⟨hfirst, hsecond, hcross⟩ := List.pairwise_append.1 hold
      apply List.pairwise_append.2
      refine ⟨?_, List.pairwise_cons.2 ⟨?_, ?_⟩, ?_⟩
      · apply hfirst.imp_of_mem
        intro a b ha hb hab
        exact (hbefore a (hmem a (List.mem_append_left _ ha)) b
          (hmem b (List.mem_append_left _ hb))).2 hab
      · intro b hb
        left
        rw [hactions]
        exact hbehind b hb
      · apply hsecond.imp_of_mem
        intro a b ha hb hab
        exact (hbefore a (hmem a (List.mem_append_right _ ha)) b
          (hmem b (List.mem_append_right _ hb))).2 hab
      · intro a ha b hb
        have hamem := hmem a (List.mem_append_left _ ha)
        rcases List.mem_cons.1 hb with rfl | hb
        · have hrank := hall a ha
          have hlog := hlast a hamem
          dsimp only
          rw [hactions]
          omega
        · exact (hbefore a hamem b (hmem b (List.mem_append_right _ hb))).2
            (hcross a ha b hb)
    · have hsame : s'.queuedActions policy = w.store.queuedActions policy := by
        unfold queuedActions
        rw [hlanes, if_neg hpolicy]
        congr 1
        funext r
        unfold isQueued
        rw [hactions]
      rw [hsame]
      apply (hordered policy).imp_of_mem
      intro a b ha hb hab
      exact (hbefore a (howned policy a ha) b (howned policy b hb)).2 hab

theorem enqueue_logged (hlogged : Logged w) (hkept : Kept w.store)
    (h : w.store.enqueue action placement = .ok s') :
    Logged ⟨s', w.enqueued ++ [action]⟩ := by
  have hnew := enqueued_new hlogged hkept h
  have howned := enqueue_owned h
  obtain ⟨-, -, hactions, -, -⟩ := enqueue_ok h
  constructor
  · apply List.nodup_append.2
    refine ⟨hlogged.once, List.nodup_singleton _, ?_⟩
    rintro a ha b hb rfl
    rw [List.mem_singleton.1 hb] at ha
    exact hnew ha
  · intro a ha
    rcases (howned a).1 ha with rfl | ha
    · exact List.mem_append_right _ (List.mem_singleton_self _)
    · exact List.mem_append_left _ (hlogged.owned a ha)
  · intro a ha
    dsimp only
    rw [hactions]
    rcases List.mem_append.1 ha with ha | ha
    · exact (hlogged.released a ha).imp_left fun hmem =>
        (howned a).2 (.inr hmem)
    · rw [List.mem_singleton.1 ha]
      exact .inl ((howned action).2 (.inl rfl))

end

-- ======== the runs

variable {op : Op}

/-- Any other step by priority is quiet. -/
theorem step_quiet {w : World} (hkept : Kept w.store)
    (hpriority : ByPriority op)
    (hop : ∀ action placement, op ≠ .enqueue action placement) :
    Quiet w (step w op) := by
  have hquiet : ∀ r : Except String ActionStore,
      (∀ s', r = .ok s' → Quiet w { w with store := s' }) →
        Quiet w { w with store := orElse w.store r } := by
    intro r hok
    exact orElse_elim (P := fun s' => Quiet w { w with store := s' })
      (Quiet.refl w) hok
  have htransition : ∀ {action next rollbackProof s'},
      ActionLifecycle.state next ≠ .queued →
      w.store.transition action next rollbackProof = .ok s' →
        Quiet w { w with store := s' } := fun hnext h =>
    quiet_of_relabeled (transition_relabeled h) (transition_none_requeued hnext h)
  cases op with
  | enqueue action placement => exact absurd rfl (hop action placement)
  | selectFirst =>
    apply hquiet
    intro s' h
    unfold selectFirst at h
    split at h
    · exact htransition (fun heq => by cases heq) h
    · rw [← Except.ok.inj h]
      exact Quiet.refl w
  | remove predicate candidates =>
    obtain ⟨hrelabeled, hnone⟩ := cancelAll_relabeled
      ((candidates.getD w.store.clearableActions).filter fun action =>
        predicate action (w.store.actions action)) w.store
    exact quiet_of_relabeled hrelabeled hnone
  | releaseTerminal action =>
    apply hquiet
    intro s' h
    exact release_quiet hkept h
  | transition action next rollbackProof =>
    apply hquiet
    intro s' h
    exact htransition hpriority h
  | rollback action proof => cases hpriority
  | swapQueued left right => cases hpriority
  | moveQueued action delivery index => cases hpriority

theorem step_ordered_iff {w : World} (hlogged : Logged w)
    (hordered : Ordered w) (hkept : Kept w.store)
    (hpriority : ByPriority op) :
    Ordered (step w op) ↔ FindsSuffix w op := by
  cases op with
  | enqueue action placement =>
    cases hpriority
    simp only [step]
    cases h : w.store.enqueue action .priority with
    | ok s' => exact enqueue_ordered_iff hlogged hordered hkept h
    | error message =>
      apply iff_of_true hordered
      intro hqueued hfree
      exfalso
      simp only [enqueue, hqueued, hfree, ne_eq, not_true_eq_false, if_false]
        at h
      cases h
  | _ =>
    apply iff_of_true
      ((step_quiet hkept hpriority fun _ _ heq => by cases heq).ordered hordered)
    trivial

theorem step_logged {w : World} (hlogged : Logged w) (hkept : Kept w.store)
    (hpriority : ByPriority op) : Logged (step w op) := by
  cases op with
  | enqueue action placement =>
    simp only [step]
    cases h : w.store.enqueue action placement with
    | ok s' => exact enqueue_logged hlogged hkept h
    | error message => exact hlogged
  | _ =>
    exact (step_quiet hkept hpriority fun _ _ heq => by cases heq).logged hlogged

theorem along_ordered_iff {ops : List Op} :
    ∀ {w : World}, Kept w.store → Logged w → Ordered w →
      (∀ op ∈ ops, ByPriority op) →
      (Run.Along step (fun w => Kept w.store ∧ Ordered w) w ops
        ↔ Run.Guarded step (fun w op => ReleasesOwned w op ∧ FindsSuffix w op) w
          ops) := by
  induction ops with
  | nil =>
    intro w hkept _ hordered _
    exact iff_of_true ⟨hkept, hordered⟩ trivial
  | cons op ops ih =>
    intro w hkept hlogged hordered hpriority
    have hop := hpriority op List.mem_cons_self
    have hkeptIff := step_kept_iff hkept op
    have horderedIff := step_ordered_iff hlogged hordered hkept hop
    have hrest : Kept (step w op).store → Ordered (step w op) →
        (Run.Along step (fun w => Kept w.store ∧ Ordered w) (step w op) ops
          ↔ Run.Guarded step
            (fun w op => ReleasesOwned w op ∧ FindsSuffix w op) (step w op)
              ops) := fun hkept' hordered' =>
      ih hkept' (step_logged hlogged hkept hop) hordered' fun op' hmem =>
        hpriority op' (List.mem_cons_of_mem _ hmem)
    constructor
    · rintro ⟨-, halong⟩
      obtain ⟨hkept', hordered'⟩ := halong.head
      exact ⟨⟨hkeptIff.1 hkept', horderedIff.1 hordered'⟩,
        (hrest hkept' hordered').1 halong⟩
    · rintro ⟨⟨hreleases, hfinds⟩, hguarded⟩
      exact ⟨⟨hkept, hordered⟩, (hrest (hkeptIff.2 hreleases)
        (horderedIff.2 hfinds)).2 hguarded⟩

section
variable (actions : Ref → SessionAction)

theorem kept_initial :
    Kept (World.initial actions).store where
  once := List.nodup_nil
  delivery := by
    intro policy action hmem
    cases policy <;> exact absurd hmem List.not_mem_nil
  distinct := fun _ hmem => absurd hmem List.not_mem_nil
  tickets := by
    intro id
    constructor
    · exact fun hmem => absurd hmem List.not_mem_nil
    · rintro ⟨_, hmem, -⟩
      exact absurd hmem List.not_mem_nil

theorem ordered_initial : Ordered (World.initial actions) := by
  intro policy
  cases policy <;> exact List.Pairwise.nil

theorem logged_initial :
    Logged (World.initial actions) where
  once := List.nodup_nil
  owned := fun _ hmem => absurd hmem List.not_mem_nil
  released := fun _ hmem => absurd hmem List.not_mem_nil

end

/-- No action is lost or doubled exactly if no foreign one with the id of an
owned one is released; moves and swaps permute; and a run by priority keeps
the lanes in order exactly if no enqueue finds a queued action of a lower
priority before one that is not queued any more. -/
theorem action_store_iff (actions : Ref → SessionAction) (ops : List Op) :
    (Run.Along step (fun w => Kept w.store) (.initial actions) ops
        ↔ Run.Guarded step ReleasesOwned (.initial actions) ops)
      ∧ (∀ w op, Permutes w.store (step w op).store op)
      ∧ ((∀ op ∈ ops, ByPriority op) →
        (Run.Along step (fun w => Kept w.store ∧ Ordered w) (.initial actions) ops
          ↔ Run.Guarded step
            (fun w op => ReleasesOwned w op ∧ FindsSuffix w op)
            (.initial actions) ops)) := by
  refine ⟨?_, step_permutes, ?_⟩
  · have htrue : ∀ (w : World) (op : Op), True → True := fun _ _ _ => trivial
    have hexact : ∀ (w : World) (op : Op), True → Kept w.store →
        (Kept (step w op).store ↔ ReleasesOwned w op) :=
      fun w op _ hkept => step_kept_iff hkept op
    exact Run.along_iff_guarded htrue hexact trivial (kept_initial actions)
  · exact along_ordered_iff (kept_initial actions) (logged_initial actions)
      (ordered_initial actions)

/-- Actions 0 and 1 are of the background, 2 is the user's; 3 is done, and has
the id of 0. -/
def sample : Ref → SessionAction := fun r =>
  { id := if r = 1 then "1" else if r = 2 then "2" else "0"
    delivery := .whenRunIdle
    priority := if r = 2 then .user else .background
    payload := .sessionCommand
    lifecycle := if r = 3 then .completed else .queued }

theorem action_store_ordered :
    Run.Along step (fun w => Kept w.store ∧ Ordered w) (.initial sample)
      [.enqueue 0 .priority, .enqueue 2 .priority] := by
  apply ((action_store_iff sample _).2.2 ?_).2
  · refine ⟨⟨trivial, ?_⟩, ⟨trivial, ?_⟩, trivial⟩
    · intro _ _ behind item ahead heq
      cases behind <;> cases heq
    · intro _ _ behind item ahead heq hitem
      cases behind with
      | nil =>
        cases heq
        exact absurd rfl hitem
      | cons a behind => cases behind <;> cases heq
  · intro op hmem
    rcases List.mem_cons.1 hmem with rfl | hmem
    · rfl
    · rw [List.mem_singleton.1 hmem]
      rfl

/-- A user action is queued after a background one, because a cancelled one
still sits behind that; and the ticket of an owned action goes with a foreign
one. -/
theorem action_store_broken :
    (¬ Run.Along step (fun w => Kept w.store ∧ Ordered w) (.initial sample)
        [.enqueue 0 .priority, .enqueue 1 .priority,
          .remove (fun action _ => action = 1) none, .enqueue 2 .priority])
      ∧ ¬ Run.Along step (fun w => Kept w.store) (.initial sample)
        [.enqueue 0 .priority, .releaseTerminal 3] := by
  constructor
  · intro halong
    have hpairs := halong.last.2 .whenRunIdle
    change List.Pairwise _ [0, 2] at hpairs
    have hpair := (List.pairwise_cons.1 hpairs).1 2 (.head _)
    rcases hpair with hlt | ⟨heq, -⟩
    · exact absurd hlt (by decide)
    · exact absurd heq (by decide)
  · intro halong
    have hticket := (halong.last.tickets "0").2 ⟨0, .head _, rfl⟩
    exact absurd hticket List.not_mem_nil

end OneHarness.Session.Actions
