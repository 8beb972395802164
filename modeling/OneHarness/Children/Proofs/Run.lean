/-
A child run is announced once, and its terminal status stays, unless the
host throws when it is told of the completion.

`Core` is what the proof looks at: most of what is done to a run does not
touch it. `Told` is the account of the notices: a deletion that cancelled
the run owes the parent a notice, and then the task sends none, because
the run is marked as deleted before it is cancelled. `Coherent` adds
where the task is: up to quiescence nobody but the deletion has anything
to tell, and after it the status is terminal.

# Where it breaks

The report of a failed cleanup is a failure message of its own, by
design, and the deletion that succeeds afterwards is announced as well
(`retried_deletion_told_twice`).
-/
import OneHarness.Children.Run

namespace OneHarness.Children

-- ======== the core

def RlmChildAgentStatus.terminal : RlmChildAgentStatus → Bool
  | done | error | cancelled => true
  | queued | running => false

/-- A notice of how the run ended. -/
def Notice.isOutcome : Notice → Bool
  | cleanupFailed _ => false
  | _ => true

/-- Up to quiescence. -/
def Task.early : Task → Bool
  | creating | preparing | prompting | live | quiescing => true
  | _ => false

structure Core where
  status : RlmChildAgentStatus
  error : Option String
  settled : Bool
  unsettled : Bool
  detachedDeletion : Bool
  needsNotice : Bool
  deletionNotice : Option Nat
  outcomes : List Notice
  task : Task

namespace World

/-- The notices of how the run ended, received or not. -/
def outcomes (w : World) : List Notice :=
  (w.deferrals.map Deferral.notice).filter Notice.isOutcome

def core (w : World) : Core where
  status := w.run.status
  error := w.run.error
  settled := w.run.settled
  unsettled := w.unsettled
  detachedDeletion := w.run.detachedDeletion
  needsNotice := w.run.deletionNeedsCompletionNotice
  deletionNotice := w.run.deletionNotice
  outcomes := w.outcomes
  task := w.task

end World

/-- The account of the notices. -/
structure Told (c : Core) : Prop where
  reason : c.status = .cancelled → c.error.getD "" ≠ ""
  needs : c.needsNotice = true
    → c.detachedDeletion = true ∧ c.status = .cancelled
  owed : c.needsNotice = true → c.deletionNotice = none → c.outcomes = []
  once : c.outcomes.length ≤ 1
  settled : c.settled = true → c.unsettled = false

structure Coherent (c : Core) : Prop extends Told c where
  live : c.status.terminal = false → c.task.early = true
  early : c.task.early = true
    → (c.status.terminal = true → c.status = .cancelled)
      ∧ (c.needsNotice = false → c.outcomes = [])

/-- The account is kept, and so is a terminal status. -/
structure Advances (w w' : World) : Prop where
  coherent : Coherent w'.core
  kept : w.run.status.terminal = true → w'.run.status = w.run.status

/-- The host answers, and does not throw. -/
def CompletionReturns : Option (Except String Bool) → Prop
  | some (.error _) => False
  | _ => True

/-- The host does not throw when it is told of the completion. -/
def RunEvent.CompletionReturns : RunEvent → Prop
  | quiesced _ _ completion | announced completion =>
    Children.CompletionReturns completion
  | _ => True

variable {w w' : World} {c c' : Core}

variable {task : Task}

theorem Told.late (h : Told c) (hstatus : c.status.terminal = true)
    (htask : task.early = false) :
    Coherent { c with task } where
  toTold := ⟨h.reason, h.needs, h.owed, h.once, h.settled⟩
  live hlive := absurd (hstatus.symm.trans hlive) (by decide)
  early hearly := absurd (htask.symm.trans hearly) (by decide)

theorem Advances.of_core (h : Coherent w.core) (heq : w'.core = w.core) :
    Advances w w' where
  coherent := heq ▸ h
  kept _ := congrArg Core.status heq

theorem Advances.of_kept (h : Coherent w'.core ∧ w'.run.status = w.run.status) :
    Advances w w' := ⟨h.1, fun _ => h.2⟩

theorem Advances.trans {w₁ w₂ : World} (h : Advances w w₁)
    (h' : Advances w₁ w₂) : Advances w w₂ where
  coherent := h'.coherent
  kept ht := by
    have heq := h.kept ht
    rw [h'.kept (heq ▸ ht), heq]

-- ======== what leaves it alone

variable {completion : Option (Except String Bool)} {event : RunEvent}
  (attempt : Nat) (error : String)

namespace World

theorem core_ensureRlmRunDeletionCleanup :
    w.ensureRlmRunDeletionCleanup.1.core = w.core := by
  unfold ensureRlmRunDeletionCleanup
  split
  · rfl
  · rfl

theorem core_observeRlmRunDeletionCleanup :
    (w.observeRlmRunDeletionCleanup attempt).1.core = w.core := by
  unfold observeRlmRunDeletionCleanup
  split
  · rfl
  · rfl

theorem core_continueFinishedRlmRunDeletion :
    w.continueFinishedRlmRunDeletion.core = w.core := by
  have hboth : ((w.ensureRlmRunDeletionCleanup.1
        ).observeRlmRunDeletionCleanup w.ensureRlmRunDeletionCleanup.2).1.core
      = w.core := by
    rw [core_observeRlmRunDeletionCleanup, core_ensureRlmRunDeletionCleanup]
  unfold continueFinishedRlmRunDeletion
  dsimp only
  split
  · exact hboth
  · exact hboth

theorem core_setObserver (observer : Observer) :
    (w.setObserver attempt observer).core = w.core := rfl

theorem core_recordRlmRunDeletionCleanupFailure :
    (w.recordRlmRunDeletionCleanupFailure attempt error).core = w.core := by
  unfold recordRlmRunDeletionCleanupFailure
  split
  · rfl
  · rfl

theorem core_cleanupSettles (result : Except String Unit) :
    (w.cleanupSettles attempt result).core = w.core := by
  unfold cleanupSettles
  split
  · rfl
  · rfl

theorem core_deleteRetained (deleted : Bool) :
    (w.deleteRetained deleted).core = w.core := by
  unfold deleteRetained
  split
  · rfl
  · split
    · rfl
    · rfl

theorem core_publishChildSession : w.publishChildSession.core = w.core := by
  unfold publishChildSession
  dsimp only
  split
  · rfl
  · rfl

theorem core_registerRlmChildSession
    (completion : Option (Except String Bool)) :
    (w.registerRlmChildSession completion).2.core = w.core := by
  unfold registerRlmChildSession
  split
  · rfl
  · split
    · rfl
    · rfl
    · split
      · rfl
      · rfl

theorem core_cleanedUp : w.cleanedUp.core = w.core := by
  unfold cleanedUp
  split
  · rfl
  · rfl

theorem core_disposeRun : w.disposeRun.core = w.core := by
  unfold disposeRun
  split
  · split
    · dsimp only
      split
      · rfl
      · rfl
      · rfl
    · rfl
  · rfl

theorem map_set_of_eq {α β : Type} (f : α → β) {l : List α} {i : Nat}
    {a b : α} (hget : l[i]? = some a) (hf : f b = f a) :
    (l.set i b).map f = l.map f := by
  induction l generalizing i with
  | nil => rfl
  | cons x l ih =>
    cases i with
    | zero =>
      have hx : x = a := Option.some.inj hget
      rw [List.set_cons_zero, List.map_cons, List.map_cons, hf, hx]
    | succ i =>
      rw [List.set_cons_succ, List.map_cons, List.map_cons, ih hget]

/-- Whatever becomes of a deferral, its notice stays what it is. -/
theorem core_deferrals {deferrals : List Deferral}
    (h : deferrals.map Deferral.notice = w.deferrals.map Deferral.notice) :
    { w with deferrals }.core = w.core := by
  unfold core outcomes
  rw [h]

theorem core_deferralSettles (i : Nat) (fence : Bool) :
    (w.deferralSettles i fence).core = w.core := by
  unfold deferralSettles
  split
  · rename_i hget
    split
    · exact core_deferrals (map_set_of_eq Deferral.notice hget rfl)
    · exact core_deferrals (map_set_of_eq Deferral.notice hget rfl)
  · rfl

-- ======== notices

/-- A notice that is sent. -/
theorem core_deliver (notice : Notice) :
    (w.deliver notice).1.core
      = { w.core with
          outcomes := w.outcomes ++ [notice].filter Notice.isOutcome } := by
  unfold deliver core outcomes
  dsimp only
  rw [List.map_append, List.filter_append]
  rfl

/-- A report of a cleanup says nothing of how the run ended. -/
theorem core_reportDeletionCleanupFailure :
    (w.reportDeletionCleanupFailure error).1.core = w.core := by
  have hdeliver : (w.deliver (.cleanupFailed error)).1.core = w.core := by
    rw [core_deliver]
    show { w.core with outcomes := w.outcomes ++ [] } = w.core
    rw [List.append_nil]
    rfl
  unfold reportDeletionCleanupFailure
  split
  · rfl
  · split
    · rfl
    · exact hdeliver

/-- At most, what is owed is paid. -/
theorem core_completeDeletion :
    w.completeDeletion.1.core = w.core
      ∨ w.run.deletionNeedsCompletionNotice = true
        ∧ w.run.deletionNotice = none
        ∧ ∃ notice reason, w.completeDeletion.1.core
          = { w.core with
              deletionNotice := some notice
              outcomes := w.outcomes ++ [.cancelled reason] } := by
  unfold completeDeletion
  split
  · exact .inl rfl
  · rename_i hnotice
    split
    · exact .inl rfl
    · rename_i hnone
      refine .inr ⟨?_, hnone, w.deferrals.length, some
        (w.run.error.getD "Deleted by parent orchestrator"), ?_⟩
      · cases hneeds : w.run.deletionNeedsCompletionNotice with
        | true => rfl
        | false =>
          rw [hneeds] at hnotice
          exact absurd rfl hnotice
      · have hdeliver := core_deliver (w := w) (.cancelled (some
          (w.run.error.getD "Deleted by parent orchestrator")))
        exact congrArg
          (fun c => { c with deletionNotice := some w.deferrals.length })
          hdeliver

theorem core_finishRlmRunDeletion :
    w.finishRlmRunDeletion.1.core = w.completeDeletion.1.core := rfl

/-- A call of `_finishRlmRunDeletion` keeps the account, and changes
neither the status of the run nor where its task is. -/
theorem finishRlmRunDeletion_told (h : Told w.core) :
    Told w.finishRlmRunDeletion.1.core
      ∧ w.finishRlmRunDeletion.1.core.status = w.run.status := by
  rw [core_finishRlmRunDeletion]
  rcases core_completeDeletion (w := w) with
    heq | ⟨hneeds, hnone, notice, reason, heq⟩
  · rw [heq]
    exact ⟨h, rfl⟩
  · rw [heq]
    have hnil : w.outcomes = [] := h.owed hneeds hnone
    refine ⟨⟨h.reason, h.needs, ?_, ?_, h.settled⟩, rfl⟩
    · exact fun _ hnone => nomatch hnone
    · show (w.outcomes ++ [Notice.cancelled reason]).length ≤ 1
      rw [hnil]
      exact Nat.le_refl 1

theorem finishRlmRunDeletion_advances (h : Coherent w.core) :
    Advances w w.finishRlmRunDeletion.1 := by
  have htold := finishRlmRunDeletion_told h.toTold
  refine ⟨⟨htold.1, ?_, ?_⟩, fun _ => htold.2⟩
  · rw [htold.2]
    intro hlive
    have hearly := h.live hlive
    rw [core_finishRlmRunDeletion]
    rcases core_completeDeletion (w := w) with heq | ⟨-, -, _, _, heq⟩
    · rw [heq]
      exact hearly
    · rw [heq]
      exact hearly
  · rw [core_finishRlmRunDeletion]
    rcases core_completeDeletion (w := w) with
      heq | ⟨hneeds, -, _, _, heq⟩
    · rw [heq]
      exact h.early
    · rw [heq]
      intro hearly
      refine ⟨(h.early hearly).1, fun hno => ?_⟩
      exact absurd (hneeds.symm.trans hno) (by decide)

-- ======== the task

/-- Past quiescence, with the status terminal, the account is enough. -/
theorem told_late {w₁ : World} (hcore : w₁.core = w.core) (h : Told w.core)
    (hstatus : w.run.status.terminal = true)
    (htask : task.early = false) :
    Coherent { w₁ with task }.core ∧ w₁.run.status = w.run.status := by
  have htold : Told w₁.core := hcore.symm ▸ h
  have heq : w₁.run.status = w.run.status := congrArg Core.status hcore
  have hterminal := (congrArg RlmChildAgentStatus.terminal heq).trans hstatus
  exact ⟨htold.late hterminal htask, heq⟩

/-- The end of the task: the account is kept, and the status. -/
theorem settle_advances (h : Told w.core)
    (hstatus : w.run.status.terminal = true) :
    Coherent w.settle.core ∧ w.settle.run.status = w.run.status := by
  unfold settle
  by_cases hdetached : w.run.detachedDeletion = true
  · rw [if_pos hdetached]
    dsimp only
    split
    · exact ⟨h.late hstatus rfl, rfl⟩
    split
    · refine told_late ?_ h hstatus rfl
      rw [core_observeRlmRunDeletionCleanup, core_ensureRlmRunDeletionCleanup]
      rfl
    · have hfinish := finishRlmRunDeletion_told (w :=
        { w with run := { w.run with deletionRunFinished := true } }) h
      refine ⟨hfinish.1.late ?_ rfl, hfinish.2⟩
      rw [hfinish.2]
      exact hstatus
  · rw [if_neg hdetached]
    dsimp only
    have hdone (w₁ : World) (hcore : w₁.core = w.core) :
        Coherent { w₁ with
            unsettled := false, task := .ended
            run := { w₁.run with settled := true } }.core
          ∧ w₁.run.status = w.run.status := by
      have htold : Told w₁.core := hcore.symm ▸ h
      have heq : w₁.run.status = w.run.status := congrArg Core.status hcore
      have hterminal :=
        (congrArg RlmChildAgentStatus.terminal heq).trans hstatus
      refine ⟨Told.late (c := { w₁.core with
        unsettled := false, settled := true }) ?_ hterminal rfl, heq⟩
      exact ⟨htold.reason, htold.needs, htold.owed, htold.once, fun _ => rfl⟩
    split
    · split
      · exact hdone _ rfl
      · split
        · exact hdone _ rfl
        · exact hdone _ rfl
    · exact hdone _ rfl

theorem cleanUp_advances (h : Told w.core)
    (hstatus : w.run.status.terminal = true) :
    Coherent w.cleanUp.core ∧ w.cleanUp.run.status = w.run.status := by
  unfold cleanUp
  dsimp only
  split
  · exact settle_advances h hstatus
  · split
    · exact told_late rfl h hstatus rfl
    · split
      · exact told_late rfl h hstatus rfl
      · have heq : w.cleanedUp.run.status = w.run.status :=
          congrArg Core.status core_cleanedUp
        have hsettle := settle_advances (w := w.cleanedUp)
          (core_cleanedUp.symm ▸ h)
          ((congrArg RlmChildAgentStatus.terminal heq).trans hstatus)
        exact ⟨hsettle.1, hsettle.2.trans heq⟩

/-- A notice from the task: nothing was told yet. -/
theorem told_deliver (notice : Notice) (h : Told w.core)
    (hnil : w.outcomes = [])
    (hneeds : w.run.deletionNeedsCompletionNotice = false)
    (hnotice : notice.isOutcome = true) :
    Told (w.deliver notice).1.core := by
  rw [core_deliver]
  refine ⟨h.reason, h.needs, ?_, ?_, h.settled⟩
  · exact fun hno => absurd (hno.symm.trans hneeds) (by decide)
  · show (w.outcomes ++ [notice].filter Notice.isOutcome).length ≤ 1
    rw [hnil, List.filter_cons_of_pos hnotice]
    exact Nat.le_refl 1

section
variable (h : Coherent w.core) (hearly : w.task.early = true)
include h hearly

/-- The `catch`, from a task that is not quiescent yet. -/
theorem fail_advances (error : String) : Advances w (w.fail error) := by
  have hcancelled := (h.early hearly).1
  unfold fail
  -- the run with its status set
  generalize hw : (if w.run.status ≠ .cancelled then
    { w with run := { w.run with status := .error, error := some error } }
    else w) = w₁
  have hset : Told w₁.core ∧ w₁.run.status.terminal = true
      ∧ (w.run.status.terminal = true → w₁.run.status = w.run.status)
      ∧ (w₁.run.deletionNeedsCompletionNotice = false
        → w₁.outcomes = []) := by
    by_cases hstatus : w.run.status = .cancelled
    · rw [if_neg (not_not_intro hstatus)] at hw
      subst hw
      exact ⟨h.toTold, by rw [hstatus]; rfl, fun _ => rfl, (h.early hearly).2⟩
    · rw [if_pos hstatus] at hw
      subst hw
      have hno : w.run.deletionNeedsCompletionNotice = false := by
        cases hneeds : w.run.deletionNeedsCompletionNotice with
        | false => rfl
        | true => exact absurd (h.needs hneeds).2 hstatus
      refine ⟨⟨fun hc => (by cases hc), ?_, ?_, h.once, h.settled⟩, rfl,
        fun ht => absurd (hcancelled ht) hstatus, (h.early hearly).2⟩
      · exact fun hneeds => absurd (hneeds.symm.trans hno) (by decide)
      · exact fun hneeds => absurd (hneeds.symm.trans hno) (by decide)
  obtain ⟨htold, hterminal, hkept, hnil⟩ := hset
  clear hw
  dsimp only
  have hdeliver (hquiet : ¬(w₁.run.detachedDeletion
      || w₁.run.suppressTerminalNotice) = true) {notice : Notice}
      (hnotice : notice.isOutcome = true) (task : Task)
      (htask : task.early = false) :
      Advances w { (w₁.deliver notice).1 with task } := by
    have hno : w₁.run.deletionNeedsCompletionNotice = false := by
      cases hneeds : w₁.run.deletionNeedsCompletionNotice with
      | false => rfl
      | true =>
        have hdetached : w₁.run.detachedDeletion = true :=
          (htold.needs hneeds).1
        rw [hdetached] at hquiet
        exact absurd rfl hquiet
    have hsent := told_deliver _ htold (hnil hno) hno hnotice
    have hlate := told_late rfl hsent hterminal htask
    exact ⟨hlate.1, fun ht => hlate.2.trans (hkept ht)⟩
  split
  · have hclean := cleanUp_advances htold hterminal
    exact ⟨hclean.1, fun ht => hclean.2.trans (hkept ht)⟩
  · split
    · exact hdeliver ‹_› rfl _ rfl
    · exact hdeliver ‹_› rfl _ rfl

theorem unlessCancelled_advances {next : World → World}
    (hnext : w.run.status ≠ .cancelled → Advances w (next w)) :
    Advances w (w.unlessCancelled next) := by
  unfold unlessCancelled
  split
  · exact fail_advances h hearly _
  · exact hnext ‹_›

/-- A run that is not cancelled starts to run. -/
theorem running_advances (hno : w.run.status ≠ .cancelled) :
    Advances w
      { w with
        task := .preparing
        run := { w.run with status := .running } } := by
  have hlive : ¬w.run.status.terminal = true :=
    fun ht => hno ((h.early hearly).1 ht)
  refine ⟨⟨⟨fun hrun => (by cases hrun), ?_, h.owed, h.once, h.settled⟩,
    fun _ => rfl, fun _ => ?_⟩, fun ht => absurd ht hlive⟩
  · exact fun hneeds => absurd (h.needs hneeds).2 hno
  · exact ⟨fun hrun => (by cases hrun), (h.early hearly).2⟩

theorem runtimeCreated_advances (naming : Except String Unit) :
    Advances w (w.runtimeCreated naming) := by
  have hcreated : Advances w { w with childRuntime := true } :=
    ⟨h, fun _ => rfl⟩
  refine hcreated.trans ?_
  unfold runtimeCreated
  dsimp only
  generalize hw : { w with childRuntime := true } = w₁ at hcreated
  replace h := hcreated.coherent
  replace hearly : w₁.task.early = true := by
    rw [← hw]
    exact hearly
  refine unlessCancelled_advances h hearly fun _ => ?_
  split
  · exact fail_advances h hearly _
  · have hcore := core_publishChildSession (w := w₁)
    have hpublished := Advances.of_core h hcore
    have htask : w₁.publishChildSession.task.early = true :=
      (congrArg (fun c => c.task.early) hcore).trans hearly
    refine hpublished.trans ?_
    exact unlessCancelled_advances hpublished.coherent htask fun hno =>
      running_advances hpublished.coherent htask hno

omit h hearly in
theorem completed_advances (h : Told w.core)
    (hstatus : w.run.status.terminal = true)
    (hreturns : CompletionReturns completion) :
    Coherent (w.completed completion).core
      ∧ (w.completed completion).run.status = w.run.status := by
  have hcore := core_registerRlmChildSession (w := w) completion
  have hnothrow : ∀ e, (w.registerRlmChildSession completion).1 ≠ .error e := by
    intro e
    unfold registerRlmChildSession
    split
    · exact nofun
    · split
      · exact hreturns.elim
      · exact nofun
      · split
        · exact nofun
        · exact nofun
  unfold completed
  generalize w.registerRlmChildSession completion = p at hcore hnothrow
  obtain ⟨answer, w₁⟩ := p
  have heq : w₁.run.status = w.run.status := congrArg Core.status hcore
  have hsettle := settle_advances (w := w₁) (hcore.symm ▸ h)
    ((congrArg RlmChildAgentStatus.terminal heq).trans hstatus)
  cases answer with
  | error e => exact absurd rfl (hnothrow e)
  | ok registered =>
    cases registered with
    | true => exact ⟨hsettle.1, hsettle.2.trans heq⟩
    | false =>
      dsimp only
      split
      · exact ⟨hsettle.1, hsettle.2.trans heq⟩
      · exact told_late hcore h hstatus rfl

/-- What follows quiescence: a cancelled run has its reason, and throws. -/
theorem quiescent_advances (replied : Bool)
    (hreturns : CompletionReturns completion) :
    Advances w (w.quiescent replied completion) := by
  unfold quiescent
  split
  · exact fail_advances h hearly _
  rename_i hquiet
  have hno : w.run.status ≠ .cancelled := fun hc => hquiet (h.reason hc)
  have hlive : ¬w.run.status.terminal = true :=
    fun ht => hno ((h.early hearly).1 ht)
  have hneeds : w.run.deletionNeedsCompletionNotice = false := by
    cases hn : w.run.deletionNeedsCompletionNotice with
    | false => rfl
    | true => exact absurd (h.needs hn).2 hno
  have hdone : Told { w with run := { w.run with status := .done } }.core := by
    refine ⟨fun hrun => (by cases hrun), ?_, ?_, h.once, h.settled⟩
    · exact fun hn => absurd (hn.symm.trans hneeds) (by decide)
    · exact fun hn => absurd (hn.symm.trans hneeds) (by decide)
  dsimp only
  split
  · have hsent := told_deliver .completedWithoutReply hdone
      ((h.early hearly).2 hneeds) hneeds rfl
    exact ⟨(told_late rfl hsent rfl rfl).1, fun ht => absurd ht hlive⟩
  · exact ⟨(completed_advances hdone rfl hreturns).1, fun ht => absurd ht hlive⟩

end

-- ======== cancellation and deletion

section
variable (reason : String)

/-- A run that is cancelled was neither terminal nor told about. -/
theorem cancelRlmChildRun_advances (h : Coherent w.core)
    (hreason : reason ≠ "") :
    Advances w (w.cancelRlmChildRun reason).1 := by
  unfold cancelRlmChildRun
  split
  · exact ⟨h, fun _ => rfl⟩
  rename_i hstatus
  have hlive : w.run.status.terminal = false := by
    cases hs : w.run.status with
    | queued => rfl
    | running => rfl
    | done => exact absurd ⟨hs ▸ nofun, hs ▸ nofun⟩ hstatus
    | error => exact absurd ⟨hs ▸ nofun, hs ▸ nofun⟩ hstatus
    | cancelled => exact absurd ⟨hs ▸ nofun, hs ▸ nofun⟩ hstatus
  have hno : ¬w.run.deletionNeedsCompletionNotice = true := by
    intro hneeds
    have hc : w.run.status = .cancelled := (h.needs hneeds).2
    rw [hc] at hlive
    exact absurd hlive (by decide)
  have hcoherent (unsettled : Bool)
      (hsettled : w.run.settled = true → unsettled = false) :
      Coherent { w.core with
        status := .cancelled, error := some reason, unsettled } := by
    refine ⟨⟨fun _ => hreason, fun hn => absurd hn hno,
      fun hn => absurd hn hno, h.once, hsettled⟩, fun hl => ?_, fun ht => ?_⟩
    · cases hl
    · exact ⟨fun _ => rfl, (h.early ht).2⟩
  refine ⟨?_, fun ht => absurd (hlive.symm.trans ht) (by decide)⟩
  dsimp only
  split
  · exact hcoherent false fun _ => rfl
  · exact hcoherent w.unsettled h.settled

/-- Whether it cancelled says whether the status was terminal. -/
theorem cancelRlmChildRun_status :
    (w.cancelRlmChildRun reason).2 = true
      → (w.cancelRlmChildRun reason).1.run.status = .cancelled
        ∧ w.run.status.terminal = false := by
  unfold cancelRlmChildRun
  split
  · exact nofun
  rename_i hstatus
  intro _
  dsimp only
  constructor
  · split
    · rfl
    · rfl
  · cases hs : w.run.status with
    | queued => rfl
    | running => rfl
    | done => exact absurd ⟨hs ▸ nofun, hs ▸ nofun⟩ hstatus
    | error => exact absurd ⟨hs ▸ nofun, hs ▸ nofun⟩ hstatus
    | cancelled => exact absurd ⟨hs ▸ nofun, hs ▸ nofun⟩ hstatus

/-- What `_cancelRlmChildRun` leaves as it is. -/
theorem cancelRlmChildRun_frame :
    (w.cancelRlmChildRun reason).1.run.detachedDeletion
        = w.run.detachedDeletion
      ∧ (w.cancelRlmChildRun reason).1.outcomes = w.outcomes := by
  unfold cancelRlmChildRun
  split
  · exact ⟨rfl, rfl⟩
  · dsimp only
    split
    · exact ⟨rfl, rfl⟩
    · exact ⟨rfl, rfl⟩

theorem cancelActiveRlmChildRuns_advances
    (h : Coherent w.core) (hreason : reason ≠ "") :
    Advances w (w.cancelActiveRlmChildRuns reason) := by
  unfold cancelActiveRlmChildRuns
  split
  · exact cancelRlmChildRun_advances _ h hreason
  · exact ⟨h, fun _ => rfl⟩

end

section
variable (h : Coherent w.core)
include h

theorem abandonRlmRunForQuiescence_advances :
    Advances w w.abandonRlmRunForQuiescence where
  coherent := ⟨⟨h.reason, h.needs, h.owed, h.once, fun _ => rfl⟩, h.live,
    h.early⟩
  kept _ := rfl

theorem cancelByUser_advances : Advances w w.cancelByUser := by
  unfold cancelByUser
  split
  · exact ⟨h, fun _ => rfl⟩
  · split
    · split
      · exact abandonRlmRunForQuiescence_advances h
      · exact ⟨h, fun _ => rfl⟩
    · exact cancelRlmChildRun_advances _ h (by decide)

theorem markDeletion_advances :
    Advances w w.markDeletion
      ∧ w.markDeletion.run.detachedDeletion = true := by
  have hmarked : w.markDeletion.core
      = { w.core with detachedDeletion := true } := by
    unfold markDeletion
    dsimp only
    split
    · rfl
    · rfl
  refine ⟨⟨?_, fun _ => congrArg Core.status hmarked⟩,
    congrArg Core.detachedDeletion hmarked⟩
  rw [hmarked]
  exact ⟨⟨h.reason, fun hn => ⟨rfl, (h.needs hn).2⟩, h.owed, h.once,
    h.settled⟩, h.live, h.early⟩

/-- Marked as deleted already, the run owes a notice only if it was not
told about. -/
theorem cancelForDeletion_advances (hdetached : w.run.detachedDeletion = true) :
    Advances w w.cancelForDeletion := by
  have hcancel := cancelRlmChildRun_advances
    "Deleted by parent orchestrator" h (by decide)
  have hstatus := cancelRlmChildRun_status (w := w)
    "Deleted by parent orchestrator"
  have hframe := cancelRlmChildRun_frame (w := w)
    "Deleted by parent orchestrator"
  unfold cancelForDeletion
  generalize w.cancelRlmChildRun "Deleted by parent orchestrator" = p
    at hcancel hstatus hframe
  obtain ⟨w₁, cancelled⟩ := p
  dsimp only at hcancel hstatus hframe ⊢
  split
  · obtain ⟨hnow, hlive⟩ := hstatus ‹_›
    have hno : w.run.deletionNeedsCompletionNotice = false := by
      cases hneeds : w.run.deletionNeedsCompletionNotice with
      | false => rfl
      | true =>
        have hbefore : w.run.status = .cancelled := (h.needs hneeds).2
        rw [hbefore] at hlive
        exact absurd hlive (by decide)
    have hnil : w₁.outcomes = [] :=
      hframe.2.trans ((h.early (h.live hlive)).2 hno)
    have hc := hcancel.coherent
    refine ⟨⟨⟨hc.reason, fun _ => ⟨hframe.1.trans hdetached, hnow⟩,
      fun _ _ => hnil, hc.once, hc.settled⟩, hc.live, fun he => ?_⟩,
      hcancel.kept⟩
    exact ⟨(hc.early he).1, fun _ => hnil⟩
  · exact hcancel

theorem unsettleForDeletion_advances : Advances w w.unsettleForDeletion := by
  unfold unsettleForDeletion
  split
  · exact ⟨⟨⟨h.reason, h.needs, h.owed, h.once, nofun⟩, h.live, h.early⟩,
      fun _ => rfl⟩
  · exact ⟨h, fun _ => rfl⟩

theorem deleteResolvedRlmSubagent_advances :
    Advances w w.deleteResolvedRlmSubagent := by
  obtain ⟨hmarked, hdetached⟩ := markDeletion_advances h
  have howing := hmarked.trans
    (cancelForDeletion_advances hmarked.coherent hdetached)
  unfold deleteResolvedRlmSubagent
  dsimp only
  split
  · exact howing.trans (.of_core howing.coherent rfl)
  · have hunsettled := howing.trans
      (unsettleForDeletion_advances howing.coherent)
    refine hunsettled.trans (.of_core hunsettled.coherent ?_)
    split
    · exact core_continueFinishedRlmRunDeletion
    · rfl

end

-- ======== promises, the parent

section
variable (h : Coherent w.core)
include h

theorem finishSettles_advances (call : Nat) :
    Advances w (w.finishSettles call) := by
  unfold finishSettles
  split
  · split
    · dsimp only
      split
      · exact ⟨⟨⟨h.reason, h.needs, h.owed, h.once, fun _ => rfl⟩, h.live,
          h.early⟩, fun _ => rfl⟩
      · exact ⟨⟨⟨h.reason, h.needs, h.owed, h.once, fun _ => rfl⟩, h.live,
          h.early⟩, fun _ => rfl⟩
    · exact ⟨h, fun _ => rfl⟩
  · exact ⟨h, fun _ => rfl⟩

theorem continuationResumes_advances (attempt : Nat) :
    Advances w (w.continuationResumes attempt) := by
  unfold continuationResumes
  split
  · dsimp only
    split
    · refine Advances.trans (.of_core h ?_) (finishRlmRunDeletion_advances ?_)
      · rfl
      · exact h
    · exact ⟨h, fun _ => rfl⟩
  · exact ⟨h, fun _ => rfl⟩

theorem observerResumes_advances (attempt : Nat) :
    Advances w (w.observerResumes attempt) := by
  unfold observerResumes
  split
  · exact ⟨h, fun _ => rfl⟩
  split
  · exact ⟨h, fun _ => rfl⟩
  · split
    · exact ⟨h, fun _ => rfl⟩
    · exact .of_core h (core_setObserver _ _)
    · exact .of_core h (core_recordRlmRunDeletionCleanupFailure _ _)
  · split
    · exact .of_core h (core_setObserver _ _)
    · have hfinish := finishRlmRunDeletion_advances h
      exact hfinish.trans (.of_core hfinish.coherent (core_setObserver _ _))
  · split
    · exact .of_core h (core_setObserver _ _)
    · exact ⟨h, fun _ => rfl⟩
  · rename_i error _
    have hreport := Advances.of_core h
      (core_reportDeletionCleanupFailure error)
    exact hreport.trans (.of_core hreport.coherent (core_setObserver _ _))
  · split
    · exact .of_core h (core_setObserver _ _)
    · exact ⟨h, fun _ => rfl⟩
  · exact ⟨h, fun _ => rfl⟩

theorem requestAbort_advances : Advances w w.requestAbort := by
  unfold requestAbort
  dsimp only
  split
  · have habandon := abandonRlmRunForQuiescence_advances h
    exact habandon.trans (.of_core habandon.coherent rfl)
  · exact ⟨h, fun _ => rfl⟩

theorem dispose_advances : Advances w w.dispose := by
  unfold dispose
  split
  · exact ⟨h, fun _ => rfl⟩
  · dsimp only
    have hsuppress : Advances w (if w.unsettled = true then
        { { w with disposed := true } with
          run := { w.run with suppressTerminalNotice := true } }
        else { w with disposed := true }) := by
      split
      · exact ⟨h, fun _ => rfl⟩
      · exact ⟨h, fun _ => rfl⟩
    have hcancel := hsuppress.trans (cancelActiveRlmChildRuns_advances
      "Parent session disposed" hsuppress.coherent (by decide))
    exact hcancel.trans (.of_core hcancel.coherent rfl)

theorem disposalWaited_advances : Advances w w.disposalWaited := by
  unfold disposalWaited
  split
  · exact ⟨h, fun _ => rfl⟩
  · have hfinish := finishRlmRunDeletion_advances h
    exact hfinish.trans (.of_core hfinish.coherent rfl)

theorem disposerResumes_advances : Advances w w.disposerResumes := by
  unfold disposerResumes
  split
  · exact ⟨h, fun _ => rfl⟩
  · split
    · exact disposalWaited_advances h
    · exact ⟨h, fun _ => rfl⟩
  · split
    · exact disposalWaited_advances h
    · exact ⟨h, fun _ => rfl⟩
    · exact ⟨h, fun _ => rfl⟩
  · exact disposalWaited_advances h
  · exact ⟨h, fun _ => rfl⟩
  · split
    · exact ⟨h, fun _ => rfl⟩
    · exact ⟨h, fun _ => rfl⟩

end

-- ======== a run

theorem stalledReason_ne_empty (seconds : Nat) :
    stalledReason seconds ≠ "" := by
  unfold stalledReason
  intro h
  have hfront := (String.append_eq_empty_iff.1 h).1
  exact absurd (String.append_eq_empty_iff.1 hfront).1 (by decide)

section
variable (h : Coherent w.core)
include h

/-- The task waits somewhere else, as early as before. -/
theorem task_advances
    (hearly : task.early = w.task.early) : Advances w { w with task } where
  coherent :=
    { toTold := ⟨h.reason, h.needs, h.owed, h.once, h.settled⟩
      live := fun hlive => hearly.trans (h.live hlive)
      early := fun he => h.early (hearly.symm.trans he) }
  kept _ := rfl

/-- Past quiescence the status is terminal. -/
theorem terminal_of_late
    (hlate : w.task.early = false) : w.run.status.terminal = true := by
  cases hstatus : w.run.status.terminal with
  | true => rfl
  | false =>
    have hearly : w.task.early = true := h.live hstatus
    exact absurd (hlate.symm.trans hearly) (by decide)

theorem taskStep_advances (hreturns : event.CompletionReturns) :
    Advances w (w.taskStep event) := by
  have hearly {task : Task} (htask : w.task = task) (he : task.early = true) :
      w.task.early = true := htask ▸ he
  have hlate {task : Task} (htask : w.task = task)
      (he : task.early = false) : w.run.status.terminal = true :=
    terminal_of_late h (htask ▸ he)
  unfold taskStep
  split
  case h_1 => exact .of_core h core_publishChildSession
  case h_2 htask => exact runtimeCreated_advances h (hearly htask rfl) _
  case h_3 htask => exact fail_advances h (hearly htask rfl) _
  case h_4 htask =>
    exact unlessCancelled_advances h (hearly htask rfl) fun _ =>
      task_advances h (by rw [htask]; rfl)
  case h_5 htask => exact fail_advances h (hearly htask rfl) _
  case h_6 htask => exact task_advances h (by rw [htask]; rfl)
  case h_7 => exact cancelRlmChildRun_advances _ h (stalledReason_ne_empty _)
  case h_8 htask =>
    exact unlessCancelled_advances h (hearly htask rfl) fun _ =>
      task_advances h (by rw [htask]; rfl)
  case h_9 htask => exact fail_advances h (hearly htask rfl) _
  case h_10 htask => exact quiescent_advances h (hearly htask rfl) _ hreturns
  case h_11 htask =>
    split
    · exact .of_kept (completed_advances h.toTold (hlate htask rfl) hreturns)
    · exact ⟨h, fun _ => rfl⟩
  case h_12 htask =>
    exact .of_kept (settle_advances h.toTold (hlate htask rfl))
  case h_13 htask =>
    split
    · exact .of_kept (cleanUp_advances h.toTold (hlate htask rfl))
    · exact ⟨h, fun _ => rfl⟩
  case h_14 htask =>
    have hclean := Advances.of_core h (core_cleanedUp (w := w))
    have hterminal : w.cleanedUp.run.status.terminal = true := by
      rw [hclean.kept (hlate htask rfl)]
      exact hlate htask rfl
    exact hclean.trans
      (.of_kept (settle_advances hclean.coherent.toTold hterminal))
  case h_15 htask =>
    split
    · exact task_advances h (by rw [htask]; rfl)
    · exact .of_kept (settle_advances h.toTold (hlate htask rfl))
  case h_16 htask =>
    exact .of_kept (settle_advances h.toTold (hlate htask rfl))
  case h_17 htask =>
    split
    · exact ⟨h, fun _ => rfl⟩
    · have hfinish := finishRlmRunDeletion_told h.toTold
      have hterminal : w.finishRlmRunDeletion.1.run.status.terminal = true :=
        (congrArg RlmChildAgentStatus.terminal hfinish.2).trans
          (hlate htask rfl)
      exact .of_kept ⟨(told_late rfl hfinish.1 hterminal rfl).1, hfinish.2⟩
    · exact task_advances h (by rw [htask]; rfl)
  case h_18 htask =>
    split
    · exact task_advances h (by rw [htask]; rfl)
    · exact ⟨h, fun _ => rfl⟩
  case h_19 => exact ⟨h, fun _ => rfl⟩

/-- Every step keeps the account and a terminal status. -/
theorem step_advances
    (hreturns : event.CompletionReturns) : Advances w (w.step event) := by
  have htask := taskStep_advances h hreturns
  cases event with
  | deferralSettles i fence => exact .of_core h (core_deferralSettles i fence)
  | cleanupSettles attempt result =>
    exact .of_core h (core_cleanupSettles attempt result)
  | observerResumes attempt => exact observerResumes_advances h attempt
  | continuationResumes attempt => exact continuationResumes_advances h attempt
  | finishSettles call => exact finishSettles_advances h call
  | cancel => exact cancelByUser_advances h
  | reserveDeletion => exact .of_core h rfl
  | clearReservation => exact .of_core h rfl
  | delete =>
    show Advances w (if w.active then _ else w)
    split
    · exact deleteResolvedRlmSubagent_advances h
    · exact .of_core h rfl
  | deleteRetained deleted =>
    show Advances w (if w.active then w else _)
    split
    · exact .of_core h rfl
    · exact .of_core h (core_deleteRetained deleted)
  | requestAbort => exact requestAbort_advances h
  | abort =>
    have habort := requestAbort_advances h
    exact habort.trans
      (cancelActiveRlmChildRuns_advances _ habort.coherent (by decide))
  | abortForUpdateRestart =>
    have hsuspended : Advances w { w with sessionInputPumpSuspended := true } :=
      .of_core h rfl
    exact hsuspended.trans
      (cancelActiveRlmChildRuns_advances _ hsuspended.coherent (by decide))
  | resume => exact .of_core h rfl
  | startDisposal => exact .of_core h rfl
  | disposeRun =>
    show Advances w (if w.disposing then _ else w)
    split
    · exact .of_core h core_disposeRun
    · exact .of_core h rfl
  | disposerResumes => exact disposerResumes_advances h
  | disposeRetained =>
    show Advances w (if w.disposing then _ else w)
    split
    · exact .of_core h rfl
    · exact .of_core h rfl
  | dispose => exact dispose_advances h
  | releaseChildSession =>
    show Advances w (if _ then _ else _)
    split
    · exact .of_core h rfl
    · exact .of_core h rfl
  | _ => exact htask

theorem runEvents_advances {events : List RunEvent}
    (hreturns : ∀ event ∈ events, event.CompletionReturns) :
    Advances w (w.runEvents events) := by
  induction events generalizing w with
  | nil => exact .of_core h rfl
  | cons event events ih =>
    have hstep := step_advances h (hreturns event List.mem_cons_self)
    exact hstep.trans (ih hstep.coherent fun e he =>
      hreturns e (List.mem_cons_of_mem _ he))

end

theorem spawned_coherent (host : Option SubagentRuntimeHost)
    (disposed disposing suspended : Bool) :
    Coherent (spawned host disposed disposing suspended).core where
  reason := nofun
  needs := nofun
  owed := nofun
  once := Nat.zero_le 1
  settled := nofun
  live _ := rfl
  early _ := ⟨nofun, fun _ => rfl⟩

/-- What is received was sent. -/
theorem received_outcomes (w : World) :
    (w.received.filter Notice.isOutcome).length ≤ w.outcomes.length := by
  apply List.Sublist.length_le
  apply List.Sublist.filter
  exact List.filter_sublist.map Deferral.notice

end World

-- ======== the results

/-- A run of the parent in which the host does not throw when it is told
of the completion: how the child run ended is announced at most once,
a settled run is not unsettled, and a terminal status stays. -/
theorem settles_once (host : Option SubagentRuntimeHost)
    (disposed disposing suspended : Bool) (events later : List RunEvent)
    (hreturns : ∀ event ∈ events ++ later, event.CompletionReturns) :
    let w := (World.spawned host disposed disposing suspended).runEvents events
    (w.received.filter Notice.isOutcome).length ≤ 1
      ∧ (w.run.settled = true → w.unsettled = false)
      ∧ (w.run.status.terminal = true
        → (w.runEvents later).run.status = w.run.status) := by
  intro w
  have hw := World.runEvents_advances
    (World.spawned_coherent host disposed disposing suspended)
    fun e he => hreturns e (List.mem_append_left _ he)
  have hlater := World.runEvents_advances hw.coherent fun e he =>
    hreturns e (List.mem_append_right _ he)
  exact ⟨Nat.le_trans (World.received_outcomes _) hw.coherent.once,
    hw.coherent.settled, hlater.kept⟩

/-- A child is deleted while it prompts; the cleanup fails, is reported,
and is retried. -/
def retriedDeletion : List RunEvent :=
  [ .runtimeCreated (.ok ()), .spawnMessageReady,
    .delete, .cleanupSettles 0 (.error "EBUSY"),
    .observerResumes 0, .observerResumes 0, .deferralSettles 0 true,
    .observerResumes 0,
    .promptSettled (.error "Request was aborted"),
    .delete, .cleanupSettles 1 (.ok ()), .observerResumes 1,
    .continuationResumes 1, .deferralSettles 1 true, .finishSettles 0 ]

theorem settles_once_retriedDeletion :
    let w := (World.spawned (some ⟨true⟩) false false false).runEvents
      retriedDeletion
    (w.received.filter Notice.isOutcome).length ≤ 1
      ∧ (w.run.settled = true → w.unsettled = false)
      ∧ (w.run.status.terminal = true
        → (w.runEvents [.dispose]).run.status = w.run.status) :=
  settles_once (some ⟨true⟩) false false false retriedDeletion [.dispose] (by
    simp [retriedDeletion, RunEvent.CompletionReturns])

/-- The parent is told twice, by terminal notices: that the child failed,
and that it was cancelled. -/
theorem retried_deletion_told_twice :
    let received := ((World.spawned (some ⟨true⟩) false false false).runEvents
      retriedDeletion).received
    received.all isRlmTerminalNotice = true ∧ ¬received.length ≤ 1 := by
  decide +kernel

end OneHarness.Children
