/-
How many requests are sent again for one turn whose requests all fail, and how
long the session waits for the provider meanwhile.

# The bound

The quick retries, the waits, the switch to the backup and the compaction of an
overflow each have a budget, and the budgets bound the turn when no overflow is
silent (`retries_bounded`). A silent overflow is a response without an error,
and such a response opens the budget of the compaction again
(`not_retries_bounded_silentOverflow`).

# The invariant

Every request that is sent again has a start of its own: an announced retry, or
the compaction. While the turn is tried the attempts of the session are the
announced retries (`Live`); from the end of the retry on there is nothing that
could start a request (`Quiet`).
-/
import Mathlib.Tactic.Linarith
import OneHarness.Session.Proofs.BackupModel

namespace OneHarness.Session.Retries

open Lib RetryState

variable {M L : Type} {config : RetryConfig M L}

-- ======== statement vocabulary

/-- What the retries have used up. -/
structure Tally where
  quick : Nat
  waits : Nat
  backups : Nat
  waitedMs : Rat

def Tally.add (tally : Tally) : RetryEvent M → Tally
  | .autoRetryStart _ _ none => { tally with quick := tally.quick + 1 }
  | .autoRetryStart _ _ (some .backup) =>
    { tally with backups := tally.backups + 1 }
  | .autoRetryStart _ delayMs (some _) =>
    { tally with
      waits := tally.waits + 1, waitedMs := tally.waitedMs + delayMs }
  | .autoRetryEnd _ _ _ => tally

def RetryState.tally (s : RetryState M L) : Tally :=
  s.events.foldl Tally.add ⟨0, 0, 0, 0⟩

/-- A run, and the latest time that is known of it. -/
structure Clocked (M L : Type) where
  state : RetryState M L
  now : Rat

def clockedStep [DecidableEq M] [DecidableEq L] (config : RetryConfig M L)
    (w : Clocked M L) (step : RetryStep M L) : Clocked M L where
  state := retryStep config w.state step
  now :=
    match step with
    | .agentEnd _ _ now _ => now
    | .sleepDone now => now
    | _ => w.now

/-- The session is settled, and the logs are those of the turn to come. -/
structure Settled (s : RetryState M L) (now : Rat) : Prop where
  retryAttempt : s.retryAttempt = 0
  sleeping : s.sleeping = none
  compacting : s.compacting = none
  postCompactionContinue : s.postCompactionContinue = false
  timers : ∀ generation ∈ s.timers, generation < s.retryGeneration
  providerWait : ∀ wait ∈ s.providerWait, wait.startedAtMs ≤ now
  reissued : s.reissued = 0
  events : s.events = []

/-- After the turn is accepted nobody intervenes, every response is a failure,
and time does not go back. -/
def Failing (config : RetryConfig M L) (w : Clocked M L) :
    RetryStep M L → Prop
  | .prompt _ | .abortRetry | .user _ => False
  | .messageEnd message => message.failed = true
      ∨ isContextOverflow message
        (config.features.contextWindow w.state.selection.model) = true
  | .agentEnd _ _ now _ | .sleepDone now => w.now ≤ now
  | _ => True

/-- A response that ends is one of an error. -/
def Loud : RetryStep M L → Prop
  | .messageEnd message => message.stopReason = .error
  | _ => True

/-- The quick retries, the waits, one switch to the backup and one compaction;
and the waits in all. -/
def Bounded (config : RetryConfig M L) (w : Clocked M L) : Prop :=
  (w.state.reissued : Rat)
      ≤ config.settings.maxRetries + config.waitPolicy.maxAttempts + 1 + 1
    ∧ w.state.tally.waitedMs ≤ config.waitPolicy.maxWaitMs

-- ======== the decisions

variable {delayMs : Rat}

/-- A wait is within the attempts, and ends within the time. -/
theorem providerWaitDecision_wait {attempt : Nat} {elapsedMs : Rat}
    {resetMs : Option Rat} {policy : ProviderWaitPolicy} {random : Rat}
    (h : providerWaitDecision attempt elapsedMs resetMs policy random
      = .wait delayMs) :
    (attempt : Rat) ≤ policy.maxAttempts
      ∧ elapsedMs + delayMs ≤ policy.maxWaitMs := by
  unfold providerWaitDecision at h
  dsimp only at h
  split_ifs at h with hattempts hduration
  have hremaining : 0 < policy.maxWaitMs - elapsedMs := not_le.1 hduration
  refine ⟨not_lt.1 hattempts, ?_⟩
  cases resetMs with
  | some reset =>
    dsimp only at h
    split_ifs at h with hfar
    cases h
    have hle : min (max reset 0) maxTimerDelayMs
        ≤ policy.maxWaitMs - elapsedMs :=
      (min_le_left _ _).trans (max_le (not_lt.1 hfar) hremaining.le)
    linarith
  | none =>
    dsimp only at h
    cases h
    have hle := min_le_right (providerWaitJitter
      (providerWaitPingDelay attempt policy) random)
      (policy.maxWaitMs - elapsedMs)
    linarith

variable {message : Response M}

/-- An error overflows by its text, whatever the window. -/
theorem isContextOverflow_error
    (h : message.stopReason = .error) (contextWindow : Rat) :
    isContextOverflow message contextWindow
      = (message.failed && message.overflowText) := by
  unfold isContextOverflow
  rw [h]
  simp

-- ======== the invariant

/-- The starts that are due. -/
def RetryState.due (s : RetryState M L) : Nat :=
  s.timers.count s.retryGeneration + s.sleeping.isSome.toNat
    + s.postCompactionContinue.toNat

def RetryState.recoveries (s : RetryState M L) : Nat :=
  if s.overflowRecovery = .idle then 0 else 1

/-- Up to when the session waits, if it does. -/
def RetryState.waitsUntil (s : RetryState M L) (now : Rat) : Rat :=
  max now ((s.sleeping.map (·.untilMs)).getD now)

structure Within (config : RetryConfig M L) (s : RetryState M L) : Prop where
  quick : (s.tally.quick : Rat) ≤ config.settings.maxRetries
  waits : (s.tally.waits : Rat) ≤ config.waitPolicy.maxAttempts
  backups : s.tally.backups ≤ 1
  waited : s.tally.waitedMs ≤ config.waitPolicy.maxWaitMs
  reissued : s.reissued + s.due + (s.compacting = some true : Bool).toNat
    ≤ s.tally.quick + s.tally.waits + s.tally.backups + s.recoveries

structure Live (config : RetryConfig M L) (s : RetryState M L) (now : Rat) :
    Prop where
  attempts : s.tally.quick + s.tally.waits + s.tally.backups = s.retryAttempt
  waitless : s.tally.waits = 0 → s.tally.waitedMs = 0
  routed : s.tally.backups = 0 ∨ config.backupModel = some s.selection.model
  unrouted : ∀ backup ∈ config.backupModel, s.selection.model ≠ backup →
    s.tally.waits = 0
  unwaited : s.providerWait = none → s.tally.waits = 0
  waiting : ∀ wait ∈ s.providerWait, s.tally.waits ≤ wait.attempts
    ∧ s.tally.waitedMs + wait.startedAtMs ≤ s.waitsUntil now
  resting : ∀ sleep ∈ s.sleeping, sleep.aborted = false
  timers : ∀ generation ∈ s.timers, generation ≤ s.retryGeneration
  single : s.running.toNat + s.due + s.compacting.isSome.toNat ≤ 1

structure Quiet (s : RetryState M L) : Prop where
  running : s.running = false
  sleeping : s.sleeping = none
  timers : ∀ generation ∈ s.timers, generation < s.retryGeneration
  postCompactionContinue : s.postCompactionContinue = false
  compacting : s.compacting ≠ some true

structure Budgeted (config : RetryConfig M L) (w : Clocked M L) : Prop where
  within : Within config w.state
  on : Live config w.state w.now ∨ Quiet w.state

variable {s s' : RetryState M L} {now : Rat}

theorem due_eq_zero : s.due = 0 ↔ s.timers.count s.retryGeneration = 0
    ∧ s.sleeping = none ∧ s.postCompactionContinue = false := by
  unfold RetryState.due
  rw [Nat.add_eq_zero_iff, Nat.add_eq_zero_iff, Bool.toNat_eq_zero,
    Bool.toNat_eq_zero, Option.isSome_eq_false_iff, Option.isNone_iff_eq_none,
    and_assoc]

theorem Budgeted.bounded {w : Clocked M L} (h : Budgeted config w) :
    Bounded config w := by
  refine ⟨?_, h.within.waited⟩
  have hreissued := h.within.reissued
  have hquick := h.within.quick
  have hwaits := h.within.waits
  have hbackups := h.within.backups
  have hrecoveries : w.state.recoveries ≤ 1 := by
    unfold recoveries
    split_ifs <;> omega
  have hle : w.state.reissued
      ≤ w.state.tally.quick + w.state.tally.waits + 1 + 1 := by omega
  have hcast : (w.state.reissued : Rat)
      ≤ w.state.tally.quick + w.state.tally.waits + 1 + 1 := by
    exact_mod_cast hle
  linarith

-- ======== the tally

theorem tally_emit (s : RetryState M L) (event : RetryEvent M) :
    (s.emit event).tally = s.tally.add event := by
  unfold tally emit
  rw [List.foldl_append]
  rfl

/-- What is read of a state is what the budgets are kept of. -/
theorem Within.of_le (h : Within config s) (htally : s'.tally = s.tally)
    (hle : s'.reissued + s'.due + (s'.compacting = some true : Bool).toNat
        + s.recoveries
      ≤ s.reissued + s.due + (s.compacting = some true : Bool).toNat
        + s'.recoveries) : Within config s' where
  quick := by
    rw [htally]
    exact h.quick
  waits := by
    rw [htally]
    exact h.waits
  backups := by
    rw [htally]
    exact h.backups
  waited := by
    rw [htally]
    exact h.waited
  reissued := by
    rw [htally]
    have hreissued := h.reissued
    omega

theorem Live.moved (h : Live config s now) {later : Rat}
    (htally : s'.tally = s.tally) (hattempt : s'.retryAttempt = s.retryAttempt)
    (hselection : s'.selection = s.selection)
    (hwait : s'.providerWait = s.providerWait)
    (huntil : s.waitsUntil now ≤ s'.waitsUntil later)
    (hresting : ∀ sleep ∈ s'.sleeping, sleep.aborted = false)
    (htimers : ∀ generation ∈ s'.timers, generation ≤ s'.retryGeneration)
    (hsingle : s'.running.toNat + s'.due + s'.compacting.isSome.toNat ≤ 1) :
    Live config s' later where
  attempts := by
    rw [htally, hattempt]
    exact h.attempts
  waitless := by
    rw [htally]
    exact h.waitless
  routed := by
    rw [htally, hselection]
    exact h.routed
  unrouted := by
    rw [htally, hselection]
    exact h.unrouted
  unwaited := by
    rw [htally, hwait]
    exact h.unwaited
  waiting := by
    rw [htally, hwait]
    intro wait hmem
    obtain ⟨hattempts, hwaited⟩ := h.waiting wait hmem
    exact ⟨hattempts, hwaited.trans huntil⟩
  resting := hresting
  timers := htimers
  single := hsingle

-- ======== the end of a retry

/-- The budgets are left alone, and the attempts may start anew. -/
structure Ended (s s' : RetryState M L) : Prop where
  tally : s'.tally = s.tally
  reissued : s'.reissued = s.reissued
  overflowRecovery : s'.overflowRecovery = s.overflowRecovery
  sleeping : s'.sleeping = s.sleeping
  postCompactionContinue :
    s'.postCompactionContinue = s.postCompactionContinue
  compacting : s'.compacting = s.compacting
  running : s'.running = s.running
  timers : s'.timers = s.timers
  retryGeneration : s'.retryGeneration = s.retryGeneration
  retryAttempt : s'.retryAttempt ≤ s.retryAttempt
  providerWait : ∀ wait ∈ s'.providerWait, wait ∈ s.providerWait

theorem Ended.refl (s : RetryState M L) : Ended s s :=
  ⟨rfl, rfl, rfl, rfl, rfl, rfl, rfl, rfl, rfl, Nat.le_refl _,
    fun _ hwait => hwait⟩

theorem endRetry_ended [DecidableEq M] (config : RetryConfig M L)
    (s : RetryState M L) (success : Bool) (attempt : Nat) :
    Ended s (s.endRetry config success attempt) := by
  have htally : (s.endRetry config success attempt).tally = s.tally := by
    unfold endRetry tally emit restorePrimaryModelAfterBackup
    cases s.backupModel <;> exact List.foldl_append
  unfold endRetry restorePrimaryModelAfterBackup at *
  cases hbackup : s.backupModel <;>
    (rw [hbackup] at htally
     exact ⟨htally, rfl, rfl, rfl, rfl, rfl, rfl, rfl, rfl, Nat.zero_le _,
      fun _ hwait => hwait⟩)

theorem endRetry_providerWait [DecidableEq M] (s : RetryState M L)
    (success : Bool) (attempt : Nat) :
    (s.endRetry config success attempt).providerWait = s.providerWait := by
  unfold endRetry restorePrimaryModelAfterBackup
  cases s.backupModel <;> rfl

theorem Ended.withoutWait (h : Ended s s') : Ended s s'.withoutWait :=
  ⟨h.tally, h.reissued, h.overflowRecovery, h.sleeping,
    h.postCompactionContinue, h.compacting, h.running, h.timers,
    h.retryGeneration, h.retryAttempt, fun _ hwait => absurd hwait (by
      show _ ∉ (none : Option ProviderWait)
      exact Option.not_mem_none _)⟩

theorem finishActiveRetryWithFailure_ended [DecidableEq M]
    (config : RetryConfig M L) (s : RetryState M L) :
    Ended s (s.finishActiveRetryWithFailure config) := by
  unfold finishActiveRetryWithFailure
  split_ifs
  · exact Ended.refl s
  · exact (endRetry_ended config s false s.retryAttempt).withoutWait

theorem Ended.attempted {attempt : Nat} {wait : Option ProviderWait}
    (h : Ended { s with retryAttempt := attempt, providerWait := wait } s')
    (hattempt : s'.retryAttempt = 0)
    (hwait : ∀ wait ∈ s'.providerWait, wait ∈ s.providerWait) : Ended s s' :=
  ⟨h.tally, h.reissued, h.overflowRecovery, h.sleeping,
    h.postCompactionContinue, h.compacting, h.running, h.timers,
    h.retryGeneration, hattempt ▸ Nat.zero_le _, hwait⟩

/-- The starts of older retries are overtaken. -/
theorem count_resolved
    (htimers : ∀ generation ∈ s.timers, generation ≤ s.retryGeneration) :
    s.timers.count (s.retryGeneration + 1) = 0 := by
  apply List.count_eq_zero.2
  intro hmem
  have hle := htimers _ hmem
  omega

theorem Ended.due (h : Ended s s')
    (htimers : ∀ generation ∈ s.timers, generation ≤ s.retryGeneration) :
    s'.resolveRetry.due
      = s.sleeping.isSome.toNat + s.postCompactionContinue.toNat := by
  show s'.timers.count (s'.retryGeneration + 1) + s'.sleeping.isSome.toNat
    + s'.postCompactionContinue.toNat = _
  rw [h.timers, h.retryGeneration, h.sleeping, h.postCompactionContinue,
    count_resolved htimers, Nat.zero_add]

theorem Ended.within (h : Ended s s') (hwithin : Within config s)
    (htimers : ∀ generation ∈ s.timers, generation ≤ s.retryGeneration) :
    Within config s'.resolveRetry := by
  have htally : s'.resolveRetry.tally = s.tally := h.tally
  apply hwithin.of_le htally
  have hdue := h.due htimers
  have hreissued : s'.resolveRetry.reissued = s.reissued := h.reissued
  have hcompacting : s'.resolveRetry.compacting = s.compacting := h.compacting
  have hrecoveries : s'.resolveRetry.recoveries = s.recoveries := by
    show (if s'.overflowRecovery = .idle then 0 else 1) = _
    rw [h.overflowRecovery]
    rfl
  rw [hdue, hreissued, hcompacting, hrecoveries]
  unfold RetryState.due
  omega

theorem Ended.quiet (h : Ended s s') (hrunning : s.running = false)
    (hsleeping : s.sleeping = none)
    (htimers : ∀ generation ∈ s.timers, generation ≤ s.retryGeneration)
    (hpost : s.postCompactionContinue = false)
    (hcompacting : s.compacting ≠ some true) : Quiet s'.resolveRetry where
  running := h.running.trans hrunning
  sleeping := h.sleeping.trans hsleeping
  timers := by
    show ∀ generation ∈ s'.timers, generation < s'.retryGeneration + 1
    rw [h.timers, h.retryGeneration]
    intro generation hmem
    exact Nat.lt_succ_of_le (htimers generation hmem)
  postCompactionContinue := h.postCompactionContinue.trans hpost
  compacting := by
    show s'.compacting ≠ some true
    rw [h.compacting]
    exact hcompacting

-- ======== between runs

/-- Nothing is on, and nothing is due. -/
structure Ready (config : RetryConfig M L) (s : RetryState M L) (now : Rat) :
    Prop where
  within : Within config s
  live : Live config s now
  running : s.running = false
  sleeping : s.sleeping = none
  compacting : s.compacting = none
  postCompactionContinue : s.postCompactionContinue = false
  timers : s.timers.count s.retryGeneration = 0

section
variable (h : Ready config s now)
include h

theorem Ready.due : s.due = 0 := by
  unfold RetryState.due
  rw [h.timers, h.sleeping, h.postCompactionContinue]
  rfl

theorem Ready.waited {wait : ProviderWait} (hwait : wait ∈ s.providerWait) :
    s.tally.waitedMs + wait.startedAtMs ≤ now := by
  have hwaited := (h.live.waiting wait hwait).2
  unfold waitsUntil at hwaited
  rw [h.sleeping] at hwaited
  exact hwaited.trans (max_le (le_refl now) (le_refl now))

theorem Ready.retrying (retrying : Bool) :
    Ready config { s with retrying := retrying } now :=
  ⟨h.within.of_le rfl (Nat.le_refl _),
    h.live.moved rfl rfl rfl rfl (le_refl _) h.live.resting h.live.timers
      h.live.single,
    h.running, h.sleeping, h.compacting, h.postCompactionContinue, h.timers⟩

theorem Ready.quiet (hended : Ended s s') : Quiet s'.resolveRetry := by
  apply hended.quiet h.running h.sleeping h.live.timers
    h.postCompactionContinue
  rw [h.compacting]
  intro hnone
  cases hnone

/-- Given up before anything was tried again. -/
theorem Ready.ended (hended : Ended s s')
    (hattempt : s.retryAttempt = 0) : Ready config s'.resolveRetry now := by
  have hattempts := h.live.attempts
  have hdue := hended.due h.live.timers
  have hquiet := h.quiet hended
  have hwaits : s'.resolveRetry.tally.waits = 0 := by
    have htally : s'.resolveRetry.tally = s.tally := hended.tally
    rw [htally]
    omega
  refine ⟨hended.within h.within h.live.timers, ?_, hquiet.running,
    hquiet.sleeping, hended.compacting.trans h.compacting,
    hquiet.postCompactionContinue, ?_⟩
  · constructor
    · have hle : s'.resolveRetry.retryAttempt ≤ s.retryAttempt :=
        hended.retryAttempt
      have htally : s'.resolveRetry.tally = s.tally := hended.tally
      rw [htally]
      omega
    · have htally : s'.resolveRetry.tally = s.tally := hended.tally
      rw [htally]
      exact h.live.waitless
    · left
      have htally : s'.resolveRetry.tally = s.tally := hended.tally
      rw [htally]
      omega
    · exact fun _ _ _ => hwaits
    · exact fun _ => hwaits
    · intro wait hwait
      have hold := hended.providerWait wait hwait
      have hwaited := h.waited hold
      refine ⟨hwaits ▸ Nat.zero_le _, ?_⟩
      have htally : s'.resolveRetry.tally = s.tally := hended.tally
      rw [htally, waitsUntil, hquiet.sleeping]
      exact hwaited.trans (le_max_left _ _)
    · intro sleep hsleep
      rw [hquiet.sleeping] at hsleep
      cases hsleep
    · exact fun generation hmem => Nat.le_of_lt (hquiet.timers generation hmem)
    · have hcompacting : s'.resolveRetry.compacting = none :=
        hended.compacting.trans h.compacting
      rw [hdue, hquiet.running, hcompacting, h.sleeping,
        h.postCompactionContinue]
      exact Nat.zero_le 1
  · apply List.count_eq_zero.2
    intro hmem
    exact Nat.lt_irrefl _ (hquiet.timers _ hmem)

end

-- ======== another attempt

/-- One more attempt, after a delay. -/
structure Slept (s s' : RetryState M L) (untilMs : Rat) : Prop where
  retryAttempt : s'.retryAttempt = s.retryAttempt + 1
  sleeping : ∃ message, s'.sleeping = some ⟨message, untilMs, false⟩
  running : s'.running = s.running
  timers : s'.timers = s.timers
  retryGeneration : s'.retryGeneration = s.retryGeneration
  postCompactionContinue :
    s'.postCompactionContinue = s.postCompactionContinue
  compacting : s'.compacting = s.compacting
  reissued : s'.reissued = s.reissued
  overflowRecovery : s'.overflowRecovery = s.overflowRecovery

variable {untilMs : Rat}

section
variable (h : Slept s s' untilMs) (hready : Ready config s now)
include h hready

theorem Slept.due : s'.due = 1 := by
  obtain ⟨message, hsleeping⟩ := h.sleeping
  unfold RetryState.due
  rw [h.timers, h.retryGeneration, hready.timers, hsleeping,
    h.postCompactionContinue, hready.postCompactionContinue]
  rfl

theorem Slept.within
    (hquick : (s'.tally.quick : Rat) ≤ config.settings.maxRetries)
    (hwaits : (s'.tally.waits : Rat) ≤ config.waitPolicy.maxAttempts)
    (hbackups : s'.tally.backups ≤ 1)
    (hwaited : s'.tally.waitedMs ≤ config.waitPolicy.maxWaitMs)
    (htotal : s'.tally.quick + s'.tally.waits + s'.tally.backups
      = s.tally.quick + s.tally.waits + s.tally.backups + 1) :
    Within config s' := by
  refine ⟨hquick, hwaits, hbackups, hwaited, ?_⟩
  have hreissued := hready.within.reissued
  have hrecoveries : s'.recoveries = s.recoveries := by
    unfold recoveries
    rw [h.overflowRecovery]
  rw [h.reissued, h.due hready, h.compacting, hrecoveries, htotal]
  rw [hready.due] at hreissued
  omega

theorem Slept.live (htotal : s'.tally.quick + s'.tally.waits + s'.tally.backups
      = s.tally.quick + s.tally.waits + s.tally.backups + 1)
    (hwaitless : s'.tally.waits = 0 → s'.tally.waitedMs = 0)
    (hrouted : s'.tally.backups = 0
      ∨ config.backupModel = some s'.selection.model)
    (hunrouted : ∀ backup ∈ config.backupModel,
      s'.selection.model ≠ backup → s'.tally.waits = 0)
    (hunwaited : s'.providerWait = none → s'.tally.waits = 0)
    (hwaiting : ∀ wait ∈ s'.providerWait, s'.tally.waits ≤ wait.attempts
      ∧ s'.tally.waitedMs + wait.startedAtMs ≤ max now untilMs) :
    Live config s' now where
  attempts := by
    rw [htotal, h.retryAttempt, hready.live.attempts]
  waitless := hwaitless
  routed := hrouted
  unrouted := hunrouted
  unwaited := hunwaited
  waiting := by
    obtain ⟨message, hsleeping⟩ := h.sleeping
    unfold waitsUntil
    rw [hsleeping]
    exact hwaiting
  resting := by
    obtain ⟨message, hsleeping⟩ := h.sleeping
    intro sleep hsleep
    rw [hsleeping] at hsleep
    rw [← Option.some.inj hsleep]
  timers := by
    rw [h.timers, h.retryGeneration]
    exact hready.live.timers
  single := by
    rw [h.due hready, h.running, h.compacting, hready.running,
      hready.compacting]
    decide

end

theorem backup_slept [DecidableEq M] (h : Ready config s now)
    {backup : M} (hbackup : config.backupModel = some backup)
    (hmodel : s.selection.model ≠ backup) (message : Response M) :
    Budgeted config ⟨s.handleBackupModelRetry config message backup now, now⟩ := by
  have hslept : Slept s (s.handleBackupModelRetry config message backup now)
      (now + 0) :=
    ⟨rfl, ⟨message, rfl⟩, rfl, rfl, rfl, rfl, rfl, rfl, rfl⟩
  have htally : (s.handleBackupModelRetry config message backup now).tally
      = { s.tally with backups := s.tally.backups + 1 } := tally_emit _ _
  -- there was no switch before, and no wait
  have hbackups : s.tally.backups = 0 := by
    rcases h.live.routed with hnone | hsome
    · exact hnone
    · rw [hbackup] at hsome
      exact absurd (Option.some.inj hsome).symm hmodel
  have hwaits : s.tally.waits = 0 := h.live.unrouted backup hbackup hmodel
  have hwaited : s.tally.waitedMs = 0 := h.live.waitless hwaits
  have htotal : (s.handleBackupModelRetry config message backup now).tally.quick
        + (s.handleBackupModelRetry config message backup now).tally.waits
        + (s.handleBackupModelRetry config message backup now).tally.backups
      = s.tally.quick + s.tally.waits + s.tally.backups + 1 := by
    rw [htally]
    rfl
  constructor
  · apply hslept.within h _ _ _ _ htotal
    · rw [htally]
      exact h.within.quick
    · rw [htally]
      exact h.within.waits
    · rw [htally]
      show s.tally.backups + 1 ≤ 1
      omega
    · rw [htally]
      exact h.within.waited
  · left
    apply hslept.live h htotal
    · rw [htally]
      exact fun _ => hwaited
    · exact .inr hbackup
    · rw [htally]
      exact fun _ _ _ => hwaits
    · rw [htally]
      exact fun _ => hwaits
    · intro wait hwait
      cases hwait

theorem quickRetry_slept [DecidableEq M] (h : Ready config s now)
    {s₁ : RetryState M L}
    (hs : s₁ = { s with retryAttempt := s.retryAttempt + 1 })
    (hmax : ¬config.settings.maxRetries < (s.retryAttempt + 1 : Nat))
    (message : Response M) :
    Budgeted config ⟨s₁.retryAfterDelay message s₁.retryAttempt delayMs none
      now, now⟩ := by
  subst hs
  set s' := RetryState.retryAfterDelay
    { s with retryAttempt := s.retryAttempt + 1 } message (s.retryAttempt + 1)
    delayMs none now with hs'
  have hslept : Slept s s' (now + delayMs) :=
    ⟨rfl, ⟨message, rfl⟩, rfl, rfl, rfl, rfl, rfl, rfl, rfl⟩
  have htally : s'.tally = { s.tally with quick := s.tally.quick + 1 } :=
    tally_emit _ _
  have htotal : s'.tally.quick + s'.tally.waits + s'.tally.backups
      = s.tally.quick + s.tally.waits + s.tally.backups + 1 := by
    rw [htally]
    show s.tally.quick + 1 + s.tally.waits + s.tally.backups = _
    omega
  have hle : s.tally.quick + 1 ≤ s.retryAttempt + 1 := by
    have hattempts := h.live.attempts
    omega
  constructor
  · apply hslept.within h _ _ _ _ htotal
    · rw [htally]
      have hcast : ((s.tally.quick + 1 : Nat) : Rat)
          ≤ (s.retryAttempt + 1 : Nat) := by exact_mod_cast hle
      exact hcast.trans (not_lt.1 hmax)
    · rw [htally]
      exact h.within.waits
    · rw [htally]
      exact h.within.backups
    · rw [htally]
      exact h.within.waited
  · left
    apply hslept.live h htotal
    · rw [htally]
      exact h.live.waitless
    · rw [htally]
      exact h.live.routed
    · rw [htally]
      exact h.live.unrouted
    · rw [htally]
      exact h.live.unwaited
    · rw [htally]
      intro wait hwait
      exact ⟨(h.live.waiting wait hwait).1,
        (h.waited hwait).trans (le_max_left _ _)⟩

/-- The budget of the waits is asked before every one of them. -/
theorem wait_slept [DecidableEq M] (h : Ready config s now)
    (hmodel : ∀ backup ∈ config.backupModel, s.selection.model = backup)
    {s₁ : RetryState M L}
    (hs : s₁ = { s with retryAttempt := s.retryAttempt + 1 })
    {wait : ProviderWait}
    (hwait : wait = ⟨(s.providerWait.map (·.attempts)).getD 0 + 1,
      (s.providerWait.map (·.startedAtMs)).getD now⟩)
    {reason : RetryReason} (hreason : reason ≠ .backup)
    (hattempts : (wait.attempts : Rat) ≤ config.waitPolicy.maxAttempts)
    (hwaited : now - wait.startedAtMs + delayMs ≤ config.waitPolicy.maxWaitMs)
    (message : Response M) :
    Budgeted config
      ⟨({ s₁ with providerWait := some wait }).retryAfterDelay message
        wait.attempts delayMs (some reason) now, now⟩ := by
  subst hs
  set s' := RetryState.retryAfterDelay
    { s with retryAttempt := s.retryAttempt + 1, providerWait := some wait }
    message wait.attempts delayMs (some reason) now with hs'
  have hslept : Slept s s' (now + delayMs) :=
    ⟨rfl, ⟨message, rfl⟩, rfl, rfl, rfl, rfl, rfl, rfl, rfl⟩
  have htally : s'.tally = { s.tally with
      waits := s.tally.waits + 1
      waitedMs := s.tally.waitedMs + delayMs } := by
    apply (tally_emit _ _).trans
    cases reason with
    | backup => exact absurd rfl hreason
    | usage => rfl
    | unavailable => rfl
  have htotal : s'.tally.quick + s'.tally.waits + s'.tally.backups
      = s.tally.quick + s.tally.waits + s.tally.backups + 1 := by
    rw [htally]
    show s.tally.quick + (s.tally.waits + 1) + s.tally.backups = _
    omega
  have hspent : s.tally.waits + 1 ≤ wait.attempts
      ∧ s.tally.waitedMs + wait.startedAtMs ≤ now := by
    rw [hwait]
    cases hold : s.providerWait with
    | none =>
      have hwaits := h.live.unwaited hold
      have hnone := h.live.waitless hwaits
      refine ⟨?_, ?_⟩
      · show s.tally.waits + 1 ≤ 0 + 1
        omega
      · show s.tally.waitedMs + now ≤ now
        rw [hnone, zero_add]
    | some old =>
      have hlast : s.tally.waitedMs + old.startedAtMs ≤ now := h.waited hold
      exact ⟨Nat.succ_le_succ (h.live.waiting old hold).1, hlast⟩
  constructor
  · apply hslept.within h _ _ _ _ htotal
    · rw [htally]
      exact h.within.quick
    · rw [htally]
      have hcast : ((s.tally.waits + 1 : Nat) : Rat) ≤ wait.attempts := by
        exact_mod_cast hspent.1
      exact hcast.trans hattempts
    · rw [htally]
      exact h.within.backups
    · rw [htally]
      show s.tally.waitedMs + delayMs ≤ _
      linarith [hspent.2]
  · left
    apply hslept.live h htotal
    · rw [htally]
      exact fun hnone => absurd hnone (Nat.succ_ne_zero _)
    · rw [htally]
      exact h.live.routed
    · intro backup hbackup hother
      exact absurd (hmodel backup hbackup) hother
    · intro hnone
      cases hnone
    · rw [htally]
      intro latest hlatest
      rw [← Option.some.inj hlatest]
      refine ⟨hspent.1, ?_⟩
      show s.tally.waitedMs + delayMs + wait.startedAtMs ≤ _
      have hbound := le_max_right now (now + delayMs)
      linarith [hspent.2]

-- ======== a retryable error

/-- Either there is one more attempt, or the retry is given up. -/
def Tried (config : RetryConfig M L) (s s' : RetryState M L) (now : Rat) : Prop :=
  (Budgeted config ⟨s', now⟩ ∧ s'.sleeping.isSome)
    ∨ ∃ ended, Ended s ended ∧ s' = ended.resolveRetry

theorem handleProviderWait_tried [DecidableEq M] (h : Ready config s now)
    (hmodel : ∀ backup ∈ config.backupModel, s.selection.model = backup)
    {reason : RetryReason} (hreason : reason ≠ .backup) (message : Response M)
    (random : Rat) :
    Tried config s (({ s with
      retryAttempt := s.retryAttempt + 1 }).handleProviderWait config message
        reason now random) now := by
  unfold handleProviderWait
  dsimp only
  split
  · right
    refine ⟨_, ?_, rfl⟩
    apply (endRetry_ended config _ false _).withoutWait.attempted rfl
    intro wait hwait
    cases hwait
  · rename_i delayMs hdecision
    obtain ⟨hattempts, hwaited⟩ := providerWaitDecision_wait hdecision
    left
    refine ⟨?_, rfl⟩
    exact wait_slept h hmodel rfl rfl hreason hattempts hwaited message

theorem quickRetry_tried [DecidableEq M] (h : Ready config s now)
    (hmax : ¬config.settings.maxRetries < (s.retryAttempt + 1 : Nat))
    (message : Response M) :
    Tried config s (({ s with
      retryAttempt := s.retryAttempt + 1 }).quickRetry config message now)
        now := by
  unfold quickRetry
  split
  · right
    refine ⟨_, ?_, rfl⟩
    apply (endRetry_ended config _ false _).attempted rfl
    rw [endRetry_providerWait]
    exact fun wait hwait => hwait
  · left
    exact ⟨quickRetry_slept h rfl hmax message, rfl⟩

theorem handleRetryableError_tried [DecidableEq M] (h : Ready config s now)
    (message : Response M) (random : Rat) :
    Tried config s (s.handleRetryableError config message now random) now := by
  unfold handleRetryableError
  split_ifs
  · exact .inr ⟨s, Ended.refl s, rfl⟩
  · have hon := h.retrying true
    suffices htried : Tried config { s with retrying := true } _ now by
      rcases htried with hslept | ⟨ended, hended, heq⟩
      · exact .inl hslept
      · exact .inr ⟨ended, ⟨hended.tally, hended.reissued,
          hended.overflowRecovery, hended.sleeping,
          hended.postCompactionContinue, hended.compacting, hended.running,
          hended.timers, hended.retryGeneration, hended.retryAttempt,
          hended.providerWait⟩, heq⟩
    dsimp only
    split
    · rename_i backup hbackup
      obtain ⟨hconfigured, hmodel⟩ := Option.filter_eq_some_iff.1 hbackup
      rw [Bool.and_eq_true, decide_eq_true_eq, decide_eq_true_eq] at hmodel
      left
      exact ⟨backup_slept hon hconfigured hmodel.2 message, rfl⟩
    · rename_i hnone
      -- a failure that may be waited for is one of the backup, if there is one
      have hmodel : providerWaitClass message.kind message.status ≠ .permanent →
          ∀ backup ∈ config.backupModel, s.selection.model = backup := by
        intro hclass backup hbackup
        have hfilter := Option.filter_eq_none_iff.1 hnone backup hbackup
        rw [Bool.and_eq_true, decide_eq_true_eq, decide_eq_true_eq] at hfilter
        by_contra hother
        exact hfilter ⟨hclass, hother⟩
      split_ifs with hquota hmax htransient
      · apply handleProviderWait_tried hon (hmodel _) (by decide)
        rw [hquota.1]
        decide
      · apply handleProviderWait_tried hon (hmodel _) (by decide)
        rw [htransient.1]
        decide
      · right
        refine ⟨_, ?_, rfl⟩
        apply (endRetry_ended config _ false _).attempted rfl
        rw [endRetry_providerWait]
        exact fun wait hwait => hwait
      · exact quickRetry_tried hon hmax message

-- ======== steps

theorem checkCompaction_budgeted [DecidableEq M] (h : Ready config s now)
    (message : Response M) (requested : Bool) :
    Budgeted config ⟨s.checkCompaction config message requested, now⟩ := by
  have hdue := h.due
  have hbudgeted : ∀ (recovery : OverflowRecovery) (overflow : Bool),
      overflow.toNat + s.recoveries ≤ (if recovery = .idle then 0 else 1) →
      Budgeted config ⟨{ s with
        overflowRecovery := recovery, compacting := some overflow }, now⟩ := by
    intro recovery overflow hle
    constructor
    · refine h.within.of_le rfl ?_
      show s.reissued + s.due + (some overflow = some true : Bool).toNat
        + s.recoveries ≤ s.reissued + s.due
          + (s.compacting = some true : Bool).toNat
          + (if recovery = .idle then 0 else 1)
      have hoverflow : (some overflow = some true : Bool) = overflow := by
        cases overflow <;> rfl
      rw [hoverflow]
      omega
    · left
      refine h.live.moved rfl rfl rfl rfl (le_refl _) h.live.resting
        h.live.timers ?_
      show s.running.toNat + s.due + 1 ≤ 1
      rw [h.running, hdue]
      exact Nat.le_refl 1
  have hsame : Budgeted config
      ⟨{ s with compacting := some false }, now⟩ :=
    hbudgeted s.overflowRecovery false (Nat.le_of_eq (Nat.zero_add _))
  unfold checkCompaction
  split_ifs
  · exact hsame
  · split
    · rename_i hidle
      apply hbudgeted .attempted true
      unfold recoveries
      rw [if_pos hidle]
      exact Nat.le_refl 1
    · rename_i hattempted
      apply hbudgeted .reported false
      unfold recoveries
      rw [hattempted]
      decide
    · exact hsame
  · exact hsame

/-- Given up, a failure that is no overflow is not compacted. -/
theorem checkCompaction_quiet [DecidableEq M] (h : Ready config s now)
    {ended : RetryState M L} (hended : Ended s ended)
    (hoverflow : ∀ contextWindow,
      isContextOverflow message contextWindow = false) (requested : Bool) :
    Budgeted config
      ⟨ended.resolveRetry.checkCompaction config message requested, now⟩ := by
  have hcheck : ended.resolveRetry.checkCompaction config message requested
      = { ended.resolveRetry with compacting := some false } := by
    unfold checkCompaction
    split_ifs with haborted hcompacts
    · rfl
    · rw [hoverflow] at hcompacts
      cases hcompacts.2.2.2
    · rfl
  have hquiet := h.quiet hended
  rw [hcheck]
  constructor
  · refine (hended.within h.within h.live.timers).of_le rfl ?_
    show _ + _ + 0 + _ ≤ _
    exact Nat.add_le_add_right (Nat.le_add_right _ _) _
  · right
    refine ⟨hquiet.running, hquiet.sleeping, hquiet.timers,
      hquiet.postCompactionContinue, ?_⟩
    intro hcompacting
    cases hcompacting

theorem Live.ready (h : Live config s now) (hwithin : Within config s)
    (hprocessing : s.processing = true) {later : Rat} (hlater : now ≤ later)
    (retrying : Bool) :
    Ready config { s with
      running := false, retrying := retrying, lastAssistantMessage := none }
      later := by
  unfold processing at hprocessing
  rw [Bool.and_eq_true, Bool.and_eq_true, Option.isNone_iff_eq_none,
    Option.isNone_iff_eq_none] at hprocessing
  obtain ⟨⟨hrunning, hsleeping⟩, hcompacting⟩ := hprocessing
  have hsingle := h.single
  rw [hrunning] at hsingle
  have hone : true.toNat = 1 := rfl
  have hdue : s.due = 0 := by omega
  obtain ⟨hcount, -, hpost⟩ := due_eq_zero.1 hdue
  refine ⟨hwithin.of_le rfl (Nat.le_refl _), ?_, rfl, hsleeping, hcompacting,
    hpost, ?_⟩
  · refine h.moved rfl rfl rfl rfl ?_ h.resting h.timers ?_
    · show max now _ ≤ max later _
      rw [hsleeping]
      exact max_le_max hlater hlater
    · show false.toNat + s.due + s.compacting.isSome.toNat ≤ 1
      rw [hdue, hcompacting]
      exact Nat.zero_le 1
  · exact hcount

theorem isRetryableError_overflow
    (h : s.isRetryableError config message = true) (contextWindow : Rat) :
    isContextOverflow message contextWindow = false := by
  unfold isRetryableError at h
  rw [Bool.and_eq_true, Bool.and_eq_true, Bool.and_eq_true,
    Bool.and_eq_true] at h
  obtain ⟨⟨⟨⟨hfailed, hoverflow⟩, -⟩, -⟩, -⟩ := h
  have herror : message.stopReason = .error := by
    unfold Response.failed at hfailed
    rw [Bool.and_eq_true, decide_eq_true_eq] at hfailed
    exact hfailed.1
  rw [Bool.not_eq_true', isContextOverflow_error herror] at hoverflow
  rw [isContextOverflow_error herror]
  exact hoverflow

theorem retryAttempt_of_auth
    (hauth : isConcreteProviderAuthFailure message = true)
    (hfirst : s.isPermanentRetryExhausted message = false) :
    s.retryAttempt = 0 := by
  unfold isConcreteProviderAuthFailure at hauth
  rw [Bool.and_eq_true, decide_eq_true_eq] at hauth
  unfold isPermanentRetryExhausted isPermanentProviderFailureKind at hfirst
  rw [hauth.2] at hfirst
  simpa using hfirst

theorem agentEnd_budgeted [DecidableEq M] (h : Live config s now)
    (hwithin : Within config s) (hprocessing : s.processing = true)
    {later : Rat} (hlater : now ≤ later)
    (found : Option (Response M)) (requested : Bool) (random : Rat) :
    Budgeted config
      ⟨s.agentEnd config found requested later random, later⟩ := by
  unfold agentEnd
  dsimp only
  generalize (s.retrying || _) = retrying
  have hready := h.ready hwithin hprocessing hlater retrying
  split
  · exact ⟨(Ended.refl _).within hready.within hready.live.timers,
      .inr (hready.quiet (Ended.refl _))⟩
  · rename_i message hmessage
    split_ifs with htry hsleeping
    · rcases handleRetryableError_tried hready message random with
        hslept | ⟨ended, hended, heq⟩
      · exact hslept.1
      · rw [heq] at hsleeping
        have hnone := (hready.quiet hended).sleeping
        rw [hnone] at hsleeping
        cases hsleeping
    · rcases handleRetryableError_tried hready message random with
        hslept | ⟨ended, hended, heq⟩
      · exact absurd hslept.2 hsleeping
      · rw [heq]
        rcases htry with hretryable | ⟨hauth, hfirst⟩
        · -- an error that is retried is no overflow, in any window
          apply checkCompaction_quiet hready hended
          exact isRetryableError_overflow hretryable
        · -- credentials are tried again only once
          apply checkCompaction_budgeted
          apply hready.ended hended
          exact retryAttempt_of_auth hauth hfirst
    · exact checkCompaction_budgeted hready message requested

/-- A failure of the retry from a state where something is on. -/
theorem Ended.budgeted (h : Ended s s') (hwithin : Within config s)
    (htimers : ∀ generation ∈ s.timers, generation ≤ s.retryGeneration)
    (hrunning : s.running = false) (hsleeping : s.sleeping = none)
    (hpost : s.postCompactionContinue = false)
    (hcompacting : s.compacting ≠ some true) :
    Budgeted config ⟨s'.resolveRetry, now⟩ :=
  ⟨h.within hwithin htimers,
    .inr (h.quiet hrunning hsleeping htimers hpost hcompacting)⟩

section
variable (h : Budgeted config ⟨s, now⟩)
include h

theorem Budgeted.later {later : Rat}
    (hlater : now ≤ later) : Budgeted config ⟨s, later⟩ := by
  have hon : Live config s now ∨ Quiet s := h.on
  refine ⟨h.within, ?_⟩
  rcases hon with hlive | hquiet
  · left
    refine hlive.moved rfl rfl rfl rfl ?_ hlive.resting hlive.timers
      hlive.single
    unfold waitsUntil
    apply max_le_max hlater
    cases s.sleeping with
    | none => exact hlater
    | some sleep => exact le_refl _
  · exact .inr hquiet

theorem messageEnd_budgeted [DecidableEq M]
    (herror : message.stopReason = .error) :
    Budgeted config ⟨s.messageEnd config message, now⟩ := by
  have hsame : s.messageEnd config message
      = { s with lastAssistantMessage := some message } := by
    unfold messageEnd
    rw [if_pos herror]
  rw [hsame]
  constructor
  · exact h.within.of_le rfl (Nat.le_refl _)
  · rcases h.on with hlive | hquiet
    · left
      exact hlive.moved rfl rfl rfl rfl (le_refl _) hlive.resting hlive.timers
        hlive.single
    · right
      exact ⟨hquiet.running, hquiet.sleeping, hquiet.timers,
        hquiet.postCompactionContinue, hquiet.compacting⟩

theorem sleepDone_budgeted
    {sleep : RetrySleep M} (hsleep : s.sleeping = some sleep) {later : Rat}
    (hlater : now ≤ later) (huntil : sleep.untilMs ≤ later) :
    Budgeted config ⟨s.sleepDone, later⟩ := by
  rcases h.on with hlive | hquiet
  · have hsingle : s.running.toNat + (s.timers.count s.retryGeneration
        + 1 + s.postCompactionContinue.toNat) + s.compacting.isSome.toNat
        ≤ 1 := by
      have hone := hlive.single
      unfold RetryState.due at hone
      rw [hsleep] at hone
      exact hone
    have hdue : s.sleepDone.due = s.due := by
      unfold RetryState.due sleepDone
      rw [hsleep, List.count_append, List.count_singleton_self]
      rfl
    constructor
    · refine h.within.of_le rfl ?_
      show s.reissued + s.sleepDone.due + _ + _ ≤ s.reissued + s.due + _ + _
      rw [hdue]
      exact Nat.le_refl _
    · left
      refine hlive.moved rfl rfl rfl rfl ?_ ?_ ?_ ?_
      · show max now _ ≤ max later later
        rw [hsleep, max_self]
        exact max_le hlater huntil
      · intro sleep hnone
        cases hnone
      · intro generation hmem
        rcases List.mem_append.1 hmem with hold | hnew
        · exact hlive.timers generation hold
        · rw [List.mem_singleton.1 hnew]
          exact Nat.le_refl _
      · show s.running.toNat + s.sleepDone.due + s.compacting.isSome.toNat ≤ 1
        rw [hdue]
        exact hlive.single
  · have hnone : s.sleeping = none := hquiet.sleeping
    rw [hnone] at hsleep
    cases hsleep

/-- A start that is due becomes a run. -/
theorem startRun_budgeted
    (hlive : Live config s now) {timers : List Nat} {continues : Bool}
    (htimers : ∀ generation ∈ timers, generation ≤ s.retryGeneration)
    (hdue : timers.count s.retryGeneration + continues.toNat + 1
      = s.timers.count s.retryGeneration + s.postCompactionContinue.toNat) :
    Budgeted config ⟨{ s.startRun with
      timers := timers, postCompactionContinue := continues }, now⟩ := by
  set s' : RetryState M L := { s.startRun with
    timers := timers, postCompactionContinue := continues } with hs'
  have hstart : s'.due + 1 = s.due := by
    show timers.count s.retryGeneration + s.sleeping.isSome.toNat
      + continues.toNat + 1 = _
    unfold RetryState.due
    omega
  constructor
  · refine h.within.of_le rfl ?_
    show s.reissued + 1 + s'.due + (s.compacting = some true : Bool).toNat
        + s.recoveries
      ≤ s.reissued + s.due + (s.compacting = some true : Bool).toNat
        + s.recoveries
    omega
  · left
    refine hlive.moved rfl rfl rfl rfl (le_refl _) hlive.resting htimers ?_
    have hsingle := hlive.single
    show 1 + s'.due + s.compacting.isSome.toNat ≤ 1
    omega

theorem timerFires_budgeted {generation : Nat} (hmem : generation ∈ s.timers) :
    Budgeted config ⟨s.timerFires generation, now⟩ := by
  have hon : Live config s now ∨ Quiet s := h.on
  have hkept : ∀ later ∈ s.timers.erase generation, later ∈ s.timers :=
    fun later hlater => List.mem_of_mem_erase hlater
  unfold timerFires
  dsimp only
  split_ifs with hcurrent
  · rcases hon with hlive | hquiet
    · refine startRun_budgeted h hlive
        (fun later hlater => hlive.timers later (hkept later hlater)) ?_
      have hpos := List.count_pos_iff.2 hmem
      show (s.timers.erase generation).count s.retryGeneration
        + s.postCompactionContinue.toNat + 1 = _
      rw [hcurrent.1, List.count_erase_self]
      omega
    · exact absurd hcurrent.1 (Nat.ne_of_gt (hquiet.timers _ hmem))
  · have hdue : ({ s with timers := s.timers.erase generation }).due
        ≤ s.due := by
      have hless : (s.timers.erase generation).count s.retryGeneration
          ≤ s.timers.count s.retryGeneration :=
        List.Sublist.count_le s.retryGeneration List.erase_sublist
      show (s.timers.erase generation).count s.retryGeneration
        + s.sleeping.isSome.toNat + s.postCompactionContinue.toNat ≤ _
      unfold RetryState.due
      omega
    constructor
    · refine h.within.of_le rfl ?_
      show s.reissued + ({ s with
        timers := s.timers.erase generation }).due + _ + _ ≤ _
      exact Nat.add_le_add_right (Nat.add_le_add_right
        (Nat.add_le_add_left hdue _) _) _
    · rcases hon with hlive | hquiet
      · left
        refine hlive.moved rfl rfl rfl rfl (le_refl _) hlive.resting
          (fun later hlater => hlive.timers later (hkept later hlater)) ?_
        have hsingle := hlive.single
        show s.running.toNat + ({ s with
          timers := s.timers.erase generation }).due
            + s.compacting.isSome.toNat ≤ 1
        omega
      · right
        exact ⟨hquiet.running, hquiet.sleeping,
          fun later hlater => hquiet.timers later (hkept later hlater),
          hquiet.postCompactionContinue, hquiet.compacting⟩

theorem continueFails_budgeted [DecidableEq M]
    (hlive : Live config s now) (hprocessing : s.processing = true)
    (generation : Nat) :
    Budgeted config ⟨s.continueFails config generation, now⟩ := by
  have hready := hlive.ready h.within hprocessing (le_refl now) s.retrying
  unfold continueFails
  split_ifs
  · have hended := (endRetry_ended config { s with running := false } false
      s.retryAttempt).withoutWait
    refine hended.budgeted (h.within.of_le rfl (Nat.le_refl _)) hlive.timers rfl
      hready.sleeping hready.postCompactionContinue ?_
    have hcompacting : s.compacting = none := hready.compacting
    show s.compacting ≠ some true
    rw [hcompacting]
    exact (Option.some_ne_none true).symm
  · exact h

omit h in
theorem Live.resolved (h : Live config s now) :
    Live config s.resolveRetry now := by
  refine h.moved rfl rfl rfl rfl (le_refl _) h.resting
    (fun generation hmem => Nat.le_succ_of_le (h.timers generation hmem)) ?_
  have hsingle := h.single
  have hdue := (Ended.refl s).due h.timers
  show s.running.toNat + s.resolveRetry.due + s.compacting.isSome.toNat ≤ 1
  unfold RetryState.due at hsingle
  omega

omit h in
/-- The compaction was the last thing that was on. -/
theorem finishCheck_given_up [DecidableEq M] (hwithin : Within config s)
    (htimers : ∀ generation ∈ s.timers, generation ≤ s.retryGeneration)
    (hrunning : s.running = false) (hsleeping : s.sleeping = none)
    (hpost : s.postCompactionContinue = false) :
    Budgeted config ⟨s.finishCheck config false, now⟩ := by
  unfold finishCheck
  dsimp only
  rw [if_neg (fun hretries => Bool.noConfusion hretries.1), Bool.or_false]
  refine (finishActiveRetryWithFailure_ended config _).budgeted
    (hwithin.of_le rfl ?_) htimers hrunning hsleeping hpost
    (Option.some_ne_none true).symm
  show s.reissued + s.due + 0 + s.recoveries
    ≤ s.reissued + s.due + (s.compacting = some true : Bool).toNat
      + s.recoveries
  omega

theorem finishCheck_budgeted [DecidableEq M]
    {overflow : Bool} (hcompacting : s.compacting = some overflow)
    (success : Bool) :
    Budgeted config ⟨s.finishCheck config (overflow && success), now⟩ := by
  have hon : Live config s now ∨ Quiet s := h.on
  have hwithin : Within config s := h.within
  rcases hon with hlive | hquiet
  · have hsingle := hlive.single
    have hone : s.compacting.isSome.toNat = 1 := by
      rw [hcompacting]
      rfl
    have hdueless : s.due = 0 := by omega
    have hrunning : s.running = false := Bool.toNat_eq_zero.1 (by omega)
    obtain ⟨-, hsleeping, hpost⟩ := due_eq_zero.1 hdueless
    cases hretries : (overflow && success) with
    | false =>
      exact finishCheck_given_up hwithin hlive.timers hrunning hsleeping
        hpost
    | true =>
      rw [Bool.and_eq_true] at hretries
      set s' : RetryState M L := { s with
        compacting := none, postCompactionContinue := true } with hs'
      have hdue : s'.due = s.due + 1 := by
        show s.timers.count s.retryGeneration + s.sleeping.isSome.toNat
          + 1 = _
        unfold RetryState.due
        rw [hpost]
        rfl
      have hwithin' : Within config s' := by
        refine hwithin.of_le rfl ?_
        show s.reissued + s'.due + 0 + s.recoveries ≤ s.reissued + s.due
          + (s.compacting = some true : Bool).toNat + s.recoveries
        rw [hdue, hcompacting, hretries.1]
        exact Nat.le_refl _
      have hlive' : Live config s' now := by
        refine hlive.moved rfl rfl rfl rfl (le_refl _) hlive.resting
          hlive.timers ?_
        show s.running.toNat + s'.due + 0 ≤ 1
        rw [hrunning, hdue, hdueless]
        exact Nat.le_refl 1
      by_cases hattempt : 0 < s.retryAttempt
      · have hcheck : s.finishCheck config true = s' := by
          unfold finishCheck
          rw [if_pos ⟨rfl, hattempt⟩, Bool.or_true]
        rw [hcheck]
        exact ⟨hwithin', .inl hlive'⟩
      · have hcheck : s.finishCheck config true = s'.resolveRetry := by
          unfold finishCheck finishActiveRetryWithFailure
          rw [if_neg (fun hretried => hattempt hretried.2), Bool.or_true,
            if_pos (Nat.eq_zero_of_not_pos hattempt)]
        rw [hcheck]
        exact ⟨(Ended.refl s').within hwithin' hlive'.timers,
          .inl hlive'.resolved⟩
  · have hfalse : overflow = false := by
      cases overflow with
      | false => rfl
      | true => exact absurd hcompacting hquiet.compacting
    rw [hfalse, Bool.false_and]
    exact finishCheck_given_up hwithin
      (fun generation hmem => Nat.le_of_lt (hquiet.timers generation hmem))
      hquiet.running hquiet.sleeping hquiet.postCompactionContinue

theorem cancel_budgeted :
    Budgeted config ⟨{ s with postCompactionContinue := false }, now⟩ := by
  have hon : Live config s now ∨ Quiet s := h.on
  have hdue : ({ s with postCompactionContinue := false }).due ≤ s.due :=
    Nat.add_le_add_left (Nat.zero_le _) _
  constructor
  · refine h.within.of_le rfl ?_
    show s.reissued + ({ s with postCompactionContinue := false }).due + _ + _
      ≤ _
    exact Nat.add_le_add_right (Nat.add_le_add_right
      (Nat.add_le_add_left hdue _) _) _
  · rcases hon with hlive | hquiet
    · left
      refine hlive.moved rfl rfl rfl rfl (le_refl _) hlive.resting hlive.timers
        ?_
      have hsingle := hlive.single
      show s.running.toNat + ({ s with postCompactionContinue := false }).due
        + s.compacting.isSome.toNat ≤ 1
      omega
    · right
      exact ⟨hquiet.running, hquiet.sleeping, hquiet.timers, rfl,
        hquiet.compacting⟩

theorem Budgeted.live
    (hprocessing : s.processing = true) : Live config s now := by
  have hon : Live config s now ∨ Quiet s := h.on
  rcases hon with hlive | hquiet
  · exact hlive
  · unfold processing at hprocessing
    rw [hquiet.running] at hprocessing
    cases hprocessing

end

theorem clockedStep_budgeted [DecidableEq M] [DecidableEq L]
    {w : Clocked M L} {step : RetryStep M L} (h : Budgeted config w)
    (hfailing : Failing config w step) (hloud : Loud step) :
    Budgeted config (clockedStep config w step) := by
  obtain ⟨s, now⟩ := w
  have hon : Live config s now ∨ Quiet s := h.on
  cases step with
  | prompt startsAgentRun => exact absurd hfailing id
  | messageEnd message =>
    show Budgeted config ⟨if s.processing then s.messageEnd config message
      else s, now⟩
    split_ifs
    · exact messageEnd_budgeted h hloud
    · exact h
  | agentEnd found requested later random =>
    show Budgeted config ⟨if s.processing then
      s.agentEnd config found requested later random else s, later⟩
    split_ifs with hprocessing
    · exact agentEnd_budgeted (h.live hprocessing) h.within hprocessing
        hfailing found requested random
    · exact h.later hfailing
  | sleepDone later =>
    show Budgeted config ⟨retryStep config s (.sleepDone later), later⟩
    rw [retryStep]
    split
    · rename_i sleep hsleep
      split_ifs with hdone
      · exact sleepDone_budgeted h hsleep hfailing hdone.2
      · exact h.later hfailing
    · exact h.later hfailing
  | sleepRejected requested =>
    show Budgeted config ⟨retryStep config s (.sleepRejected requested), now⟩
    rw [retryStep]
    split
    · rename_i sleep hsleep
      split_ifs with haborted
      · rcases hon with hlive | hquiet
        · rw [hlive.resting sleep hsleep] at haborted
          cases haborted
        · rw [hquiet.sleeping] at hsleep
          cases hsleep
      · exact h
    · exact h
  | timerFires generation =>
    show Budgeted config ⟨if generation ∈ s.timers then
      s.timerFires generation else s, now⟩
    split_ifs with hmem
    · exact timerFires_budgeted h hmem
    · exact h
  | continueFails generation =>
    show Budgeted config ⟨if s.processing then
      s.continueFails config generation else s, now⟩
    split_ifs with hprocessing
    · exact continueFails_budgeted h (h.live hprocessing) hprocessing
        generation
    · exact h
  | compacted success =>
    show Budgeted config ⟨retryStep config s (.compacted success), now⟩
    rw [retryStep]
    split
    · rename_i overflow hcompacting
      exact finishCheck_budgeted h hcompacting success
    · exact h
  | continueAfterCompaction =>
    show Budgeted config ⟨if s.postCompactionContinue ∧ s.retrying = false
      then { s.startRun with postCompactionContinue := false } else s, now⟩
    split_ifs with hcontinues
    · rcases hon with hlive | hquiet
      · refine startRun_budgeted h hlive hlive.timers ?_
        rw [hcontinues.1]
        rfl
      · rw [hquiet.postCompactionContinue] at hcontinues
        cases hcontinues.1
    · exact h
  | cancelPostCompactionContinue => exact cancel_budgeted h
  | abortRetry => exact absurd hfailing id
  | user change => exact absurd hfailing id

-- ======== every run

theorem Settled.budgeted [DecidableEq M] [DecidableEq L]
    (hmax : 0 ≤ config.settings.maxRetries) (h : Settled s now)
    (startsAgentRun : Bool) :
    Budgeted config ⟨retryStep config s (.prompt startsAgentRun), now⟩ := by
  set s' := retryStep config s (.prompt startsAgentRun) with hs'
  have htally : s'.tally = ⟨0, 0, 0, 0⟩ := by
    show s.events.foldl Tally.add _ = _
    rw [h.events]
    rfl
  have hdue : s'.due = 0 := by
    show s.timers.count s.retryGeneration + s.sleeping.isSome.toNat
      + s.postCompactionContinue.toNat = 0
    have hcount : s.timers.count s.retryGeneration = 0 := by
      apply List.count_eq_zero.2
      intro hmem
      exact Nat.lt_irrefl _ (h.timers _ hmem)
    rw [hcount, h.sleeping, h.postCompactionContinue]
    rfl
  have hcompacting : s'.compacting = none := h.compacting
  constructor
  · constructor
    · show (s'.tally.quick : Rat) ≤ _
      rw [htally]
      exact hmax
    · show (s'.tally.waits : Rat) ≤ _
      rw [htally]
      exact config.waitPolicy.nonneg.2.2.1
    · show s'.tally.backups ≤ 1
      rw [htally]
      exact Nat.zero_le 1
    · show s'.tally.waitedMs ≤ _
      rw [htally]
      exact config.waitPolicy.nonneg.2.2.2
    · have hreissued : s'.reissued = 0 := h.reissued
      show s'.reissued + s'.due + (s'.compacting = some true : Bool).toNat ≤ _
      rw [hreissued, hdue, hcompacting]
      exact Nat.zero_le _
  · left
    show Live config s' now
    constructor
    · rw [htally]
      exact h.retryAttempt.symm
    · rw [htally]
      exact fun _ => rfl
    · rw [htally]
      exact .inl rfl
    · rw [htally]
      exact fun _ _ _ => rfl
    · rw [htally]
      exact fun _ => rfl
    · rw [htally]
      intro wait hwait
      refine ⟨Nat.zero_le _, ?_⟩
      show 0 + wait.startedAtMs ≤ max now _
      rw [zero_add]
      exact (h.providerWait wait hwait).trans (le_max_left _ _)
    · intro sleep hsleep
      have hnone : s.sleeping = some sleep := hsleep
      rw [h.sleeping] at hnone
      cases hnone
    · exact fun generation hmem => Nat.le_of_lt (h.timers generation hmem)
    · rw [hdue, hcompacting]
      exact Nat.le_refl 1

/-- Whatever fails, in whatever order: when no overflow is silent, the requests
that are sent again for one turn, and the waits for the provider, are within
the budgets. -/
theorem retries_bounded [DecidableEq M] [DecidableEq L]
    (config : RetryConfig M L) (hmax : 0 ≤ config.settings.maxRetries)
    {s : RetryState M L} {now : Rat} (hsettled : Settled s now)
    (startsAgentRun : Bool) {steps : List (RetryStep M L)}
    (hguard : Run.Guarded (clockedStep config)
      (fun w step => Failing config w step ∧ Loud step)
      ⟨retryStep config s (.prompt startsAgentRun), now⟩ steps) :
    Run.Along (clockedStep config) (Bounded config)
      ⟨retryStep config s (.prompt startsAgentRun), now⟩ steps := by
  have hkept : ∀ (w : Clocked M L) (step : RetryStep M L), Budgeted config w →
      Failing config w step ∧ Loud step →
      Budgeted config (clockedStep config w step) :=
    fun w step h hguard => clockedStep_budgeted h hguard.1 hguard.2
  have hstart := hsettled.budgeted hmax startsAgentRun
  exact (Run.along_of_kept hkept hstart hguard).mono fun w h => h.bounded

-- ======== three overflows

/-- No retries, and at most two requests beyond the first. -/
def spareConfig : RetryConfig String Nat :=
  { plainConfig with
    settings := ⟨true, 0, 2000, 60000⟩
    waitPolicy := ⟨true, 1000, 300000, 0, 900000, by decide +kernel⟩ }

/-- An overflow that the provider reports, or one that only the tokens show. -/
def overflow (stopReason : StopReason) : Response String :=
  { response "primary" stopReason none with
    overflowText := stopReason = .error
    inputTokens := 2000 }

/-- A response that overflows, and the request sent again once the context is
compacted. -/
def overflowRound (stopReason : StopReason) : List (RetryStep String Nat) :=
  [.messageEnd (overflow stopReason),
    .agentEnd (some (overflow stopReason)) false 0 0, .compacted true,
    .continueAfterCompaction]

def overflowRun (stopReason : StopReason) : List (RetryStep String Nat) :=
  overflowRound stopReason ++ overflowRound stopReason
    ++ overflowRound stopReason

theorem plainStart_settled : Settled plainStart 0 :=
  ⟨rfl, rfl, rfl, rfl, fun _ hmem => absurd hmem List.not_mem_nil,
    fun _ hwait => absurd hwait (Option.not_mem_none _), rfl, rfl⟩

/-- A reported overflow is compacted once. -/
theorem retries_bounded_overflow :
    Run.Along (clockedStep spareConfig) (Bounded spareConfig)
      ⟨retryStep spareConfig plainStart (.prompt true), 0⟩
      (overflowRun .error) := by
  apply retries_bounded spareConfig (by decide +kernel) plainStart_settled
  refine ⟨⟨.inl rfl, rfl⟩, ⟨le_refl (0 : Rat), trivial⟩, ⟨trivial, trivial⟩,
    ⟨trivial, trivial⟩, ⟨.inl rfl, rfl⟩, ⟨le_refl (0 : Rat), trivial⟩,
    ⟨trivial, trivial⟩, ⟨trivial, trivial⟩, ⟨.inl rfl, rfl⟩,
    ⟨le_refl (0 : Rat), trivial⟩, ⟨trivial, trivial⟩, ⟨trivial, trivial⟩,
    trivial⟩

/-- A silent one is compacted each time. -/
theorem not_retries_bounded_silentOverflow :
    Settled plainStart 0
      ∧ Run.Guarded (clockedStep spareConfig) (Failing spareConfig)
        ⟨retryStep spareConfig plainStart (.prompt true), 0⟩ (overflowRun .stop)
      ∧ ¬Run.Along (clockedStep spareConfig) (Bounded spareConfig)
        ⟨retryStep spareConfig plainStart (.prompt true), 0⟩
        (overflowRun .stop) := by
  have hsilent : isContextOverflow (overflow .stop) 1000 = true := by
    decide +kernel
  refine ⟨plainStart_settled, ⟨.inr hsilent, le_refl (0 : Rat), trivial,
    trivial, .inr hsilent, le_refl (0 : Rat), trivial, trivial, .inr hsilent,
    le_refl (0 : Rat), trivial, trivial, trivial⟩, ?_⟩
  intro hall
  have hlast : (3 : Rat) ≤ 0 + 0 + 1 + 1 := hall.last.1
  exact absurd hlast (by decide +kernel)

end OneHarness.Session.Retries
