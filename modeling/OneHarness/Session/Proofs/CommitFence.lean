/-
The commit fence lets one in at a time, in the order of the requests.

A promise in the chain is resolved only when all before it are, and then
those are over (`Chained`): whoever is released had been let in, and whoever
was cancelled waits for its predecessor before it lets its successor go on.
So one that is let in has nobody before it that is in or may still get in.
-/
import OneHarness.Session.CommitFence
import OneHarness.Lib.Run

namespace OneHarness.Session.CommitFence

open Lib

-- ======== statement vocabulary

/-- It has left, or it never gets in. -/
def Phase.over : Phase → Bool
  | .released | .cancelled => true
  | _ => false

/-- It was let in, at least. -/
def Phase.letIn : Phase → Bool
  | .admitted | .holding | .released => true
  | _ => false

/-- The acquisition with a number is in such a phase. -/
def Fence.In (s : Fence) (id : Nat) (p : Phase → Bool) : Prop :=
  ∃ a, s.acquisitions[id]? = some a ∧ p a.phase = true

/-- One is inside, they get in as they asked, and nobody is let in before
everybody that asked earlier is over. -/
structure Fair (s : Fence) : Prop where
  exclusive : ∀ i j, s.In i (· = .holding) → s.In j (· = .holding) → i = j
  owner : ∀ i, s.In i (· = .holding) ↔ s.sessionActionCommitOwner = some i
  inOrder : s.entered.Pairwise (· < ·)
  behind : ∀ i j, i < j → s.In j Phase.letIn → s.In i Phase.over

/-- The state but for the fences that do nothing. -/
def Fence.core (s : Fence) : Fence := { s with inner := [] }

-- ======== the chain

/-- Promises are resolved in their order. -/
structure Chained (l : List Acquisition) : Prop where
  previous : ∀ (i : Nat) (a : Acquisition), l[i]? = some a →
    a.previous = if i = 0 then none else some (i - 1)
  resolved : ∀ (i : Nat) (a : Acquisition), l[i]? = some a → a.resolved = true →
    a.phase.over = true
      ∧ ∀ (j : Nat) (b : Acquisition), j < i → l[j]? = some b → b.resolved = true
  before : ∀ (i : Nat) (a : Acquisition), l[i]? = some a → a.phase.letIn = true →
    ∀ (j : Nat) (b : Acquisition), j < i → l[j]? = some b → b.resolved = true

variable {s : Fence} {id : Nat} {a a' : Acquisition}

section
variable (h : Chained s.acquisitions) (ha : s.acquisitions[id]? = some a)
include h ha

/-- With the predecessor's promise all before it are resolved. -/
theorem Chained.ready (hready : s.ready a = true) :
    ∀ j b, j < id → s.acquisitions[j]? = some b → b.resolved = true := by
  intro j b hj hb
  have hprevious := h.previous id a ha
  rw [if_neg (by omega)] at hprevious
  unfold Fence.ready at hready
  rw [hprevious] at hready
  cases hp : s.acquisitions[id - 1]? with
  | none => simp [hp] at hready
  | some p =>
    have hresolved : p.resolved = true := by simpa [hp] using hready
    by_cases hlast : j = id - 1
    · subst hlast
      obtain rfl := Option.some.inj (hb.symm.trans hp)
      exact hresolved
    · exact (h.resolved _ p hp hresolved).2 j b (by omega) hb

theorem Chained.unresolved (hover : a.phase.over = false) :
    a.resolved = false := by
  by_contra hresolved
  have := (h.resolved id a ha (by simpa using hresolved)).1
  simp [hover] at this

/-- A promise is resolved, or one is let in, only after those before. -/
theorem Chained.set (hprevious : a'.previous = a.previous)
    (hover : a'.resolved = true → a'.phase.over = true)
    (hresolved : a'.resolved = true → a.resolved = true ∨ s.ready a = true
      ∨ a.phase.letIn = true)
    (hkeep : a.resolved = true → a'.resolved = true)
    (hletIn : a'.phase.letIn = true →
      a.phase.letIn = true ∨ s.ready a = true) :
    Chained (s.acquisitions.set id a') := by
  have hready := h.ready ha
  have hpre := h.previous
  have hres := h.resolved
  have hbef := h.before
  constructor
  · grind
  · grind
  · grind

end

theorem Chained.acquire (h : Chained s.acquisitions)
    (htail : s.sessionActionCommitTail
      = if s.acquisitions.length = 0 then none
        else some (s.acquisitions.length - 1))
    (signal : Option Nat) {p : Phase} (hp : p.letIn = false) :
    Chained (s.acquisitions
      ++ [⟨s.sessionActionCommitTail, signal, p, false⟩]) := by
  have hpre := h.previous
  have hres := h.resolved
  have hbef := h.before
  constructor
  · grind
  · grind
  · grind

/-- What holds of the fence whatever happens. -/
structure Sound (s : Fence) : Prop where
  chained : Chained s.acquisitions
  tail : s.sessionActionCommitTail
    = if s.acquisitions.length = 0 then none
      else some (s.acquisitions.length - 1)
  holding : ∀ (i : Nat) (a : Acquisition), s.acquisitions[i]? = some a →
    (a.phase = .holding ↔ s.sessionActionCommitOwner = some i)
  owner : ∀ i, s.sessionActionCommitOwner = some i →
    i < s.acquisitions.length
  entered : ∀ i ∈ s.entered, ∃ a, s.acquisitions[i]? = some a
    ∧ (a.phase = .holding ∨ a.phase = .released)
  inOrder : s.entered.Pairwise (· < ·)

theorem sound_start : Sound .start := by
  refine ⟨⟨?_, ?_, ?_⟩, ?_, ?_, ?_, ?_, ?_⟩ <;> simp [Fence.start]

section
variable (h : Sound s)
include h

/-- Who was let in comes after everybody who is not over. -/
theorem Sound.lt {i j : Nat} {b : Acquisition}
    (ha : s.acquisitions[i]? = some a) (hb : s.acquisitions[j]? = some b)
    (hover : a.phase.over = false) (hletIn : b.phase.letIn = true) :
    j ≤ i := by
  have hbefore := h.chained.before j b hb hletIn
  have hresolved := h.chained.resolved i a ha
  grind

section
variable (ha : s.acquisitions[id]? = some a)
include ha

/-- Nothing changes for the one that is inside, and for those that left. -/
theorem Sound.quiet (hchained : Chained (s.acquisitions.set id a'))
    (hphase : a.phase ≠ .holding ∧ a.phase ≠ .released)
    (hphase' : a'.phase ≠ .holding) : Sound (s.put id a') := by
  have hholding := h.holding
  have howner := h.owner
  have hentered := h.entered
  refine ⟨hchained, ?_, ?_, ?_, ?_, h.inOrder⟩
  · simpa [Fence.put] using h.tail
  · simp only [Fence.put]
    grind
  · simpa [Fence.put] using howner
  · simp only [Fence.put]
    grind

omit ha in
theorem Sound.acquire (inheritedOwner signal : Option Nat) :
    Sound (s.acquire inheritedOwner signal) := by
  unfold Fence.acquire
  split
  · exact ⟨h.1, h.2, h.3, h.4, h.5, h.6⟩
  · have hholding := h.holding
    have howner := h.owner
    have hentered := h.entered
    have hne : ∀ p : Bool, (if p = true then Phase.rejected else .waiting)
        ≠ .holding := by
      intro p
      cases p <;> simp
    refine ⟨h.chained.acquire h.tail signal ?_, ?_, ?_, ?_, ?_, h.inOrder⟩
    · split <;> rfl
    · simp
    · intro i a
      have hself : s.sessionActionCommitOwner ≠ some s.acquisitions.length := by
        intro heq
        exact Nat.lt_irrefl _ (howner _ heq)
      grind
    · intro i hi
      have := howner i hi
      simp
      omega
    · grind

theorem Sound.proceed :
    Sound (s.proceed id a) := by
  unfold Fence.proceed
  split
  · next hadmitted =>
      have hholding := h.holding
      have hentered := h.entered
      -- nobody else is inside, and those who were asked before
      have halone : ∀ (i : Nat) (b : Acquisition), s.acquisitions[i]? = some b →
          b.phase = .holding ∨ b.phase = .released → i < id := by
        intro i b hb hphase
        have hle := h.lt ha hb (by simp [hadmitted, Phase.over])
          (by rcases hphase with hp | hp <;> simp [hp, Phase.letIn])
        have hne : i ≠ id := by grind
        omega
      have hnone : ∀ (i : Nat) (b : Acquisition), s.acquisitions[i]? = some b →
          b.phase ≠ .holding := by
        intro i b hb hphase
        have hle := h.lt hb ha (by simp [hphase, Phase.over])
          (by simp [hadmitted, Phase.letIn])
        have := halone i b hb (.inl hphase)
        omega
      refine ⟨?_, ?_, ?_, ?_, ?_, ?_⟩
      · apply h.chained.set ha <;> simp [hadmitted, Phase.letIn]
        simp [h.chained.unresolved ha (by simp [hadmitted, Phase.over])]
      · simpa [Fence.put] using h.tail
      · simp only [Fence.put]
        grind
      · simp only [Fence.put]
        grind
      · simp only [Fence.put]
        grind
      · refine List.pairwise_append.2 ⟨h.inOrder, by simp, ?_⟩
        intro i hi j hj
        obtain ⟨b, hb, hphase⟩ := hentered i hi
        rw [List.mem_singleton.1 hj]
        exact halone i b hb hphase
  · exact h

theorem Sound.release :
    Sound (s.release id a) := by
  unfold Fence.release
  split
  · next hphase =>
      have hholding := h.holding
      have howner := h.owner
      have hentered := h.entered
      have hself := (hholding id a ha).1 hphase
      rw [if_pos hself]
      refine ⟨?_, ?_, ?_, ?_, ?_, h.inOrder⟩
      · apply h.chained.set ha <;> simp [hphase, Phase.letIn, Phase.over]
      · simpa [Fence.put] using h.tail
      · simp only [Fence.put]
        grind
      · simp
      · simp only [Fence.put]
        grind
  · exact h

end

theorem Sound.on {f : Fence → Nat → Acquisition → Fence}
    (hf : ∀ a, s.acquisitions[id]? = some a → Sound (f s id a)) :
    Sound (s.on id f) := by
  unfold Fence.on
  split
  · next a ha => exact hf a ha
  · exact h

theorem Sound.step (e : Event) : Sound (s.step e) := by
  cases e with
  | acquire inheritedOwner signal => exact h.acquire inheritedOwner signal
  | abort signal => exact ⟨h.1, h.2, h.3, h.4, h.5, h.6⟩
  | dispose => exact ⟨h.1, h.2, h.3, h.4, h.5, h.6⟩
  | onAbort id =>
    refine h.on fun a ha => ?_
    unfold Fence.onAbort
    split
    · next hw =>
        have hopen := h.chained.unresolved ha (by simp [hw, Phase.over])
        refine h.quiet ha ?_ (by simp [hw]) (by simp)
        apply h.chained.set ha <;> simp [hw, hopen, Phase.letIn]
    · exact h
  | told id =>
    refine h.on fun a ha => ?_
    unfold Fence.told
    split
    · next hw =>
        have hopen := h.chained.unresolved ha (by simp [hw, Phase.over])
        refine h.quiet ha ?_ (by simp [hw]) (by simp)
        apply h.chained.set ha <;> simp [hw, hopen, Phase.letIn]
    · exact h
  | proceed id => exact h.on fun a ha => h.proceed ha
  | giveUp id =>
    refine h.on fun a ha => ?_
    unfold Fence.giveUp
    split
    · next hr =>
        have hchained : Chained
            (s.acquisitions.set id { a with phase := .cancelled }) := by
          apply h.chained.set ha <;> simp [Phase.letIn, Phase.over]
          exact fun hresolved => .inl hresolved
        have hquiet := h.quiet ha hchained (by simp [hr]) (by simp)
        exact ⟨hquiet.1, hquiet.2, hquiet.3, hquiet.4, hquiet.5, hquiet.6⟩
    · exact h
  | forward id =>
    refine h.on fun a ha => ?_
    unfold Fence.forward
    split
    · next hc =>
        refine h.quiet ha ?_ (by simp [hc]) (by simp [hc])
        apply h.chained.set ha <;> simp [hc, Phase.letIn, Phase.over]
    · exact h
  | release id => exact h.on fun a ha => h.release ha
  | releaseInner index => exact h

theorem Sound.fair : Fair s := by
  have hbehind : ∀ i j, i < j → s.In j Phase.letIn → s.In i Phase.over := by
    intro i j hij hj
    obtain ⟨b, hb, hletIn⟩ := hj
    obtain ⟨hlt, -⟩ := List.getElem?_eq_some_iff.1 hb
    have hget := List.getElem?_eq_getElem (Nat.lt_trans hij hlt)
    refine ⟨_, hget, ?_⟩
    by_contra hover
    have := h.lt hget hb (by simpa using hover) hletIn
    omega
  have howner : ∀ i, s.In i (· = .holding) ↔
      s.sessionActionCommitOwner = some i := by
    intro i
    constructor
    · intro hi
      obtain ⟨a, ha, hphase⟩ := hi
      exact (h.holding i a ha).1 (by simpa using hphase)
    · intro hi
      have hget := List.getElem?_eq_getElem (h.owner i hi)
      exact ⟨_, hget, by simpa using (h.holding i _ hget).2 hi⟩
  refine ⟨fun i j hi hj => ?_, howner, h.inOrder, hbehind⟩
  rw [howner] at hi hj
  exact Option.some.inj (hi.symm.trans hj)

end

-- ======== the inner fences

theorem core_on {f : Fence → Nat → Acquisition → Fence}
    (hf : ∀ a, (f s id a).core = f s.core id a) :
    (s.on id f).core = s.core.on id f := by
  have hsame : s.core.acquisitions = s.acquisitions := rfl
  unfold Fence.on
  rw [hsame]
  cases s.acquisitions[id]? with
  | none => rfl
  | some a => exact hf a

/-- What happens does not depend on the fences that do nothing. -/
theorem core_step (s : Fence) (e : Event) :
    (s.step e).core = (s.core.step e).core := by
  have hcore : ∀ s : Fence, s.core.core = s.core := fun _ => rfl
  have hon : ∀ (f : Fence → Nat → Acquisition → Fence) (id : Nat),
      (∀ (s : Fence) (a : Acquisition), (f s id a).core = f s.core id a) →
      (s.on id f).core = (s.core.on id f).core := by
    intro f id hf
    rw [core_on (hf s), core_on (hf s.core), hcore]
  cases e with
  | acquire inheritedOwner signal =>
    simp only [Fence.step, Fence.acquire, apply_ite Fence.core]
    rfl
  | abort signal => rfl
  | dispose => rfl
  | onAbort id => exact hon _ id fun s a => apply_ite Fence.core ..
  | told id => exact hon _ id fun s a => apply_ite Fence.core ..
  | proceed id => exact hon _ id fun s a => apply_ite Fence.core ..
  | giveUp id => exact hon _ id fun s a => apply_ite Fence.core ..
  | forward id => exact hon _ id fun s a => apply_ite Fence.core ..
  | release id => exact hon _ id fun s a => apply_ite Fence.core ..
  | releaseInner index => rfl

theorem core_run {s s' : Fence} (h : s.core = s'.core) (events : List Event) :
    (events.foldl Fence.step s).core = (events.foldl Fence.step s').core := by
  induction events generalizing s s' with
  | nil => exact h
  | cons e events ih =>
    apply ih
    rw [core_step s, core_step s', h]

-- ======== the runs

/-- Whoever asks, leaves, is aborted or is disposed of in which order: one is
inside at a time, and they get in as they asked. A fence that the owner got
once more has changed nothing, however it is released. -/
theorem fair_along (events : List Event) :
    Run.Along Fence.step Fair .start events
      ∧ ∀ before owner signal middle index after,
        (before.foldl Fence.step .start).sessionActionCommitOwner = some owner →
        events = before ++ .acquire (some owner) signal ::
          (middle ++ .releaseInner index :: after) →
        (events.foldl Fence.step .start).core
          = ((before ++ (middle ++ after)).foldl Fence.step .start).core := by
  refine ⟨Run.along_iff_take.2 fun k => ?_, ?_⟩
  · exact (Run.invariant (fun s e hs => hs.step e) sound_start _).fair
  · intro before owner signal middle index after howner heq
    subst heq
    simp only [List.foldl_append, List.foldl_cons]
    generalize before.foldl Fence.step .start = s at *
    have hinner : (s.step (.acquire (some owner) signal)).core = s.core := by
      simp [Fence.step, Fence.acquire, howner, Fence.core]
    exact core_run (core_run hinner middle) after

/-- The owner gets the fence once more, while somebody waits and goes away. -/
theorem fair_along_inner :
    let before : List Event := [.acquire none none, .told 0, .proceed 0]
    let middle : List Event := [.acquire none (some 7), .abort 7, .onAbort 1,
      .giveUp 1, .acquire none none]
    let after : List Event := [.release 0, .forward 1, .told 2, .proceed 2]
    ((before ++ .acquire (some 0) none :: (middle ++ .releaseInner 0 :: after)
        ).foldl Fence.step .start).core
      = ((before ++ (middle ++ after)).foldl Fence.step .start).core :=
  (fair_along _).2 _ 0 none _ 0 _ (by decide) rfl

end OneHarness.Session.CommitFence
