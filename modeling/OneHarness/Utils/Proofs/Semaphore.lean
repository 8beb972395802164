/-
The semaphore keeps its permits, along any run of its calls.

A permit is free, or it belongs to a call that was admitted or runs; a
permit that is given back goes to the first waiter at once, so none is free
while somebody waits (`Sound.idle`). A call that waits has its listener, and
one that does not has none (`Sound.listening`): an abort takes a call out of
the queue, and comes too late for one that has its permit.
-/
import OneHarness.Utils.Semaphore
import OneHarness.Lib.Conserved
import OneHarness.Lib.Run

namespace OneHarness.Utils.Semaphore

open Lib

-- ======== statement vocabulary

/-- How many calls are in a phase. -/
def count (s : Semaphore) (phase : Phase) : Nat :=
  s.calls.countP (·.phase = phase)

def phaseAt (calls : List Call) (id : Nat) : Option Phase :=
  calls[id]?.map (·.phase)

/-- Calls are numbered as they come: those that were given a permit, and then
those that wait for one, are in the order of their arrival. -/
structure Fair (permits : ℚ) (s : Semaphore) : Prop where
  bounded : (s.count .running : ℚ) ≤ permits
  conserved : (s.count .running : ℚ) + s.available + s.count .admitted
    = permits
  aborted : ∀ id, phaseAt s.calls id = some .rejected →
    id ∉ s.waiters ∧ id ∉ s.granted
  inOrder : (s.granted ++ s.waiters).Pairwise (· < ·)

-- ======== the invariant

/-- The call has, or had, a permit. -/
def Phase.served : Phase → Bool
  | .waiting | .rejected => false
  | _ => true

structure Sound (n : Nat) (s : Semaphore) : Prop where
  conserved : s.count .running + s.available + s.count .admitted = n
  waiting : ∀ id, id ∈ s.waiters ↔ phaseAt s.calls id = some .waiting
  served : ∀ id ∈ s.granted, (phaseAt s.calls id).any Phase.served = true
  inOrder : (s.granted ++ s.waiters).Pairwise (· < ·)
  idle : 0 < s.available → s.waiters = []
  listening : ∀ call ∈ s.calls, call.listening = true → call.phase = .waiting

variable {n : Nat} {s : Semaphore} {calls : List Call} {id : Nat}
  {call : Call}

theorem phaseAt_set (h : calls[id]? = some call) (call' : Call) (i : Nat) :
    phaseAt (calls.set id call') i
      = if i = id then some call'.phase else phaseAt calls i := by
  obtain ⟨hlt, -⟩ := List.getElem?_eq_some_iff.1 h
  by_cases hi : i = id
  · simp [hi, hlt, phaseAt]
  · simp [phaseAt, hi, List.getElem?_set_ne (Ne.symm hi)]

theorem phaseAt_append (call : Call) (i : Nat) :
    phaseAt (calls ++ [call]) i
      = if i = calls.length then some call.phase else phaseAt calls i := by
  unfold phaseAt
  grind

theorem phaseAt_of_get (h : calls[id]? = some call) :
    phaseAt calls id = some call.phase := by
  simp [phaseAt, h]

theorem phaseAt_lt {p : Phase} (h : phaseAt calls id = some p) :
    id < calls.length := by
  unfold phaseAt at h
  grind

section
variable (h : Sound n s)
include h

theorem Sound.lt : ∀ i ∈ s.granted ++ s.waiters, i < s.calls.length := by
  intro i hi
  rcases List.mem_append.1 hi with hi | hi
  · cases hp : phaseAt s.calls i with
    | none => simpa [hp] using h.served i hi
    | some p => exact phaseAt_lt hp
  · exact phaseAt_lt ((h.waiting i).1 hi)

/-- Nothing changes but the phase of a call that does not wait. -/
theorem Sound.put (hcall : s.calls[id]? = some call)
    {p : Phase} (hp : call.phase ≠ .waiting) (hserved : p.served = true)
    {n' : Nat} (hn : n' + (if call.phase = .running then 1 else 0)
        + (if call.phase = .admitted then 1 else 0)
      = n + (if p = .running then 1 else 0) + if p = .admitted then 1 else 0) :
    Sound n' { s with calls := s.calls.set id { call with phase := p } } := by
  have hphase : phaseAt s.calls id = some call.phase := phaseAt_of_get hcall
  have hw : p ≠ .waiting := by
    intro heq
    simp [heq, Phase.served] at hserved
  have hset := phaseAt_set hcall { call with phase := p }
  refine ⟨?_, ?_, ?_, h.inOrder, h.idle, ?_⟩
  · have hconserved := h.conserved
    have hrunning := countP_set_add hcall { call with phase := p }
      (·.phase = .running)
    have hadmitted := countP_set_add hcall { call with phase := p }
      (·.phase = .admitted)
    simp only [count, decide_eq_true_eq] at *
    omega
  · intro i
    simp only [hset, h.waiting]
    by_cases hi : i = id
    · simp [hi, hphase, hp, hw]
    · simp [hi]
  · intro i hi
    simp only [hset]
    have := h.served i hi
    split
    · simpa using hserved
    · exact this
  · intro c hc hlistening
    rcases List.mem_or_eq_of_mem_set hc with hc | rfl
    · exact h.listening c hc hlistening
    · exact absurd (h.listening call (List.mem_of_getElem? hcall) hlistening) hp

theorem Sound.acquire (signal : Option Nat) : Sound n (s.acquire signal) := by
  have hconserved := h.conserved
  have hlt := h.lt
  have hwaiting := h.waiting
  have hserved := h.served
  have hidle := h.idle
  have hlistening := h.listening
  have hne : ∀ i p, phaseAt s.calls i = some p → i ≠ s.calls.length := by
    intro i p hp
    have := phaseAt_lt hp
    omega
  have hnone : phaseAt s.calls s.calls.length = none := by simp [phaseAt]
  unfold Semaphore.acquire
  split
  · refine ⟨by simpa [count] using hconserved, ?_, ?_, h.inOrder, hidle, ?_⟩
    · intro i
      rw [phaseAt_append, hwaiting]
      grind
    · intro i hi
      rw [phaseAt_append]
      grind
    · grind
  · split
    · have hnil : s.waiters = [] := hidle ‹_›
      rw [hnil] at hlt
      refine ⟨?_, ?_, ?_, ?_, ?_, ?_⟩
      · simp [count] at *
        omega
      · intro i
        rw [phaseAt_append, hwaiting]
        grind
      · intro i hi
        rw [phaseAt_append]
        grind [Phase.served]
      · have := h.inOrder
        simp [hnil, List.pairwise_append] at *
        grind
      · simp [hnil]
      · grind
    · refine ⟨by simpa [count] using hconserved, ?_, ?_, ?_, ?_, ?_⟩
      · intro i
        rw [phaseAt_append]
        grind
      · intro i hi
        rw [phaseAt_append]
        grind
      · have := h.inOrder
        rw [← List.append_assoc, List.pairwise_append]
        grind
      · grind
      · grind

theorem Sound.begin (id : Nat) : Sound n (s.begin id) := by
  unfold Semaphore.begin
  split
  · split
    · apply h.put ‹_› <;> simp [*, Phase.served]
    · exact h
  · exact h

theorem Sound.onAbort (id : Nat) : Sound n (s.onAbort id) := by
  unfold Semaphore.onAbort
  split
  · next call hcall =>
      split
      · next hl =>
          have hphase := h.listening call (List.mem_of_getElem? hcall) hl.1
          have hset := phaseAt_set hcall (call.settle .rejected)
          have hnodup : s.waiters.Nodup :=
            (List.pairwise_append.1 h.inOrder).2.1.imp Nat.ne_of_lt
          refine ⟨?_, ?_, ?_, ?_, ?_, ?_⟩
          · have hconserved := h.conserved
            have hrunning := countP_set_add hcall (call.settle .rejected)
              (·.phase = .running)
            have hadmitted := countP_set_add hcall (call.settle .rejected)
              (·.phase = .admitted)
            simp [count, Call.settle, hphase] at *
            omega
          · intro i
            rw [hset, hnodup.mem_erase_iff, h.waiting]
            grind [Call.settle]
          · intro i hi
            have := h.served i hi
            have hwas := phaseAt_of_get hcall
            rw [hset]
            grind [Call.settle, Phase.served]
          · exact h.inOrder.sublist ((List.Sublist.refl _).append
              (List.erase_sublist ..))
          · intro havail
            simp [h.idle havail]
          · intro c hc hlistening
            rcases List.mem_or_eq_of_mem_set hc with hc | rfl
            · exact h.listening c hc hlistening
            · simp [Call.settle] at hlistening
      · exact h
  · exact h

theorem Sound.release : Sound (n + 1) s.release := by
  have hconserved := h.conserved
  unfold Semaphore.release
  split
  · next next waiters hw =>
      have hphase := (h.waiting next).1 (by simp [hw])
      obtain ⟨call, hcall, hp⟩ := Option.map_eq_some_iff.1 hphase
      have hset := phaseAt_set hcall (call.settle .admitted)
      have hinOrder := h.inOrder
      rw [hw] at hinOrder
      simp only [admitWaiter, hcall]
      refine ⟨?_, ?_, ?_, ?_, ?_, ?_⟩
      · have hrunning := countP_set_add hcall (call.settle .admitted)
          (·.phase = .running)
        have hadmitted := countP_set_add hcall (call.settle .admitted)
          (·.phase = .admitted)
        simp [count, Call.settle, hp] at *
        omega
      · intro i
        have hnot : next ∉ waiters := by
          have := (List.pairwise_append.1 hinOrder).2.1
          intro hmem
          exact Nat.lt_irrefl _ ((List.pairwise_cons.1 this).1 next hmem)
        have := h.waiting i
        rw [hw, List.mem_cons] at this
        rw [hset]
        by_cases hi : i = next
        · simp [hi, hnot, Call.settle, hp]
        · simpa [hi] using this
      · intro i hi
        have := h.served i
        rw [hset]
        grind [Call.settle, Phase.served]
      · simpa using hinOrder
      · intro havail
        simpa [hw] using h.idle havail
      · intro c hc hlistening
        rcases List.mem_or_eq_of_mem_set hc with hc | rfl
        · exact h.listening c hc hlistening
        · simp [Call.settle] at hlistening
  · next hnil =>
      refine ⟨?_, h.waiting, h.served, h.inOrder, fun _ => hnil, h.listening⟩
      simp only [count] at *
      omega

/-- Its permit is taken from a call that has ended. -/
theorem Sound.finished (hcall : s.calls[id]? = some call)
    (hp : call.phase = .running) (threw : Bool) :
    0 < n ∧ Sound (n - 1) { s with
      calls := s.calls.set id { call with phase := .finished threw } } := by
  have hrunning : 0 < s.count .running :=
    List.countP_pos_iff.2 ⟨call, List.mem_of_getElem? hcall, (by simpa using hp)⟩
  have hconserved := h.conserved
  refine ⟨by omega, ?_⟩
  apply h.put hcall <;> simp [hp, Phase.served]
  omega

theorem Sound.finish (id : Nat) (threw : Bool) :
    Sound n (s.finish id threw) := by
  unfold Semaphore.finish
  split
  · split
    · obtain ⟨hpos, hfinished⟩ := h.finished ‹_› ‹_› threw
      have hrelease := hfinished.release
      rwa [Nat.sub_add_cancel hpos] at hrelease
    · exact h
  · exact h

theorem Sound.step (e : Event) : Sound n (s.step e) := by
  cases e with
  | run signal => exact h.acquire signal
  | abort signal => exact ⟨h.1, h.2, h.3, h.4, h.5, h.6⟩
  | onAbort id => exact h.onAbort id
  | start id => exact h.begin id
  | finish id threw => exact h.finish id threw

end

-- ======== the runs

theorem Sound.fair (h : Sound n s) : Fair n s := by
  refine ⟨?_, ?_, ?_, h.inOrder⟩
  · have := h.conserved
    exact_mod_cast (by omega : s.count .running ≤ n)
  · exact_mod_cast h.conserved
  · intro id hid
    have hserved := h.served id
    simpa [h.waiting, hid, Phase.served] using hserved

end OneHarness.Utils.Semaphore
