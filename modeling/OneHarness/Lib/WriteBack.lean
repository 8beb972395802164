/-
A store that is written back behind its users: what is set is kept in
memory and marked as dirty, and each change queues a write that carries a
copy of what is dirty then. Writes are carried out in order. One that is
done leaves nothing dirty; one that fails leaves the marks as they are, so
that what it carried is carried again by the next one. Others may write the
file as well.

A mark may be taken off by an older write that is done meanwhile. What a
failed write carried is then lost, unless a queued write carries it too
(`Retried`).

# Reasoning

`Inv` is kept by every step (`Inv.step`). When the queue is empty and the
last write was done, the file holds what was wanted, and elsewhere what the
others left there (`Inv.settled`).
-/
import Mathlib.Data.List.Basic
import Mathlib.Tactic.Common

namespace OneHarness.Lib.WriteBack

structure Write (κ V : Type) where
  carries : κ → Prop
  value : κ → V

structure State (κ V : Type) where
  memory : κ → V
  dirty : κ → Prop
  queue : List (Write κ V)
  file : κ → V
  /-- What was last set. -/
  wanted : κ → Option V
  /-- What the others left in the file. -/
  own : κ → V
  /-- Whether the last write was done, if there was one. -/
  last : Option Bool

variable {κ V : Type}

/-- What the write carries will be carried again, or is in the file. -/
def Retried (s : State κ V) (w : Write κ V) (rest : List (Write κ V)) : Prop :=
  ∀ k, w.carries k → s.dirty k ∨ (∃ u ∈ rest, u.carries k)
    ∨ s.file k = w.value k

/-- The file with what the write carries. -/
structure Written (s : State κ V) (w : Write κ V) (file : κ → V) : Prop where
  carried : ∀ k, w.carries k → file k = w.value k
  others : ∀ k, ¬ w.carries k → file k = s.file k

inductive Step (s : State κ V) : State κ V → Prop
  | set (changed : κ → Prop) (memory : κ → V) (dirty : κ → Prop)
      (wanted : κ → Option V)
      (hdirty : ∀ k, dirty k ↔ s.dirty k ∨ changed k)
      (hwanted : ∀ k, changed k → wanted k = some (memory k))
      (hkept : ∀ k, ¬ changed k → wanted k = s.wanted k)
      (hmemory : ∀ k v, ¬ changed k → s.wanted k = some v →
        memory k = s.memory k) :
      Step s { s with
        memory := memory
        dirty := dirty
        wanted := wanted
        queue := s.queue ++ [⟨dirty, memory⟩] }
  | done (w : Write κ V) (rest : List (Write κ V)) (file : κ → V)
      (dirty : κ → Prop) (hqueue : s.queue = w :: rest)
      (hfile : Written s w file) (hdirty : ∀ k, ¬ dirty k) :
      Step s { s with
        queue := rest
        file := file
        dirty := dirty
        last := some true }
  | failed (w : Write κ V) (rest : List (Write κ V))
      (hqueue : s.queue = w :: rest) (hretried : Retried s w rest) :
      Step s { s with queue := rest, last := some false }
  | failedLate (w : Write κ V) (rest : List (Write κ V)) (file : κ → V)
      (hqueue : s.queue = w :: rest) (hfile : Written s w file) :
      Step s { s with queue := rest, file := file, last := some false }
  | other (file : κ → V)
      (hkept : ∀ k v, s.wanted k = some v → file k = s.file k) :
      Step s { s with file := file, own := file }

structure Inv (s : State κ V) : Prop where
  memory : ∀ k v, s.wanted k = some v → s.memory k = v
  dirty : ∀ k, s.dirty k → (s.wanted k).isSome
  queue : ∀ w ∈ s.queue, ∀ k, w.carries k → (s.wanted k).isSome
  own : ∀ k, s.wanted k = none → s.file k = s.own k
  /-- What is dirty is carried by the newest write. -/
  latest : ∀ k, s.dirty k → ∀ w, s.queue.getLast? = some w → w.carries k
  /-- The newest write that carries it has the value that is wanted. -/
  newest : ∀ k before w behind, s.queue = before ++ w :: behind →
    w.carries k → (∀ u ∈ behind, ¬ u.carries k) → s.wanted k = some (w.value k)
  safe : ∀ k v, s.wanted k = some v →
    s.dirty k ∨ (∃ w ∈ s.queue, w.carries k) ∨ s.file k = v
  cleared : s.queue = [] → s.last = some true → ∀ k, ¬ s.dirty k

namespace Inv

variable {s s' : State κ V} {w : Write κ V} {rest : List (Write κ V)}

section
variable (h : Inv s) (hqueue : s.queue = w :: rest)
include h hqueue

/-- The head of the queue has the value that is wanted, or a later write
carries the key as well. -/
theorem head {k : κ} (hk : w.carries k) :
    (∃ u ∈ rest, u.carries k) ∨ s.wanted k = some (w.value k) := by
  by_cases hlater : ∃ u ∈ rest, u.carries k
  · exact .inl hlater
  · right
    exact h.newest k [] w rest hqueue hk fun u hu hcarries =>
      hlater ⟨u, hu, hcarries⟩

/-- What is dirty while writes are queued is carried by the last of them. -/
theorem dirty_carried {k : κ}
    (hk : s.dirty k) : w.carries k ∨ ∃ u ∈ rest, u.carries k := by
  cases rest with
  | nil =>
    left
    apply h.latest k hk
    rw [hqueue]
    rfl
  | cons u rest =>
    right
    have hlast : s.queue.getLast?
        = some ((u :: rest).getLast (List.cons_ne_nil u rest)) := by
      rw [hqueue, List.getLast?_cons_cons,
        List.getLast?_eq_some_getLast (List.cons_ne_nil u rest)]
    exact ⟨_, List.getLast_mem _, h.latest k hk _ hlast⟩

theorem newest_tail :
    ∀ k before u behind, rest = before ++ u :: behind → u.carries k →
      (∀ u' ∈ behind, ¬ u'.carries k) → s.wanted k = some (u.value k) := by
  intro k before u behind heq
  apply h.newest k (w :: before) u behind
  rw [hqueue, heq, List.cons_append]

theorem latest_tail :
    ∀ k, s.dirty k → ∀ u, rest.getLast? = some u → u.carries k := by
  intro k hk u hu
  apply h.latest k hk u
  rw [hqueue, List.getLast?_cons, hu]
  rfl

/-- Once a write is in the file, what is wanted is there or still queued. -/
theorem safe_written {file : κ → V} (hfile : Written s w file) {k : κ} {v : V}
    (hk : s.wanted k = some v) :
    (∃ u ∈ rest, u.carries k) ∨ file k = v := by
  by_cases hw : w.carries k
  · rcases h.head hqueue hw with hlater | hwanted
    · exact .inl hlater
    · right
      rw [hfile.carried k hw]
      exact Option.some.inj (hwanted.symm.trans hk)
  · rcases h.safe k v hk with hdirty | ⟨u, hu, hcarries⟩ | heq
    · exact .inl ((h.dirty_carried hqueue hdirty).resolve_left hw)
    · rw [hqueue] at hu
      rcases List.mem_cons.1 hu with rfl | hu
      · exact absurd hcarries hw
      · exact .inl ⟨u, hu, hcarries⟩
    · right
      rw [hfile.others k hw]
      exact heq

theorem own_written {file : κ → V} (hfile : Written s w file) {k : κ}
    (hk : s.wanted k = none) : file k = s.own k := by
  have hw : ¬ w.carries k := by
    intro hw
    have hsome := h.queue w (by rw [hqueue]; exact List.mem_cons_self) k hw
    rw [hk] at hsome
    cases hsome
  rw [hfile.others k hw]
  exact h.own k hk

theorem queue_tail : ∀ u ∈ rest, ∀ k, u.carries k → (s.wanted k).isSome := by
  intro u hu
  apply h.queue u
  rw [hqueue]
  exact List.mem_cons_of_mem _ hu

end

theorem step (h : Inv s) (hstep : Step s s') : Inv s' := by
  cases hstep with
  | set changed memory dirty wanted hdirty hwanted hkept hmemory =>
    have hsome : ∀ k, (s.wanted k).isSome → (wanted k).isSome := by
      intro k hk
      by_cases hc : changed k
      · rw [hwanted k hc]
        rfl
      · rw [hkept k hc]
        exact hk
    have hmemory' : ∀ k v, wanted k = some v → memory k = v := by
      intro k v hk
      by_cases hc : changed k
      · exact Option.some.inj ((hwanted k hc).symm.trans hk)
      · rw [hkept k hc] at hk
        rw [hmemory k v hc hk]
        exact h.memory k v hk
    have hdirty' : ∀ k, dirty k → (wanted k).isSome := by
      intro k hk
      rcases (hdirty k).1 hk with hk | hk
      · exact hsome k (h.dirty k hk)
      · rw [hwanted k hk]
        rfl
    refine ⟨hmemory', hdirty', ?_, ?_, ?_, ?_, ?_, ?_⟩
    · intro w hw k hk
      rcases List.mem_append.1 hw with hw | hw
      · exact hsome k (h.queue w hw k hk)
      · rw [List.mem_singleton.1 hw] at hk
        exact hdirty' k hk
    · intro k hk
      apply h.own k
      by_cases hc : changed k
      · cases (hwanted k hc).symm.trans hk
      · rw [← hkept k hc]
        exact hk
    · intro k hk w hw
      rw [List.getLast?_append, List.getLast?_singleton, Option.some_or] at hw
      rw [← Option.some.inj hw]
      exact hk
    · show ∀ k before w behind, s.queue ++ [⟨dirty, memory⟩]
          = before ++ w :: behind → w.carries k →
        (∀ u ∈ behind, ¬ u.carries k) → wanted k = some (w.value k)
      intro k before w behind heq hw hnone
      rcases List.eq_nil_or_concat behind with rfl | ⟨behind', u, rfl⟩
      · have heq' := List.append_inj' heq rfl
        have hlast := (List.cons.inj heq'.2).1
        subst hlast
        obtain ⟨v, hv⟩ := Option.isSome_iff_exists.1 (hdirty' k hw)
        rw [hv]
        exact congrArg some (hmemory' k v hv).symm
      · have heq' : s.queue ++ [⟨dirty, memory⟩]
            = (before ++ w :: behind') ++ [u] := by
          rw [heq, List.concat_eq_append, List.append_assoc]
          rfl
        obtain ⟨hqueue, hu⟩ := List.append_inj' heq' rfl
        have hlast := (List.cons.inj hu).1
        have hclean : ¬ dirty k := by
          have hnot := hnone u (by
            rw [List.concat_eq_append]
            exact List.mem_append_right _ List.mem_cons_self)
          rw [← hlast] at hnot
          exact hnot
        have hc : ¬ changed k := fun hc => hclean ((hdirty k).2 (.inr hc))
        rw [hkept k hc]
        apply h.newest k before w behind' hqueue hw
        intro u' hu'
        apply hnone u'
        rw [List.concat_eq_append]
        exact List.mem_append_left _ hu'
    · intro k v hk
      by_cases hc : changed k
      · exact .inl ((hdirty k).2 (.inr hc))
      · have hk' : s.wanted k = some v := (hkept k hc).symm.trans hk
        rcases h.safe k v hk' with hd | ⟨w, hw, hcarries⟩ | heq
        · exact .inl ((hdirty k).2 (.inl hd))
        · exact .inr (.inl ⟨w, List.mem_append_left _ hw, hcarries⟩)
        · exact .inr (.inr heq)
    · intro hnil
      exact absurd hnil (List.append_ne_nil_of_right_ne_nil _
        (List.cons_ne_nil _ _))
  | done w rest file dirty hqueue hfile hclean =>
    refine ⟨h.memory, fun k hk => absurd hk (hclean k), h.queue_tail hqueue,
      fun k hk => h.own_written hqueue hfile hk,
      fun k hk => absurd hk (hclean k), h.newest_tail hqueue,
      fun k v hk => .inr (h.safe_written hqueue hfile hk),
      fun _ _ => hclean⟩
  | failed w rest hqueue hretried =>
    refine ⟨h.memory, h.dirty, h.queue_tail hqueue, h.own,
      h.latest_tail hqueue, h.newest_tail hqueue, ?_, nofun⟩
    intro k v hk
    rcases h.safe k v hk with hd | ⟨u, hu, hcarries⟩ | heq
    · exact .inl hd
    · rw [hqueue] at hu
      rcases List.mem_cons.1 hu with rfl | hu
      · rcases hretried k hcarries with hd | hlater | heq
        · exact .inl hd
        · exact .inr (.inl hlater)
        · rcases h.head hqueue hcarries with hlater | hwanted
          · exact .inr (.inl hlater)
          · right
            right
            rw [heq]
            exact Option.some.inj (hwanted.symm.trans hk)
      · exact .inr (.inl ⟨u, hu, hcarries⟩)
    · exact .inr (.inr heq)
  | failedLate w rest file hqueue hfile =>
    exact ⟨h.memory, h.dirty, h.queue_tail hqueue,
      fun k hk => h.own_written hqueue hfile hk, h.latest_tail hqueue,
      h.newest_tail hqueue,
      fun k v hk => .inr (h.safe_written hqueue hfile hk), nofun⟩
  | other file hkept =>
    refine ⟨h.memory, h.dirty, h.queue, fun _ _ => rfl, h.latest, h.newest,
      ?_, h.cleared⟩
    intro k v hk
    rcases h.safe k v hk with hd | hcarried | heq
    · exact .inl hd
    · exact .inr (.inl hcarried)
    · right
      right
      show file k = v
      rw [hkept k v hk]
      exact heq

/-- The queue is drained and its last write was done. -/
theorem settled (h : Inv s) (hqueue : s.queue = [])
    (hlast : s.last = some true) :
    (∀ k v, s.wanted k = some v → s.file k = v)
      ∧ ∀ k, s.wanted k = none → s.file k = s.own k := by
  refine ⟨?_, h.own⟩
  intro k v hk
  rcases h.safe k v hk with hd | ⟨w, hw, -⟩ | heq
  · exact absurd hd (h.cleared hqueue hlast k)
  · rw [hqueue] at hw
    cases hw
  · exact heq

end Inv

end OneHarness.Lib.WriteBack
