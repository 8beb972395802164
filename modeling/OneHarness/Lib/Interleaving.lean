/-
Interleavings: how the traces of several actors make up one.

`Interleaving parts whole` says that `whole` was recorded while each
actor `i` recorded `parts[i]`: it grows by one element at a time, which
is that actor's next one. So an order within one part is kept, and the
whole has the elements of the parts and no others.
-/
import Mathlib.Data.List.Induction

namespace OneHarness.Lib

variable {α : Type}

/-- `whole` is recorded as the actors record `parts`. -/
inductive Interleaving : List (List α) → List α → Prop where
  | nil : Interleaving [] []
  /-- One more actor, who has recorded nothing. -/
  | actor {parts : List (List α)} {whole : List α}
      (h : Interleaving parts whole) : Interleaving (parts ++ [[]]) whole
  /-- An actor records an element. -/
  | snoc {before after : List (List α)} {part whole : List α} (x : α)
      (h : Interleaving (before ++ part :: after) whole) :
      Interleaving (before ++ (part ++ [x]) :: after) (whole ++ [x])

namespace Interleaving

variable {parts : List (List α)} {whole : List α}

/-- An actor records several elements in a row. -/
theorem burst {before after : List (List α)} {part : List α}
    (h : Interleaving (before ++ part :: after) whole) (xs : List α) :
    Interleaving (before ++ (part ++ xs) :: after) (whole ++ xs) := by
  induction xs using List.reverseRecOn with
  | nil => rwa [List.append_nil, List.append_nil]
  | append_singleton xs x ih =>
    rw [← List.append_assoc, ← List.append_assoc]
    exact ih.snoc x

/-- The `i`th actor records several elements in a row. -/
theorem set (h : Interleaving parts whole) {i : Nat} {part : List α}
    (hi : parts[i]? = some part) (xs : List α) :
    Interleaving (parts.set i (part ++ xs)) (whole ++ xs) := by
  obtain ⟨hlt, rfl⟩ := List.getElem?_eq_some_iff.1 hi
  have hsplit : parts = parts.take i ++ parts[i] :: parts.drop (i + 1) := by
    rw [List.getElem_cons_drop, List.take_append_drop]
  rw [List.set_eq_take_append_cons_drop, if_pos hlt]
  rw [hsplit] at h
  exact h.burst xs

/-- An actor comes in and records all of its part. -/
theorem concat (h : Interleaving parts whole) (part : List α) :
    Interleaving (parts ++ [part]) (whole ++ part) := by
  exact h.actor.burst part

/-- One part after the other. -/
theorem flatten (parts : List (List α)) : Interleaving parts parts.flatten := by
  induction parts using List.reverseRecOn with
  | nil => exact nil
  | append_singleton parts part ih =>
    rw [List.flatten_append, List.flatten_singleton]
    exact ih.concat part

/-- Whatever was recorded, somebody recorded. -/
theorem mem_part (h : Interleaving parts whole) {x : α} (hx : x ∈ whole) :
    ∃ part ∈ parts, x ∈ part := by
  induction h with
  | nil => cases hx
  | actor _ ih =>
    obtain ⟨part, hpart, hxp⟩ := ih hx
    exact ⟨part, List.mem_append_left _ hpart, hxp⟩
  | @snoc before after part whole y h ih =>
    rcases List.mem_append.1 hx with hx | hx
    · obtain ⟨p, hp, hxp⟩ := ih hx
      rcases List.mem_append.1 hp with hp | hp
      · exact ⟨p, List.mem_append_left _ hp, hxp⟩
      · rcases List.mem_cons.1 hp with rfl | hp
        · exact ⟨p ++ [y], List.mem_append_right _ List.mem_cons_self,
            List.mem_append_left _ hxp⟩
        · exact ⟨p, List.mem_append_right _ (List.mem_cons_of_mem _ hp), hxp⟩
    · exact ⟨part ++ [y], List.mem_append_right _ List.mem_cons_self,
        List.mem_append_right _ hx⟩

end Interleaving

end OneHarness.Lib
