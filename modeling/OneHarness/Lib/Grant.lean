/-
A right that some entries of a log grant and others revoke: it is held when
nothing after one that granted it has revoked it.
-/
import Mathlib.Tactic.Common

namespace OneHarness.Lib.Grant

variable {ε : Type} {grants revokes : ε → Prop} {log : List ε}

def Held (grants revokes : ε → Prop) (log : List ε) : Prop :=
  ∃ before e after, log = before ++ e :: after ∧ grants e
    ∧ ∀ d ∈ after, ¬ revokes d

theorem Held.granted {e : ε} (h : grants e) :
    Held grants revokes (log ++ [e]) := ⟨log, e, [], rfl, h, nofun⟩

theorem Held.append (h : Held grants revokes log) {entries : List ε}
    (hentries : ∀ d ∈ entries, ¬ revokes d) :
    Held grants revokes (log ++ entries) := by
  obtain ⟨before, e, after, rfl, he, hafter⟩ := h
  refine ⟨before, e, after ++ entries, by simp, he, ?_⟩
  intro d hd
  rcases List.mem_append.1 hd with hd | hd
  · exact hafter d hd
  · exact hentries d hd

/-- A log of grants alone keeps each of them. -/
theorem Held.of_mem {e : ε} (hmem : e ∈ log) (h : grants e)
    (hnone : ∀ d ∈ log, ¬ revokes d) : Held grants revokes log := by
  obtain ⟨before, after, rfl⟩ := List.append_of_mem hmem
  refine ⟨before, e, after, rfl, h, fun d hd => hnone d ?_⟩
  exact List.mem_append_right _ (List.mem_cons_of_mem _ hd)

/-- What the last entry revokes is not held. -/
theorem not_held_concat {e : ε} (hrevokes : revokes e) (hgrants : ¬ grants e) :
    ¬ Held grants revokes (log ++ [e]) := by
  rintro ⟨before, d, after, heq, hd, hafter⟩
  rcases List.eq_nil_or_concat after with rfl | ⟨after', last, rfl⟩
  · have hlast := (List.append_inj' heq rfl).2
    exact hgrants ((List.cons.inj hlast).1 ▸ hd)
  · have heq' : log ++ [e] = (before ++ d :: after') ++ [last] := by
      rw [heq, List.concat_eq_append, List.append_assoc]
      rfl
    have hlast := (List.cons.inj (List.append_inj' heq' rfl).2).1
    apply hafter e _ hrevokes
    rw [hlast, List.concat_eq_append]
    exact List.mem_append_right _ List.mem_cons_self

end OneHarness.Lib.Grant
