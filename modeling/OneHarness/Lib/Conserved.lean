/-
What goes into a place and what comes out of it.

`Conserved entered kept gone`: everything that entered is either kept or
gone, each occurrence once, and what is kept stands in the order in which
it entered. How the kept part is spread over several places is left to
the user: `kept` is their contents one after the other, oldest first, so
moving the front of one place to the end of the place before it changes
nothing.
-/
import Mathlib.Data.List.Basic

namespace OneHarness.Lib

variable {α : Type} {entered kept kept' gone out batch : List α}

/-- Nothing is lost or doubled, and what is kept is in order. -/
structure Conserved (entered kept gone : List α) : Prop where
  order : kept.Sublist entered
  all : (kept ++ gone).Perm entered

namespace Conserved

theorem empty : Conserved ([] : List α) [] [] := ⟨.slnil, .nil⟩

/-- A batch enters at the end. -/
theorem enter (h : Conserved entered kept gone) (batch : List α) :
    Conserved (entered ++ batch) (kept ++ batch) gone where
  order := h.order.append (.refl batch)
  all := by
    have hswap : (kept ++ batch ++ gone).Perm (kept ++ gone ++ batch) := by
      rw [List.append_assoc, List.append_assoc]
      exact List.perm_append_comm.append_left kept
    exact hswap.trans (h.all.append_right batch)

/-- Some of what was kept goes. -/
theorem leave (h : Conserved entered kept gone) (hsub : kept'.Sublist kept)
    (hperm : (kept' ++ out).Perm kept) :
    Conserved entered kept' (gone ++ out) where
  order := hsub.trans h.order
  all := by
    have hswap : (kept' ++ (gone ++ out)).Perm (kept' ++ out ++ gone) := by
      rw [List.append_assoc]
      exact List.perm_append_comm.append_left kept'
    exact hswap.trans ((hperm.append_right gone).trans h.all)

end Conserved

/-- Who is counted, when one of them is replaced. -/
theorem countP_set_add {l : List α} {i : Nat} {a : α} (h : l[i]? = some a)
    (a' : α) (p : α → Bool) :
    (l.set i a').countP p + (if p a = true then 1 else 0)
      = l.countP p + if p a' = true then 1 else 0 := by
  obtain ⟨hlt, rfl⟩ := List.getElem?_eq_some_iff.1 h
  have hpos : p l[i] = true → 0 < l.countP p := fun hp =>
    List.countP_pos_iff.2 ⟨_, List.getElem_mem hlt, hp⟩
  rw [List.countP_set hlt]
  by_cases hp : p l[i] = true
  · have := hpos hp
    simp only [hp, if_true]
    omega
  · simp only [hp, if_neg Bool.false_ne_true]
    omega

/-- The batches that meet a test, and those that do not, are all of them. -/
theorem flatten_filter_perm (p : List α → Bool) (batches : List (List α)) :
    ((batches.filter fun b => !p b).flatten
      ++ (batches.filter p).flatten).Perm batches.flatten := by
  rw [← List.flatten_append]
  have hperm := (List.filter_append_perm p batches).flatten
  exact (List.perm_append_comm.flatten).trans hperm

theorem flatten_filter_sublist (p : List α → Bool) (batches : List (List α)) :
    (batches.filter p).flatten.Sublist batches.flatten := by
  induction batches with
  | nil => exact .slnil
  | cons batch batches ih =>
    rw [List.flatten_cons]
    by_cases hp : p batch = true
    · rw [List.filter_cons_of_pos hp, List.flatten_cons]
      exact ih.append_left batch
    · rw [List.filter_cons_of_neg hp]
      exact ih.trans (List.sublist_append_right batch _)

end OneHarness.Lib
