/-
A tree that is walked with a stack, and when the walk visits nothing twice.

The tree is given by placing items: every item has a key and a host, and its
key is put under the host, or at the root when it has none. Nothing says
that keys are distinct, so one key may stand in many places, also below
itself, and the walk visits it each time it comes by.

`Walk` is the invariant: what was visited and what waits is, up to order,
what stands at the root and under what was visited. It gives both
directions. Where no two reached items share a key (`Lone`) the walk repeats
nothing and has no more steps than there are items (`Walk.nodup`,
`Walk.length_le`); where the walk has come to its end without repeating
anything, no two reached items share a key (`Walk.lone`).
-/
import Mathlib.Data.List.Nodup
import Mathlib.Data.List.Perm.Basic

namespace OneHarness.Lib

universe u v

/-- Items that put their keys under hosts. -/
structure Placement (ι : Type u) (κ : Type v) where
  items : List ι
  key : ι → κ
  host : ι → Option κ

namespace Placement

variable {ι : Type u} {κ : Type v} [DecidableEq κ] (P : Placement ι κ)
  {places : List (Option κ)} {place : Option κ} {k : κ}
  {visited stack : List κ}

/-- The keys at a place, in the order they were put there. -/
def under (place : Option κ) : List κ :=
  (P.items.filter fun i => P.host i = place).map P.key

/-- The keys at any of these places. -/
def underAny (places : List (Option κ)) : List κ :=
  (P.items.filter fun i => P.host i ∈ places).map P.key

/-- The places a walk from the root comes to. -/
inductive Reached : Option κ → Prop
  | root : Reached none
  | item {i : ι} : i ∈ P.items → Reached (P.host i) → Reached (some (P.key i))

/-- No two reached items have one key. -/
def Lone : Prop :=
  P.items.Pairwise fun i j =>
    P.Reached (P.host i) → P.Reached (P.host j) → P.key i ≠ P.key j

-- ======== the places

theorem filter_or_perm {α : Type u} {p q r : α → Bool} (l : List α)
    (hor : ∀ a, r a = (p a || q a)) (hdisj : ∀ a, p a = true → q a = false) :
    (l.filter p ++ l.filter q).Perm (l.filter r) := by
  induction l with
  | nil => exact .refl _
  | cons a l ih =>
    cases hp : p a with
    | true =>
      have hr : r a = true := by rw [hor, hp, Bool.true_or]
      rw [List.filter_cons_of_pos hp, List.filter_cons_of_pos hr,
        List.filter_cons_of_neg (by rw [hdisj a hp]; decide)]
      exact ih.cons a
    | false =>
      have hr : r a = q a := by rw [hor, hp, Bool.false_or]
      rw [List.filter_cons_of_neg (by rw [hp]; decide)]
      cases hq : q a with
      | true =>
        rw [List.filter_cons_of_pos hq, List.filter_cons_of_pos (hr.trans hq)]
        exact List.perm_middle.trans (ih.cons a)
      | false =>
        rw [List.filter_cons_of_neg (by rw [hq]; decide),
          List.filter_cons_of_neg (by rw [hr, hq]; decide)]
        exact ih

/-- Going through distinct places meets every item at one of them once. -/
theorem flatMap_under (hnd : places.Nodup) :
    (places.flatMap P.under).Perm (P.underAny places) := by
  induction places with
  | nil =>
    rw [List.flatMap_nil, underAny, List.filter_eq_nil_iff.2 fun _ _ => by simp]
    exact .refl _
  | cons place places ih =>
    rw [List.nodup_cons] at hnd
    rw [List.flatMap_cons]
    refine ((ih hnd.2).append_left _).trans ?_
    rw [under, underAny, underAny, ← List.map_append]
    refine (filter_or_perm P.items (fun i => ?_) fun i hi => ?_).map _
    · simp only [List.mem_cons, Bool.decide_or]
    · rw [decide_eq_true_iff] at hi
      exact decide_eq_false (hi ▸ hnd.1)

theorem mem_under :
    k ∈ P.under place ↔ ∃ i ∈ P.items, P.host i = place ∧ P.key i = k := by
  simp only [under, List.mem_map, List.mem_filter, decide_eq_true_iff,
    and_assoc]

theorem Reached.of_under (h : P.Reached place)
    (hk : k ∈ P.under place) : P.Reached (some k) := by
  obtain ⟨i, hi, rfl, rfl⟩ := P.mem_under.1 hk
  exact .item hi h

/-- Where the keys at reached places are distinct, what stands there is. -/
theorem Lone.nodup_underAny (h : P.Lone)
    (hplaces : ∀ place ∈ places, P.Reached place) :
    (P.underAny places).Nodup := by
  rw [underAny, List.Nodup, List.pairwise_map, List.pairwise_filter]
  refine h.imp fun {i j} hne hi hj => hne ?_ ?_
  · exact hplaces _ (decide_eq_true_iff.1 hi)
  · exact hplaces _ (decide_eq_true_iff.1 hj)

-- ======== the walk

/-- The places that open up with what was visited. -/
def opened (visited : List κ) : List (Option κ) := none :: visited.map some

/-- A walk that has visited `visited` and has `stack` before it. -/
structure Walk (visited stack : List κ) : Prop where
  places : (visited ++ stack).Perm ((opened visited).flatMap P.under)
  reached : ∀ k ∈ visited ++ stack, P.Reached (some k)

theorem nodup_opened (h : visited.Nodup) : (opened visited).Nodup := by
  refine List.nodup_cons.2 ⟨fun hmem => ?_, h.map fun _ _ => Option.some.inj⟩
  obtain ⟨k, -, hk⟩ := List.mem_map.1 hmem
  exact Option.some_ne_none k hk

variable {P}

namespace Walk

/-- The walk starts with the root. -/
theorem start (h : stack.Perm (P.under none)) : P.Walk [] stack := by
  refine ⟨?_, fun k hk => ?_⟩
  · rw [opened, List.map_nil, List.flatMap_singleton]
    exact h
  · exact Reached.of_under P .root (h.mem_iff.1 hk)

/-- Visiting a key puts what stands under it on the stack. -/
theorem pop {next : List κ}
    (h : P.Walk visited (k :: stack))
    (hnext : next.Perm (P.under (some k) ++ stack)) :
    P.Walk (visited ++ [k]) next := by
  have hopened : opened (visited ++ [k]) = opened visited ++ [some k] := by
    rw [opened, List.map_append]
    rfl
  constructor
  · rw [hopened, List.flatMap_append, List.flatMap_singleton]
    refine ((hnext.append_left _).trans ?_).trans (h.places.append_right _)
    rw [List.append_assoc, List.append_assoc, List.cons_append,
      List.cons_append, List.nil_append]
    exact (List.perm_append_comm.cons k).append_left _
  · intro x hx
    rw [List.append_assoc, List.mem_append] at hx
    rcases hx with hx | hx
    · exact h.reached x (List.mem_append_left _ hx)
    · rcases List.mem_cons.1 hx with rfl | hx
      · exact h.reached x (List.mem_append_right _ List.mem_cons_self)
      · rcases List.mem_append.1 (hnext.mem_iff.1 hx) with hx | hx
        · exact Reached.of_under P (h.reached k
            (List.mem_append_right _ List.mem_cons_self)) hx
        · exact h.reached x
            (List.mem_append_right _ (List.mem_cons_of_mem _ hx))

theorem reached_opened (h : P.Walk visited stack) :
    ∀ place ∈ opened visited, P.Reached place := by
  intro place hplace
  rcases List.mem_cons.1 hplace with rfl | hplace
  · exact .root
  · obtain ⟨k, hk, rfl⟩ := List.mem_map.1 hplace
    exact h.reached k (List.mem_append_left _ hk)

/-- Nothing waits that was visited, when nothing was visited twice. -/
theorem nodup (h : P.Walk visited stack)
    (hlone : P.Lone) (hnd : visited.Nodup) : (visited ++ stack).Nodup := by
  have hunder := hlone.nodup_underAny P h.reached_opened
  have hperm := h.places.trans (P.flatMap_under (nodup_opened hnd))
  exact hperm.nodup_iff.2 hunder

/-- A walk that repeats nothing has no more steps than there are items. -/
theorem length_le (h : P.Walk visited stack)
    (hnd : visited.Nodup) : visited.length + stack.length ≤ P.items.length := by
  have hperm := h.places.trans (P.flatMap_under (nodup_opened hnd))
  rw [← List.length_append, hperm.length_eq, underAny, List.length_map]
  exact List.length_filter_le _ _

/-- A walk that came to its end without repeating anything has been to every
place once. -/
theorem lone (h : P.Walk visited []) (hnd : visited.Nodup) : P.Lone := by
  have hperm := h.places.trans (P.flatMap_under (nodup_opened hnd))
  rw [List.append_nil] at hperm
  have hall : ∀ {place}, P.Reached place → place ∈ opened visited := by
    intro place hplace
    induction hplace with
    | root => exact List.mem_cons_self
    | @item i hi _ ih =>
      refine List.mem_cons_of_mem _ (List.mem_map_of_mem ?_)
      rw [hperm.mem_iff, underAny]
      exact List.mem_map_of_mem
        (List.mem_filter.2 ⟨hi, decide_eq_true ih⟩)
  have hunder := hperm.nodup_iff.1 hnd
  rw [underAny, List.Nodup, List.pairwise_map, List.pairwise_filter] at hunder
  exact hunder.imp fun {i j} hne hi hj =>
    hne (decide_eq_true (hall hi)) (decide_eq_true (hall hj))

end Walk
end Placement
end OneHarness.Lib
