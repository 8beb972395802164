/-
What a stable sort leaves open when different elements tie.

Two lists with the same elements are sorted the same, as far as one can tell
from the outside, if elements that tie look the same
(`map_mergeSort_of_ties`). Elements that tie stay in the order they came in:
swapped in the input they are swapped in the output (`mergeSort_swap`).
-/
import Mathlib.Data.List.Basic
import Mathlib.Data.List.Perm.Basic
import Mathlib.Data.List.TakeWhile
import Mathlib.Tactic.Common

namespace OneHarness.Lib.StableSort

variable {α β : Type} {le : α → α → Bool}

/-- A total preorder: different elements may tie. -/
structure TotalPreorder (le : α → α → Bool) : Prop where
  trans : ∀ a b c, le a b = true → le b c = true → le a c = true
  total : ∀ a b, (le a b || le b a) = true

variable {a b : α}

namespace TotalPreorder

theorem refl (h : TotalPreorder le) (a : α) : le a a = true := by
  have htotal := h.total a a
  rwa [Bool.or_self] at htotal

theorem le_of_not_le (h : TotalPreorder le)
    (hba : le b a ≠ true) : le a b = true := by
  have htotal := h.total a b
  rw [Bool.or_eq_true] at htotal
  exact htotal.resolve_right hba

/-- Compared by a key. -/
theorem comap (h : TotalPreorder le) (f : β → α) :
    TotalPreorder fun a b => le (f a) (f b) :=
  ⟨fun a b c => h.trans (f a) (f b) (f c), fun a b => h.total (f a) (f b)⟩

end TotalPreorder

def Ties (le : α → α → Bool) (a b : α) : Prop :=
  le a b = true ∧ le b a = true

instance (a b : α) : Decidable (Ties le a b) :=
  inferInstanceAs (Decidable (_ ∧ _))

-- ======== sorted the same

/-- How many elements of a list stand strictly before one. -/
def rank (le : α → α → Bool) (l : List α) (a : α) : Nat :=
  l.countP fun x => !le a x

theorem before_mono (hle : TotalPreorder le)
    (h : le a b = true) (x : α) (hx : (!le a x) = true) :
    (!le b x) = true := by
  cases hbx : le b x with
  | false => rfl
  | true =>
    rw [hle.trans a b x h hbx] at hx
    cases hx

theorem rank_le (hle : TotalPreorder le) (l : List α)
    (h : le a b = true) : rank le l a ≤ rank le l b :=
  List.countP_mono_left fun x _ => before_mono hle h x

variable {l : List α}

/-- An element of the list itself stands before what is greater. -/
theorem rank_lt (hle : TotalPreorder le)
    (ha : a ∈ l) (h : le b a ≠ true) : rank le l a < rank le l b := by
  have hab := hle.le_of_not_le h
  obtain ⟨before, after, rfl⟩ := List.append_of_mem ha
  have hbefore := rank_le hle before hab
  have hafter := rank_le hle after hab
  have hba : le b a = false := Bool.eq_false_iff.2 h
  rw [rank, rank] at hbefore hafter ⊢
  rw [List.countP_append, List.countP_append, List.countP_cons,
    List.countP_cons, hle.refl, hba]
  simp only [Bool.not_true, Bool.false_eq_true, Bool.not_false, if_false,
    if_true]
  omega

/-- Elements of the list with one rank tie. -/
theorem ties_of_rank_eq (hle : TotalPreorder le)
    (ha : a ∈ l) (hb : b ∈ l) (h : rank le l a = rank le l b) :
    Ties le a b := by
  constructor
  · by_contra hab
    have hlt := rank_lt hle hb hab
    omega
  · by_contra hba
    have hlt := rank_lt hle ha hba
    omega

variable {l' : List α}

/-- Two sorted lists of the same elements look the same, if elements that tie
look the same. -/
theorem map_eq_of_ties (hle : TotalPreorder le) {f : α → β}
    (hl : l.Pairwise fun a b => le a b = true)
    (hl' : l'.Pairwise fun a b => le a b = true) (hperm : l.Perm l')
    (hties : ∀ a ∈ l, ∀ b ∈ l, Ties le a b → f a = f b) :
    l.map f = l'.map f := by
  have hranks : l.map (rank le l) = l'.map (rank le l) := by
    refine List.Perm.eq_of_pairwise (fun a b _ _ => Nat.le_antisymm) ?_ ?_
      (hperm.map _)
    · exact List.pairwise_map.2 (hl.imp fun hab => rank_le hle l hab)
    · exact List.pairwise_map.2 (hl'.imp fun hab => rank_le hle l hab)
  have hpoint : ∀ (m m' : List α), (∀ a ∈ m, a ∈ l) → (∀ a ∈ m', a ∈ l) →
      m.map (rank le l) = m'.map (rank le l) → m.map f = m'.map f := by
    intro m
    induction m with
    | nil =>
      intro m' _ _ h
      cases m' with
      | nil => rfl
      | cons b m' => cases h
    | cons a m ih =>
      intro m' hm hm' h
      cases m' with
      | nil => cases h
      | cons b m' =>
        rw [List.map_cons, List.map_cons, List.cons.injEq] at h
        rw [List.map_cons, List.map_cons,
          hties a (hm a List.mem_cons_self) b (hm' b List.mem_cons_self)
            (ties_of_rank_eq hle (hm a List.mem_cons_self)
              (hm' b List.mem_cons_self) h.1),
          ih m' (fun c hc => hm c (List.mem_cons_of_mem a hc))
            (fun c hc => hm' c (List.mem_cons_of_mem b hc)) h.2]
  exact hpoint l l' (fun _ ha => ha) (fun _ ha => hperm.mem_iff.2 ha) hranks

theorem pairwise_mergeSort (hle : TotalPreorder le) (l : List α) :
    (l.mergeSort le).Pairwise fun a b => le a b = true :=
  List.pairwise_mergeSort hle.trans hle.total l

theorem map_mergeSort_of_ties (hle : TotalPreorder le) {f : α → β}
    (hperm : l.Perm l')
    (hties : ∀ a ∈ l, ∀ b ∈ l, Ties le a b → f a = f b) :
    (l.mergeSort le).map f = (l'.mergeSort le).map f := by
  refine map_eq_of_ties hle (pairwise_mergeSort hle l)
    (pairwise_mergeSort hle l') ?_ fun a ha b hb => ?_
  · exact (List.mergeSort_perm l le).trans
      (hperm.trans (List.mergeSort_perm l' le).symm)
  · exact hties a (List.mem_mergeSort.1 ha) b (List.mem_mergeSort.1 hb)

-- ======== kept in order

section
variable (hle : TotalPreorder le)
include hle

/-- An element comes behind those that are smaller. -/
theorem mergeSort_cons (a : α) (l : List α) :
    (a :: l).mergeSort le
      = ((l.mergeSort le).takeWhile fun x => !le a x)
        ++ a :: (l.mergeSort le).dropWhile fun x => !le a x := by
  obtain ⟨front, back, hboth, hrest, hfront⟩ :=
    List.mergeSort_cons hle.trans hle.total a l
  have hpairwise := pairwise_mergeSort hle (a :: l)
  rw [hboth] at hpairwise
  have hback := (List.pairwise_cons.1
    (List.pairwise_append.1 hpairwise).2.1).1
  have hdrop : (back.dropWhile fun x => !le a x) = back
      ∧ (back.takeWhile fun x => !le a x) = [] := by
    cases back with
    | nil => exact ⟨rfl, rfl⟩
    | cons x back =>
      have hx := hback x List.mem_cons_self
      rw [List.dropWhile_cons, List.takeWhile_cons, hx]
      exact ⟨rfl, rfl⟩
  rw [hboth, hrest, List.takeWhile_append_of_pos hfront,
    List.dropWhile_append_of_pos hfront, hdrop.1, hdrop.2, List.append_nil]

/-- Elements that tie are swapped in the output when they are in the input. -/
theorem mergeSort_swap (h : Ties le a b) (l : List α) :
    ∃ before after, (a :: b :: l).mergeSort le = before ++ a :: b :: after
      ∧ (b :: a :: l).mergeSort le = before ++ b :: a :: after := by
  have hfirst : ∀ {c d : α}, Ties le c d →
      (c :: d :: l).mergeSort le
        = ((l.mergeSort le).takeWhile fun x => !le d x)
          ++ c :: d :: (l.mergeSort le).dropWhile fun x => !le d x := by
    intro c d hcd
    have hsame : (fun x => !le c x) = fun x => !le d x := by
      funext x
      rw [Bool.eq_iff_iff]
      exact ⟨before_mono hle hcd.1 x, before_mono hle hcd.2 x⟩
    have hd : (!le d d) = false := by
      rw [hle.refl]
      rfl
    have hsmaller : ∀ x ∈ (l.mergeSort le).takeWhile fun x => !le d x,
        (!le d x) = true := by
      intro x hx
      have hdx := List.mem_takeWhile_imp hx
      exact hdx
    rw [mergeSort_cons hle c, mergeSort_cons hle d, hsame,
      List.takeWhile_append_of_pos hsmaller,
      List.dropWhile_append_of_pos hsmaller, List.takeWhile_cons,
      List.dropWhile_cons, hd]
    simp
  have hsame : (fun x => !le a x) = fun x => !le b x := by
    funext x
    rw [Bool.eq_iff_iff]
    exact ⟨before_mono hle h.1 x, before_mono hle h.2 x⟩
  refine ⟨_, _, hfirst h, ?_⟩
  rw [hfirst ⟨h.2, h.1⟩, hsame]

/-- Those that tie with an element come out in the order they came in. -/
theorem filter_mergeSort (a : α) (l : List α) :
    (l.mergeSort le).filter (Ties le a ·) = l.filter (Ties le a ·) := by
  induction l with
  | nil => rw [List.mergeSort_nil]
  | cons b l ih =>
    have hsplit := List.takeWhile_append_dropWhile (p := fun x => !le b x)
      (l := l.mergeSort le)
    rw [← hsplit, List.filter_append] at ih
    rw [mergeSort_cons hle, List.filter_append, List.filter_cons,
      List.filter_cons]
    by_cases hb : Ties le a b
    · -- what is smaller than `b` does not tie with `a`
      have hnone : ((l.mergeSort le).takeWhile fun x => !le b x).filter
          (Ties le a ·) = [] := by
        refine List.filter_eq_nil_iff.2 fun x hx hax => ?_
        have hbx := List.mem_takeWhile_imp hx
        rw [hle.trans b a x hb.2 (of_decide_eq_true hax).1] at hbx
        cases hbx
      rw [hnone, List.nil_append] at ih
      rw [if_pos (decide_eq_true hb), if_pos (decide_eq_true hb), hnone,
        List.nil_append, ih]
    · have hno : ¬decide (Ties le a b) = true := fun h =>
        hb (of_decide_eq_true h)
      rw [if_neg hno, if_neg hno, ih]

/-- Sorted lists are the same, if those that tie are there in the same
order. -/
theorem eq_of_filters (hl : l.Pairwise fun a b => le a b = true)
    (hl' : l'.Pairwise fun a b => le a b = true)
    (h : ∀ a, l.filter (Ties le a ·) = l'.filter (Ties le a ·)) : l = l' := by
  have hties : ∀ a, decide (Ties le a a) = true := fun a =>
    decide_eq_true ⟨hle.refl a, hle.refl a⟩
  have hmem : ∀ a, a ∈ l ↔ a ∈ l' := by
    intro a
    have hfilter : a ∈ l.filter (Ties le a ·)
        ↔ a ∈ l'.filter (Ties le a ·) := by rw [h a]
    rw [List.mem_filter, List.mem_filter] at hfilter
    rwa [and_iff_left (hties a), and_iff_left (hties a)] at hfilter
  induction l generalizing l' with
  | nil =>
    cases l' with
    | nil => rfl
    | cons b l' =>
      exact absurd ((hmem b).2 List.mem_cons_self) List.not_mem_nil
  | cons a l ih =>
    cases l' with
    | nil => exact absurd ((hmem a).1 List.mem_cons_self) List.not_mem_nil
    | cons b l' =>
      obtain ⟨ha, hrest⟩ := List.pairwise_cons.1 hl
      obtain ⟨hb, hrest'⟩ := List.pairwise_cons.1 hl'
      have hab : Ties le a b := by
        constructor
        · rcases List.mem_cons.1 ((hmem b).2 List.mem_cons_self) with
            rfl | hin
          · exact hle.refl b
          · exact ha b hin
        · rcases List.mem_cons.1 ((hmem a).1 List.mem_cons_self) with
            rfl | hin
          · exact hle.refl a
          · exact hb a hin
      have hhead := h a
      rw [List.filter_cons, List.filter_cons, if_pos (hties a),
        if_pos (decide_eq_true hab), List.cons.injEq] at hhead
      obtain ⟨rfl, -⟩ := hhead
      have htail : ∀ c, l.filter (Ties le c ·)
          = l'.filter (Ties le c ·) := by
        intro c
        have hc := h c
        rw [List.filter_cons, List.filter_cons] at hc
        by_cases hca : decide (Ties le c a) = true
        · rw [if_pos hca, if_pos hca] at hc
          exact (List.cons.inj hc).2
        · rwa [if_neg hca, if_neg hca] at hc
      have hmem' : ∀ c, c ∈ l ↔ c ∈ l' := by
        intro c
        have hfilter : c ∈ l.filter (Ties le c ·)
            ↔ c ∈ l'.filter (Ties le c ·) := by rw [htail c]
        rw [List.mem_filter, List.mem_filter] at hfilter
        rwa [and_iff_left (hties c), and_iff_left (hties c)] at hfilter
      rw [ih hrest hrest' htail hmem']

theorem mergeSort_eq_of_filters
    (h : ∀ a, l.filter (Ties le a ·) = l'.filter (Ties le a ·)) :
    l.mergeSort le = l'.mergeSort le := by
  refine eq_of_filters hle (pairwise_mergeSort hle l)
    (pairwise_mergeSort hle l') fun a => ?_
  rw [filter_mergeSort hle, filter_mergeSort hle, h]

end

/-- A list of elements that are all the same is the same in any order. -/
theorem eq_of_perm_of_forall_eq (h : l.Perm l')
    (hall : ∀ a ∈ l, ∀ b ∈ l, a = b) : l = l' := by
  cases l with
  | nil => exact (List.perm_nil.1 h.symm).symm
  | cons a l =>
    have hl : ∀ b ∈ a :: l, b = a := fun b hb =>
      hall b hb a List.mem_cons_self
    have hl' : ∀ b ∈ l', b = a := fun b hb => hl b (h.mem_iff.2 hb)
    rw [List.eq_replicate_of_mem hl, List.eq_replicate_of_mem hl', h.length_eq]

end OneHarness.Lib.StableSort
