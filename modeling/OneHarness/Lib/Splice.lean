/-
Spans of a text that are replaced by other texts: one after the other, from
the last to the first (`spliceAll`), which is the same as all at once
(`spliceAll_eq_replaced`) when they stand in order and do not overlap.

# Reasoning

What stands before the first span is untouched, so the text is that, the
text of the span, and what the spans behind it make of the rest (`weave`).
`replaced` says place by place what there is; read from a place on, it is
`weave` as well (`emitted_eq_weave`).
-/
import Mathlib.Data.List.Basic
import Mathlib.Data.List.Range
import Mathlib.Tactic.Common

namespace OneHarness.Lib.Splice

variable {α : Type}

/-- So many elements from a place on, and the text that replaces them. -/
structure Span (α : Type) where
  start : Nat
  length : Nat
  text : List α

def Span.stop (s : Span α) : Nat := s.start + s.length

def splice (s : Span α) (xs : List α) : List α :=
  xs.take s.start ++ s.text ++ xs.drop s.stop

/-- The last span first. -/
def spliceAll (spans : List (Span α)) (xs : List α) : List α :=
  spans.foldr splice xs

/-- One stands before the other. -/
def Apart (s t : Span α) : Prop := s.stop ≤ t.start ∨ t.stop ≤ s.start

def Span.Covers (s : Span α) (i : Nat) : Prop := s.start ≤ i ∧ i < s.stop

instance (s : Span α) (i : Nat) : Decidable (s.Covers i) :=
  inferInstanceAs (Decidable (_ ∧ _))

/-- What there is at a place of the text: what replaces the spans that start
there, and the element, unless it is replaced. -/
def emitted (spans : List (Span α)) (xs : List α) (i : Nat) : List α :=
  (spans.filter (·.start = i)).flatMap (·.text)
    ++ if ∃ s ∈ spans, s.Covers i then [] else xs[i]?.toList

/-- All the spans are replaced at once. -/
def replaced (spans : List (Span α)) (xs : List α) : List α :=
  (List.range (xs.length + 1)).flatMap (emitted spans xs)

-- ======== in order

/-- The text from a place on, for spans that stand in order behind it. -/
def weave (xs : List α) : Nat → List (Span α) → List α
  | k, [] => xs.drop k
  | k, s :: spans =>
    (xs.take s.start).drop k ++ s.text ++ weave xs s.stop spans

variable {xs : List α} {spans : List (Span α)} {s : Span α} {k : Nat}

theorem spliceAll_eq_weave (hk : ∀ s ∈ spans, k ≤ s.start)
    (hordered : spans.Pairwise fun s t => s.stop ≤ t.start)
    (hwithin : ∀ s ∈ spans, s.stop ≤ xs.length) (hle : k ≤ xs.length) :
    spliceAll spans xs = xs.take k ++ weave xs k spans := by
  induction spans generalizing k with
  | nil => exact (List.take_append_drop k xs).symm
  | cons s spans ih =>
    obtain ⟨hs, hordered⟩ := List.pairwise_cons.1 hordered
    have hstart : k ≤ s.start := hk s List.mem_cons_self
    have hend : s.start ≤ s.stop := Nat.le_add_right _ _
    have hlen : s.stop ≤ xs.length := hwithin s List.mem_cons_self
    have hrest := ih hs hordered
      (fun t ht => hwithin t (List.mem_cons_of_mem s ht)) hlen
    have htake : (spliceAll spans xs).take s.start = xs.take s.start := by
      rw [hrest, List.take_append_of_le_length
        (by rw [List.length_take]; omega), List.take_take,
        Nat.min_eq_left hend]
    have hdrop : (spliceAll spans xs).drop s.stop
        = weave xs s.stop spans := by
      rw [hrest]
      apply List.drop_left'
      rw [List.length_take]
      omega
    calc spliceAll (s :: spans) xs
        = (spliceAll spans xs).take s.start ++ s.text
            ++ (spliceAll spans xs).drop s.stop := rfl
      _ = xs.take s.start ++ s.text ++ weave xs s.stop spans := by
          rw [htake, hdrop]
      _ = (xs.take k ++ (xs.take s.start).drop k) ++ s.text
            ++ weave xs s.stop spans := by
          rw [← Nat.min_eq_left hstart, ← List.take_take,
            Nat.min_eq_left hstart, List.take_append_drop]
      _ = xs.take k ++ weave xs k (s :: spans) := by
          rw [weave, List.append_assoc, List.append_assoc, List.append_assoc]

-- ======== at once

/-- Nothing happens before the spans. -/
theorem emitted_before {i : Nat} (hspans : ∀ s ∈ spans, i < s.start) :
    emitted spans xs i = xs[i]?.toList := by
  have hnone : spans.filter (·.start = i) = [] := by
    refine List.filter_eq_nil_iff.2 fun s hs hstart => ?_
    have := hspans s hs
    have := of_decide_eq_true hstart
    omega
  rw [emitted, hnone, if_neg, List.flatMap_nil, List.nil_append]
  rintro ⟨s, hs, hcovers, -⟩
  have := hspans s hs
  omega

theorem flatMap_toList_getElem? (xs : List α) (k n : Nat) :
    (List.range' k n).flatMap (fun i => xs[i]?.toList)
      = (xs.take (k + n)).drop k := by
  induction n generalizing k with
  | zero =>
    rw [List.range'_zero, List.flatMap_nil, Nat.add_zero, List.drop_take,
      Nat.sub_self, List.take_zero]
  | succ n ih =>
    rw [List.range'_succ, List.flatMap_cons, ih, Nat.add_assoc,
      Nat.add_comm 1 n]
    by_cases hk : k < xs.length
    · rw [List.getElem?_eq_getElem hk, Option.toList_some,
        List.singleton_append]
      have hlt : k < (xs.take (k + (n + 1))).length := by
        rw [List.length_take]
        omega
      rw [List.drop_eq_getElem_cons hlt, List.getElem_take]
    · rw [List.getElem?_eq_none (by omega), Option.toList_none,
        List.nil_append, List.drop_eq_nil_of_le, List.drop_eq_nil_of_le]
      · rw [List.length_take]
        omega
      · rw [List.length_take]
        omega

/-- Behind the first span it plays no part any more. -/
theorem emitted_behind {i : Nat} (hi : s.stop ≤ i) (hne : s.start ≠ i) :
    emitted (s :: spans) xs i = emitted spans xs i := by
  have hcovers : (∃ t ∈ s :: spans, t.Covers i)
      ↔ ∃ t ∈ spans, t.Covers i := by
    rw [List.exists_mem_cons_iff, or_iff_right]
    rintro ⟨-, hlt⟩
    omega
  rw [emitted, emitted, List.filter_cons_of_neg (by simpa using hne)]
  simp only [hcovers]

/-- From the start of the first span on. -/
theorem emitted_from_start (hs : ∀ t ∈ spans, s.stop ≤ t.start) (n : Nat) :
    (List.range' s.start (s.length + (n + 1))).flatMap
        (emitted (s :: spans) xs)
      = s.text
        ++ (List.range' s.stop (n + 1)).flatMap (emitted spans xs) := by
  have hbehind : ∀ i ∈ List.range' (s.stop + 1) n,
      emitted (s :: spans) xs i = emitted spans xs i := by
    intro i hi
    have hle := (List.mem_range'_1.1 hi).1
    have hstop : s.stop = s.start + s.length := rfl
    exact emitted_behind (by omega) (by omega)
  cases hlength : s.length with
  | zero =>
    -- the element where an empty span stands is still there
    have hstop : s.stop = s.start := by rw [Span.stop, hlength, Nat.add_zero]
    have hcovers : (∃ t ∈ s :: spans, t.Covers s.start)
        ↔ ∃ t ∈ spans, t.Covers s.start := by
      rw [List.exists_mem_cons_iff, or_iff_right]
      rintro ⟨-, hlt⟩
      omega
    have hhere : emitted (s :: spans) xs s.start
        = s.text ++ emitted spans xs s.start := by
      rw [emitted, emitted, List.filter_cons_of_pos (by simp),
        List.flatMap_cons, List.append_assoc]
      simp only [hcovers]
    rw [hstop] at hbehind
    rw [Nat.zero_add, hstop, List.range'_succ, List.flatMap_cons,
      List.flatMap_cons, hhere, List.flatMap_congr hbehind,
      List.append_assoc]
  | succ m =>
    have hstop : s.stop = s.start + (m + 1) := by rw [Span.stop, hlength]
    have hcovered : ∀ i, s.start ≤ i → i < s.stop →
        ∃ t ∈ s :: spans, t.Covers i := fun i hle hlt =>
      ⟨s, List.mem_cons_self, hle, hlt⟩
    have hnone : ∀ i, i < s.stop → spans.filter (·.start = i) = [] := by
      intro i hlt
      refine List.filter_eq_nil_iff.2 fun t ht hstart => ?_
      have := hs t ht
      have := of_decide_eq_true hstart
      omega
    have hhere : emitted (s :: spans) xs s.start = s.text := by
      rw [emitted, List.filter_cons_of_pos (by simp), hnone _ (by omega),
        if_pos (hcovered _ le_rfl (by omega)), List.flatMap_cons,
        List.flatMap_nil, List.append_nil, List.append_nil]
    have hinside : ∀ i ∈ List.range' (s.start + 1) m,
        emitted (s :: spans) xs i = [] := by
      intro i hi
      obtain ⟨hle, hlt⟩ := List.mem_range'_1.1 hi
      have hne : s.start ≠ i := by omega
      rw [emitted, List.filter_cons_of_neg (by simpa using hne),
        hnone _ (by omega), if_pos (hcovered _ (by omega) (by omega)),
        List.flatMap_nil, List.append_nil]
    have hrest : ∀ i ∈ List.range' s.stop (n + 1),
        emitted (s :: spans) xs i = emitted spans xs i := by
      intro i hi
      have hle := (List.mem_range'_1.1 hi).1
      exact emitted_behind hle (by omega)
    have hsplit : List.range' s.start (m + 1 + (n + 1))
        = s.start :: (List.range' (s.start + 1) m
          ++ List.range' s.stop (n + 1)) := by
      rw [Nat.add_right_comm m 1 (n + 1), List.range'_succ,
        ← List.range'_append_1]
      congr 3
      omega
    rw [hsplit, List.flatMap_cons, List.flatMap_append, hhere,
      List.flatMap_congr hrest, List.flatMap_congr hinside]
    simp

theorem emitted_eq_weave (hk : ∀ s ∈ spans, k ≤ s.start)
    (hordered : spans.Pairwise fun s t => s.stop ≤ t.start)
    (hwithin : ∀ s ∈ spans, s.stop ≤ xs.length) (hle : k ≤ xs.length) :
    (List.range' k (xs.length + 1 - k)).flatMap (emitted spans xs)
      = weave xs k spans := by
  induction spans generalizing k with
  | nil =>
    have hall : ∀ i ∈ List.range' k (xs.length + 1 - k),
        emitted [] xs i = xs[i]?.toList := fun i _ =>
      emitted_before fun s hs => absurd hs List.not_mem_nil
    rw [List.flatMap_congr hall, flatMap_toList_getElem?, weave,
      List.take_of_length_le (by omega)]
  | cons s spans ih =>
    obtain ⟨hs, hordered⟩ := List.pairwise_cons.1 hordered
    have hstart : k ≤ s.start := hk s List.mem_cons_self
    have hstop : s.stop = s.start + s.length := rfl
    have hlen : s.stop ≤ xs.length := hwithin s List.mem_cons_self
    have hbefore : ∀ i ∈ List.range' k (s.start - k),
        emitted (s :: spans) xs i = xs[i]?.toList := by
      intro i hi
      have hlt := (List.mem_range'_1.1 hi).2
      refine emitted_before fun t ht => ?_
      rcases List.mem_cons.1 ht with rfl | ht
      · omega
      · have := hs t ht
        omega
    have hsplit : List.range' k (xs.length + 1 - k)
        = List.range' k (s.start - k)
          ++ List.range' s.start
            (s.length + (xs.length - s.stop + 1)) := by
      rw [show s.start = k + (s.start - k) by omega, Nat.add_sub_cancel_left,
        List.range'_append_1]
      congr 1
      omega
    have hrest := ih hs hordered
      (fun t ht => hwithin t (List.mem_cons_of_mem s ht)) hlen
    rw [Nat.sub_add_comm hlen] at hrest
    rw [hsplit, List.flatMap_append, List.flatMap_congr hbefore,
      flatMap_toList_getElem?, emitted_from_start hs, hrest,
      Nat.add_sub_cancel' hstart, weave, List.append_assoc]

/-- Spans in order that do not overlap: from the last to the first, or all at
once. -/
theorem spliceAll_eq_replaced
    (hordered : spans.Pairwise fun s t => s.stop ≤ t.start)
    (hwithin : ∀ s ∈ spans, s.stop ≤ xs.length) :
    spliceAll spans xs = replaced spans xs := by
  rw [spliceAll_eq_weave (fun s _ => Nat.zero_le s.start) hordered hwithin
      (Nat.zero_le _), replaced, List.range_eq_range',
    ← emitted_eq_weave (fun s _ => Nat.zero_le s.start) hordered hwithin
      (Nat.zero_le _), List.take_zero, List.nil_append, Nat.sub_zero]

-- ======== any order

/-- Spans that start at different places are replaced in whatever order they
are listed. -/
theorem replaced_perm {spans' : List (Span α)} (h : spans'.Perm spans)
    (hstarts : spans.Pairwise fun s t => s.start ≠ t.start) :
    replaced spans' xs = replaced spans xs := by
  refine List.flatMap_congr fun i _ => ?_
  have hfilter : spans'.filter (·.start = i) = spans.filter (·.start = i) := by
    have hperm := h.filter fun s : Span α => decide (s.start = i)
    have hpair := hstarts.filter fun s : Span α => decide (s.start = i)
    have hall : ∀ s ∈ spans.filter fun s : Span α => decide (s.start = i),
        s.start = i := fun s hs => of_decide_eq_true (List.mem_filter.1 hs).2
    revert hperm hpair hall
    generalize spans.filter (fun s => decide (s.start = i)) = l
    intro hperm hpair hall
    cases l with
    | nil => exact List.perm_nil.1 hperm
    | cons s l =>
      cases l with
      | nil => exact List.perm_singleton.1 hperm
      | cons t l =>
        refine absurd ?_ (List.rel_of_pairwise_cons hpair List.mem_cons_self)
        rw [hall s List.mem_cons_self,
          hall t (List.mem_cons_of_mem s List.mem_cons_self)]
  have hcovers : (∃ s ∈ spans', s.Covers i) ↔ ∃ s ∈ spans, s.Covers i :=
    exists_congr fun s => and_congr_left' h.mem_iff
  rw [emitted, emitted, hfilter]
  simp only [hcovers]

/-- Texts that are put together in pairs either way around are put together
in any order. -/
theorem flatten_perm {ts ts' : List (List α)} (h : ts'.Perm ts)
    (hcommute : ts.Pairwise fun a b => a ++ b = b ++ a) :
    ts'.flatten = ts.flatten := by
  have hcommute' := (h.symm.pairwise_iff fun {a b} hab => hab.symm).1 hcommute
  clear hcommute
  induction h with
  | nil => rfl
  | cons t h ih =>
    rw [List.flatten_cons, List.flatten_cons, ih hcommute'.of_cons]
  | swap t t' ts =>
    have hswap := List.rel_of_pairwise_cons hcommute' List.mem_cons_self
    rw [List.flatten_cons, List.flatten_cons, List.flatten_cons,
      List.flatten_cons, ← List.append_assoc, hswap, List.append_assoc]
  | trans h h' ih ih' =>
    exact (ih hcommute').trans
      (ih' ((h.pairwise_iff fun {a b} hab => hab.symm).1 hcommute'))

end OneHarness.Lib.Splice
