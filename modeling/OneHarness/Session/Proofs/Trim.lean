/-
What trimming leaves of the text of a value: all of it.

No blank starts or ends a JSON text, so a reader that trims a line before it
parses it reads the text that was written.
-/
import OneHarness.Lib.Json.Torn
import OneHarness.Session.Manager

namespace OneHarness.Session

open Lib

theorem isTrimmed_of_numeralChar {c : Char}
    (h : isNumeralChar c = true) : isTrimmed c = false := by
  simp only [isNumeralChar, Bool.or_eq_true, beq_iff_eq] at h
  rcases h with ((((h | rfl) | rfl) | rfl) | rfl) | rfl
  · simp only [Char.isDigit, Bool.and_eq_true, decide_eq_true_eq] at h
    have hlow : 48 ≤ c.toNat := UInt32.le_iff_toNat_le.1 h.1
    have hhigh : c.toNat ≤ 57 := UInt32.le_iff_toNat_le.1 h.2
    rw [isTrimmed, Bool.or_eq_false_iff]
    constructor
    · apply decide_eq_false
      simp only [List.mem_cons, List.not_mem_nil, or_false]
      omega
    · rw [Bool.and_eq_false_iff]
      exact .inl (decide_eq_false (by omega))
  all_goals decide

/-- A text that no blank starts or ends is not trimmed. -/
theorem trim_of_ends {text : List Char} {first last : Char}
    (hfirst : text.head? = some first) (hlast : text.getLast? = some last)
    (hf : isTrimmed first = false) (hl : isTrimmed last = false) :
    trim (String.ofList text) = String.ofList text := by
  obtain ⟨front, rfl⟩ := List.getLast?_eq_some_iff.1 hlast
  have hdrop : (front ++ [last]).dropWhile isTrimmed = front ++ [last] := by
    cases front with
    | nil =>
      rw [List.nil_append, List.dropWhile_cons_of_neg (by rw [hl]; decide)]
    | cons c front =>
      cases hfirst
      rw [List.cons_append, List.dropWhile_cons_of_neg (by rw [hf]; decide)]
  rw [trim, String.toList_ofList, hdrop, List.reverse_concat,
    List.dropWhile_cons_of_neg (by rw [hl]; decide), List.reverse_cons,
    List.reverse_reverse]

/-- The text of a value starts and ends with no blank. -/
theorem exists_ends (j : Json) :
    ∃ first last, (Json.stringify j).head? = some first
      ∧ (Json.stringify j).getLast? = some last
      ∧ isTrimmed first = false ∧ isTrimmed last = false := by
  cases j with
  | null => exact ⟨'n', 'l', rfl, rfl, by decide, by decide⟩
  | bool b =>
    cases b with
    | true => exact ⟨'t', 'e', rfl, rfl, by decide, by decide⟩
    | false => exact ⟨'f', 'e', rfl, rfl, by decide, by decide⟩
  | num n =>
    have hall := Json.isNumeral_all n.valid
    obtain ⟨text, valid⟩ := n
    rw [Json.stringify]
    have hne : text ≠ [] := by
      rintro rfl
      exact absurd valid (by decide)
    refine ⟨text.head hne, text.getLast hne, List.head?_eq_some_head hne,
      List.getLast?_eq_some_getLast hne, ?_, ?_⟩
    · exact isTrimmed_of_numeralChar (hall _ (List.head_mem hne))
    · exact isTrimmed_of_numeralChar (hall _ (List.getLast_mem hne))
  | str s =>
    refine ⟨'"', '"', rfl, ?_, by decide, by decide⟩
    rw [Json.stringify, Json.quote, ← List.cons_append, List.getLast?_concat]
  | arr xs =>
    refine ⟨'[', ']', rfl, ?_, by decide, by decide⟩
    rw [Json.stringify, ← List.cons_append, List.getLast?_concat]
  | obj ms =>
    refine ⟨'{', '}', rfl, ?_, by decide, by decide⟩
    rw [Json.stringify, ← List.cons_append, List.getLast?_concat]

theorem trim_stringify (j : Json) :
    trim (String.ofList (Json.stringify j))
      = String.ofList (Json.stringify j) := by
  obtain ⟨first, last, hfirst, hlast, hf, hl⟩ := exists_ends j
  exact trim_of_ends hfirst hlast hf hl

theorem ofList_stringify_ne_empty (j : Json) :
    String.ofList (Json.stringify j) ≠ "" := by
  obtain ⟨first, -, hfirst, -⟩ := exists_ends j
  intro h
  have hlist := congrArg String.toList h
  rw [String.toList_ofList] at hlist
  rw [hlist] at hfirst
  cases hfirst

end OneHarness.Session
