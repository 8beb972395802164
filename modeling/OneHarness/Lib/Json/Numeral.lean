/-
JSON numbers as numbers: the numeral of an integer, and the value of a
numeral.

A `Numeral` is kept as its text; `ofInt` writes one and `toRat` reads
one. A runtime computes with doubles: the values here are exact.
-/
import OneHarness.Lib.Json.Basic
import Mathlib.Algebra.Order.Field.Rat
import Mathlib.Data.List.TakeWhile

namespace OneHarness.Lib.Numeral

-- ======== writing an integer

/-- The decimal text of a positive number has no leading zero. -/
theorem toDigits_head {n : Nat} (h : 0 < n) :
    ∃ d r, Nat.toDigits 10 n = d :: r ∧ d ≠ '0' := by
  induction n using Nat.strongRecOn with
  | _ n ih =>
    by_cases hlt : n < 10
    · refine ⟨n.digitChar, [], Nat.toDigits_of_lt_base hlt, ?_⟩
      have hn : n = 1 ∨ n = 2 ∨ n = 3 ∨ n = 4 ∨ n = 5 ∨ n = 6 ∨ n = 7
          ∨ n = 8 ∨ n = 9 := by omega
      rcases hn with rfl | rfl | rfl | rfl | rfl | rfl | rfl | rfl | rfl <;>
        decide
    · obtain ⟨d, r, hd, hne⟩ := ih (n / 10) (by omega) (by omega)
      refine ⟨d, r ++ [(n % 10).digitChar], ?_, hne⟩
      rw [Nat.toDigits_of_base_le (by omega) (by omega), hd, List.cons_append]

theorem isDigit_toDigits {n : Nat} {c : Char} (h : c ∈ Nat.toDigits 10 n) :
    c.isDigit = true :=
  Nat.isDigit_of_mem_toDigits (by omega) (by omega) h

theorem dropWhile_isDigit {cs : List Char} (h : ∀ c ∈ cs, c.isDigit = true) :
    cs.dropWhile Char.isDigit = [] :=
  List.dropWhile_eq_nil_iff.2 h

theorem intPart_toDigits (n : Nat) : intPart (Nat.toDigits 10 n) = some [] := by
  rcases Nat.eq_zero_or_pos n with rfl | hn
  · decide
  · obtain ⟨d, r, hd, hne⟩ := toDigits_head hn
    have hdig : ∀ c ∈ d :: r, c.isDigit = true := fun c hc =>
      isDigit_toDigits (hd ▸ hc)
    rw [hd]
    unfold intPart
    split
    case h_1 r' heq => exact absurd (List.cons.inj heq).1 hne
    case h_2 =>
      rw [digits1, if_pos (hdig d List.mem_cons_self),
        dropWhile_isDigit fun c hc => hdig c (List.mem_cons_of_mem _ hc)]

theorem all_toDigits (n : Nat) :
    (Nat.toDigits 10 n).all isNumeralChar = true := by
  refine List.all_eq_true.2 fun c hc => ?_
  simp only [isNumeralChar, isDigit_toDigits hc, Bool.true_or]

theorem dropMinus_toDigits (n : Nat) :
    dropMinus (Nat.toDigits 10 n) = Nat.toDigits 10 n := by
  unfold dropMinus
  split
  case h_1 r heq =>
    have h : ('-' : Char).isDigit = true :=
      isDigit_toDigits (n := n) (heq ▸ List.mem_cons_self)
    exact absurd h (by decide)
  case h_2 => rfl

/-- The numeral of a natural number. -/
def ofNat (n : Nat) : Numeral where
  text := Nat.toDigits 10 n
  valid := by
    rw [isNumeral, all_toDigits, dropMinus_toDigits, intPart_toDigits]
    decide

/-- The numeral of an integer. -/
def ofInt : Int → Numeral
  | .ofNat n => ofNat n
  | .negSucc n =>
    { text := '-' :: Nat.toDigits 10 (n + 1)
      valid := by
        have hm : dropMinus ('-' :: Nat.toDigits 10 (n + 1))
            = Nat.toDigits 10 (n + 1) := rfl
        rw [isNumeral, List.all_cons, all_toDigits, hm, intPart_toDigits]
        decide }

-- ======== reading a value

/-- The value of a run of digits. -/
def digitsValue (cs : List Char) : Nat :=
  cs.foldl (fun n c => 10 * n + (c.toNat - 48)) 0

/-- The value of an exponent's text, its sign included. -/
def expValue (cs : List Char) : Int :=
  match cs with
  | '-' :: r => -(digitsValue r : Int)
  | '+' :: r => digitsValue r
  | r => digitsValue r

/-- The value of an unsigned numeral's text. -/
def unsignedValue (cs : List Char) : ℚ :=
  let int := cs.takeWhile Char.isDigit
  let rest := cs.dropWhile Char.isDigit
  let (frac, rest) := match rest with
    | '.' :: r => (r.takeWhile Char.isDigit, r.dropWhile Char.isDigit)
    | r => ([], r)
  let e := match rest with
    | _ :: r => expValue r
    | [] => 0
  (digitsValue (int ++ frac) : ℚ) * (10 : ℚ) ^ (e - frac.length)

/-- The number a numeral denotes. -/
def toRat (n : Numeral) : ℚ :=
  match n.text with
  | '-' :: r => -unsignedValue r
  | r => unsignedValue r

-- ======== the value of what is written

/-- The digits of a number, read back. -/
theorem digitsValue_toDigits (n : Nat) : digitsValue (Nat.toDigits 10 n) = n := by
  have h := Nat.ofDigitChars_toDigits (b := 10) (n := n) (by omega) (by omega)
  rwa [Nat.ofDigitChars_eq_foldl] at h

theorem takeWhile_toDigits (n : Nat) :
    (Nat.toDigits 10 n).takeWhile Char.isDigit = Nat.toDigits 10 n := by
  apply List.takeWhile_eq_self_iff.2
  intro c hc
  exact isDigit_toDigits hc

theorem unsignedValue_toDigits (n : Nat) :
    unsignedValue (Nat.toDigits 10 n) = n := by
  have hrest : (Nat.toDigits 10 n).dropWhile Char.isDigit = [] :=
    dropWhile_isDigit fun c hc => isDigit_toDigits hc
  rw [unsignedValue, takeWhile_toDigits, hrest]
  simp [digitsValue_toDigits]

theorem toRat_ofNat (n : Nat) : (ofNat n).toRat = n := by
  have htext : ∀ r, Nat.toDigits 10 n ≠ '-' :: r := by
    intro r h
    have hminus : ('-' : Char).isDigit = true :=
      isDigit_toDigits (n := n) (h ▸ List.mem_cons_self)
    exact absurd hminus (by decide)
  rw [toRat, ofNat]
  split
  case h_1 r h => exact absurd h (htext r)
  case h_2 => exact unsignedValue_toDigits n

theorem toRat_ofInt (i : Int) : (ofInt i).toRat = i := by
  cases i with
  | ofNat n => exact toRat_ofNat n
  | negSucc n =>
    have hread : (ofInt (.negSucc n)).toRat
        = -unsignedValue (Nat.toDigits 10 (n + 1)) := rfl
    rw [hread, unsignedValue_toDigits, Int.cast_negSucc]

theorem ofInt_injective {i j : Int} (h : ofInt i = ofInt j) : i = j := by
  have hrat := congrArg toRat h
  rw [toRat_ofInt, toRat_ofInt] at hrat
  exact Rat.intCast_inj.1 hrat

example : (ofInt (-1250)).toRat = -1250 := by decide +kernel

end OneHarness.Lib.Numeral
