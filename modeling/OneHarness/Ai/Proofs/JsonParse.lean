/-
What the repair of a JSON text repairs.

# Taken literally

A text is read with its string literals taken literally (`parseLiterally`):
a control character, and a backslash that starts no escape, stand for
themselves. That is the value which the repaired text should have.

# The truncated escape

A `\u` without four hexadecimal digits starts no escape, but `u` is among the
letters that the pass takes for one. So it is left as it is, and the repaired
text is no JSON (`repairJson_iff`). Everything else is repaired: what one
literal becomes is found by the pass's own cases (`inside_induction`), and
the rest of a text stays.
-/
import OneHarness.Ai.JsonParse
import OneHarness.Lib.Json.Literals

namespace OneHarness.Ai

open Lib Json

-- ======== statement vocabulary

/-- The code unit of the escape whose backslash has gone before, and the
length of the rest of it. -/
def escapeAt : List Char → Option (Nat × Nat)
  | 'u' :: a :: b :: c :: d :: _ => (hex4 a b c d).map fun unit => (unit, 5)
  | e :: _ => (simpleEscape e).map fun c => (c.toNat, 1)
  | [] => none

/-- The rest of a string literal, that many characters of which were read,
taken literally. -/
def literally : (skipped : Nat) → List Char → Option (List Nat × List Char)
  | _, [] => none
  | skipped + 1, _ :: r => literally skipped r
  | 0, c :: r =>
    if c = '"' then some ([], r)
    else if c = '\\' then
      match escapeAt r with
      | some (unit, length) =>
        (literally length r).map fun p => (unit :: p.1, p.2)
      | none => (literally 0 r).map fun p => (c.toNat :: p.1, p.2)
    else (literally 0 r).map fun p => (c.toNat :: p.1, p.2)

/-- The value of a text whose string literals are taken literally. -/
def parseLiterally (json : List Char) : Option Json :=
  parseWith (literally 0) json

/-- A string literal of the text has a `\u` without four hexadecimal
digits. -/
def truncated : (inString : Bool) → (skipped : Nat) → List Char → Bool
  | _, _, [] => false
  | inString, skipped + 1, _ :: r => truncated inString skipped r
  | false, 0, c :: r => truncated (c = '"') 0 r
  | true, 0, c :: r =>
    if c = '"' then truncated false 0 r
    else if c = '\\' then
      match escapeAt r with
      | some (_, length) => truncated true length r
      | none => r.head? = some 'u' || truncated true 0 r
    else truncated true 0 r

/-- What the pass should do for a text. -/
structure Repairs (json : List Char) : Prop where
  literal : ∀ v, parseLiterally json = some v →
    Json.parse (repairJson json) = some v
  valid : ∀ v, Json.parse json = some v → repairJson json = json
  idempotent : repairJson (repairJson json) = repairJson json

-- ======== the digits

theorem hexVal_isSome (c : Char) : (hexVal c).isSome = isHexDigit c := by
  unfold hexVal isHexDigit
  by_cases hdigit : c.isDigit = true
  · rw [if_pos hdigit, hdigit]
    rfl
  · rw [if_neg hdigit, Bool.eq_false_iff.2 hdigit, Bool.false_or]
    by_cases hlower : 'a' ≤ c ∧ c ≤ 'f'
    · rw [if_pos hlower, decide_eq_true hlower]
      rfl
    · rw [if_neg hlower, decide_eq_false hlower, Bool.false_or]
      by_cases hupper : 'A' ≤ c ∧ c ≤ 'F'
      · rw [if_pos hupper, decide_eq_true hupper]
        rfl
      · rw [if_neg hupper, decide_eq_false hupper]
        rfl

theorem hex4_isSome (a b c d : Char) :
    (hex4 a b c d).isSome = isUnicodeDigits [a, b, c, d] := by
  have hall : isUnicodeDigits [a, b, c, d]
      = ((hexVal a).isSome && ((hexVal b).isSome
        && ((hexVal c).isSome && (hexVal d).isSome))) := by
    rw [hexVal_isSome, hexVal_isSome, hexVal_isSome, hexVal_isSome,
      isUnicodeDigits, List.all_cons, List.all_cons, List.all_cons,
      List.all_cons, List.all_nil, Bool.and_true]
    rfl
  rw [hall, hex4]
  cases hexVal a with
  | none => rfl
  | some x =>
    cases hexVal b with
    | none => rfl
    | some y =>
      cases hexVal c with
      | none => rfl
      | some z =>
        cases hexVal d with
        | none => rfl
        | some w => rfl

/-- Four digits are there, or an escape is truncated. -/
theorem escapeAt_u (r : List Char) :
    (∃ a b c d t unit, r = a :: b :: c :: d :: t ∧ hex4 a b c d = some unit)
      ∨ escapeAt ('u' :: r) = none ∧ isUnicodeDigits (r.take 4) = false := by
  have hshort : ∀ t : List Char, t.length < 4 → escapeAt ('u' :: t) = none
      ∧ isUnicodeDigits (t.take 4) = false := by
    intro t ht
    refine ⟨?_, ?_⟩
    · unfold escapeAt
      split
      case h_1 heq =>
        cases heq
        simp only [List.length_cons] at ht
        omega
      case h_2 heq =>
        cases heq
        rfl
      case h_3 heq => cases heq
    · rw [isUnicodeDigits, List.take_of_length_le (by omega),
        decide_eq_false (by omega), Bool.false_and]
  by_cases hlong : r.length < 4
  · exact .inr (hshort r hlong)
  · obtain ⟨a, b, c, d, t, rfl⟩ : ∃ a b c d t, r = a :: b :: c :: d :: t := by
      rcases r with _ | ⟨a, _ | ⟨b, _ | ⟨c, _ | ⟨d, t⟩⟩⟩⟩
      · exact absurd (by decide) hlong
      · exact absurd (by simp) hlong
      · exact absurd (by simp) hlong
      · exact absurd (by simp) hlong
      · exact ⟨a, b, c, d, t, rfl⟩
    cases hhex : hex4 a b c d with
    | some unit => exact .inl ⟨a, b, c, d, t, unit, rfl, hhex⟩
    | none =>
      refine .inr ⟨?_, ?_⟩
      · rw [escapeAt, hhex]
        rfl
      · have hsome := hex4_isSome a b c d
        rw [hhex] at hsome
        exact hsome.symm

/-- The escape of a control character is the one the writer of JSON makes. -/
theorem escapeControlCharacter_eq {c : Char} (h : c.toNat < 32) :
    escapeControlCharacter c = escapeChar c := by
  have hall : ∀ n < 32, escapeControlCharacter (Char.ofNat n)
      = escapeChar (Char.ofNat n) := by
    decide
  have hc := hall c.toNat h
  rwa [Char.ofNat_toNat] at hc

-- ======== the cases

/-- The cases of the pass inside a string literal (`P`) and outside (`Q`). -/
theorem repair_induction {P Q : List Char → Prop} (nil : P [])
    (quote : ∀ r, Q r → P ('"' :: r)) (last : P ['\\'])
    (unicode : ∀ a b c d unit r, hex4 a b c d = some unit → P r →
      P ('\\' :: 'u' :: a :: b :: c :: d :: r))
    (cut : ∀ r, escapeAt ('u' :: r) = none →
      isUnicodeDigits (r.take 4) = false → P r → P ('\\' :: 'u' :: r))
    (simple : ∀ e x r, simpleEscape e = some x → P r → P ('\\' :: e :: r))
    (invalid : ∀ e r, e ≠ 'u' → simpleEscape e = none → P (e :: r) →
      P ('\\' :: e :: r))
    (control : ∀ c r, c.toNat < 32 → P r → P (c :: r))
    (plain : ∀ c r, c ≠ '"' → c ≠ '\\' → ¬ c.toNat < 32 → P r → P (c :: r))
    (outside_nil : Q []) (outside_quote : ∀ r, P r → Q ('"' :: r))
    (outside_cons : ∀ c r, c ≠ '"' → Q r → Q (c :: r))
    (cs : List Char) : P cs ∧ Q cs := by
  induction hn : cs.length using Nat.strongRecOn generalizing cs with
  | ind n ih =>
    subst hn
    cases cs with
    | nil => exact ⟨nil, outside_nil⟩
    | cons c r =>
      have hrest : P r ∧ Q r := by
        refine ih r.length ?_ r rfl
        simp only [List.length_cons]
        omega
      by_cases hquote : c = '"'
      · subst hquote
        exact ⟨quote r hrest.2, outside_quote r hrest.1⟩
      · refine ⟨?_, outside_cons c r hquote hrest.2⟩
        by_cases hbackslash : c = '\\'
        · subst hbackslash
          cases r with
          | nil => exact last
          | cons e r =>
            by_cases hu : e = 'u'
            · subst hu
              rcases escapeAt_u r with
                ⟨a, b, c, d, t, unit, rfl, hhex⟩ | ⟨hnone, hdigits⟩
              · apply unicode a b c d unit t hhex
                refine (ih t.length ?_ t rfl).1
                simp only [List.length_cons]
                omega
              · apply cut r hnone hdigits
                refine (ih r.length ?_ r rfl).1
                simp only [List.length_cons]
                omega
            · cases hsimple : simpleEscape e with
              | some x =>
                apply simple e x r hsimple
                refine (ih r.length ?_ r rfl).1
                simp only [List.length_cons]
                omega
              | none => exact invalid e r hu hsimple hrest.1
        · by_cases hcontrol : c.toNat < 32
          · exact control c r hcontrol hrest.1
          · exact plain c r hquote hbackslash hcontrol hrest.1

theorem escapeAt_of_ne {e : Char} (h : e ≠ 'u') (r : List Char) :
    escapeAt (e :: r) = (simpleEscape e).map fun c => (c.toNat, 1) := by
  unfold escapeAt
  split
  case h_1 heq =>
    cases heq
    exact absurd rfl h
  case h_2 heq =>
    cases heq
    rfl
  case h_3 heq => cases heq

theorem simpleEscape_ne {e x : Char} (h : simpleEscape e = some x) :
    e ≠ 'u' := by
  rintro rfl
  have hnone : simpleEscape 'u' = none := by decide
  rw [hnone] at h
  cases h

/-- The letters of the escapes are those of the set, but for `u`. -/
theorem mem_VALID_JSON_ESCAPES {e : Char} (h : e ≠ 'u') :
    e ∈ VALID_JSON_ESCAPES ↔ (simpleEscape e).isSome = true := by
  constructor
  · intro hmem
    simp only [VALID_JSON_ESCAPES, List.mem_cons, List.not_mem_nil,
      or_false] at hmem
    rcases hmem with rfl | rfl | rfl | rfl | rfl | rfl | rfl | rfl | rfl
    · decide
    · decide
    · decide
    · decide
    · decide
    · decide
    · decide
    · decide
    · exact absurd rfl h
  · intro hsome
    by_contra hmem
    simp only [VALID_JSON_ESCAPES, List.mem_cons, List.not_mem_nil, or_false,
      not_or] at hmem
    obtain ⟨h1, h2, h3, h4, h5, h6, h7, h8, -⟩ := hmem
    rw [simpleEscape, if_neg h1, if_neg h2, if_neg h3, if_neg h4, if_neg h5,
      if_neg h6, if_neg h7, if_neg h8] at hsome
    cases hsome

theorem control_ne {c : Char} (h : c.toNat < 32) : c ≠ '"' ∧ c ≠ '\\' := by
  constructor
  · rintro rfl
    exact absurd h (by decide)
  · rintro rfl
    exact absurd h (by decide)

-- ======== what it does

section
variable {a b c d e x : Char} {unit : Nat} {r : List Char}

attribute [local simp] repairLoop literally truncated

theorem inside_quote :
    repairLoop true 0 ('"' :: r) = '"' :: repairLoop false 0 r := by
  cases r with
  | nil => conv_lhs => rw [repairLoop, if_pos rfl]
  | cons d r => conv_lhs => rw [repairLoop, if_pos rfl]

theorem inside_unicode (h : hex4 a b c d = some unit) :
    repairLoop true 0 ('\\' :: 'u' :: a :: b :: c :: d :: r)
      = '\\' :: 'u' :: a :: b :: c :: d :: repairLoop true 0 r := by
  have hdigits := hex4_isSome a b c d
  rw [h] at hdigits
  rw [repairLoop, if_neg (by decide), if_pos rfl]
  rw [if_pos ⟨rfl, hdigits.symm⟩]
  rfl

theorem inside_cut (h : isUnicodeDigits (r.take 4) = false) :
    repairLoop true 0 ('\\' :: 'u' :: r)
      = '\\' :: 'u' :: repairLoop true 0 r := by
  rw [repairLoop, if_neg (by decide), if_pos rfl]
  rw [if_neg, if_pos (by decide)]
  · rfl
  · rw [h]
    exact fun hboth => Bool.false_ne_true hboth.2

theorem inside_simple (h : simpleEscape e = some x) :
    repairLoop true 0 ('\\' :: e :: r)
      = '\\' :: e :: repairLoop true 0 r := by
  have hu := simpleEscape_ne h
  rw [repairLoop, if_neg (by decide), if_pos rfl]
  rw [if_neg (fun hboth => hu hboth.1), if_pos]
  · rfl
  · rw [mem_VALID_JSON_ESCAPES hu, h]
    rfl

theorem inside_invalid (hu : e ≠ 'u') (h : simpleEscape e = none) :
    repairLoop true 0 ('\\' :: e :: r)
      = '\\' :: '\\' :: repairLoop true 0 (e :: r) := by
  conv_lhs => rw [repairLoop]
  rw [if_neg (by decide), if_pos rfl]
  rw [if_neg (fun hboth => hu hboth.1), if_neg]
  rw [mem_VALID_JSON_ESCAPES hu, h]
  exact Bool.false_ne_true

theorem inside_other (hquote : c ≠ '"') (hbackslash : c ≠ '\\') :
    repairLoop true 0 (c :: r)
      = (if isControlCharacter c = true then escapeControlCharacter c
          else [c]) ++ repairLoop true 0 r := by
  cases r with
  | nil => conv_lhs => rw [repairLoop, if_neg hquote, if_neg hbackslash]
  | cons d r => conv_lhs => rw [repairLoop, if_neg hquote, if_neg hbackslash]

theorem inside_control (h : c.toNat < 32) :
    repairLoop true 0 (c :: r) = escapeChar c ++ repairLoop true 0 r := by
  obtain ⟨hquote, hbackslash⟩ := control_ne h
  rw [inside_other hquote hbackslash, if_pos, escapeControlCharacter_eq h]
  exact decide_eq_true (by omega)

theorem inside_plain (hquote : c ≠ '"') (hbackslash : c ≠ '\\')
    (h : ¬ c.toNat < 32) :
    repairLoop true 0 (c :: r) = c :: repairLoop true 0 r := by
  rw [inside_other hquote hbackslash, if_neg]
  · rfl
  · intro hcontrol
    have hle := of_decide_eq_true hcontrol
    omega

theorem outside_quote :
    repairLoop false 0 ('"' :: r) = '"' :: repairLoop true 0 r := by
  rw [repairLoop]
  rfl

theorem outside_cons (h : c ≠ '"') :
    repairLoop false 0 (c :: r) = c :: repairLoop false 0 r := by
  rw [repairLoop, decide_eq_false h]

-- ======== taken literally

theorem literally_quote : literally 0 ('"' :: r) = some ([], r) := by
  rw [literally, if_pos rfl]

theorem literally_unicode (h : hex4 a b c d = some unit) :
    literally 0 ('\\' :: 'u' :: a :: b :: c :: d :: r)
      = (literally 0 r).map fun p => (unit :: p.1, p.2) := by
  rw [literally, if_neg (by decide), if_pos rfl, escapeAt, h]
  rfl

theorem literally_simple (h : simpleEscape e = some x) :
    literally 0 ('\\' :: e :: r)
      = (literally 0 r).map fun p => (x.toNat :: p.1, p.2) := by
  rw [literally, if_neg (by decide), if_pos rfl,
    escapeAt_of_ne (simpleEscape_ne h), h]
  rfl

theorem literally_invalid (hu : e ≠ 'u') (h : simpleEscape e = none) :
    literally 0 ('\\' :: e :: r)
      = (literally 0 (e :: r)).map fun p => (92 :: p.1, p.2) := by
  conv_lhs => rw [literally]
  rw [if_neg (by decide), if_pos rfl, escapeAt_of_ne hu, h]
  rfl

theorem literally_plain (hquote : c ≠ '"') (hbackslash : c ≠ '\\') :
    literally 0 (c :: r)
      = (literally 0 r).map fun p => (c.toNat :: p.1, p.2) := by
  rw [literally, if_neg hquote, if_neg hbackslash]

-- ======== truncated escapes

theorem truncated_quote :
    truncated true 0 ('"' :: r) = truncated false 0 r := by
  rw [truncated, if_pos rfl]

theorem truncated_unicode (h : hex4 a b c d = some unit) :
    truncated true 0 ('\\' :: 'u' :: a :: b :: c :: d :: r)
      = truncated true 0 r := by
  rw [truncated, if_neg (by decide), if_pos rfl, escapeAt, h]
  rfl

theorem truncated_cut (h : escapeAt ('u' :: r) = none) :
    truncated true 0 ('\\' :: 'u' :: r) = true := by
  rw [truncated, if_neg (by decide), if_pos rfl, h]
  rfl

theorem truncated_simple (h : simpleEscape e = some x) :
    truncated true 0 ('\\' :: e :: r) = truncated true 0 r := by
  rw [truncated, if_neg (by decide), if_pos rfl,
    escapeAt_of_ne (simpleEscape_ne h), h]
  rfl

theorem truncated_invalid (hu : e ≠ 'u') (h : simpleEscape e = none) :
    truncated true 0 ('\\' :: e :: r) = truncated true 0 (e :: r) := by
  conv_lhs => rw [truncated]
  rw [if_neg (by decide), if_pos rfl, escapeAt_of_ne hu, h]
  dsimp only [Option.map_none]
  rw [List.head?_cons, decide_eq_false (fun heq => hu (Option.some.inj heq)),
    Bool.false_or]

theorem truncated_plain (hquote : c ≠ '"') (hbackslash : c ≠ '\\') :
    truncated true 0 (c :: r) = truncated true 0 r := by
  rw [truncated, if_neg hquote, if_neg hbackslash]

end

-- ======== one literal

/-- A backslash that starts no escape ends the reading. -/
theorem parseUnits_escapeAt {r : List Char} (h : escapeAt r = none) :
    parseUnits ('\\' :: r) = none := by
  cases r with
  | nil => rfl
  | cons e r =>
    by_cases hu : e = 'u'
    · subst hu
      by_cases hlong : ∃ a b c d t, r = a :: b :: c :: d :: t
      · obtain ⟨a, b, c, d, t, rfl⟩ := hlong
        rw [escapeAt, Option.map_eq_none_iff] at h
        rw [parseUnits.eq_3, h]
        rfl
      · rw [parseUnits.eq_4 _ _
          (fun a b c d t _ heq => hlong ⟨a, b, c, d, t, heq⟩)]
        rfl
    · rw [escapeAt_of_ne hu, Option.map_eq_none_iff] at h
      rw [parseUnits.eq_4 _ _ (fun _ _ _ _ _ heq _ => hu heq), h]
      rfl

theorem parseUnits_unicode {a b c d : Char} {unit : Nat}
    (h : hex4 a b c d = some unit) (r : List Char) :
    parseUnits ('\\' :: 'u' :: a :: b :: c :: d :: r)
      = (parseUnits r).map fun p => (unit :: p.1, p.2) := by
  rw [parseUnits.eq_3, h]
  cases parseUnits r with
  | none => rfl
  | some p => rfl

theorem parseUnits_control {c : Char} (h : c.toNat < 32) (r : List Char) :
    parseUnits (c :: r) = none := by
  obtain ⟨hquote, hbackslash⟩ := control_ne h
  rw [parseUnits.eq_5 _ _ hquote (fun _ _ _ _ _ heq => absurd heq hbackslash)
    (fun _ _ heq => absurd heq hbackslash), if_pos (.inr h)]

variable (cs : List Char)

/-- The digits right behind an escape stay as they are. -/
theorem takeWhile_inside :
    (repairLoop true 0 cs).takeWhile isHexDigit = cs.takeWhile isHexDigit := by
  have hbackslash : ¬ isHexDigit '\\' = true := by decide
  have hcut : ∀ r s : List Char, ('\\' :: r).takeWhile isHexDigit
      = ('\\' :: s).takeWhile isHexDigit := by
    intro r s
    rw [List.takeWhile_cons_of_neg hbackslash,
      List.takeWhile_cons_of_neg hbackslash]
  refine (repair_induction
    (P := fun cs => (repairLoop true 0 cs).takeWhile isHexDigit
      = cs.takeWhile isHexDigit)
    (Q := fun _ => True) ?_ ?_ ?_ ?_ ?_ ?_ ?_ ?_ ?_ trivial
    (fun _ _ => trivial) (fun _ _ _ _ => trivial) cs).1
  · rfl
  · intro r _
    rw [inside_quote, List.takeWhile_cons_of_neg (by decide),
      List.takeWhile_cons_of_neg (by decide)]
  · rfl
  · intro a b c d unit r hhex _
    rw [inside_unicode hhex]
    exact hcut _ _
  · intro r _ hdigits _
    rw [inside_cut hdigits]
    exact hcut _ _
  · intro e x r hsimple _
    rw [inside_simple hsimple]
    exact hcut _ _
  · intro e r hu hnone _
    rw [inside_invalid hu hnone]
    exact hcut _ _
  · intro c r hcontrol _
    have hc : ¬ isHexDigit c = true := by
      have hall : ∀ n < 32, ¬ isHexDigit (Char.ofNat n) = true := by decide
      have hn := hall c.toNat hcontrol
      rwa [Char.ofNat_toNat] at hn
    obtain ⟨escape, hescape⟩ : ∃ t, escapeChar c = '\\' :: t := by
      have hall : ∀ n < 32, (escapeChar (Char.ofNat n)).head? = some '\\' := by
        decide
      have hn := hall c.toNat hcontrol
      rw [Char.ofNat_toNat] at hn
      exact List.head?_eq_some_iff.1 hn
    rw [inside_control hcontrol, hescape, List.cons_append,
      List.takeWhile_cons_of_neg hbackslash, List.takeWhile_cons_of_neg hc]
  · intro c r hquote hback hcontrol ih
    rw [inside_plain hquote hback hcontrol, List.takeWhile_cons,
      List.takeWhile_cons, ih]

theorem isUnicodeDigits_take :
    isUnicodeDigits (cs.take 4)
      = decide (4 ≤ (cs.takeWhile isHexDigit).length) := by
  rcases cs with _ | ⟨a, _ | ⟨b, _ | ⟨c, _ | ⟨d, t⟩⟩⟩⟩
  · rfl
  · simp only [isUnicodeDigits, List.takeWhile_cons]
    cases isHexDigit a <;> rfl
  · simp only [isUnicodeDigits, List.takeWhile_cons]
    cases isHexDigit a <;> cases isHexDigit b <;> rfl
  · simp only [isUnicodeDigits, List.takeWhile_cons]
    cases isHexDigit a <;> cases isHexDigit b <;> cases isHexDigit c <;> rfl
  · simp only [isUnicodeDigits, List.takeWhile_cons, List.take_succ_cons,
      List.take_zero, List.all_cons, List.all_nil]
    cases isHexDigit a <;> cases isHexDigit b <;> cases isHexDigit c
      <;> cases isHexDigit d <;> simp

theorem isUnicodeDigits_inside :
    isUnicodeDigits ((repairLoop true 0 cs).take 4)
      = isUnicodeDigits (cs.take 4) := by
  rw [isUnicodeDigits_take, isUnicodeDigits_take, takeWhile_inside]

/-- What the reader makes of a literal that was repaired. -/
def Reads (cs : List Char) : Prop :=
  ∀ units r, literally 0 cs = some (units, r) →
    parseUnits (repairLoop true 0 cs) = some (units, repairLoop false 0 r)
        ∧ truncated true 0 cs = truncated false 0 r
      ∨ parseUnits (repairLoop true 0 cs) = none ∧ truncated true 0 cs = true

/-- One character more in front of the rest of a literal. -/
theorem Reads.cons {cs rest : List Char} {unit : Nat} (h : Reads rest)
    (hliterally : literally 0 cs
      = (literally 0 rest).map fun p => (unit :: p.1, p.2))
    (hparse : parseUnits (repairLoop true 0 cs)
      = (parseUnits (repairLoop true 0 rest)).map
        fun p => (unit :: p.1, p.2))
    (htruncated : truncated true 0 cs = truncated true 0 rest) :
    Reads cs := by
  intro units r hread
  rw [hliterally, Option.map_eq_some_iff] at hread
  obtain ⟨⟨units', r'⟩, hrest, heq⟩ := hread
  cases heq
  rw [hparse, htruncated]
  rcases h _ _ hrest with ⟨hsome, hmark⟩ | ⟨hnone, hmark⟩
  · rw [hsome]
    exact .inl ⟨rfl, hmark⟩
  · rw [hnone]
    exact .inr ⟨rfl, hmark⟩

theorem reads : Reads cs := by
  refine (repair_induction (P := Reads) (Q := fun _ => True)
    ?_ ?_ ?_ ?_ ?_ ?_ ?_ ?_ ?_ trivial (fun _ _ => trivial)
    (fun _ _ _ _ => trivial) cs).1
  · intro units r hread
    cases hread
  · intro r _ units r' hread
    rw [literally_quote] at hread
    cases hread
    rw [inside_quote, truncated_quote]
    exact .inl ⟨rfl, rfl⟩
  · intro units r hread
    cases hread
  · intro a b c d unit r hhex ih
    apply ih.cons (literally_unicode hhex) _ (truncated_unicode hhex)
    rw [inside_unicode hhex, parseUnits_unicode hhex]
  · -- the escape is left as it is
    intro r hnone hdigits _ units r' _
    refine .inr ⟨?_, truncated_cut hnone⟩
    rw [inside_cut hdigits]
    apply parseUnits_escapeAt
    rcases escapeAt_u (repairLoop true 0 r) with
      ⟨a, b, c, d, t, unit, heq, hhex⟩ | ⟨hcut, -⟩
    · have hsome := hex4_isSome a b c d
      rw [hhex] at hsome
      rw [← isUnicodeDigits_inside, heq] at hdigits
      have hfalse : true = false := hsome.trans hdigits
      cases hfalse
    · exact hcut
  · intro e x r hsimple ih
    apply ih.cons (literally_simple hsimple) _ (truncated_simple hsimple)
    rw [inside_simple hsimple,
      parseUnits_simple _ (simpleEscape_ne hsimple) hsimple]
  · intro e r hu hnone ih
    apply ih.cons (literally_invalid hu hnone) _ (truncated_invalid hu hnone)
    rw [inside_invalid hu hnone]
    exact @parseUnits_simple '\\' '\\' _ (by decide) (by decide)
  · intro c r hcontrol ih
    obtain ⟨hquote, hbackslash⟩ := control_ne hcontrol
    apply ih.cons (literally_plain hquote hbackslash) _
      (truncated_plain hquote hbackslash)
    rw [inside_control hcontrol, parseUnits_escapeChar]
  · intro c r hquote hbackslash hcontrol ih
    apply ih.cons (literally_plain hquote hbackslash) _
      (truncated_plain hquote hbackslash)
    rw [inside_plain hquote hbackslash hcontrol,
      parseUnits_plain _ hquote hbackslash hcontrol]

-- ======== whole texts

/-- The reader of JSON follows the literal one over the repair. -/
theorem simulates_repair : Simulates (literally 0) parseUnits
    (repairLoop false 0) (repairLoop true 0) (truncated false 0)
    (truncated true 0) where
  outside_nil := by rw [repairLoop]
  outside_cons _ _ h := outside_cons h
  outside_quote _ := outside_quote
  marked_nil := by rw [truncated]
  marked_cons c r h := by rw [truncated, decide_eq_false h]
  marked_quote r := by
    rw [truncated]
    rfl
  literal r units r' h := reads r units r' h

theorem length_le_repairLoop :
    cs.length ≤ (repairLoop true 0 cs).length
      ∧ cs.length ≤ (repairLoop false 0 cs).length := by
  refine repair_induction
    (P := fun cs => cs.length ≤ (repairLoop true 0 cs).length)
    (Q := fun cs => cs.length ≤ (repairLoop false 0 cs).length)
    ?_ ?_ ?_ ?_ ?_ ?_ ?_ ?_ ?_ ?_ ?_ ?_ cs
  · exact Nat.zero_le _
  · intro r ih
    rw [inside_quote, List.length_cons, List.length_cons]
    omega
  · decide
  · intro a b c d unit r hhex ih
    rw [inside_unicode hhex]
    simp only [List.length_cons]
    omega
  · intro r _ hdigits ih
    rw [inside_cut hdigits]
    simp only [List.length_cons]
    omega
  · intro e x r hsimple ih
    rw [inside_simple hsimple]
    simp only [List.length_cons]
    omega
  · intro e r hu hnone ih
    rw [inside_invalid hu hnone]
    simp only [List.length_cons] at ih ⊢
    omega
  · intro c r hcontrol ih
    have hescape : 0 < (escapeChar c).length := by
      have hall : ∀ n < 32, 0 < (escapeChar (Char.ofNat n)).length := by
        decide
      have hn := hall c.toNat hcontrol
      rwa [Char.ofNat_toNat] at hn
    rw [inside_control hcontrol, List.length_append, List.length_cons]
    omega
  · intro c r hquote hbackslash hcontrol ih
    rw [inside_plain hquote hbackslash hcontrol, List.length_cons,
      List.length_cons]
    omega
  · exact Nat.zero_le _
  · intro r ih
    rw [outside_quote, List.length_cons, List.length_cons]
    omega
  · intro c r hquote ih
    rw [outside_cons hquote, List.length_cons, List.length_cons]
    omega

/-- A text that is valid when taken literally is repaired exactly if no
escape of it is truncated. -/
theorem parse_repairJson {json : List Char} {v : Json}
    (h : parseLiterally json = some v) :
    Json.parse (repairJson json) = some v ∧ truncated false 0 json = false
      ∨ Json.parse (repairJson json) = none
        ∧ truncated false 0 json = true := by
  rw [Json.parse_eq]
  exact simulates_repair.parseWith_simulated (length_le_repairLoop json).2 h

-- ======== valid texts

/-- In a literal that the reader accepts nothing is rewritten. -/
def Keeps (cs : List Char) : Prop :=
  ∀ units r, parseUnits cs = some (units, r) →
    (repairLoop true 0 cs = cs ↔ repairLoop false 0 r = r)

theorem Keeps.cons {rest : List Char} (word : List Char) {unit : Nat}
    (h : Keeps rest)
    (hparse : parseUnits (word ++ rest)
      = (parseUnits rest).map fun p => (unit :: p.1, p.2))
    (hinside : repairLoop true 0 (word ++ rest)
      = word ++ repairLoop true 0 rest) : Keeps (word ++ rest) := by
  intro units r hread
  rw [hparse, Option.map_eq_some_iff] at hread
  obtain ⟨⟨units', r'⟩, hrest, heq⟩ := hread
  cases heq
  rw [hinside, List.append_cancel_left_eq]
  exact h _ _ hrest

theorem keeps : Keeps cs := by
  refine (repair_induction (P := Keeps) (Q := fun _ => True)
    ?_ ?_ ?_ ?_ ?_ ?_ ?_ ?_ ?_ trivial (fun _ _ => trivial)
    (fun _ _ _ _ => trivial) cs).1
  · intro units r hread
    cases hread
  · intro r _ units r' hread
    rw [parseUnits] at hread
    cases hread
    rw [inside_quote, List.cons.injEq]
    exact ⟨fun h => h.2, fun h => ⟨rfl, h⟩⟩
  · intro units r hread
    cases hread
  · intro a b c d unit r hhex ih
    exact ih.cons ['\\', 'u', a, b, c, d]
      (parseUnits_unicode hhex r) (inside_unicode hhex)
  · intro r hnone _ _ units r' hread
    rw [parseUnits_escapeAt hnone] at hread
    cases hread
  · intro e x r hsimple ih
    exact ih.cons ['\\', e]
      (parseUnits_simple r (simpleEscape_ne hsimple) hsimple)
      (inside_simple hsimple)
  · intro e r hu hnone _ units r' hread
    have hescape : escapeAt (e :: r) = none := by
      rw [escapeAt_of_ne hu, hnone]
      rfl
    rw [parseUnits_escapeAt hescape] at hread
    cases hread
  · intro c r hcontrol _ units r' hread
    rw [parseUnits_control hcontrol] at hread
    cases hread
  · intro c r hquote hbackslash hcontrol ih
    exact ih.cons [c]
      (parseUnits_plain r hquote hbackslash hcontrol)
      (inside_plain hquote hbackslash hcontrol)

/-- A text is marked where the repair changes it. -/
theorem simulates_kept : Simulates parseUnits parseUnits id id
    (fun cs => decide (repairLoop false 0 cs ≠ cs))
    (fun cs => decide (repairLoop true 0 cs ≠ cs)) where
  outside_nil := rfl
  outside_cons _ _ _ := rfl
  outside_quote _ := rfl
  marked_nil := by
    rw [repairLoop]
    exact decide_eq_false fun h => h rfl
  marked_cons c r h := by
    rw [outside_cons h, decide_eq_decide, ne_eq, List.cons.injEq]
    simp only [true_and]
  marked_quote r := by
    rw [outside_quote, decide_eq_decide, ne_eq, List.cons.injEq]
    simp only [true_and]
  literal r units r' h := by
    refine .inl ⟨h, ?_⟩
    rw [decide_eq_decide, ne_eq, ne_eq, not_iff_not]
    exact keeps r units r' h

theorem repairJson_valid {json : List Char} {v : Json}
    (h : Json.parse json = some v) : repairJson json = json := by
  rw [Json.parse_eq] at h
  rcases simulates_kept.parseWith_simulated (Nat.le_refl _) h with
    ⟨-, hmarked⟩ | ⟨hnone, -⟩
  · by_contra hne
    exact of_decide_eq_false hmarked hne
  · rw [id, h] at hnone
    cases hnone

-- ======== repeated

/-- The escape of a control character is kept. -/
theorem inside_escapeChar {c : Char} (h : c.toNat < 32) (r : List Char) :
    repairLoop true 0 (escapeChar c ++ r)
      = escapeChar c ++ repairLoop true 0 r := by
  obtain ⟨hquote, hbackslash⟩ := control_ne h
  have hsimple : ∀ e x, simpleEscape e = some x →
      repairLoop true 0 (['\\', e] ++ r)
        = ['\\', e] ++ repairLoop true 0 r := fun _ _ hx => inside_simple hx
  rw [escapeChar, if_neg hquote, if_neg hbackslash]
  by_cases hn : c = '\n'
  · rw [if_pos hn]
    exact hsimple 'n' '\n' (by decide)
  · rw [if_neg hn]
    by_cases hr : c = '\r'
    · rw [if_pos hr]
      exact hsimple 'r' '\r' (by decide)
    · rw [if_neg hr]
      by_cases ht : c = '\t'
      · rw [if_pos ht]
        exact hsimple 't' '\t' (by decide)
      · rw [if_neg ht]
        by_cases hb : c = '\x08'
        · rw [if_pos hb]
          exact hsimple 'b' '\x08' (by decide)
        · rw [if_neg hb]
          by_cases hf : c = '\x0c'
          · rw [if_pos hf]
            exact hsimple 'f' '\x0c' (by decide)
          · rw [if_neg hf, if_pos h]
            exact inside_unicode (hex4_control h)

/-- The repair of a repaired text. -/
theorem repairLoop_repairLoop :
    repairLoop true 0 (repairLoop true 0 cs) = repairLoop true 0 cs
      ∧ repairLoop false 0 (repairLoop false 0 cs) = repairLoop false 0 cs := by
  refine repair_induction
    (P := fun cs => repairLoop true 0 (repairLoop true 0 cs)
      = repairLoop true 0 cs)
    (Q := fun cs => repairLoop false 0 (repairLoop false 0 cs)
      = repairLoop false 0 cs)
    ?_ ?_ ?_ ?_ ?_ ?_ ?_ ?_ ?_ ?_ ?_ ?_ cs
  · rfl
  · intro r ih
    rw [inside_quote, inside_quote, ih]
  · decide
  · intro a b c d unit r hhex ih
    rw [inside_unicode hhex, inside_unicode hhex, ih]
  · intro r _ hdigits ih
    rw [inside_cut hdigits, inside_cut, ih]
    rw [isUnicodeDigits_inside]
    exact hdigits
  · intro e x r hsimple ih
    rw [inside_simple hsimple, inside_simple hsimple, ih]
  · intro e r hu hnone ih
    rw [inside_invalid hu hnone, @inside_simple '\\' '\\' _ (by decide), ih]
  · intro c r hcontrol ih
    rw [inside_control hcontrol, inside_escapeChar hcontrol, ih]
  · intro c r hquote hbackslash hcontrol ih
    rw [inside_plain hquote hbackslash hcontrol,
      inside_plain hquote hbackslash hcontrol, ih]
  · rfl
  · intro r ih
    rw [outside_quote, outside_quote, ih]
  · intro c r hquote ih
    rw [outside_cons hquote, outside_cons hquote, ih]

theorem repairJson_repairJson (json : List Char) :
    repairJson (repairJson json) = repairJson json :=
  (repairLoop_repairLoop json).2

-- ======== the repairs

/-- The parse that repairs on failure reads a text as taken literally exactly
if no escape of it is truncated. -/
theorem parseJsonWithRepair_literally {json : List Char} {v : Json}
    (h : parseLiterally json = some v) :
    parseJsonWithRepair json = some v ↔ truncated false 0 json = false := by
  rw [parseJsonWithRepair]
  rcases parse_repairJson h with ⟨hparse, hmarked⟩ | ⟨hnone, hmarked⟩
  · rw [hmarked]
    refine ⟨fun _ => rfl, fun _ => ?_⟩
    cases hjson : Json.parse json with
    | some w =>
      rw [repairJson_valid hjson, hjson] at hparse
      exact hparse
    | none =>
      dsimp only
      rw [if_pos, hparse]
      intro heq
      rw [heq, hjson] at hparse
      cases hparse
  · rw [hmarked]
    refine ⟨fun hsome => ?_, fun hfalse => (nomatch hfalse)⟩
    cases hjson : Json.parse json with
    | some w =>
      rw [repairJson_valid hjson, hjson] at hnone
      cases hnone
    | none =>
      rw [hjson] at hsome
      dsimp only at hsome
      rw [hnone, ite_self] at hsome
      cases hsome

theorem newline_parsed :
    parseJsonWithRepair ['"', '\n', '"'] = some (.str "\n") :=
  (parseJsonWithRepair_literally rfl).2 rfl

/-- All is repaired exactly if the text, where it is valid when taken
literally, has no truncated escape. -/
theorem repairJson_iff (json : List Char) :
    Repairs json
      ↔ parseLiterally json = none ∨ truncated false 0 json = false := by
  constructor
  · intro h
    cases hliteral : parseLiterally json with
    | none => exact .inl rfl
    | some v =>
      rcases parse_repairJson hliteral with ⟨-, hmarked⟩ | ⟨hnone, -⟩
      · exact .inr hmarked
      · rw [h.literal v hliteral] at hnone
        cases hnone
  · intro h
    refine ⟨?_, fun _ => repairJson_valid, repairJson_repairJson json⟩
    intro v hliteral
    rcases h with hnone | hmarked
    · rw [hliteral] at hnone
      cases hnone
    · rcases parse_repairJson hliteral with ⟨hparse, -⟩ | ⟨-, hcut⟩
      · exact hparse
      · rw [hmarked] at hcut
        cases hcut

/-- A string with an escape of two digits. -/
def twoDigits : List Char := ['"', '\\', 'u', '1', '2', '"']

/-- Taken literally, it is the string with the backslash. -/
theorem parseLiterally_twoDigits :
    parseLiterally twoDigits = some (.str "\\u12") := by
  rfl

/-- It is not repaired. -/
theorem not_repairs_twoDigits : ¬ Repairs twoDigits := by
  intro h
  have hparse := h.literal _ parseLiterally_twoDigits
  have hnone : Json.parse (repairJson twoDigits) = none := by decide
  rw [hnone] at hparse
  cases hparse

end OneHarness.Ai
