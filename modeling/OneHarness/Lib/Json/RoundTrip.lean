/-
`parse (stringify v) = some v`, for every value.

The reader carries a step budget, so the statement the induction needs
is about any budget covering the value's `weight` and any continuation
that cannot extend a number (`Stops`); `weight_le` then pays for the
weight with the text's own length, which is the budget `parse` hands
out.
-/
import OneHarness.Lib.Json.Basic

namespace OneHarness.Lib.Json

-- ======== characters and units

/-- A continuation that cannot extend a number. -/
def Stops (rest : List Char) : Prop :=
  ∀ c r, rest = c :: r → isNumeralChar c = false

theorem Stops.nil : Stops [] := by
  intro c r h
  cases h

variable {c : Char} {r : List Char}

theorem Stops.cons (h : isNumeralChar c = false) : Stops (c :: r) := by
  intro c' r' h'
  cases h'
  exact h

theorem scalar_toNat (c : Char) : scalar c.toNat = c := by
  unfold scalar
  rw [if_pos (show c.toNat.isValidChar from c.valid), Char.ofNat_toNat]

theorem toNat_not_surrogate (c : Char) :
    ¬ (0xD800 ≤ c.toNat ∧ c.toNat < 0xE000) := by
  have h : c.toNat.isValidChar := c.valid
  unfold Nat.isValidChar at h
  omega

/-- Characters are their own code units: no pair of them is a surrogate
pair. -/
theorem joinUnits_toNat (cs : List Char) :
    joinUnits (cs.map Char.toNat) = cs := by
  induction cs with
  | nil => rfl
  | cons c cs ih =>
    cases cs with
    | nil => simp only [List.map_cons, List.map_nil, joinUnits, scalar_toNat]
    | cons d cs =>
      have hc := toNat_not_surrogate c
      simp only [List.map_cons] at ih ⊢
      rw [joinUnits, if_neg (by omega), scalar_toNat, ih]

theorem hexVal_hexDigit : ∀ n < 16, hexVal (hexDigit n) = some n := by
  decide

theorem hex4_control {n : Nat} (h : n < 32) :
    hex4 '0' '0' (hexDigit (n / 16)) (hexDigit (n % 16)) = some n := by
  have h0 : hexVal '0' = some 0 := by decide
  have h1 := hexVal_hexDigit (n / 16) (by omega)
  have h2 := hexVal_hexDigit (n % 16) (by omega)
  simp only [hex4, h0, h1, h2, Option.bind_eq_bind, Option.bind_some,
    Option.pure_def, Option.some.injEq]
  omega

theorem parseUnits_simple {e : Char} (rest : List Char) (hu : e ≠ 'u')
    (he : simpleEscape e = some c) :
    parseUnits ('\\' :: e :: rest)
      = (parseUnits rest).map fun p => (c.toNat :: p.1, p.2) := by
  rw [parseUnits.eq_4 _ _ (fun _ _ _ _ _ h _ => hu h), he]
  cases parseUnits rest <;> rfl

theorem parseUnits_plain (rest : List Char) (hq : c ≠ '"')
    (hb : c ≠ '\\') (hc : ¬ c.toNat < 32) :
    parseUnits (c :: rest)
      = (parseUnits rest).map fun p => (c.toNat :: p.1, p.2) := by
  rw [parseUnits.eq_5 _ _ hq (fun _ _ _ _ _ h => absurd h hb)
    (fun _ _ h => absurd h hb), if_neg (by simp [hb, hc])]
  cases parseUnits rest <;> rfl

/-- Reading one escaped character back gives its code unit. -/
theorem parseUnits_escapeChar (c : Char) (rest : List Char) :
    parseUnits (escapeChar c ++ rest)
      = (parseUnits rest).map fun p => (c.toNat :: p.1, p.2) := by
  unfold escapeChar
  split
  case isTrue h => subst h; exact parseUnits_simple rest (by decide) (by decide)
  case isFalse hq =>
  split
  case isTrue h => subst h; exact parseUnits_simple rest (by decide) (by decide)
  case isFalse hb =>
  split
  case isTrue h => subst h; exact parseUnits_simple rest (by decide) (by decide)
  case isFalse =>
  split
  case isTrue h => subst h; exact parseUnits_simple rest (by decide) (by decide)
  case isFalse =>
  split
  case isTrue h => subst h; exact parseUnits_simple rest (by decide) (by decide)
  case isFalse =>
  split
  case isTrue h => subst h; exact parseUnits_simple rest (by decide) (by decide)
  case isFalse =>
  split
  case isTrue h => subst h; exact parseUnits_simple rest (by decide) (by decide)
  case isFalse =>
  split
  case isTrue h =>
    rw [List.cons_append, List.cons_append, List.cons_append,
      List.cons_append, List.cons_append, List.cons_append,
      List.nil_append, parseUnits.eq_3, hex4_control h]
    cases parseUnits rest <;> rfl
  case isFalse hc => exact parseUnits_plain rest hq hb hc

theorem parseUnits_flatMap (cs rest : List Char) :
    parseUnits (cs.flatMap escapeChar ++ '"' :: rest)
      = some (cs.map Char.toNat, rest) := by
  induction cs with
  | nil => rfl
  | cons c cs ih =>
    rw [List.flatMap_cons, List.append_assoc, parseUnits_escapeChar, ih]
    rfl

/-- A string literal reads back. -/
theorem parseString_quote (s : String) (rest : List Char) :
    parseString (s.toList.flatMap escapeChar ++ '"' :: rest)
      = some (s, rest) := by
  unfold parseString
  rw [parseUnits_flatMap, Option.map_some, joinUnits_toNat,
    String.ofList_toList]

-- ======== numbers

theorem isNumeral_all {cs : List Char} (h : isNumeral cs = true) :
    ∀ c ∈ cs, isNumeralChar c = true := by
  simp only [isNumeral, Bool.and_eq_true, List.all_eq_true] at h
  exact h.1

theorem Numeral.exists_cons (n : Numeral) :
    ∃ c t, n.text = c :: t ∧ isNumeralChar c = true := by
  cases h : n.text with
  | nil =>
    have hv := n.valid
    rw [h] at hv
    exact absurd hv (by decide)
  | cons c t => exact ⟨c, t, rfl, isNumeral_all n.valid c (by simp [h])⟩

variable {rest : List Char}

theorem takeWhile_append_stop {p : Char → Bool} {cs : List Char}
    (hcs : ∀ c ∈ cs, p c = true)
    (hrest : ∀ c r, rest = c :: r → p c = false) :
    (cs ++ rest).takeWhile p = cs ∧ (cs ++ rest).dropWhile p = rest := by
  rw [List.takeWhile_append_of_pos hcs, List.dropWhile_append_of_pos hcs]
  cases rest with
  | nil => simp
  | cons c r => simp [hrest c r rfl]

/-- A number reads back when nothing after it could extend it. -/
theorem parseNumber_text (n : Numeral)
    (hrest : Stops rest) : parseNumber (n.text ++ rest) = some (n, rest) := by
  obtain ⟨ht, hd⟩ := takeWhile_append_stop (isNumeral_all n.valid) hrest
  unfold parseNumber
  simp only [ht, hd, n.valid, dite_true]

-- ======== heads and budgets

/-- The first character of a value's text: never whitespace, never a
closing bracket. -/
def IsHead (c : Char) : Prop :=
  isWs c = false ∧ c ≠ ']' ∧ c ≠ '}'

theorem isHead_of_numeralChar (h : isNumeralChar c = true) : IsHead c := by
  refine ⟨?_, ?_, ?_⟩
  · cases hw : isWs c with
    | false => rfl
    | true =>
      simp only [isWs, Bool.or_eq_true, beq_iff_eq] at hw
      rcases hw with ((rfl | rfl) | rfl) | rfl <;> exact absurd h (by decide)
  · rintro rfl
    exact absurd h (by decide)
  · rintro rfl
    exact absurd h (by decide)

theorem stringify_head (j : Json) : ∃ c t, stringify j = c :: t ∧ IsHead c := by
  cases j with
  | null => exact ⟨_, _, by rw [stringify], by unfold IsHead; decide⟩
  | bool b =>
    cases b
    · exact ⟨_, _, by rw [stringify], by unfold IsHead; decide⟩
    · exact ⟨_, _, by rw [stringify], by unfold IsHead; decide⟩
  | num n =>
    obtain ⟨c, t, ht, hc⟩ := Numeral.exists_cons n
    exact ⟨c, t, by rw [stringify, ht], isHead_of_numeralChar hc⟩
  | str s => exact ⟨_, _, by rw [stringify, quote], by unfold IsHead; decide⟩
  | arr xs => exact ⟨_, _, by rw [stringify], by unfold IsHead; decide⟩
  | obj ms => exact ⟨_, _, by rw [stringify], by unfold IsHead; decide⟩

theorem skipWs_cons (h : isWs c = false) : skipWs (c :: r) = c :: r := by
  simp [skipWs, h]

mutual

/-- Budget the reader needs for a value. -/
def weight : Json → Nat
  | .null => 1
  | .bool _ => 1
  | .num _ => 1
  | .str _ => 1
  | .arr xs => 1 + weightElems xs
  | .obj ms => 1 + weightMembers ms

/-- Budget the reader needs for an element list. -/
def weightElems : List Json → Nat
  | [] => 0
  | x :: xs => 1 + weight x + weightElems xs

/-- Budget the reader needs for a member list. -/
def weightMembers : List (String × Json) → Nat
  | [] => 0
  | (_, v) :: ms => 1 + weight v + weightMembers ms

end

/-- Induction over values, element lists and member lists at once. -/
theorem induct {P : Json → Prop} {PE : List Json → Prop}
    {PM : List (String × Json) → Prop}
    (null : P .null) (bool : ∀ b, P (.bool b)) (num : ∀ n, P (.num n))
    (str : ∀ s, P (.str s)) (arr : ∀ xs, PE xs → P (.arr xs))
    (obj : ∀ ms, PM ms → P (.obj ms)) (nilE : PE [])
    (consE : ∀ x xs, P x → PE xs → PE (x :: xs)) (nilM : PM [])
    (consM : ∀ k v ms, P v → PM ms → PM ((k, v) :: ms)) (j : Json) : P j :=
  @Json.rec P PE PM (fun p => P p.2) null bool num str arr obj nilE consE
    nilM (fun p ms hp hms => consM p.1 p.2 ms hp hms) (fun _ _ h => h) j

-- ======== the round trip

theorem parseValue_number (fuel : Nat) (h : isNumeralChar c = true) :
    parseValue (fuel + 1) (c :: r)
      = (parseNumber (c :: r)).map fun p => (.num p.1, p.2) := by
  simp only [parseValue, skipWs_cons (isHead_of_numeralChar h).1]
  split
  case h_7 => rfl
  all_goals
    rename_i heq
    cases heq
    exact absurd h (by decide)

theorem parseValue_arr (fuel : Nat) (h : IsHead c) :
    parseValue (fuel + 1) ('[' :: c :: r)
      = (parseElems fuel (c :: r)).map fun p => (.arr p.1, p.2) := by
  simp only [parseValue, skipWs_cons (show isWs '[' = false by decide),
    skipWs_cons h.1]
  split
  case h_1 heq =>
    cases heq
    exact absurd rfl h.2.1
  case h_2 => rfl

theorem parseValue_obj (fuel : Nat) (h : IsHead c) :
    parseValue (fuel + 1) ('{' :: c :: r)
      = (parseMembers fuel (c :: r)).map fun p => (.obj p.1, p.2) := by
  simp only [parseValue, skipWs_cons (show isWs '{' = false by decide),
    skipWs_cons h.1]
  split
  case h_1 heq =>
    cases heq
    exact absurd rfl h.2.2
  case h_2 => rfl

theorem stringifyElems_head (x : Json) (xs : List Json) (rest : List Char) :
    ∃ c t, stringifyElems (x :: xs) ++ rest = c :: t ∧ IsHead c := by
  obtain ⟨c, t, ht, hc⟩ := stringify_head x
  cases xs with
  | nil => exact ⟨c, t ++ rest, by rw [stringifyElems, ht]; rfl, hc⟩
  | cons y ys =>
    exact ⟨c, t ++ (',' :: stringifyElems (y :: ys)) ++ rest, by
      rw [stringifyElems, ht]; rfl, hc⟩

theorem stringifyMembers_head (p : String × Json)
    (ms : List (String × Json)) (rest : List Char) :
    ∃ c t, stringifyMembers (p :: ms) ++ rest = c :: t ∧ IsHead c := by
  cases ms with
  | nil =>
    exact ⟨'"', _, by rw [stringifyMembers, quote]; rfl,
      by unfold IsHead; decide⟩
  | cons q ms =>
    exact ⟨'"', _, by rw [stringifyMembers, quote]; rfl,
      by unfold IsHead; decide⟩

/-- One member at the head of a member list: key, colon and value read
back, leaving what follows the value. -/
theorem parseMembers_step {k : String} {v : Json} {fuel : Nat}
    (hv : parseValue fuel (stringify v ++ rest) = some (v, rest)) :
    parseMembers (fuel + 1) (quote k ++ ':' :: (stringify v ++ rest))
      = match skipWs rest with
        | '}' :: r' => some ([(k, v)], r')
        | ',' :: r' =>
          (parseMembers fuel r').map fun p => ((k, v) :: p.1, p.2)
        | _ => none := by
  have hq : quote k ++ ':' :: (stringify v ++ rest)
      = '"' :: (k.toList.flatMap escapeChar
          ++ '"' :: ':' :: (stringify v ++ rest)) := by
    rw [quote, List.cons_append, List.append_assoc]
    rfl
  rw [hq]
  simp only [parseMembers, skipWs_cons (show isWs '"' = false by decide),
    skipWs_cons (show isWs ':' = false by decide), parseString_quote, hv]
  all_goals rfl

/-- With budget for its weight, a value's text reads back as the value,
leaving the continuation untouched. The induction runs over values,
element lists and member lists at once; each level spends one unit of
budget. -/
theorem parseValue_stringify (j : Json) :
    ∀ n rest, weight j ≤ n → Stops rest →
      parseValue n (stringify j ++ rest) = some (j, rest) := by
  refine @induct
    (fun j => ∀ n rest, weight j ≤ n → Stops rest →
      parseValue n (stringify j ++ rest) = some (j, rest))
    (fun xs => xs ≠ [] → ∀ n rest, weightElems xs ≤ n →
      parseElems n (stringifyElems xs ++ ']' :: rest) = some (xs, rest))
    (fun ms => ms ≠ [] → ∀ n rest, weightMembers ms ≤ n →
      parseMembers n (stringifyMembers ms ++ '}' :: rest) = some (ms, rest))
    ?null ?bool ?num ?str ?arr ?obj ?nilE ?consE ?nilM ?consM j
  case null =>
    intro n rest hn _
    obtain ⟨m, rfl⟩ : ∃ m, n = m + 1 := ⟨n - 1, by simp [weight] at hn; omega⟩
    rfl
  case bool =>
    intro b n rest hn _
    obtain ⟨m, rfl⟩ : ∃ m, n = m + 1 := ⟨n - 1, by simp [weight] at hn; omega⟩
    cases b <;> rfl
  case num =>
    intro t n rest hn hrest
    obtain ⟨m, rfl⟩ : ∃ m, n = m + 1 := ⟨n - 1, by simp [weight] at hn; omega⟩
    obtain ⟨c, r, ht, hc⟩ := Numeral.exists_cons t
    have hparse := parseNumber_text t hrest
    rw [ht, List.cons_append] at hparse
    rw [stringify, ht, List.cons_append, parseValue_number m hc, hparse]
    rfl
  case str =>
    intro s n rest hn _
    obtain ⟨m, rfl⟩ : ∃ m, n = m + 1 := ⟨n - 1, by simp [weight] at hn; omega⟩
    rw [stringify, quote, List.cons_append, List.append_assoc]
    simp only [parseValue, skipWs_cons (show isWs '"' = false by decide),
      List.cons_append, List.nil_append, parseString_quote, Option.map_some]
  case arr =>
    intro xs ih n rest hn _
    obtain ⟨m, rfl⟩ : ∃ m, n = m + 1 := ⟨n - 1, by simp [weight] at hn; omega⟩
    cases xs with
    | nil => rfl
    | cons x xs =>
      have hparse := ih (List.cons_ne_nil _ _) m rest (by
        simp only [weight] at hn; omega)
      obtain ⟨c, t, ht, hc⟩ :=
        stringifyElems_head x xs (']' :: rest)
      rw [ht] at hparse
      rw [stringify, List.cons_append, List.append_assoc, List.cons_append,
        List.nil_append, ht, parseValue_arr m hc, hparse]
      rfl
  case obj =>
    intro ms ih n rest hn _
    obtain ⟨m, rfl⟩ : ∃ m, n = m + 1 := ⟨n - 1, by simp [weight] at hn; omega⟩
    cases ms with
    | nil => rfl
    | cons p ms =>
      have hparse := ih (List.cons_ne_nil _ _) m rest (by
        simp only [weight] at hn; omega)
      obtain ⟨c, t, ht, hc⟩ :=
        stringifyMembers_head p ms ('}' :: rest)
      rw [ht] at hparse
      rw [stringify, List.cons_append, List.append_assoc, List.cons_append,
        List.nil_append, ht, parseValue_obj m hc, hparse]
      rfl
  case nilE => exact fun h => absurd rfl h
  case nilM => exact fun h => absurd rfl h
  case consE =>
    intro x xs hx hxs _ n rest hn
    simp only [weightElems] at hn
    obtain ⟨m, rfl⟩ : ∃ m, n = m + 1 := ⟨n - 1, by omega⟩
    cases xs with
    | nil =>
      have hv := hx m (']' :: rest) (by omega) (.cons (by decide))
      simp only [stringifyElems, parseElems, hv,
        skipWs_cons (show isWs ']' = false by decide)]
    | cons y ys =>
      have hv := hx m (',' :: (stringifyElems (y :: ys) ++ ']' :: rest))
        (by omega) (.cons (by decide))
      have hr := hxs (List.cons_ne_nil _ _) m rest (by omega)
      rw [stringifyElems, List.append_assoc, List.cons_append]
      simp only [parseElems, hv,
        skipWs_cons (show isWs ',' = false by decide), hr, Option.map_some]
  case consM =>
    intro k v ms hv hms _ n rest hn
    simp only [weightMembers] at hn
    obtain ⟨m, rfl⟩ : ∃ m, n = m + 1 := ⟨n - 1, by omega⟩
    cases ms with
    | nil =>
      have hv' := hv m ('}' :: rest) (by omega) (.cons (by decide))
      rw [stringifyMembers, List.append_assoc, List.cons_append,
        parseMembers_step hv', skipWs_cons (show isWs '}' = false by decide)]
      rfl
    | cons q ms =>
      have hv' := hv m (',' :: (stringifyMembers (q :: ms) ++ '}' :: rest))
        (by omega) (.cons (by decide))
      have hr := hms (List.cons_ne_nil _ _) m rest (by omega)
      rw [stringifyMembers, List.append_assoc, List.cons_append,
        List.append_assoc, List.cons_append, parseMembers_step hv',
        skipWs_cons (show isWs ',' = false by decide)]
      simp only [hr, Option.map_some]

-- ======== the budget

theorem length_quote (s : String) : 2 ≤ (quote s).length := by
  simp [quote]

/-- A value's weight is paid for by its text. -/
theorem weight_le (j : Json) : weight j ≤ 2 * (stringify j).length := by
  refine @induct (fun j => weight j ≤ 2 * (stringify j).length)
    (fun xs => weightElems xs ≤ 2 * (stringifyElems xs).length + 1)
    (fun ms => weightMembers ms ≤ 2 * (stringifyMembers ms).length + 1)
    ?null ?bool ?num ?str ?arr ?obj ?nilE ?consE ?nilM ?consM j
  case null => decide
  case bool => intro b; cases b <;> decide
  case num =>
    intro n
    obtain ⟨c, t, ht, -⟩ := Numeral.exists_cons n
    simp only [weight, stringify, ht, List.length_cons]
    omega
  case str =>
    intro s
    have := length_quote s
    simp only [weight, stringify]
    omega
  case arr =>
    intro xs ih
    simp only [weight, stringify, List.length_cons, List.length_append,
      List.length_nil]
    omega
  case obj =>
    intro ms ih
    simp only [weight, stringify, List.length_cons, List.length_append,
      List.length_nil]
    omega
  case nilE => decide
  case nilM => decide
  case consE =>
    intro x xs hx hxs
    cases xs with
    | nil =>
      simp only [weightElems, stringifyElems]
      omega
    | cons y ys =>
      rw [weightElems, stringifyElems, List.length_append, List.length_cons]
      omega
  case consM =>
    intro k v ms hv hms
    have hk := length_quote k
    cases ms with
    | nil =>
      simp only [weightMembers, stringifyMembers, List.length_append,
        List.length_cons]
      omega
    | cons q ms =>
      rw [weightMembers, stringifyMembers]
      simp only [List.length_append, List.length_cons]
      omega

/-- The text of a value with anything that is not a number's
continuation after it: the value is read, the rest is left. -/
theorem parseValue_text (j : Json) (hrest : Stops rest)
    {n : Nat} (hn : 2 * (stringify j).length ≤ n) :
    parseValue n (stringify j ++ rest) = some (j, rest) :=
  parseValue_stringify j n rest (Nat.le_trans (weight_le j) hn) hrest

/-- `JSON.parse(JSON.stringify(value))` is the value. -/
theorem parse_stringify (j : Json) : parse (stringify j) = some j := by
  have h := parseValue_text j Stops.nil
    (n := 2 * (stringify j).length + 2) (by omega)
  rw [List.append_nil] at h
  simp [parse, h, skipWs]

/-- Anything but whitespace after a value's text is a syntax error. -/
theorem parse_trailing (j : Json) (hrest : Stops rest)
    (hws : skipWs rest ≠ []) : parse (stringify j ++ rest) = none := by
  have h := parseValue_text j hrest
    (n := 2 * (stringify j ++ rest).length + 2) (by
      rw [List.length_append]; omega)
  simp only [parse, h, if_neg hws]

end OneHarness.Lib.Json
