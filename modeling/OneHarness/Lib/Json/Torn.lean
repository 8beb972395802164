/-
Torn JSON: a record cut short is never a value.

A record that lost its tail must not be mistaken for a complete one.
The argument is a count of open brackets. `scan` walks a text tracking
whether it is inside a string literal and how many brackets are open;
every text the reader accepts brings the scan back to where it started
(`scan_of_parse`), while every proper nonempty prefix of an object's
text leaves a bracket open (`depth_prefix_obj`), whatever characters
without quotes, backslashes or brackets follow it (`Inert`: the zero
bytes of a filled block, the replacement characters of a cut one).

The file closes with the other thing a line-oriented store needs: a
value's text has no control character, so no line break and no zero.
-/
import Mathlib.Data.List.TakeWhile
import OneHarness.Lib.Json.RoundTrip
import OneHarness.Lib.Utf8

namespace OneHarness.Lib.Json

-- ======== the scan

/-- Where a scan stands: outside string literals, inside one, or right
after a backslash inside one; each with the number of open brackets. -/
inductive Scan where
  | out (depth : Nat)
  | str (depth : Nat)
  | esc (depth : Nat)
deriving DecidableEq

/-- The number of open brackets. -/
def Scan.depth : Scan → Nat
  | .out d => d
  | .str d => d
  | .esc d => d

/-- One character of the scan. -/
def Scan.step : Scan → Char → Scan
  | .out d, c =>
    if c = '"' then .str d
    else if c = '{' ∨ c = '[' then .out (d + 1)
    else if c = '}' ∨ c = ']' then .out (d - 1)
    else .out d
  | .str d, c =>
    if c = '"' then .out d else if c = '\\' then .esc d else .str d
  | .esc d, _ => .str d

/-- The scan over a text. -/
def scan (s : Scan) (cs : List Char) : Scan := cs.foldl Scan.step s

@[simp] theorem scan_cons (s : Scan) (c : Char) (cs : List Char) :
    scan s (c :: cs) = scan (s.step c) cs := rfl

@[simp] theorem scan_append (s : Scan) (cs ds : List Char) :
    scan s (cs ++ ds) = scan (scan s cs) ds := List.foldl_append ..

/-- A character the scan's bracket count and literal tracking ignore. -/
def Inert (c : Char) : Prop :=
  c ≠ '"' ∧ c ≠ '\\' ∧ c ≠ '{' ∧ c ≠ '}' ∧ c ≠ '[' ∧ c ≠ ']'

instance (c : Char) : Decidable (Inert c) := by
  unfold Inert
  infer_instance

variable {u : List Char}

/-- Whether all characters of a text meet a test is seen by computing. -/
theorem forall_mem_of_all {p : Char → Prop} [DecidablePred p]
    (h : u.all (fun c => decide (p c)) = true) : ∀ c ∈ u, p c :=
  fun c hc => of_decide_eq_true (List.all_eq_true.1 h c hc)

variable {c : Char}

theorem Inert.step_out (h : Inert c) (d : Nat) :
    (Scan.out d).step c = .out d := by
  obtain ⟨h1, -, h3, h4, h5, h6⟩ := h
  simp [Scan.step, h1, h3, h4, h5, h6]

theorem Inert.step_str (h : Inert c) (d : Nat) :
    (Scan.str d).step c = .str d := by
  obtain ⟨h1, h2, -⟩ := h
  simp [Scan.step, h1, h2]

variable {cs : List Char}

theorem scan_out_inert (h : ∀ c ∈ cs, Inert c) (d : Nat) :
    scan (.out d) cs = .out d := by
  induction cs with
  | nil => rfl
  | cons c cs ih =>
    rw [scan_cons, (h c List.mem_cons_self).step_out]
    exact ih fun x hx => h x (List.mem_cons_of_mem _ hx)

/-- Inert characters never close a bracket. -/
theorem depth_scan_inert (h : ∀ c ∈ cs, Inert c) :
    ∀ s : Scan, (scan s cs).depth = s.depth := by
  induction cs with
  | nil => exact fun _ => rfl
  | cons c cs ih =>
    intro s
    have hc := h c List.mem_cons_self
    have ih' := ih fun x hx => h x (List.mem_cons_of_mem _ hx)
    rw [scan_cons, ih']
    cases s with
    | out d => rw [hc.step_out]
    | str d => rw [hc.step_str]
    | esc d => rfl

theorem inert_of_ws (h : isWs c = true) : Inert c := by
  simp only [isWs, Bool.or_eq_true, beq_iff_eq] at h
  rcases h with ((rfl | rfl) | rfl) | rfl <;> decide

theorem inert_of_numeralChar (h : isNumeralChar c = true) : Inert c := by
  refine ⟨?_, ?_, ?_, ?_, ?_, ?_⟩ <;>
  · rintro rfl
    exact absurd h (by decide)

-- ======== accepted texts balance

/-- `r` is what is left of `cs` after a part the scan crosses from `s`
to `s'`. -/
def Consumes (s s' : Scan) (cs r : List Char) : Prop :=
  ∃ u, cs = u ++ r ∧ scan s u = s'

theorem Consumes.refl (s : Scan) (cs : List Char) : Consumes s s cs cs :=
  ⟨[], rfl, rfl⟩

variable {r : List Char}

theorem Consumes.trans {s s' s'' : Scan} {t : List Char}
    (h : Consumes s s' cs r) (h' : Consumes s' s'' r t) :
    Consumes s s'' cs t := by
  obtain ⟨u, rfl, rfl⟩ := h
  obtain ⟨v, rfl, rfl⟩ := h'
  exact ⟨u ++ v, (List.append_assoc ..).symm, scan_append ..⟩

theorem Consumes.cons {s s' s'' : Scan}
    (hc : s.step c = s') (h : Consumes s' s'' cs r) :
    Consumes s s'' (c :: cs) r := by
  obtain ⟨u, rfl, rfl⟩ := h
  exact ⟨c :: u, rfl, by rw [scan_cons, hc]⟩

theorem consumes_skipWs (d : Nat) (cs : List Char) :
    Consumes (.out d) (.out d) cs (skipWs cs) := by
  refine ⟨cs.takeWhile isWs, List.takeWhile_append_dropWhile.symm, ?_⟩
  exact scan_out_inert (fun c hc => inert_of_ws (List.mem_takeWhile_imp hc)) d

variable {n : Nat}

theorem inert_of_hexVal (h : hexVal c = some n) : Inert c := by
  have hsome : (hexVal c).isSome = true := by rw [h]; rfl
  refine ⟨?_, ?_, ?_, ?_, ?_, ?_⟩ <;>
  · rintro rfl
    exact absurd hsome (by decide)

theorem inert_of_hex4 {a b d : Char} (h : hex4 a b c d = some n) :
    Inert a ∧ Inert b ∧ Inert c ∧ Inert d := by
  simp only [hex4, Option.bind_eq_bind, Option.bind_eq_some_iff] at h
  obtain ⟨_, ha, _, hb, _, hc, _, hd, -⟩ := h
  exact ⟨inert_of_hexVal ha, inert_of_hexVal hb, inert_of_hexVal hc,
    inert_of_hexVal hd⟩

/-- Reading a literal to its closing quote leaves the scan outside it.
The induction is the reader's own; each arm is one escape or one plain
character. -/
theorem consumes_parseUnits (d : Nat) (cs : List Char) :
    ∀ us r, parseUnits cs = some (us, r) →
      Consumes (.str d) (.out d) cs r := by
  induction cs using parseUnits.induct with
  | case1 => intro us r h; simp [parseUnits] at h
  | case2 r =>
    intro us r' h
    simp only [parseUnits, Option.some.injEq, Prod.mk.injEq] at h
    obtain ⟨-, rfl⟩ := h
    exact .cons rfl (.refl _ _)
  | case3 a b c e r ih =>
    intro us r' h
    simp only [parseUnits, Option.bind_eq_bind, Option.bind_eq_some_iff,
      Option.pure_def, Option.some.injEq, Prod.mk.injEq] at h
    obtain ⟨u, hu, ⟨vs, t⟩, hp, -, rfl⟩ := h
    obtain ⟨ha, hb, hc, he⟩ := inert_of_hex4 hu
    exact .cons rfl (.cons rfl (.cons (ha.step_str d) (.cons (hb.step_str d)
      (.cons (hc.step_str d) (.cons (he.step_str d) (ih _ _ hp))))))
  | case4 e r hne ih =>
    intro us r' h
    rw [parseUnits.eq_4 _ _ hne] at h
    simp only [Option.bind_eq_bind, Option.bind_eq_some_iff,
      Option.pure_def, Option.some.injEq, Prod.mk.injEq] at h
    obtain ⟨c, -, ⟨vs, t⟩, hp, -, rfl⟩ := h
    exact .cons rfl (.cons rfl (ih _ _ hp))
  | case5 c r hq hu he hbad =>
    intro us r' h
    rw [parseUnits.eq_5 _ _ hq hu he, if_pos hbad] at h
    cases h
  | case6 c r hq hu he hok ih =>
    intro us r' h
    rw [parseUnits.eq_5 _ _ hq hu he, if_neg hok] at h
    simp only [Option.bind_eq_bind, Option.bind_eq_some_iff,
      Option.pure_def, Option.some.injEq, Prod.mk.injEq] at h
    obtain ⟨⟨vs, t⟩, hp, -, rfl⟩ := h
    have hb : c ≠ '\\' := fun hc => hok (Or.inl hc)
    have hstep : (Scan.str d).step c = .str d := by
      simp [Scan.step, show c ≠ '"' from hq, hb]
    exact .cons hstep (ih _ _ hp)

theorem consumes_parseString (d : Nat) {s : String}
    (h : parseString cs = some (s, r)) :
    Consumes (.str d) (.out d) cs r := by
  simp only [parseString, Option.map_eq_some_iff, Prod.mk.injEq] at h
  obtain ⟨⟨us, t⟩, hp, -, rfl⟩ := h
  exact consumes_parseUnits d cs us t hp

theorem consumes_parseNumber (d : Nat) {n : Numeral}
    (h : parseNumber cs = some (n, r)) :
    Consumes (.out d) (.out d) cs r := by
  simp only [parseNumber, Option.dite_none_right_eq_some, Option.some.injEq,
    Prod.mk.injEq] at h
  obtain ⟨-, -, rfl⟩ := h
  refine ⟨cs.takeWhile isNumeralChar, List.takeWhile_append_dropWhile.symm, ?_⟩
  exact scan_out_inert
    (fun c hc => inert_of_numeralChar (List.mem_takeWhile_imp hc)) d

/-- The reader's three loops at a budget each leave the scan where the
construct they finish leaves it: a value changes nothing, an element or
member list closes the bracket that was opened before it. -/
def Balances (fuel : Nat) : Prop :=
  (∀ cs v r d, parseValue fuel cs = some (v, r) →
    Consumes (.out d) (.out d) cs r)
  ∧ (∀ cs vs r d, parseElems fuel cs = some (vs, r) →
    Consumes (.out (d + 1)) (.out d) cs r)
  ∧ (∀ cs ms r d, parseMembers fuel cs = some (ms, r) →
    Consumes (.out (d + 1)) (.out d) cs r)

theorem balances_zero : Balances 0 := by
  refine ⟨fun cs v r d h => ?_, fun cs v r d h => ?_, fun cs v r d h => ?_⟩
  · cases h
  · cases h
  · cases h

variable {d : Nat}

/-- What follows an opening bracket is either its closing bracket or the
list the reader hands on. -/
theorem consumes_bracket
    (hskip : skipWs cs = c :: r) (hstep : (Scan.out (d + 1)).step c = .out d) :
    Consumes (.out (d + 1)) (.out d) cs r := by
  have hws := consumes_skipWs (d + 1) cs
  rw [hskip] at hws
  exact hws.trans (.cons hstep (.refl _ _))

theorem balances_value (ih : Balances n)
    {v : Json} (h : parseValue (n + 1) cs = some (v, r)) :
    Consumes (.out d) (.out d) cs r := by
  have hws := consumes_skipWs d cs
  simp only [parseValue] at h
  split at h
  case h_1 t heq =>
    rw [heq] at hws
    refine hws.trans (.cons rfl ?_)
    split at h
    case h_1 t' heq' =>
      simp only [Option.some.injEq, Prod.mk.injEq] at h
      exact h.2 ▸ consumes_bracket heq' rfl
    case h_2 =>
      simp only [Option.map_eq_some_iff, Prod.mk.injEq] at h
      obtain ⟨⟨ms, t'⟩, hp, -, rfl⟩ := h
      exact (consumes_skipWs _ _).trans (ih.2.2 _ _ _ _ hp)
  case h_2 t heq =>
    rw [heq] at hws
    refine hws.trans (.cons rfl ?_)
    split at h
    case h_1 t' heq' =>
      simp only [Option.some.injEq, Prod.mk.injEq] at h
      exact h.2 ▸ consumes_bracket heq' rfl
    case h_2 =>
      simp only [Option.map_eq_some_iff, Prod.mk.injEq] at h
      obtain ⟨⟨vs, t'⟩, hp, -, rfl⟩ := h
      exact (consumes_skipWs _ _).trans (ih.2.1 _ _ _ _ hp)
  case h_3 t heq =>
    rw [heq] at hws
    simp only [Option.map_eq_some_iff, Prod.mk.injEq] at h
    obtain ⟨⟨s, t'⟩, hp, -, rfl⟩ := h
    exact hws.trans (.cons rfl (consumes_parseString d hp))
  case h_4 t heq =>
    rw [heq] at hws
    simp only [Option.some.injEq, Prod.mk.injEq] at h
    exact h.2 ▸ hws.trans ⟨['n', 'u', 'l', 'l'], rfl, rfl⟩
  case h_5 t heq =>
    rw [heq] at hws
    simp only [Option.some.injEq, Prod.mk.injEq] at h
    exact h.2 ▸ hws.trans ⟨['t', 'r', 'u', 'e'], rfl, rfl⟩
  case h_6 t heq =>
    rw [heq] at hws
    simp only [Option.some.injEq, Prod.mk.injEq] at h
    exact h.2 ▸ hws.trans ⟨['f', 'a', 'l', 's', 'e'], rfl, rfl⟩
  case h_7 =>
    simp only [Option.map_eq_some_iff, Prod.mk.injEq] at h
    obtain ⟨⟨t, t'⟩, hp, -, rfl⟩ := h
    exact hws.trans (consumes_parseNumber d hp)

theorem balances_elems (ih : Balances n)
    {vs : List Json} (h : parseElems (n + 1) cs = some (vs, r)) :
    Consumes (.out (d + 1)) (.out d) cs r := by
  simp only [parseElems] at h
  split at h
  case h_1 => cases h
  case h_2 v t hv =>
    refine (ih.1 _ _ _ (d + 1) hv).trans ?_
    split at h
    case h_1 t' heq =>
      simp only [Option.some.injEq, Prod.mk.injEq] at h
      exact h.2 ▸ consumes_bracket heq rfl
    case h_2 t' heq =>
      simp only [Option.map_eq_some_iff, Prod.mk.injEq] at h
      obtain ⟨⟨ws, t''⟩, hp, -, rfl⟩ := h
      have hws := consumes_skipWs (d + 1) t
      rw [heq] at hws
      exact hws.trans (.cons rfl (ih.2.1 _ _ _ _ hp))
    case h_3 => cases h

variable {ms : List (String × Json)}

theorem balances_members (ih : Balances n)
    (h : parseMembers (n + 1) cs = some (ms, r)) :
    Consumes (.out (d + 1)) (.out d) cs r := by
  have hws := consumes_skipWs (d + 1) cs
  simp only [parseMembers] at h
  split at h
  case h_2 => cases h
  case h_1 t heq =>
  rw [heq] at hws
  refine hws.trans (.cons rfl ?_)
  split at h
  case h_1 => cases h
  case h_2 k t₁ hk =>
  refine (consumes_parseString (d + 1) hk).trans ?_
  have hws₁ := consumes_skipWs (d + 1) t₁
  split at h
  case h_2 => cases h
  case h_1 t₂ heq₁ =>
  rw [heq₁] at hws₁
  refine hws₁.trans (.cons rfl ?_)
  split at h
  case h_1 => cases h
  case h_2 v t₃ hv =>
  refine (ih.1 _ _ _ (d + 1) hv).trans ?_
  split at h
  case h_1 t₄ heq₂ =>
    simp only [Option.some.injEq, Prod.mk.injEq] at h
    exact h.2 ▸ consumes_bracket heq₂ rfl
  case h_2 t₄ heq₂ =>
    simp only [Option.map_eq_some_iff, Prod.mk.injEq] at h
    obtain ⟨⟨ws, t₅⟩, hp, -, rfl⟩ := h
    have hws₂ := consumes_skipWs (d + 1) t₃
    rw [heq₂] at hws₂
    exact hws₂.trans (.cons rfl (ih.2.2 _ _ _ _ hp))
  case h_3 => cases h

theorem balances (fuel : Nat) : Balances fuel := by
  induction fuel with
  | zero => exact balances_zero
  | succ n ih =>
    exact ⟨fun _ _ _ _ h => balances_value ih h,
      fun _ _ _ _ h => balances_elems ih h,
      fun _ _ _ _ h => balances_members ih h⟩

/-- An accepted text closes every bracket it opens. -/
theorem scan_of_parse {v : Json} (h : parse cs = some v) :
    scan (.out 0) cs = .out 0 := by
  unfold parse at h
  split at h
  case h_2 => cases h
  case h_1 v' r hv =>
    split at h
    case isFalse => cases h
    case isTrue hr =>
      obtain ⟨u, rfl, hu⟩ := (balances _).1 _ _ _ 0 hv
      obtain ⟨w, hw, hws⟩ := consumes_skipWs 0 r
      rw [hr, List.append_nil] at hw
      rw [scan_append, hu, hw, hws]

-- ======== written texts nest

/-- A text the scan crosses without ever going below its start. -/
def Nested (u : List Char) : Prop :=
  ∀ d, scan (.out d) u = .out d
    ∧ ∀ p, p <+: u → d ≤ (scan (.out d) p).depth

theorem Nested.nil : Nested [] := by
  intro d
  refine ⟨rfl, fun p hp => ?_⟩
  rw [List.prefix_nil.1 hp]
  exact Nat.le_refl d

/-- A prefix of an append stops in the first part or in the second. -/
theorem prefix_append_cases {α : Type*} {p u v : List α}
    (h : p <+: u ++ v) : p <+: u ∨ ∃ q, p = u ++ q ∧ q <+: v := by
  rcases List.prefix_or_prefix_of_prefix h (List.prefix_append u v) with h' | h'
  · exact Or.inl h'
  · obtain ⟨q, rfl⟩ := h'
    exact Or.inr ⟨q, rfl, (List.prefix_append_right_inj u).1 h⟩

variable {v : List Char}

theorem Nested.append (hu : Nested u) (hv : Nested v) : Nested (u ++ v) := by
  intro d
  refine ⟨by rw [scan_append, (hu d).1, (hv d).1], fun p hp => ?_⟩
  rcases prefix_append_cases hp with hp | ⟨q, rfl, hq⟩
  · exact (hu d).2 p hp
  · rw [scan_append, (hu d).1]
    exact (hv d).2 q hq

theorem Nested.inert (h : ∀ c ∈ u, Inert c) : Nested u := by
  intro d
  refine ⟨scan_out_inert h d, fun p hp => ?_⟩
  rw [scan_out_inert (fun c hc => h c (hp.subset hc)) d]
  exact Nat.le_refl d

/-- A text that stays inside the string literal it starts in. -/
def InLiteral (u : List Char) : Prop :=
  ∀ d, scan (.str d) u = .str d
    ∧ ∀ p, p <+: u → (scan (.str d) p).depth = d

theorem InLiteral.nil : InLiteral [] := by
  intro d
  refine ⟨rfl, fun p hp => ?_⟩
  rw [List.prefix_nil.1 hp]
  rfl

theorem InLiteral.append (hu : InLiteral u)
    (hv : InLiteral v) : InLiteral (u ++ v) := by
  intro d
  refine ⟨by rw [scan_append, (hu d).1, (hv d).1], fun p hp => ?_⟩
  rcases prefix_append_cases hp with hp | ⟨q, rfl, hq⟩
  · exact (hu d).2 p hp
  · rw [scan_append, (hu d).1]
    exact (hv d).2 q hq

theorem InLiteral.plain (hq : c ≠ '"') (hb : c ≠ '\\') : InLiteral [c] := by
  intro d
  have hstep : (Scan.str d).step c = .str d := by simp [Scan.step, hq, hb]
  refine ⟨hstep, fun p hp => ?_⟩
  cases p with
  | nil => rfl
  | cons x p =>
    obtain ⟨hx, hp'⟩ := List.cons_prefix_cons.1 hp
    rw [List.prefix_nil.1 hp', hx, scan_cons, hstep]
    rfl

/-- A backslash and the character it escapes. -/
theorem InLiteral.escaped (c : Char) : InLiteral ['\\', c] := by
  intro d
  refine ⟨rfl, fun p hp => ?_⟩
  cases p with
  | nil => rfl
  | cons x p =>
    obtain ⟨hx, hp'⟩ := List.cons_prefix_cons.1 hp
    rw [hx]
    cases p with
    | nil => rfl
    | cons y p =>
      obtain ⟨hy, hp''⟩ := List.cons_prefix_cons.1 hp'
      rw [List.prefix_nil.1 hp'', hy]
      rfl

theorem hexDigit_plain : ∀ n < 16, hexDigit n ≠ '"' ∧ hexDigit n ≠ '\\' := by
  decide

theorem inLiteral_escapeChar (c : Char) : InLiteral (escapeChar c) := by
  unfold escapeChar
  split
  case isTrue => exact .escaped _
  case isFalse hq =>
  split
  case isTrue => exact .escaped _
  case isFalse hb =>
  split
  case isTrue => exact .escaped _
  case isFalse =>
  split
  case isTrue => exact .escaped _
  case isFalse =>
  split
  case isTrue => exact .escaped _
  case isFalse =>
  split
  case isTrue => exact .escaped _
  case isFalse =>
  split
  case isTrue => exact .escaped _
  case isFalse =>
  split
  case isTrue h =>
    obtain ⟨h1, h2⟩ := hexDigit_plain (c.toNat / 16) (by omega)
    obtain ⟨h3, h4⟩ := hexDigit_plain (c.toNat % 16) (by omega)
    exact (InLiteral.escaped 'u').append
      ((InLiteral.plain (c := '0') (by decide) (by decide)).append
        ((InLiteral.plain (c := '0') (by decide) (by decide)).append
          ((InLiteral.plain h1 h2).append (.plain h3 h4))))
  case isFalse => exact .plain hq hb

theorem inLiteral_flatMap (cs : List Char) :
    InLiteral (cs.flatMap escapeChar) := by
  induction cs with
  | nil => exact .nil
  | cons c cs ih => exact (inLiteral_escapeChar c).append ih

theorem nested_quote (s : String) : Nested (quote s) := by
  intro d
  have hbody := inLiteral_flatMap s.toList d
  have hopen : (Scan.out d).step '"' = .str d := rfl
  refine ⟨by rw [quote, scan_cons, hopen, scan_append, hbody.1]; rfl,
    fun p hp => ?_⟩
  rw [quote] at hp
  cases p with
  | nil => exact Nat.le_refl d
  | cons x p =>
    obtain ⟨hx, hp'⟩ := List.cons_prefix_cons.1 hp
    rw [hx, scan_cons, hopen]
    rcases prefix_append_cases hp' with hp' | ⟨q, rfl, hq⟩
    · exact (hbody.2 p hp').ge
    · rw [scan_append, hbody.1]
      cases q with
      | nil => exact Nat.le_refl d
      | cons y q =>
        obtain ⟨hy, hq'⟩ := List.cons_prefix_cons.1 hq
        rw [List.prefix_nil.1 hq', hy]
        exact Nat.le_refl d

variable {p : List Char}

/-- Inside a bracket pair the depth is one more than outside. -/
theorem depth_prefix_bracket {o : Char} (hu : Nested u)
    (hopen : ∀ d, (Scan.out d).step o = .out (d + 1))
    (hp : p <+: o :: (u ++ [c])) (hne : p ≠ []) (hstrict : p ≠ o :: (u ++ [c]))
    (d : Nat) : d + 1 ≤ (scan (.out d) p).depth := by
  cases p with
  | nil => exact absurd rfl hne
  | cons x p =>
    obtain ⟨hx, hp'⟩ := List.cons_prefix_cons.1 hp
    rw [hx, scan_cons, hopen]
    rcases prefix_append_cases hp' with hp' | ⟨q, rfl, hq⟩
    · exact (hu (d + 1)).2 p hp'
    · cases q with
      | nil => rw [List.append_nil, (hu (d + 1)).1]; exact Nat.le_refl _
      | cons y q =>
        obtain ⟨hy, hq'⟩ := List.cons_prefix_cons.1 hq
        rw [List.prefix_nil.1 hq', hx, hy] at hstrict
        exact absurd rfl hstrict

theorem Nested.bracket {o : Char} (hu : Nested u)
    (hopen : ∀ d, (Scan.out d).step o = .out (d + 1))
    (hclose : ∀ d, (Scan.out (d + 1)).step c = .out d) :
    Nested (o :: (u ++ [c])) := by
  intro d
  have hall : scan (.out d) (o :: (u ++ [c])) = .out d := by
    rw [scan_cons, hopen, scan_append, (hu (d + 1)).1, scan_cons, hclose]
    rfl
  refine ⟨hall, fun p hp => ?_⟩
  by_cases hne : p = []
  · rw [hne]
    exact Nat.le_refl d
  · by_cases hstrict : p = o :: (u ++ [c])
    · rw [hstrict, hall]
      exact Nat.le_refl d
    · have := depth_prefix_bracket hu hopen hp hne hstrict d
      omega

theorem nested_elems_cons {x : Json} {xs : List Json}
    (hx : Nested (stringify x)) (hxs : Nested (stringifyElems xs)) :
    Nested (stringifyElems (x :: xs)) := by
  cases xs with
  | nil => exact hx
  | cons y ys =>
    exact hx.append ((Nested.inert (u := [',']) (forall_mem_of_all rfl)).append hxs)

theorem nested_members_cons {k : String} {v : Json}
    (hv : Nested (stringify v))
    (hms : Nested (stringifyMembers ms)) :
    Nested (stringifyMembers ((k, v) :: ms)) := by
  have hcolon : Nested [':'] := .inert (forall_mem_of_all rfl)
  cases ms with
  | nil => exact (nested_quote k).append (hcolon.append hv)
  | cons q ms =>
    exact (nested_quote k).append (hcolon.append (hv.append
      ((Nested.inert (u := [',']) (forall_mem_of_all rfl)).append hms)))

theorem nested_stringify (j : Json) : Nested (stringify j) := by
  refine @induct (fun j => Nested (stringify j))
    (fun xs => Nested (stringifyElems xs))
    (fun ms => Nested (stringifyMembers ms))
    ?null ?bool ?num ?str ?arr ?obj ?nilE ?consE ?nilM ?consM j
  case null => exact .inert (forall_mem_of_all rfl)
  case bool => intro b; cases b <;> exact .inert (forall_mem_of_all rfl)
  case num =>
    intro n
    exact .inert fun c hc => inert_of_numeralChar (isNumeral_all n.valid c hc)
  case str => exact nested_quote
  case arr => exact fun xs ih => ih.bracket (fun _ => rfl) (fun _ => rfl)
  case obj => exact fun ms ih => ih.bracket (fun _ => rfl) (fun _ => rfl)
  case nilE => exact .nil
  case nilM => exact .nil
  case consE => exact fun _ _ hx hxs => nested_elems_cons hx hxs
  case consM => exact fun _ _ _ hv hms => nested_members_cons hv hms

theorem nested_stringifyMembers (ms : List (String × Json)) :
    Nested (stringifyMembers ms) := by
  induction ms with
  | nil => exact .nil
  | cons p ms ih => exact nested_members_cons (nested_stringify p.2) ih

-- ======== torn records

/-- A proper nonempty prefix of an object's text leaves its bracket
open. -/
theorem depth_prefix_obj (hp : p <+: stringify (.obj ms)) (hne : p ≠ [])
    (hstrict : p ≠ stringify (.obj ms)) : 1 ≤ (scan (.out 0) p).depth :=
  depth_prefix_bracket (nested_stringifyMembers ms) (fun _ => rfl) hp hne
    hstrict 0

/-- An object's text cut short, whatever inert characters follow it, is
not a JSON text. -/
theorem parse_torn_obj {g : List Char}
    (hp : p <+: stringify (.obj ms)) (hne : p ≠ [])
    (hstrict : p ≠ stringify (.obj ms)) (hg : ∀ c ∈ g, Inert c) :
    parse (p ++ g) = none := by
  cases h : parse (p ++ g) with
  | none => rfl
  | some v =>
    have hscan := scan_of_parse h
    have hdepth := depth_prefix_obj hp hne hstrict
    rw [← depth_scan_inert hg, ← scan_append, hscan] at hdepth
    exact absurd hdepth (by decide)

/-- The bytes of an object's text cut short, read back as text, are not a
JSON text. -/
theorem parse_decode_torn {torn : List UInt8}
    (htorn : torn <+: Utf8.encode (stringify (.obj ms)))
    (hpart : torn ≠ Utf8.encode (stringify (.obj ms))) :
    parse (Utf8.decode torn) = none := by
  obtain ⟨n, m, hdecode, hcut⟩ := Utf8.decode_prefix htorn
  have hlt : m < (stringify (.obj ms)).length := by
    rcases hcut with ⟨heq, -⟩ | hlt
    · by_contra hle
      rw [List.take_of_length_le (by omega)] at heq
      exact hpart heq
    · exact hlt
  cases torn with
  | nil =>
    rw [Utf8.decode_nil]
    rfl
  | cons b torn =>
    have hm : m ≠ 0 := by
      rintro rfl
      -- the first byte is the brace
      rw [stringify, Utf8.encode_cons] at htorn
      obtain rfl := (List.cons_prefix_cons.1 htorn).1
      rw [Utf8.decode_ascii (by decide), List.take_zero, List.nil_append]
        at hdecode
      cases n with
      | zero => cases hdecode
      | succ n =>
        rw [List.replicate_succ, List.cons.injEq] at hdecode
        exact absurd hdecode.1 (by decide)
    rw [hdecode]
    apply parse_torn_obj (List.take_prefix m _)
    · intro hnil
      rcases List.take_eq_nil_iff.1 hnil with hzero | hnil
      · exact hm hzero
      · rw [hnil] at hlt
        exact absurd hlt (Nat.not_lt_zero m)
    · intro heq
      have hlength := congrArg List.length heq
      rw [List.length_take] at hlength
      omega
    · intro c hc
      rw [List.eq_of_mem_replicate hc]
      decide

-- ======== control characters

/-- No character below the space. -/
def Printable (cs : List Char) : Prop := ∀ c ∈ cs, 32 ≤ c.toNat

theorem Printable.append (hu : Printable u)
    (hv : Printable v) : Printable (u ++ v) := by
  intro c hc
  rcases List.mem_append.1 hc with hc | hc
  · exact hu c hc
  · exact hv c hc

theorem Printable.cons (hc : 32 ≤ c.toNat)
    (hv : Printable v) : Printable (c :: v) := by
  intro x hx
  rcases List.mem_cons.1 hx with rfl | hx
  · exact hc
  · exact hv x hx

theorem hexDigit_printable : ∀ n < 16, 32 ≤ (hexDigit n).toNat := by
  decide

theorem printable_escapeChar (c : Char) : Printable (escapeChar c) := by
  have hesc : ∀ e : Char, 32 ≤ e.toNat → Printable ['\\', e] := fun e he =>
    .cons (by decide) (.cons he fun _ h => absurd h List.not_mem_nil)
  unfold escapeChar
  split
  case isTrue => exact hesc _ (by decide)
  case isFalse =>
  split
  case isTrue => exact hesc _ (by decide)
  case isFalse =>
  split
  case isTrue => exact hesc _ (by decide)
  case isFalse =>
  split
  case isTrue => exact hesc _ (by decide)
  case isFalse =>
  split
  case isTrue => exact hesc _ (by decide)
  case isFalse =>
  split
  case isTrue => exact hesc _ (by decide)
  case isFalse =>
  split
  case isTrue => exact hesc _ (by decide)
  case isFalse =>
  split
  case isTrue h =>
    have h1 := hexDigit_printable (c.toNat / 16) (by omega)
    have h2 := hexDigit_printable (c.toNat % 16) (by omega)
    exact (hesc 'u' (by decide)).append (.cons (by decide)
      (.cons (by decide) (.cons h1 (.cons h2
        fun _ h => absurd h List.not_mem_nil))))
  case isFalse h =>
    exact .cons (by omega) fun _ h => absurd h List.not_mem_nil

theorem printable_quote (s : String) : Printable (quote s) := by
  refine .cons (by decide) (Printable.append ?_ (forall_mem_of_all rfl))
  intro c hc
  obtain ⟨x, -, hx⟩ := List.mem_flatMap.1 hc
  exact printable_escapeChar x c hx

theorem numeralChar_printable (h : isNumeralChar c = true) : 32 ≤ c.toNat := by
  simp only [isNumeralChar, Bool.or_eq_true, beq_iff_eq] at h
  rcases h with ((((h | rfl) | rfl) | rfl) | rfl) | rfl
  · simp only [Char.isDigit, Bool.and_eq_true, decide_eq_true_eq] at h
    have := UInt32.le_iff_toNat_le.1 h.1
    exact Nat.le_trans (by decide) this
  all_goals decide

/-- A value's text has no control character. -/
theorem printable_stringify (j : Json) : Printable (stringify j) := by
  refine @induct (fun j => Printable (stringify j))
    (fun xs => Printable (stringifyElems xs))
    (fun ms => Printable (stringifyMembers ms))
    ?null ?bool ?num ?str ?arr ?obj ?nilE ?consE ?nilM ?consM j
  case null => exact forall_mem_of_all rfl
  case bool => intro b; cases b <;> exact forall_mem_of_all rfl
  case num =>
    exact fun n c hc => numeralChar_printable (isNumeral_all n.valid c hc)
  case str => exact printable_quote
  case arr =>
    exact fun xs ih => .cons (by decide)
      (ih.append (forall_mem_of_all rfl))
  case obj =>
    exact fun ms ih => .cons (by decide)
      (ih.append (forall_mem_of_all rfl))
  case nilE => exact fun _ h => absurd h List.not_mem_nil
  case nilM => exact fun _ h => absurd h List.not_mem_nil
  case consE =>
    intro x xs hx hxs
    cases xs with
    | nil => exact hx
    | cons y ys => exact hx.append (.cons (by decide) hxs)
  case consM =>
    intro k v ms hv hms
    cases ms with
    | nil => exact (printable_quote k).append (.cons (by decide) hv)
    | cons q ms =>
      exact (printable_quote k).append
        (.cons (by decide) (hv.append (.cons (by decide) hms)))

end OneHarness.Lib.Json
