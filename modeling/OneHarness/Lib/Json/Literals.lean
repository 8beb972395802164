/-
JSON with string literals read in another way.

`parseWith literal` is the reader of JSON with `literal` in place of its own
reader of string literals; with that one it is `parse` (`parse_eq`).

# A text and its rewriting

Let a text be rewritten so that nothing changes outside its string literals.
`Simulates` says what is to be shown of a single literal: what one reader
makes of it, the other makes of its rewriting, or else reads nothing there,
and the text is marked. It follows for whole texts (`parseWith_simulated`):
of a text that one reader accepts, the other accepts the rewriting, with the
same value, unless the text is marked.
-/
import OneHarness.Lib.Json.RoundTrip

namespace OneHarness.Lib.Json

/-- Reads the rest of a string literal: its code units, and what follows the
closing quote. -/
abbrev Literals := List Char → Option (List Nat × List Char)

-- ======== the reader

/-- What follows a character, if it is next but for whitespace. -/
def expect (c : Char) (cs : List Char) : Option (List Char) :=
  match skipWs cs with
  | [] => none
  | d :: r => if d = c then some r else none

/-- A value that is neither a string nor has parts. -/
def parseScalar : List Char → Option (Json × List Char)
  | 'n' :: 'u' :: 'l' :: 'l' :: r => some (.null, r)
  | 't' :: 'r' :: 'u' :: 'e' :: r => some (.bool true, r)
  | 'f' :: 'a' :: 'l' :: 's' :: 'e' :: r => some (.bool false, r)
  | r => (parseNumber r).map fun p => (.num p.1, p.2)

/-- The text of a literal. -/
def ofUnits (units : List Nat) : String := String.ofList (joinUnits units)

section
variable (literal : Literals)

mutual

def valueWith : Nat → List Char → Option (Json × List Char)
  | 0, _ => none
  | fuel + 1, cs =>
    match expect '{' cs with
    | some r =>
      match expect '}' r with
      | some r' => some (.obj [], r')
      | none => (membersWith fuel (skipWs r)).map fun p => (.obj p.1, p.2)
    | none =>
      match expect '[' cs with
      | some r =>
        match expect ']' r with
        | some r' => some (.arr [], r')
        | none => (elemsWith fuel (skipWs r)).map fun p => (.arr p.1, p.2)
      | none =>
        match expect '"' cs with
        | some r => (literal r).map fun p => (.str (ofUnits p.1), p.2)
        | none => parseScalar (skipWs cs)

def elemsWith : Nat → List Char → Option (List Json × List Char)
  | 0, _ => none
  | fuel + 1, cs =>
    match valueWith fuel cs with
    | none => none
    | some (v, r) =>
      match expect ']' r with
      | some r' => some ([v], r')
      | none =>
        match expect ',' r with
        | some r' => (elemsWith fuel r').map fun p => (v :: p.1, p.2)
        | none => none

def membersWith : Nat → List Char → Option (List (String × Json) × List Char)
  | 0, _ => none
  | fuel + 1, cs =>
    match (expect '"' cs).bind literal with
    | none => none
    | some (units, r) =>
      match (expect ':' r).bind (valueWith fuel) with
      | none => none
      | some (v, r) =>
        match expect '}' r with
        | some r' => some ([(ofUnits units, v)], r')
        | none =>
          match expect ',' r with
          | some r' =>
            (membersWith fuel r').map
              fun p => ((ofUnits units, v) :: p.1, p.2)
          | none => none

end

def parseWith (cs : List Char) : Option Json :=
  match valueWith literal (2 * cs.length + 2) cs with
  | some (v, r) => if skipWs r = [] then some v else none
  | none => none

end

-- ======== one step of it

section
variable {literal : Literals} {n : Nat} {cs r r' : List Char}

attribute [local simp] valueWith elemsWith membersWith

theorem valueWith_empty_obj (h : expect '{' cs = some r)
    (hr : expect '}' r = some r') :
    valueWith literal (n + 1) cs = some (.obj [], r') := by
  rw [valueWith, h]
  dsimp only
  rw [hr]

theorem valueWith_obj (h : expect '{' cs = some r) (hr : expect '}' r = none) :
    valueWith literal (n + 1) cs
      = (membersWith literal n (skipWs r)).map fun p => (.obj p.1, p.2) := by
  rw [valueWith, h]
  dsimp only
  rw [hr]

section
variable (hobj : expect '{' cs = none)
include hobj

theorem valueWith_empty_arr
    (h : expect '[' cs = some r) (hr : expect ']' r = some r') :
    valueWith literal (n + 1) cs = some (.arr [], r') := by
  rw [valueWith, hobj, h]
  dsimp only
  rw [hr]

theorem valueWith_arr (h : expect '[' cs = some r) (hr : expect ']' r = none) :
    valueWith literal (n + 1) cs
      = (elemsWith literal n (skipWs r)).map fun p => (.arr p.1, p.2) := by
  rw [valueWith, hobj, h]
  dsimp only
  rw [hr]

theorem valueWith_str
    (harr : expect '[' cs = none) (h : expect '"' cs = some r) :
    valueWith literal (n + 1) cs
      = (literal r).map fun p => (.str (ofUnits p.1), p.2) := by
  rw [valueWith, hobj, harr, h]

theorem valueWith_scalar
    (harr : expect '[' cs = none) (hstr : expect '"' cs = none) :
    valueWith literal (n + 1) cs = parseScalar (skipWs cs) := by
  rw [valueWith, hobj, harr, hstr]

end

end

-- ======== the usual literals

variable {c : Char}

theorem expect_eq_some {cs r : List Char} :
    expect c cs = some r ↔ skipWs cs = c :: r := by
  rw [expect]
  cases skipWs cs with
  | nil => exact ⟨fun h => (nomatch h), fun h => (nomatch h)⟩
  | cons d t =>
    dsimp only
    by_cases hd : d = c
    · rw [if_pos hd, hd, Option.some.injEq, List.cons.injEq]
      exact ⟨fun h => ⟨rfl, h⟩, fun h => h.2⟩
    · rw [if_neg hd, List.cons.injEq]
      exact ⟨fun h => (nomatch h), fun h => absurd h.1 hd⟩

theorem expect_eq_none {cs : List Char} :
    expect c cs = none ↔ ∀ r, skipWs cs ≠ c :: r := by
  constructor
  · intro h r hr
    rw [expect_eq_some.2 hr] at h
    cases h
  · intro h
    cases hexpect : expect c cs with
    | none => rfl
    | some r => exact absurd (expect_eq_some.1 hexpect) (h r)

/-- With the reader's own literals. -/
def Usual (fuel : Nat) : Prop :=
  (∀ cs, valueWith parseUnits fuel cs = parseValue fuel cs)
  ∧ (∀ cs, elemsWith parseUnits fuel cs = parseElems fuel cs)
  ∧ (∀ cs, membersWith parseUnits fuel cs = parseMembers fuel cs)

/-- The reader's cases are split as it makes them. -/
theorem usual_value {n : Nat} (ih : Usual n) (cs : List Char) :
    valueWith parseUnits (n + 1) cs = parseValue (n + 1) cs := by
  rw [parseValue]
  split
  case h_1 r h =>
    have hobj := expect_eq_some.2 h
    split
    case h_1 r' hr =>
      exact valueWith_empty_obj hobj (expect_eq_some.2 hr)
    case h_2 hne =>
      rw [valueWith_obj hobj (expect_eq_none.2 hne), ih.2.2]
  case h_2 r h =>
    have hobj : expect '{' cs = none := by
      rw [expect, h]
      rfl
    have harr := expect_eq_some.2 h
    split
    case h_1 r' hr =>
      exact valueWith_empty_arr hobj harr (expect_eq_some.2 hr)
    case h_2 hne =>
      rw [valueWith_arr hobj harr (expect_eq_none.2 hne), ih.2.1]
  case h_3 r h =>
    have hobj : expect '{' cs = none := by
      rw [expect, h]
      rfl
    have harr : expect '[' cs = none := by
      rw [expect, h]
      rfl
    rw [valueWith_str hobj harr (expect_eq_some.2 h), parseString,
      Option.map_map]
    rfl
  case h_4 r h =>
    rw [valueWith, expect, expect, expect, h]
    rfl
  case h_5 r h =>
    rw [valueWith, expect, expect, expect, h]
    rfl
  case h_6 r h =>
    rw [valueWith, expect, expect, expect, h]
    rfl
  case h_7 hobj harr hstr hnull htrue hfalse =>
    rw [valueWith_scalar (expect_eq_none.2 hobj) (expect_eq_none.2 harr)
      (expect_eq_none.2 hstr), parseScalar]
    · exact hnull
    · exact htrue
    · exact hfalse

theorem usual_elems {n : Nat} (ih : Usual n) (cs : List Char) :
    elemsWith parseUnits (n + 1) cs = parseElems (n + 1) cs := by
  rw [elemsWith, parseElems, ih.1]
  cases parseValue n cs with
  | none => rfl
  | some p =>
    obtain ⟨v, r⟩ := p
    dsimp only
    cases hclose : expect ']' r with
    | some r' =>
      rw [expect_eq_some.1 hclose]
      rfl
    | none =>
      cases hcomma : expect ',' r with
      | some r' =>
        dsimp only
        rw [expect_eq_some.1 hcomma, ih.2.1]
        rfl
      | none =>
        dsimp only
        split
        case h_1 r' h => exact absurd h (expect_eq_none.1 hclose r')
        case h_2 r' h => exact absurd h (expect_eq_none.1 hcomma r')
        case h_3 => rfl

theorem usual_members {n : Nat} (ih : Usual n) (cs : List Char) :
    membersWith parseUnits (n + 1) cs = parseMembers (n + 1) cs := by
  rw [membersWith, parseMembers]
  cases hquote : expect '"' cs with
  | none =>
    rw [Option.bind_none]
    dsimp only
    split
    case h_1 r h => exact absurd h (expect_eq_none.1 hquote r)
    case h_2 => rfl
  | some r =>
    simp only [expect_eq_some.1 hquote, Option.bind_some, parseString]
    cases parseUnits r with
    | none => rfl
    | some p =>
      obtain ⟨units, r⟩ := p
      rw [Option.map_some]
      dsimp only
      cases hcolon : expect ':' r with
      | none =>
        rw [Option.bind_none]
        dsimp only
        split
        case h_1 r' h => exact absurd h (expect_eq_none.1 hcolon r')
        case h_2 => rfl
      | some r =>
        simp only [expect_eq_some.1 hcolon, Option.bind_some, ih.1]
        cases parseValue n r with
        | none => rfl
        | some p =>
          obtain ⟨v, r⟩ := p
          dsimp only
          cases hclose : expect '}' r with
          | some r' =>
            rw [expect_eq_some.1 hclose]
            rfl
          | none =>
            cases hcomma : expect ',' r with
            | some r' =>
              dsimp only
              rw [expect_eq_some.1 hcomma, ih.2.2]
              rfl
            | none =>
              dsimp only
              split
              case h_1 r' h =>
                exact absurd h (expect_eq_none.1 hclose r')
              case h_2 r' h =>
                exact absurd h (expect_eq_none.1 hcomma r')
              case h_3 => rfl

theorem usual (fuel : Nat) : Usual fuel := by
  induction fuel with
  | zero => exact ⟨fun _ => rfl, fun _ => rfl, fun _ => rfl⟩
  | succ n ih => exact ⟨usual_value ih, usual_elems ih, usual_members ih⟩

theorem parse_eq (cs : List Char) : parse cs = parseWith parseUnits cs := by
  have hread := (usual (2 * cs.length + 2)).1 cs
  cases hvalue : parseValue (2 * cs.length + 2) cs with
  | none => simp only [parse, parseWith, hread, hvalue]
  | some p => simp only [parse, parseWith, hread, hvalue]

-- ======== more fuel

variable {vs : List Json} {ms : List (String × Json)}

section
variable {literal : Literals}

/-- More fuel reads the same. -/
def Steady (literal : Literals) (fuel : Nat) : Prop :=
  (∀ cs p, valueWith literal fuel cs = some p →
    valueWith literal (fuel + 1) cs = some p)
  ∧ (∀ cs p, elemsWith literal fuel cs = some p →
    elemsWith literal (fuel + 1) cs = some p)
  ∧ (∀ cs p, membersWith literal fuel cs = some p →
    membersWith literal (fuel + 1) cs = some p)

theorem steady_value {n : Nat} (ih : Steady literal n) {cs : List Char}
    {p : Json × List Char} (h : valueWith literal (n + 1) cs = some p) :
    valueWith literal (n + 2) cs = some p := by
  cases hobj : expect '{' cs with
  | some r =>
    cases hclose : expect '}' r with
    | some r' =>
      rw [valueWith_empty_obj hobj hclose] at h ⊢
      exact h
    | none =>
      rw [valueWith_obj hobj hclose, Option.map_eq_some_iff] at h ⊢
      obtain ⟨q, hq, hp⟩ := h
      exact ⟨q, ih.2.2 _ q hq, hp⟩
  | none =>
    cases harr : expect '[' cs with
    | some r =>
      cases hclose : expect ']' r with
      | some r' =>
        rw [valueWith_empty_arr hobj harr hclose] at h ⊢
        exact h
      | none =>
        rw [valueWith_arr hobj harr hclose, Option.map_eq_some_iff]
          at h ⊢
        obtain ⟨q, hq, hp⟩ := h
        exact ⟨q, ih.2.1 _ q hq, hp⟩
    | none =>
      cases hstr : expect '"' cs with
      | some r =>
        rw [valueWith_str hobj harr hstr] at h ⊢
        exact h
      | none =>
        rw [valueWith_scalar hobj harr hstr] at h ⊢
        exact h

/-- An element, and its end or the others. -/
theorem elemsWith_eq_some {n : Nat} {cs r : List Char} :
    elemsWith literal (n + 1) cs = some (vs, r)
      ↔ ∃ v r₁, valueWith literal n cs = some (v, r₁)
        ∧ (expect ']' r₁ = some r ∧ vs = [v]
          ∨ expect ']' r₁ = none ∧ ∃ r₂ ws, expect ',' r₁ = some r₂
            ∧ elemsWith literal n r₂ = some (ws, r) ∧ vs = v :: ws) := by
  rw [elemsWith]
  cases hvalue : valueWith literal n cs with
  | none =>
    constructor
    · intro h
      nomatch h
    · rintro ⟨_, _, h, _⟩
      nomatch h
  | some p =>
    obtain ⟨v, r₁⟩ := p
    dsimp only
    constructor
    · intro h
      refine ⟨v, r₁, rfl, ?_⟩
      cases hclose : expect ']' r₁ with
      | some r' =>
        rw [hclose] at h
        cases h
        exact .inl ⟨rfl, rfl⟩
      | none =>
        rw [hclose] at h
        dsimp only at h
        cases hcomma : expect ',' r₁ with
        | none =>
          rw [hcomma] at h
          cases h
        | some r₂ =>
          rw [hcomma] at h
          dsimp only at h
          rw [Option.map_eq_some_iff] at h
          obtain ⟨⟨ws, r'⟩, hrest, heq⟩ := h
          cases heq
          exact .inr ⟨rfl, r₂, ws, rfl, hrest, rfl⟩
    · rintro ⟨v', r', heq, hend⟩
      cases heq
      rcases hend with ⟨hclose, rfl⟩ | ⟨hclose, r₂, ws, hcomma, hrest, rfl⟩
      · rw [hclose]
      · rw [hclose, hcomma]
        dsimp only
        rw [hrest]
        rfl

/-- A member, and its end or the others. -/
theorem membersWith_eq_some {n : Nat} {cs r : List Char} :
    membersWith literal (n + 1) cs = some (ms, r)
      ↔ ∃ r₀ units r₁ r₂ v r₃, expect '"' cs = some r₀
        ∧ literal r₀ = some (units, r₁) ∧ expect ':' r₁ = some r₂
        ∧ valueWith literal n r₂ = some (v, r₃)
        ∧ (expect '}' r₃ = some r ∧ ms = [(ofUnits units, v)]
          ∨ expect '}' r₃ = none ∧ ∃ r₄ ns, expect ',' r₃ = some r₄
            ∧ membersWith literal n r₄ = some (ns, r)
            ∧ ms = (ofUnits units, v) :: ns) := by
  rw [membersWith]
  constructor
  · intro h
    cases hquote : expect '"' cs with
    | none =>
      rw [hquote] at h
      cases h
    | some r₀ =>
      rw [hquote, Option.bind_some] at h
      cases hliteral : literal r₀ with
      | none =>
        rw [hliteral] at h
        cases h
      | some p =>
        obtain ⟨units, r₁⟩ := p
        rw [hliteral] at h
        dsimp only at h
        cases hcolon : expect ':' r₁ with
        | none =>
          rw [hcolon] at h
          cases h
        | some r₂ =>
          rw [hcolon, Option.bind_some] at h
          cases hvalue : valueWith literal n r₂ with
          | none =>
            rw [hvalue] at h
            cases h
          | some p =>
            obtain ⟨v, r₃⟩ := p
            rw [hvalue] at h
            dsimp only at h
            refine ⟨r₀, units, r₁, r₂, v, r₃, rfl, hliteral, hcolon, hvalue, ?_⟩
            cases hclose : expect '}' r₃ with
            | some r' =>
              rw [hclose] at h
              cases h
              exact .inl ⟨rfl, rfl⟩
            | none =>
              rw [hclose] at h
              dsimp only at h
              cases hcomma : expect ',' r₃ with
              | none =>
                rw [hcomma] at h
                cases h
              | some r₄ =>
                rw [hcomma] at h
                dsimp only at h
                rw [Option.map_eq_some_iff] at h
                obtain ⟨⟨ns, r'⟩, hrest, heq⟩ := h
                cases heq
                exact .inr ⟨rfl, r₄, ns, rfl, hrest, rfl⟩
  · rintro ⟨r₀, units, r₁, r₂, v, r₃, hquote, hliteral, hcolon, hvalue, hend⟩
    rw [hquote, Option.bind_some, hliteral]
    dsimp only
    rw [hcolon, Option.bind_some, hvalue]
    dsimp only
    rcases hend with ⟨hclose, rfl⟩ | ⟨hclose, r₄, ns, hcomma, hrest, rfl⟩
    · rw [hclose]
    · rw [hclose, hcomma]
      dsimp only
      rw [hrest]
      rfl

theorem steady_elems {n : Nat} (ih : Steady literal n) {cs r : List Char}
    (h : elemsWith literal (n + 1) cs = some (vs, r)) :
    elemsWith literal (n + 2) cs = some (vs, r) := by
  rw [elemsWith_eq_some] at h ⊢
  obtain ⟨v, r₁, hvalue, hend⟩ := h
  refine ⟨v, r₁, ih.1 _ _ hvalue, ?_⟩
  rcases hend with hclose | ⟨hclose, r₂, ws, hcomma, hrest, hvs⟩
  · exact .inl hclose
  · exact .inr ⟨hclose, r₂, ws, hcomma, ih.2.1 _ _ hrest, hvs⟩

theorem steady_members {n : Nat} (ih : Steady literal n) {cs r : List Char}
    (h : membersWith literal (n + 1) cs = some (ms, r)) :
    membersWith literal (n + 2) cs = some (ms, r) := by
  rw [membersWith_eq_some] at h ⊢
  obtain ⟨r₀, units, r₁, r₂, v, r₃, hquote, hliteral, hcolon, hvalue, hend⟩
    := h
  refine ⟨r₀, units, r₁, r₂, v, r₃, hquote, hliteral, hcolon,
    ih.1 _ _ hvalue, ?_⟩
  rcases hend with hclose | ⟨hclose, r₄, ns, hcomma, hrest, hms⟩
  · exact .inl hclose
  · exact .inr ⟨hclose, r₄, ns, hcomma, ih.2.2 _ _ hrest, hms⟩

theorem steady (fuel : Nat) : Steady literal fuel := by
  induction fuel with
  | zero =>
    refine ⟨fun cs p h => ?_, fun cs p h => ?_, fun cs p h => ?_⟩
    · cases h
    · cases h
    · cases h
  | succ n ih =>
    exact ⟨fun _ _ h => steady_value ih h, fun _ _ h => steady_elems ih h,
      fun _ _ h => steady_members ih h⟩

theorem valueWith_mono {n m : Nat} (hle : n ≤ m) {cs : List Char}
    {p : Json × List Char} (h : valueWith literal n cs = some p) :
    valueWith literal m cs = some p := by
  induction hle with
  | refl => exact h
  | step _ ih => exact (steady _).1 cs p ih

end

/-- A number starts like none of the words. -/
theorem parseScalar_of_number {cs r : List Char} {n : Numeral}
    (h : parseNumber cs = some (n, r)) :
    parseScalar cs = some (.num n, r) := by
  cases cs with
  | nil => cases h
  | cons c cs =>
    have hc : isNumeralChar c = true := by
      by_contra hnot
      rw [parseNumber, List.takeWhile_cons_of_neg hnot] at h
      cases h
    unfold parseScalar
    split
    case h_4 =>
      rw [h]
      rfl
    all_goals
      rename_i heq
      cases heq
      exact absurd hc (by decide)

-- ======== the rewriting

/-- What one reader makes of a literal, another makes of its rewriting, or
nothing; the latter where the text is marked. -/
structure Simulates (literal literal' : Literals)
    (outside inside : List Char → List Char)
    (marked markedIn : List Char → Bool) : Prop where
  outside_nil : outside [] = []
  outside_cons : ∀ c r, c ≠ '"' → outside (c :: r) = c :: outside r
  outside_quote : ∀ r, outside ('"' :: r) = '"' :: inside r
  marked_nil : marked [] = false
  marked_cons : ∀ c r, c ≠ '"' → marked (c :: r) = marked r
  marked_quote : ∀ r, marked ('"' :: r) = markedIn r
  literal : ∀ r units r', literal r = some (units, r') →
    literal' (inside r) = some (units, outside r') ∧ markedIn r = marked r'
      ∨ literal' (inside r) = none ∧ markedIn r = true

variable {v : Json}

section
variable {literal literal' : Literals} {outside inside : List Char → List Char}
  {marked markedIn : List Char → Bool}

/-- A reading of a rewriting, against the one of the text. -/
def Follows (outside : List Char → List Char) (marked : List Char → Bool)
    {α : Type} (reading : Option (α × List Char)) (a : α) (r : List Char)
    (before : Bool) : Prop :=
  reading = some (a, outside r) ∧ before = marked r
    ∨ reading = none ∧ before = true

theorem Follows.map {α β : Type} {reading : Option (α × List Char)} {a : α}
    {r : List Char} {before : Bool} (h : Follows outside marked reading a r before)
    (f : α → β) :
    Follows outside marked (reading.map fun p => (f p.1, p.2)) (f a) r
      before := by
  rcases h with ⟨hreading, hmarked⟩ | ⟨hreading, hmarked⟩
  · rw [hreading]
    exact .inl ⟨rfl, hmarked⟩
  · rw [hreading]
    exact .inr ⟨rfl, hmarked⟩

namespace Simulates

variable (h : Simulates literal literal' outside inside marked markedIn)

include h

theorem dropWhile_outside {p : Char → Bool} (hp : p '"' = false)
    (cs : List Char) :
    (outside cs).dropWhile p = outside (cs.dropWhile p)
      ∧ marked (cs.dropWhile p) = marked cs := by
  induction cs with
  | nil =>
    rw [h.outside_nil]
    exact ⟨h.outside_nil.symm, rfl⟩
  | cons c cs ih =>
    by_cases hpc : p c = true
    · have hc : c ≠ '"' := by
        rintro rfl
        rw [hp] at hpc
        cases hpc
      rw [h.outside_cons c cs hc, List.dropWhile_cons_of_pos hpc,
        List.dropWhile_cons_of_pos hpc, h.marked_cons c cs hc]
      exact ih
    · rw [List.dropWhile_cons_of_neg hpc]
      by_cases hc : c = '"'
      · subst hc
        rw [h.outside_quote, List.dropWhile_cons_of_neg hpc]
        exact ⟨rfl, rfl⟩
      · rw [h.outside_cons c cs hc, List.dropWhile_cons_of_neg hpc]
        exact ⟨rfl, rfl⟩

theorem takeWhile_outside {p : Char → Bool} (hp : p '"' = false)
    (cs : List Char) : (outside cs).takeWhile p = cs.takeWhile p := by
  induction cs with
  | nil => rw [h.outside_nil]
  | cons c cs ih =>
    by_cases hc : c = '"'
    · subst hc
      have hneg : ¬ p '"' = true := by
        rw [hp]
        exact Bool.false_ne_true
      rw [h.outside_quote, List.takeWhile_cons_of_neg hneg,
        List.takeWhile_cons_of_neg hneg]
    · rw [h.outside_cons c cs hc, List.takeWhile_cons, List.takeWhile_cons, ih]

theorem skipWs_outside (cs : List Char) :
    skipWs (outside cs) = outside (skipWs cs)
      ∧ marked (skipWs cs) = marked cs :=
  h.dropWhile_outside rfl cs

theorem expect_outside (hc : c ≠ '"') {cs r : List Char}
    (hr : expect c cs = some r) :
    expect c (outside cs) = some (outside r) ∧ marked cs = marked r := by
  obtain ⟨hskip, hmarked⟩ := h.skipWs_outside cs
  rw [expect_eq_some] at hr
  rw [hr] at hskip hmarked
  rw [h.outside_cons c r hc] at hskip
  rw [h.marked_cons c r hc] at hmarked
  exact ⟨expect_eq_some.2 hskip, hmarked.symm⟩

theorem expect_quote {cs r : List Char} (hr : expect '"' cs = some r) :
    expect '"' (outside cs) = some (inside r) ∧ marked cs = markedIn r := by
  obtain ⟨hskip, hmarked⟩ := h.skipWs_outside cs
  rw [expect_eq_some] at hr
  rw [hr] at hskip hmarked
  rw [h.outside_quote] at hskip
  rw [h.marked_quote] at hmarked
  exact ⟨expect_eq_some.2 hskip, hmarked.symm⟩

theorem expect_none {cs : List Char} (hnone : expect c cs = none) :
    expect c (outside cs) = none := by
  rw [expect, (h.skipWs_outside cs).1]
  rw [expect] at hnone
  cases hskip : skipWs cs with
  | nil =>
    rw [h.outside_nil]
  | cons d r =>
    rw [hskip] at hnone
    dsimp only at hnone
    have hd : d ≠ c := by
      rintro rfl
      rw [if_pos rfl] at hnone
      cases hnone
    by_cases hquote : d = '"'
    · subst hquote
      rw [h.outside_quote]
      exact if_neg hd
    · rw [h.outside_cons d r hquote]
      exact if_neg hd

theorem parseNumber_outside {cs r : List Char} {n : Numeral}
    (hn : parseNumber cs = some (n, r)) :
    parseNumber (outside cs) = some (n, outside r)
      ∧ marked cs = marked r := by
  obtain ⟨hdrop, hmarked⟩ :=
    h.dropWhile_outside (p := isNumeralChar) rfl cs
  have htake := h.takeWhile_outside (p := isNumeralChar) rfl cs
  unfold parseNumber at hn ⊢
  dsimp only at hn ⊢
  rw [Option.dite_none_right_eq_some] at hn
  obtain ⟨hvalid, heq⟩ := hn
  cases heq
  simp only [htake, hdrop, dif_pos hvalid]
  exact ⟨trivial, hmarked.symm⟩

theorem parseScalar_outside {cs r : List Char}
    (hv : parseScalar cs = some (v, r)) :
    parseScalar (outside cs) = some (v, outside r)
      ∧ marked cs = marked r := by
  have hkeep : ∀ word : List Char, '"' ∉ word → ∀ rest,
      outside (word ++ rest) = word ++ outside rest
        ∧ marked (word ++ rest) = marked rest := by
    intro word hword rest
    induction word with
    | nil => exact ⟨rfl, rfl⟩
    | cons c word ih =>
      have hc : c ≠ '"' := fun heq => hword (heq ▸ List.mem_cons_self)
      have hrest := ih fun hmem => hword (List.mem_cons_of_mem _ hmem)
      rw [List.cons_append, h.outside_cons c _ hc, h.marked_cons c _ hc,
        hrest.1]
      exact ⟨rfl, hrest.2⟩
  unfold parseScalar at hv
  split at hv
  case h_1 t =>
    cases hv
    obtain ⟨hout, hmark⟩ := hkeep ['n', 'u', 'l', 'l'] (by decide) r
    exact ⟨(congrArg parseScalar hout).trans rfl, hmark⟩
  case h_2 t =>
    cases hv
    obtain ⟨hout, hmark⟩ := hkeep ['t', 'r', 'u', 'e'] (by decide) r
    exact ⟨(congrArg parseScalar hout).trans rfl, hmark⟩
  case h_3 t =>
    cases hv
    obtain ⟨hout, hmark⟩ := hkeep ['f', 'a', 'l', 's', 'e'] (by decide) r
    exact ⟨(congrArg parseScalar hout).trans rfl, hmark⟩
  case h_4 =>
    rw [Option.map_eq_some_iff] at hv
    obtain ⟨⟨n, t⟩, hn, heq⟩ := hv
    cases heq
    obtain ⟨hnumber, hmark⟩ := h.parseNumber_outside hn
    refine ⟨?_, hmark⟩
    rw [parseScalar_of_number hnumber]

-- ======== whole texts

/-- The three loops, with the same fuel. -/
def AllFollow (literal literal' : Literals)
    (outside : List Char → List Char) (marked : List Char → Bool) (n : Nat) :
    Prop :=
  (∀ cs v r, valueWith literal n cs = some (v, r) →
    Follows outside marked (valueWith literal' n (outside cs)) v r (marked cs))
  ∧ (∀ cs vs r, elemsWith literal n cs = some (vs, r) →
    Follows outside marked (elemsWith literal' n (outside cs)) vs r
      (marked cs))
  ∧ (∀ cs ms r, membersWith literal n cs = some (ms, r) →
    Follows outside marked (membersWith literal' n (outside cs)) ms r
      (marked cs))

variable {n : Nat} (ih : AllFollow literal literal' outside marked n)

include ih

theorem follows_value {cs r : List Char}
    (hv : valueWith literal (n + 1) cs = some (v, r)) :
    Follows outside marked (valueWith literal' (n + 1) (outside cs)) v r
      (marked cs) := by
  cases hobj : expect '{' cs with
  | some r₁ =>
    obtain ⟨hobj', hmark⟩ := h.expect_outside (by decide) hobj
    cases hclose : expect '}' r₁ with
    | some r₂ =>
      rw [valueWith_empty_obj hobj hclose] at hv
      cases hv
      obtain ⟨hclose', hmark'⟩ := h.expect_outside (by decide) hclose
      exact .inl ⟨valueWith_empty_obj hobj' hclose', hmark.trans hmark'⟩
    | none =>
      rw [valueWith_obj hobj hclose, Option.map_eq_some_iff] at hv
      obtain ⟨⟨ms, r₂⟩, hms, heq⟩ := hv
      cases heq
      obtain ⟨hskip, hmark'⟩ := h.skipWs_outside r₁
      have hfollows := ih.2.2 _ _ _ hms
      rw [← hskip, hmark', ← hmark] at hfollows
      rw [valueWith_obj hobj' (h.expect_none hclose)]
      exact hfollows.map Json.obj
  | none =>
    have hobj' := h.expect_none hobj
    cases harr : expect '[' cs with
    | some r₁ =>
      obtain ⟨harr', hmark⟩ := h.expect_outside (by decide) harr
      cases hclose : expect ']' r₁ with
      | some r₂ =>
        rw [valueWith_empty_arr hobj harr hclose] at hv
        cases hv
        obtain ⟨hclose', hmark'⟩ := h.expect_outside (by decide) hclose
        exact .inl ⟨valueWith_empty_arr hobj' harr' hclose', hmark.trans hmark'⟩
      | none =>
        rw [valueWith_arr hobj harr hclose, Option.map_eq_some_iff]
          at hv
        obtain ⟨⟨vs, r₂⟩, hvs, heq⟩ := hv
        cases heq
        obtain ⟨hskip, hmark'⟩ := h.skipWs_outside r₁
        have hfollows := ih.2.1 _ _ _ hvs
        rw [← hskip, hmark', ← hmark] at hfollows
        rw [valueWith_arr hobj' harr' (h.expect_none hclose)]
        exact hfollows.map Json.arr
    | none =>
      have harr' := h.expect_none harr
      cases hstr : expect '"' cs with
      | some r₁ =>
        obtain ⟨hstr', hmark⟩ := h.expect_quote hstr
        rw [valueWith_str hobj harr hstr, Option.map_eq_some_iff] at hv
        obtain ⟨⟨units, r₂⟩, hunits, heq⟩ := hv
        cases heq
        have hfollows : Follows outside marked (literal' (inside r₁))
            units r₂ (marked cs) := by
          rw [hmark]
          exact h.literal _ _ _ hunits
        rw [valueWith_str hobj' harr' hstr']
        exact hfollows.map fun units => Json.str (ofUnits units)
      | none =>
        rw [valueWith_scalar hobj harr hstr] at hv
        obtain ⟨hv', hmark⟩ := h.parseScalar_outside hv
        obtain ⟨hskip, hmark'⟩ := h.skipWs_outside cs
        rw [valueWith_scalar hobj' harr' (h.expect_none hstr), hskip]
        exact .inl ⟨hv', hmark'.symm.trans hmark⟩

theorem follows_elems {cs r : List Char}
    (hvs : elemsWith literal (n + 1) cs = some (vs, r)) :
    Follows outside marked (elemsWith literal' (n + 1) (outside cs)) vs r
      (marked cs) := by
  obtain ⟨v, r₁, hvalue, hend⟩ := elemsWith_eq_some.1 hvs
  rcases ih.1 _ _ _ hvalue with ⟨hvalue', hmark⟩ | ⟨hvalue', hmark⟩
  · rcases hend with ⟨hclose, rfl⟩ | ⟨hclose, r₂, ws, hcomma, hrest, rfl⟩
    · obtain ⟨hclose', hmark'⟩ := h.expect_outside (by decide) hclose
      exact .inl ⟨elemsWith_eq_some.2
        ⟨v, _, hvalue', .inl ⟨hclose', rfl⟩⟩, hmark.trans hmark'⟩
    · have hclose' := h.expect_none hclose
      obtain ⟨hcomma', hmark'⟩ := h.expect_outside (by decide) hcomma
      rcases ih.2.1 _ _ _ hrest with ⟨hrest', hmark''⟩ | ⟨hrest', hmark''⟩
      · exact .inl ⟨elemsWith_eq_some.2 ⟨v, _, hvalue',
          .inr ⟨hclose', _, ws, hcomma', hrest', rfl⟩⟩,
          hmark.trans (hmark'.trans hmark'')⟩
      · refine .inr ⟨?_, hmark.trans (hmark'.trans hmark'')⟩
        rw [elemsWith, hvalue']
        dsimp only
        rw [hclose', hcomma']
        dsimp only
        rw [hrest']
        rfl
  · refine .inr ⟨?_, hmark⟩
    rw [elemsWith, hvalue']

theorem follows_members {cs r : List Char}
    (hms : membersWith literal (n + 1) cs = some (ms, r)) :
    Follows outside marked (membersWith literal' (n + 1) (outside cs)) ms r
      (marked cs) := by
  obtain ⟨r₀, units, r₁, r₂, v, r₃, hquote, hliteral, hcolon, hvalue, hend⟩
    := membersWith_eq_some.1 hms
  obtain ⟨hquote', hmark₀⟩ := h.expect_quote hquote
  obtain ⟨hcolon', hmark₁⟩ := h.expect_outside (by decide) hcolon
  rcases h.literal _ _ _ hliteral with
    ⟨hliteral', hmark₂⟩ | ⟨hliteral', hmark₂⟩
  · have hmark := hmark₀.trans (hmark₂.trans hmark₁)
    rcases ih.1 _ _ _ hvalue with ⟨hvalue', hmark₃⟩ | ⟨hvalue', hmark₃⟩
    · rcases hend with ⟨hclose, rfl⟩ | ⟨hclose, r₄, ns, hcomma, hrest, rfl⟩
      · obtain ⟨hclose', hmark₄⟩ := h.expect_outside (by decide) hclose
        exact .inl ⟨membersWith_eq_some.2 ⟨_, units, _, _, v, _, hquote',
          hliteral', hcolon', hvalue', .inl ⟨hclose', rfl⟩⟩,
          hmark.trans (hmark₃.trans hmark₄)⟩
      · have hclose' := h.expect_none hclose
        obtain ⟨hcomma', hmark₄⟩ := h.expect_outside (by decide) hcomma
        have hmark' := hmark.trans (hmark₃.trans hmark₄)
        rcases ih.2.2 _ _ _ hrest with ⟨hrest', hmark₅⟩ | ⟨hrest', hmark₅⟩
        · exact .inl ⟨membersWith_eq_some.2 ⟨_, units, _, _, v, _, hquote',
            hliteral', hcolon', hvalue',
            .inr ⟨hclose', _, ns, hcomma', hrest', rfl⟩⟩,
            hmark'.trans hmark₅⟩
        · refine .inr ⟨?_, hmark'.trans hmark₅⟩
          rw [membersWith, hquote', Option.bind_some, hliteral']
          dsimp only
          rw [hcolon', Option.bind_some, hvalue']
          dsimp only
          rw [hclose', hcomma']
          dsimp only
          rw [hrest']
          rfl
    · refine .inr ⟨?_, hmark.trans hmark₃⟩
      rw [membersWith, hquote', Option.bind_some, hliteral']
      dsimp only
      rw [hcolon', Option.bind_some, hvalue']
  · refine .inr ⟨?_, hmark₀.trans hmark₂⟩
    rw [membersWith, hquote', Option.bind_some, hliteral']

omit ih

theorem allFollow (n : Nat) : AllFollow literal literal' outside marked n := by
  induction n with
  | zero =>
    refine ⟨fun _ _ _ hp => ?_, fun _ _ _ hp => ?_, fun _ _ _ hp => ?_⟩
    · cases hp
    · cases hp
    · cases hp
  | succ n ih =>
    exact ⟨fun _ _ _ hp => h.follows_value ih hp,
      fun _ _ _ hp => h.follows_elems ih hp,
      fun _ _ _ hp => h.follows_members ih hp⟩

/-- A text that is accepted is marked and its rewriting not accepted, or it
is not marked and its rewriting is accepted, with the same value. -/
theorem parseWith_simulated {cs : List Char}
    (hlength : cs.length ≤ (outside cs).length)
    (hv : parseWith literal cs = some v) :
    parseWith literal' (outside cs) = some v ∧ marked cs = false
      ∨ parseWith literal' (outside cs) = none ∧ marked cs = true := by
  rw [parseWith] at hv
  split at hv
  case h_2 => cases hv
  case h_1 v' r hvalue =>
    rw [Option.ite_none_right_eq_some, Option.some.injEq] at hv
    obtain ⟨hr, rfl⟩ := hv
    have hmore : 2 * cs.length + 2 ≤ 2 * (outside cs).length + 2 := by omega
    have hvalue' := valueWith_mono hmore hvalue
    obtain ⟨hskip, hmark⟩ := h.skipWs_outside r
    rw [hr] at hskip hmark
    rw [h.outside_nil] at hskip
    rw [h.marked_nil] at hmark
    rw [parseWith]
    rcases (h.allFollow _).1 _ _ _ hvalue' with
      ⟨hreading, hmarked⟩ | ⟨hreading, hmarked⟩
    · rw [hreading]
      dsimp only
      rw [if_pos hskip]
      exact .inl ⟨rfl, hmarked.trans hmark.symm⟩
    · rw [hreading]
      exact .inr ⟨rfl, hmarked⟩

end Simulates

end

end OneHarness.Lib.Json
