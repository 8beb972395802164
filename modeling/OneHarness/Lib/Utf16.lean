/-
UTF-16: the code units in which a runtime counts, cuts and compares its
strings.

A unit is its number; a character is one unit or a pair of surrogates. Any
list of units is a string; only those whose surrogates are paired are the
writing of a text (`decode`).
-/
import Mathlib.Data.List.TakeWhile
import Mathlib.Tactic.Common

namespace OneHarness.Lib.Utf16

/-- The units of one character. -/
def encodeChar (c : Char) : List Nat :=
  if c.toNat < 0x10000 then [c.toNat]
  else [0xD800 + (c.toNat - 0x10000) / 0x400,
    0xDC00 + (c.toNat - 0x10000) % 0x400]

def encode (cs : List Char) : List Nat := cs.flatMap encodeChar

/-- The text that is written so, if there is one. -/
def decode : List Nat → Option (List Char)
  | [] => some []
  | u :: us =>
    if u < 0xD800 ∨ 0xE000 ≤ u then
      (decode us).map fun cs => Char.ofNat u :: cs
    else
      match us with
      | [] => none
      | v :: vs =>
        if u < 0xDC00 ∧ 0xDC00 ≤ v ∧ v < 0xE000 then
          (decode vs).map fun cs =>
            Char.ofNat (0x10000 + (u - 0xD800) * 0x400 + (v - 0xDC00)) :: cs
        else none

theorem encode_cons (c : Char) (cs : List Char) :
    encode (c :: cs) = encodeChar c ++ encode cs := rfl

theorem encode_append (cs ds : List Char) :
    encode (cs ++ ds) = encode cs ++ encode ds := List.flatMap_append

theorem toNat_valid (c : Char) :
    c.toNat < 0xD800 ∨ 0xDFFF < c.toNat ∧ c.toNat < 0x110000 := c.valid

variable {u : Nat}

theorem decode_one (h : u < 0xD800 ∨ 0xE000 ≤ u) (us : List Nat) :
    decode (u :: us) = (decode us).map fun cs => Char.ofNat u :: cs := by
  rw [decode.eq_def]
  exact if_pos h

theorem decode_pair {v : Nat} (hu : 0xD800 ≤ u) (hu' : u < 0xDC00)
    (hv : 0xDC00 ≤ v) (hv' : v < 0xE000) (us : List Nat) :
    decode (u :: v :: us) = (decode us).map fun cs =>
      Char.ofNat (0x10000 + (u - 0xD800) * 0x400 + (v - 0xDC00)) :: cs := by
  have hsur : ¬ (u < 0xD800 ∨ 0xE000 ≤ u) := by omega
  rw [decode.eq_def]
  exact (if_neg hsur).trans (if_pos ⟨hu', hv, hv'⟩)

/-- A text is read back from its units. -/
theorem decode_encode (cs : List Char) : decode (encode cs) = some cs := by
  induction cs with
  | nil => rfl
  | cons c cs ih =>
    have hvalid := toNat_valid c
    rw [encode_cons]
    unfold encodeChar
    by_cases hc : c.toNat < 0x10000
    · rw [if_pos hc, List.singleton_append, decode_one (by omega), ih,
        Option.map_some, Char.ofNat_toNat]
    · rw [if_neg hc, List.cons_append, List.singleton_append,
        decode_pair (by omega) (by omega) (by omega) (by omega), ih,
        Option.map_some]
      have heq : 0x10000 + (0xD800 + (c.toNat - 0x10000) / 0x400 - 0xD800)
          * 0x400 + (0xDC00 + (c.toNat - 0x10000) % 0x400 - 0xDC00)
            = c.toNat := by omega
      rw [heq, Char.ofNat_toNat]

/-- A unit below the surrogates is that character. -/
theorem mem_encode (hu : u < 0xD800) {cs : List Char}
    (h : u ∈ encode cs) : ∃ c ∈ cs, c.toNat = u := by
  obtain ⟨c, hc, hmem⟩ := List.mem_flatMap.1 h
  refine ⟨c, hc, ?_⟩
  unfold encodeChar at hmem
  by_cases hbmp : c.toNat < 0x10000
  · rw [if_pos hbmp, List.mem_singleton] at hmem
    exact hmem.symm
  · rw [if_neg hbmp] at hmem
    rcases List.mem_cons.1 hmem with heq | hmem
    · omega
    · have heq := List.mem_singleton.1 hmem
      omega

-- ======== white space

/-- White space of `\s` and of `trim`. -/
def isWhiteSpace (u : Nat) : Bool :=
  0x09 ≤ u && u ≤ 0x0d || 0x2000 ≤ u && u ≤ 0x200a ||
    u ∈ [0x20, 0xa0, 0x1680, 0x2028, 0x2029, 0x202f, 0x205f, 0x3000, 0xfeff]

def trimEnd (us : List Nat) : List Nat :=
  (us.reverse.dropWhile isWhiteSpace).reverse

def trim (us : List Nat) : List Nat := trimEnd (us.dropWhile isWhiteSpace)

theorem trimEnd_append {vs : List Nat} {v : Nat} (hv : v ∈ vs)
    (hspace : isWhiteSpace v = false) (us : List Nat) :
    trimEnd (us ++ vs) = us ++ trimEnd vs := by
  have hstop : (vs.reverse.dropWhile isWhiteSpace).isEmpty = false := by
    rw [Bool.eq_false_iff]
    intro hempty
    have hall := List.dropWhile_eq_nil_iff.1 (List.isEmpty_iff.1 hempty) v
      (List.mem_reverse.2 hv)
    rw [hspace] at hall
    cases hall
  rw [trimEnd, List.reverse_append, List.dropWhile_append, hstop,
    if_neg Bool.false_ne_true, List.reverse_append, List.reverse_reverse,
    trimEnd]

/-- What stands between other text is left by trimming. -/
theorem trim_append_append {us vs : List Nat} {v : Nat}
    (hu : isWhiteSpace u = false) (hv : v ∈ vs)
    (hspace : isWhiteSpace v = false) (ms : List Nat) :
    trim (u :: us ++ ms ++ vs) = u :: us ++ ms ++ trimEnd vs := by
  rw [trim, List.cons_append, List.cons_append, List.dropWhile_cons, hu,
    if_neg Bool.false_ne_true, ← List.cons_append, ← List.cons_append,
    trimEnd_append hv hspace]

/-- `text.replace(/\s+/g, " ")`, within white space or not. -/
def collapseSpaces : Bool → List Nat → List Nat
  | _, [] => []
  | within, u :: us =>
    if isWhiteSpace u then
      if within then collapseSpaces true us
      else 0x20 :: collapseSpaces true us
    else u :: collapseSpaces false us

-- ======== the bytes it takes

def isHigh (u : Nat) : Bool := 0xD800 ≤ u && u ≤ 0xDBFF

def isLow (u : Nat) : Bool := 0xDC00 ≤ u && u ≤ 0xDFFF

/-- One unit by itself; a lone surrogate takes those of its replacement. -/
def unitBytes (u : Nat) : Nat :=
  if u < 0x80 then 1 else if u < 0x800 then 2 else 3

/-- The length in UTF-8. -/
def byteLength : List Nat → Nat
  | [] => 0
  | [u] => unitBytes u
  | u :: v :: us =>
    if isHigh u && isLow v then 4 + byteLength us
    else unitBytes u + byteLength (v :: us)

theorem unitBytes_pos (u : Nat) : 0 < unitBytes u := by
  rw [unitBytes]
  split_ifs <;> omega

theorem unitBytes_le (u : Nat) : unitBytes u ≤ 3 := by
  rw [unitBytes]
  split_ifs <;> omega

/-- A unit that is not the first of a pair. -/
theorem byteLength_cons (us : List Nat)
    (h : isHigh u = false ∨ ∀ v ∈ us.head?, isLow v = false) :
    byteLength (u :: us) = unitBytes u + byteLength us := by
  cases us with
  | nil => rfl
  | cons v us =>
    rw [byteLength, if_neg]
    rw [Bool.and_eq_true]
    rintro ⟨hhigh, hlow⟩
    rcases h with h | h
    · rw [h] at hhigh
      cases hhigh
    · rw [h v rfl] at hlow
      cases hlow

theorem isHigh_eq_false_of_isLow (h : isLow u = true) : isHigh u = false := by
  rw [isLow, Bool.and_eq_true, decide_eq_true_eq, decide_eq_true_eq] at h
  rw [isHigh, Bool.and_eq_false_iff, decide_eq_false_iff_not,
    decide_eq_false_iff_not]
  omega

/-- More units in front take more bytes, also where they make a pair. -/
theorem byteLength_lt_cons (u : Nat) (us : List Nat) :
    byteLength us < byteLength (u :: us) := by
  cases us with
  | nil => exact unitBytes_pos u
  | cons v us =>
    rw [byteLength]
    by_cases hpair : (isHigh u && isLow v) = true
    · rw [if_pos hpair]
      rw [Bool.and_eq_true] at hpair
      rw [byteLength_cons us (.inl (isHigh_eq_false_of_isLow hpair.2))]
      have hle := unitBytes_le v
      omega
    · rw [if_neg hpair]
      have hpos := unitBytes_pos u
      omega

theorem byteLength_le_append (us vs : List Nat) :
    byteLength vs ≤ byteLength (us ++ vs) := by
  induction us with
  | nil => exact Nat.le_refl _
  | cons u us ih =>
    exact Nat.le_trans ih (Nat.le_of_lt (byteLength_lt_cons u _))

/-- No pair is made where the first text does not end with a high surrogate. -/
theorem byteLength_append {us : List Nat}
    (h : ∀ u ∈ us.getLast?, isHigh u = false) (vs : List Nat) :
    byteLength (us ++ vs) = byteLength us + byteLength vs := by
  induction us using byteLength.induct with
  | case1 => rw [List.nil_append, byteLength, Nat.zero_add]
  | case2 u =>
    rw [List.singleton_append, byteLength_cons vs (.inl (h u rfl))]
    rfl
  | case3 u v us hpair ih =>
    have hlast : ∀ w ∈ us.getLast?, isHigh w = false := by
      intro w hw
      apply h w
      rw [List.getLast?_cons, List.getLast?_cons, Option.mem_def.1 hw]
      rfl
    rw [List.cons_append, List.cons_append, byteLength, if_pos hpair,
      byteLength, if_pos hpair, ih hlast, Nat.add_assoc]
  | case4 u v us hpair ih =>
    rw [List.cons_append, List.cons_append, byteLength, if_neg hpair,
      byteLength, if_neg hpair, ← List.cons_append, ih h, Nat.add_assoc]

end OneHarness.Lib.Utf16
