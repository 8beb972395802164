/-
UTF-8 as a runtime reads it: every byte string decodes, and what is not
UTF-8 becomes U+FFFD.

`decode` is `buffer.toString("utf8")`: a maximal prefix of a well-formed
sequence that is cut off or broken is replaced by one U+FFFD and
decoding resumes at the byte that broke it. `encode` is the byte string
of a text.

# What a store needs of it

- `decode_encode`: encoding loses nothing.
- `decode_prefix`: a cut encoding decodes to a prefix of the text, plus
  replacement characters when the cut fell inside a character.
-/
import Mathlib.Data.List.Basic
import Mathlib.Tactic.Common

namespace OneHarness.Lib.Utf8

-- ======== the decoder

/-- The replacement character. -/
def replacement : Char := '\uFFFD'

/-- The byte lies in a range. -/
def within (lo hi : Nat) (b : UInt8) : Bool :=
  decide (lo ≤ b.toNat) && decide (b.toNat ≤ hi)

/-- A continuation byte. -/
def isCont (b : UInt8) : Bool := within 0x80 0xBF b

/-- The second byte a three-byte lead admits: no overlong form, no
surrogate. -/
def second3 (lead : Nat) (b : UInt8) : Bool :=
  within (if lead = 0xE0 then 0xA0 else 0x80)
    (if lead = 0xED then 0x9F else 0xBF) b

/-- The second byte a four-byte lead admits: no overlong form, nothing
past U+10FFFF. -/
def second4 (lead : Nat) (b : UInt8) : Bool :=
  within (if lead = 0xF0 then 0x90 else 0x80)
    (if lead = 0xF4 then 0x8F else 0xBF) b

/-- The payload of a continuation byte. -/
def payload (b : UInt8) : Nat := b.toNat - 0x80

/-- The first character of `b :: bs`, and how many of `bs` it uses. -/
def decodeOne (b : UInt8) (bs : List UInt8) : Char × Nat :=
  let n := b.toNat
  if n < 0x80 then (Char.ofNat n, 0)
  else if n < 0xC2 then (replacement, 0)
  else if n < 0xE0 then
    match bs with
    | c :: _ =>
      if isCont c then (Char.ofNat ((n - 0xC0) * 64 + payload c), 1)
      else (replacement, 0)
    | [] => (replacement, 0)
  else if n < 0xF0 then
    match bs with
    | c :: d :: _ =>
      if second3 n c then
        if isCont d then
          (Char.ofNat ((n - 0xE0) * 4096 + payload c * 64 + payload d), 2)
        else (replacement, 1)
      else (replacement, 0)
    | [c] => (replacement, if second3 n c then 1 else 0)
    | [] => (replacement, 0)
  else if n < 0xF5 then
    match bs with
    | c :: d :: e :: _ =>
      if second4 n c then
        if isCont d then
          if isCont e then
            (Char.ofNat ((n - 0xF0) * 262144 + payload c * 4096
              + payload d * 64 + payload e), 3)
          else (replacement, 2)
        else (replacement, 1)
      else (replacement, 0)
    | [c, d] => (replacement,
        if second4 n c then (if isCont d then 2 else 1) else 0)
    | [c] => (replacement, if second4 n c then 1 else 0)
    | [] => (replacement, 0)
  else (replacement, 0)

/-- `buffer.toString("utf8")`. -/
def decode : List UInt8 → List Char
  | [] => []
  | b :: bs => (decodeOne b bs).1 :: decode (bs.drop (decodeOne b bs).2)
termination_by bs => bs.length
decreasing_by
  simp only [List.length_drop, List.length_cons]
  omega

/-- The bytes of a text. -/
def encode (cs : List Char) : List UInt8 := cs.flatMap String.utf8EncodeChar

@[simp] theorem decode_nil : decode [] = [] := by rw [decode]

theorem decode_cons (b : UInt8) (bs : List UInt8) :
    decode (b :: bs)
      = (decodeOne b bs).1 :: decode (bs.drop (decodeOne b bs).2) := by
  rw [decode]

@[simp] theorem encode_nil : encode [] = [] := rfl

@[simp] theorem encode_cons (c : Char) (cs : List Char) :
    encode (c :: cs) = String.utf8EncodeChar c ++ encode cs := rfl

@[simp] theorem encode_append (cs ds : List Char) :
    encode (cs ++ ds) = encode cs ++ encode ds := List.flatMap_append

-- ======== encoding then decoding

variable {n : Nat}

theorem toNat_ofNat (h : n < 256) : (UInt8.ofNat n).toNat = n := by
  rw [UInt8.toNat_ofNat']
  exact Nat.mod_eq_of_lt h

/-- A scalar value stays below the surrogates or above them. -/
theorem toNat_range (c : Char) :
    c.toNat < 0xD800 ∨ (0xDFFF < c.toNat ∧ c.toNat < 0x110000) := c.valid

/-- What one encoded character looks like to the decoder: a lead byte
and continuation bytes, decoding to it in front of anything, and to
nothing but a replacement when some of the continuation is missing. -/
structure Encodes (c : Char) (b : UInt8) (bs : List UInt8) : Prop where
  eq : String.utf8EncodeChar c = b :: bs
  whole : ∀ rest, decodeOne b (bs ++ rest) = (c, bs.length)
  torn : ∀ q, q <+: bs → q ≠ bs → (decodeOne b q).1 = replacement
  cont : ∀ x ∈ bs, isCont x = true
  lead : b.toNat = c.toNat ∨ 0x80 ≤ b.toNat

variable {c : Char}

theorem encodes_one (h : c.toNat < 0x80) : ∃ b bs, Encodes c b bs := by
  have hb : (UInt8.ofNat c.toNat).toNat = c.toNat := toNat_ofNat (by omega)
  refine ⟨UInt8.ofNat c.toNat, [], ⟨?_, ?_, ?_, ?_, Or.inl hb⟩⟩
  · show (if c.toNat ≤ 0x7f then _ else _) = _
    rw [if_pos (by omega)]
    rfl
  · intro rest
    simp only [decodeOne, hb, if_pos h, Char.ofNat_toNat, List.length_nil]
  · intro q hq hne
    exact absurd (List.prefix_nil.1 hq) hne
  · exact fun x hx => absurd hx List.not_mem_nil

variable {b : UInt8}

theorem isCont_payload (h : n < 64)
    (hb : b.toNat = n + 0x80) : isCont b = true ∧ payload b = n := by
  have hp : payload b = b.toNat - 0x80 := rfl
  constructor
  · simp only [isCont, within, hb, Bool.and_eq_true, decide_eq_true_eq]
    omega
  · omega

theorem isCont_ofNat (h : n < 64) :
    isCont (UInt8.ofNat (n + 0x80)) = true
      ∧ payload (UInt8.ofNat (n + 0x80)) = n :=
  isCont_payload h (toNat_ofNat (by omega))

theorem encodes_two (h : 0x80 ≤ c.toNat) (h' : c.toNat < 0x800) :
    ∃ b bs, Encodes c b bs := by
  have hb : (UInt8.ofNat (c.toNat / 64 % 0x20 + 0xc0)).toNat
      = c.toNat / 64 + 0xc0 := by
    rw [toNat_ofNat (by omega)]
    omega
  obtain ⟨hc, hp⟩ := isCont_ofNat (n := c.toNat % 0x40) (by omega)
  have hn1 : ¬ c.toNat / 64 + 0xc0 < 0x80 := by omega
  have hn2 : ¬ c.toNat / 64 + 0xc0 < 0xC2 := by omega
  have hn3 : c.toNat / 64 + 0xc0 < 0xE0 := by omega
  refine ⟨UInt8.ofNat (c.toNat / 64 % 0x20 + 0xc0),
    [UInt8.ofNat (c.toNat % 0x40 + 0x80)], ⟨?_, ?_, ?_, ?_, Or.inr (by omega)⟩⟩
  · show (if c.toNat ≤ 0x7f then _ else if c.toNat ≤ 0x7ff then _ else _) = _
    rw [if_neg (by omega), if_pos (by omega)]
    rfl
  · intro rest
    have hv : (c.toNat / 64 + 0xc0 - 0xC0) * 64 + c.toNat % 0x40 = c.toNat := by
      omega
    simp only [decodeOne, hb, if_neg hn1, if_neg hn2, if_pos hn3,
      List.cons_append, List.nil_append, hc, if_true, hp, hv,
      Char.ofNat_toNat, List.length_cons, List.length_nil]
  · intro q hq hne
    have hq0 : q = [] := by
      rcases List.prefix_cons_iff.1 hq with rfl | ⟨t, rfl, ht⟩
      · rfl
      · rw [List.prefix_nil.1 ht] at hne
        exact absurd rfl hne
    simp only [hq0, decodeOne, hb, if_neg hn1, if_neg hn2, if_pos hn3]
  · intro x hx
    rw [List.mem_singleton.1 hx]
    exact hc

theorem encodes_three (h : 0x800 ≤ c.toNat)
    (h' : c.toNat < 0x10000) : ∃ b bs, Encodes c b bs := by
  have hr := toNat_range c
  have hb : (UInt8.ofNat (c.toNat / 4096 % 0x10 + 0xe0)).toNat
      = c.toNat / 4096 + 0xe0 := by
    rw [toNat_ofNat (by omega)]
    omega
  obtain ⟨hc, hp⟩ := isCont_ofNat (n := c.toNat / 64 % 0x40) (by omega)
  obtain ⟨hc', hp'⟩ := isCont_ofNat (n := c.toNat % 0x40) (by omega)
  have h2 : (UInt8.ofNat (c.toNat / 64 % 0x40 + 0x80)).toNat
      = c.toNat / 64 % 0x40 + 0x80 := toNat_ofNat (by omega)
  have hs : second3 (c.toNat / 4096 + 0xe0)
      (UInt8.ofNat (c.toNat / 64 % 0x40 + 0x80)) = true := by
    simp only [second3, within, h2, Bool.and_eq_true, decide_eq_true_eq]
    constructor
    · split <;> omega
    · split <;> omega
  have hn1 : ¬ c.toNat / 4096 + 0xe0 < 0x80 := by omega
  have hn2 : ¬ c.toNat / 4096 + 0xe0 < 0xC2 := by omega
  have hn3 : ¬ c.toNat / 4096 + 0xe0 < 0xE0 := by omega
  have hn4 : c.toNat / 4096 + 0xe0 < 0xF0 := by omega
  refine ⟨UInt8.ofNat (c.toNat / 4096 % 0x10 + 0xe0),
    [UInt8.ofNat (c.toNat / 64 % 0x40 + 0x80),
      UInt8.ofNat (c.toNat % 0x40 + 0x80)], ⟨?_, ?_, ?_, ?_, Or.inr (by omega)⟩⟩
  · show (if c.toNat ≤ 0x7f then _ else if c.toNat ≤ 0x7ff then _
      else if c.toNat ≤ 0xffff then _ else _) = _
    rw [if_neg (by omega), if_neg (by omega), if_pos (by omega)]
    rfl
  · intro rest
    have hv : (c.toNat / 4096 + 0xe0 - 0xE0) * 4096
        + c.toNat / 64 % 0x40 * 64 + c.toNat % 0x40 = c.toNat := by omega
    simp only [decodeOne, hb, if_neg hn1, if_neg hn2, if_neg hn3, if_pos hn4,
      List.cons_append, List.nil_append, hs, hc', if_true, hp, hp', hv,
      Char.ofNat_toNat, List.length_cons, List.length_nil]
  · intro q hq hne
    rcases List.prefix_cons_iff.1 hq with rfl | ⟨t, rfl, ht⟩
    · simp only [decodeOne, hb, if_neg hn1, if_neg hn2, if_neg hn3, if_pos hn4]
    · rcases List.prefix_cons_iff.1 ht with rfl | ⟨t', rfl, ht'⟩
      · simp only [decodeOne, hb, if_neg hn1, if_neg hn2, if_neg hn3,
          if_pos hn4]
      · rw [List.prefix_nil.1 ht'] at hne
        exact absurd rfl hne
  · intro x hx
    simp only [List.mem_cons, List.not_mem_nil, or_false] at hx
    rcases hx with rfl | rfl
    · exact hc
    · exact hc'

theorem encodes_four (h : 0x10000 ≤ c.toNat) : ∃ b bs, Encodes c b bs := by
  have hr := toNat_range c
  have hb : (UInt8.ofNat (c.toNat / 262144 % 0x08 + 0xf0)).toNat
      = c.toNat / 262144 + 0xf0 := by
    rw [toNat_ofNat (by omega)]
    omega
  obtain ⟨hc, hp⟩ := isCont_ofNat (n := c.toNat / 4096 % 0x40) (by omega)
  obtain ⟨hc', hp'⟩ := isCont_ofNat (n := c.toNat / 64 % 0x40) (by omega)
  obtain ⟨hc'', hp''⟩ := isCont_ofNat (n := c.toNat % 0x40) (by omega)
  have h2 : (UInt8.ofNat (c.toNat / 4096 % 0x40 + 0x80)).toNat
      = c.toNat / 4096 % 0x40 + 0x80 := toNat_ofNat (by omega)
  have hs : second4 (c.toNat / 262144 + 0xf0)
      (UInt8.ofNat (c.toNat / 4096 % 0x40 + 0x80)) = true := by
    simp only [second4, within, h2, Bool.and_eq_true, decide_eq_true_eq]
    constructor
    · split <;> omega
    · split <;> omega
  have hn1 : ¬ c.toNat / 262144 + 0xf0 < 0x80 := by omega
  have hn2 : ¬ c.toNat / 262144 + 0xf0 < 0xC2 := by omega
  have hn3 : ¬ c.toNat / 262144 + 0xf0 < 0xE0 := by omega
  have hn4 : ¬ c.toNat / 262144 + 0xf0 < 0xF0 := by omega
  have hn5 : c.toNat / 262144 + 0xf0 < 0xF5 := by omega
  refine ⟨UInt8.ofNat (c.toNat / 262144 % 0x08 + 0xf0),
    [UInt8.ofNat (c.toNat / 4096 % 0x40 + 0x80),
      UInt8.ofNat (c.toNat / 64 % 0x40 + 0x80),
      UInt8.ofNat (c.toNat % 0x40 + 0x80)], ⟨?_, ?_, ?_, ?_, Or.inr (by omega)⟩⟩
  · show (if c.toNat ≤ 0x7f then _ else if c.toNat ≤ 0x7ff then _
      else if c.toNat ≤ 0xffff then _ else _) = _
    rw [if_neg (by omega), if_neg (by omega), if_neg (by omega)]
    rfl
  · intro rest
    have hv : (c.toNat / 262144 + 0xf0 - 0xF0) * 262144
        + c.toNat / 4096 % 0x40 * 4096 + c.toNat / 64 % 0x40 * 64
        + c.toNat % 0x40 = c.toNat := by omega
    simp only [decodeOne, hb, if_neg hn1, if_neg hn2, if_neg hn3, if_neg hn4,
      if_pos hn5, List.cons_append, List.nil_append, hs, hc', hc'', if_true,
      hp, hp', hp'', hv, Char.ofNat_toNat, List.length_cons, List.length_nil]
  · intro q hq hne
    rcases List.prefix_cons_iff.1 hq with rfl | ⟨t, rfl, ht⟩
    · simp only [decodeOne, hb, if_neg hn1, if_neg hn2, if_neg hn3, if_neg hn4,
        if_pos hn5]
    · rcases List.prefix_cons_iff.1 ht with rfl | ⟨t', rfl, ht'⟩
      · simp only [decodeOne, hb, if_neg hn1, if_neg hn2, if_neg hn3,
          if_neg hn4, if_pos hn5]
      · rcases List.prefix_cons_iff.1 ht' with rfl | ⟨t'', rfl, ht''⟩
        · simp only [decodeOne, hb, if_neg hn1, if_neg hn2, if_neg hn3,
            if_neg hn4, if_pos hn5]
        · rw [List.prefix_nil.1 ht''] at hne
          exact absurd rfl hne
  · intro x hx
    simp only [List.mem_cons, List.not_mem_nil, or_false] at hx
    rcases hx with rfl | rfl | rfl
    · exact hc
    · exact hc'
    · exact hc''

theorem exists_encodes (c : Char) : ∃ b bs, Encodes c b bs := by
  by_cases h1 : c.toNat < 0x80
  · exact encodes_one h1
  · by_cases h2 : c.toNat < 0x800
    · exact encodes_two (by omega) h2
    · by_cases h3 : c.toNat < 0x10000
      · exact encodes_three (by omega) h3
      · exact encodes_four (by omega)

/-- An encoded character decodes to itself in front of anything. -/
theorem decode_encodeChar (c : Char) (rest : List UInt8) :
    decode (String.utf8EncodeChar c ++ rest) = c :: decode rest := by
  obtain ⟨b, bs, h⟩ := exists_encodes c
  rw [h.eq, List.cons_append, decode_cons, h.whole, List.drop_left]

theorem decode_encode_append (cs : List Char) (rest : List UInt8) :
    decode (encode cs ++ rest) = cs ++ decode rest := by
  induction cs with
  | nil => rfl
  | cons c cs ih =>
    rw [encode_cons, List.append_assoc, decode_encodeChar, ih, List.cons_append]

/-- Encoding loses nothing. -/
theorem decode_encode (cs : List Char) : decode (encode cs) = cs := by
  have h := decode_encode_append cs []
  rwa [List.append_nil, decode_nil, List.append_nil] at h

-- ======== cut encodings

theorem decodeOne_cont (h : isCont b = true) (bs : List UInt8) :
    decodeOne b bs = (replacement, 0) := by
  simp only [isCont, within, Bool.and_eq_true, decide_eq_true_eq] at h
  unfold decodeOne
  simp only [if_neg (show ¬ b.toNat < 0x80 by omega),
    if_pos (show b.toNat < 0xC2 by omega)]

/-- Bytes that can only continue a character decode to replacements. -/
theorem decode_conts {bs : List UInt8} (h : ∀ x ∈ bs, isCont x = true)
    (rest : List UInt8) :
    ∃ n, decode (bs ++ rest) = List.replicate n replacement ++ decode rest := by
  induction bs with
  | nil => exact ⟨0, rfl⟩
  | cons b bs ih =>
    obtain ⟨n, hn⟩ := ih fun x hx => h x (List.mem_cons_of_mem _ hx)
    refine ⟨n + 1, ?_⟩
    rw [List.cons_append, decode_cons,
      decodeOne_cont (h b List.mem_cons_self), List.drop_zero, hn]
    rfl

/-- A cut encoding decodes to the characters before the cut, plus only
replacements for the one the cut fell in. -/
theorem decode_prefix {p : List UInt8} {cs : List Char} (hp : p <+: encode cs) :
    ∃ n m, decode p = cs.take m ++ List.replicate n replacement
      ∧ (p = encode (cs.take m) ∧ n = 0 ∨ m < cs.length) := by
  induction cs generalizing p with
  | nil =>
    rw [encode_nil, List.prefix_nil] at hp
    exact ⟨0, 0, by rw [hp]; simp, Or.inl ⟨by rw [hp]; rfl, rfl⟩⟩
  | cons c cs ih =>
    obtain ⟨b, bs, h⟩ := exists_encodes c
    rw [encode_cons, h.eq] at hp
    by_cases hlen : p.length < (b :: bs).length
    · -- the cut falls inside the first character
      have hpre : p <+: b :: bs :=
        List.prefix_of_prefix_length_le hp (List.prefix_append _ _)
          (Nat.le_of_lt hlen)
      cases p with
      | nil =>
        exact ⟨0, 0, by simp, Or.inl ⟨rfl, rfl⟩⟩
      | cons x q =>
        obtain ⟨hx, hq⟩ := List.cons_prefix_cons.1 hpre
        have hne : q ≠ bs := by
          rintro rfl
          simp at hlen
        have hcont : ∀ x ∈ q.drop (decodeOne b q).2, isCont x = true :=
          fun x hx => h.cont x (hq.subset (List.mem_of_mem_drop hx))
        obtain ⟨n, hn⟩ := decode_conts hcont []
        rw [List.append_nil, decode_nil, List.append_nil] at hn
        refine ⟨n + 1, 0, ?_, Or.inr (by simp)⟩
        rw [hx, decode_cons, h.torn q hq hne, hn]
        rfl
    · -- the first character is whole
      have hpre : b :: bs <+: p :=
        List.prefix_of_prefix_length_le (List.prefix_append _ _) hp
          (by omega)
      obtain ⟨q, rfl⟩ := hpre
      obtain ⟨n, m, hd, hm⟩ := ih ((List.prefix_append_right_inj _).1 hp)
      refine ⟨n, m + 1, ?_, ?_⟩
      · rw [← h.eq, decode_encodeChar, hd]
        rfl
      · rcases hm with ⟨rfl, hn⟩ | hm
        · refine Or.inl ⟨?_, hn⟩
          rw [List.take_succ_cons, encode_cons, h.eq]
        · exact Or.inr (by simpa using hm)

-- ======== cutting between bytes

/-- A character uses only bytes that are there. -/
theorem decodeOne_le (b : UInt8) (q : List UInt8) :
    (decodeOne b q).2 ≤ q.length := by
  unfold decodeOne
  simp only []
  split
  · exact Nat.zero_le _
  split
  · exact Nat.zero_le _
  split
  · cases q with
    | nil => exact Nat.le_refl _
    | cons c q =>
      simp only [List.length_cons]
      split <;> simp only [] <;> omega
  split
  · rcases q with _ | ⟨c, _ | ⟨d, q⟩⟩
    · exact Nat.le_refl _
    · simp only [List.length_cons, List.length_nil]
      split <;> omega
    · simp only [List.length_cons]
      split
      · split <;> simp only [] <;> omega
      · simp only []
        omega
  split
  · rcases q with _ | ⟨c, _ | ⟨d, _ | ⟨e, q⟩⟩⟩
    · exact Nat.le_refl _
    · simp only [List.length_cons, List.length_nil]
      split <;> omega
    · simp only [List.length_cons, List.length_nil]
      split
      · split <;> omega
      · omega
    · simp only [List.length_cons]
      split
      · split
        · split <;> simp only [] <;> omega
        · simp only []
          omega
      · simp only []
        omega
  · exact Nat.zero_le _

theorem second3_isCont (h : isCont b = false) : second3 n b = false := by
  cases hs : second3 n b with
  | false => rfl
  | true =>
    simp only [second3, within, Bool.and_eq_true, decide_eq_true_eq] at hs
    obtain ⟨h1, h2⟩ := hs
    have hc : isCont b = true := by
      simp only [isCont, within, Bool.and_eq_true, decide_eq_true_eq]
      constructor
      · split at h1 <;> omega
      · split at h2 <;> omega
    rw [hc] at h
    cases h

theorem second4_isCont (h : isCont b = false) : second4 n b = false := by
  cases hs : second4 n b with
  | false => rfl
  | true =>
    simp only [second4, within, Bool.and_eq_true, decide_eq_true_eq] at hs
    obtain ⟨h1, h2⟩ := hs
    have hc : isCont b = true := by
      simp only [isCont, within, Bool.and_eq_true, decide_eq_true_eq]
      constructor
      · split at h1 <;> omega
      · split at h2 <;> omega
    rw [hc] at h
    cases h

/-- A byte that continues nothing ends a cut character as the end of the
text does. -/
theorem decodeOne_append (b : UInt8) (q : List UInt8) {x : UInt8}
    (hx : isCont x = false) (r : List UInt8) :
    decodeOne b (q ++ x :: r) = decodeOne b q := by
  have h3 := fun n => second3_isCont (n := n) hx
  have h4 := fun n => second4_isCont (n := n) hx
  unfold decodeOne
  rcases q with _ | ⟨c, _ | ⟨d, _ | ⟨e, q⟩⟩⟩
  · rcases r with _ | ⟨y, _ | ⟨z, r⟩⟩ <;>
      simp [hx, h3, h4]
  · rcases r with _ | ⟨y, r⟩ <;> simp [hx] <;> split_ifs <;> rfl
  · simp [hx]
    split_ifs <;> rfl
  · rfl

/-- A text is decoded piece by piece when no piece starts inside a
character. -/
theorem decode_append {x : UInt8} (hx : isCont x = false) (q r : List UInt8) :
    decode (q ++ x :: r) = decode q ++ decode (x :: r) := by
  induction hn : q.length using Nat.strongRecOn generalizing q with
  | _ n ih =>
    cases q with
    | nil => simp
    | cons b q =>
      rw [List.cons_append, decode_cons, decode_cons,
        decodeOne_append b q hx r,
        List.drop_append_of_le_length (decodeOne_le b q),
        ih (q.drop (decodeOne b q).2).length (by
          simp only [List.length_drop, List.length_cons] at hn ⊢
          omega) _ rfl,
        List.cons_append]

-- ======== ASCII bytes

/-- An ASCII byte decodes to its character in front of anything. -/
theorem decode_ascii (h : b.toNat < 0x80) (rest : List UInt8) :
    decode (b :: rest) = Char.ofNat b.toNat :: decode rest := by
  rw [decode_cons]
  simp only [decodeOne, if_pos h, List.drop_zero]

/-- A byte of a text below the ASCII bound is one of its characters. -/
theorem mem_encode {cs : List Char} (hb : b ∈ encode cs)
    (h : b.toNat < 0x80) : ∃ c ∈ cs, c.toNat = b.toNat := by
  obtain ⟨c, hc, hmem⟩ := List.mem_flatMap.1 hb
  refine ⟨c, hc, ?_⟩
  obtain ⟨x, bs, henc⟩ := exists_encodes c
  rw [henc.eq, List.mem_cons] at hmem
  rcases hmem with rfl | hmem
  · rcases henc.lead with hlead | hlead
    · exact hlead.symm
    · omega
  · have hcont := henc.cont b hmem
    simp only [isCont, within, Bool.and_eq_true, decide_eq_true_eq] at hcont
    omega

end OneHarness.Lib.Utf8
