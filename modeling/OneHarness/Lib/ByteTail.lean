/-
The end of a text, measured in bytes.

A text that must fit a number of bytes keeps its longest suffix that fits
(`lastBytes`). A runtime finds it in the text's bytes: start that many
bytes before the end, and skip the continuation bytes of a character the
cut fell into (`charBoundary`). The two agree (`decode_drop_charBoundary`),
and the byte before the cut tells whether a newline precedes it
(`newline_before_iff`).
-/
import OneHarness.Lib.Utf8

namespace OneHarness.Lib.Utf8

-- ======== length in bytes

/-- `Buffer.byteLength(text, "utf-8")`. -/
def byteLength (text : List Char) : Nat := (encode text).length

@[simp] theorem byteLength_nil : byteLength [] = 0 := rfl

@[simp] theorem byteLength_append (cs ds : List Char) :
    byteLength (cs ++ ds) = byteLength cs + byteLength ds := by
  rw [byteLength, encode_append, List.length_append]
  rfl

theorem byteLength_cons (c : Char) (cs : List Char) :
    byteLength (c :: cs) = byteLength [c] + byteLength cs :=
  byteLength_append [c] cs

/-- A character takes at least one byte. -/
theorem byteLength_pos (c : Char) : 0 < byteLength [c] := by
  obtain ⟨b, bs, h⟩ := exists_encodes c
  rw [byteLength, encode_cons, h.eq]
  exact Nat.succ_pos _

@[simp] theorem byteLength_newline : byteLength ['\n'] = 1 := by decide

@[simp] theorem byteLength_newlines (k : Nat) :
    byteLength (List.replicate k '\n') = k := by
  induction k with
  | zero => rfl
  | succ k ih =>
    rw [List.replicate_succ, byteLength_cons, ih, byteLength_newline,
      Nat.add_comm]

variable {cs : List Char}

theorem eq_nil_of_byteLength (h : byteLength cs = 0) : cs = [] := by
  cases cs with
  | nil => rfl
  | cons c cs =>
    have := byteLength_pos c
    rw [byteLength_cons] at h
    omega

-- ======== the longest suffix

/-- The longest suffix of at most `n` bytes. -/
def lastBytes (n : Nat) : List Char → List Char
  | [] => []
  | c :: cs => if byteLength (c :: cs) ≤ n then c :: cs else lastBytes n cs

theorem lastBytes_suffix (n : Nat) (cs : List Char) :
    lastBytes n cs <:+ cs := by
  induction cs with
  | nil => exact List.suffix_rfl
  | cons c cs ih =>
    rw [lastBytes]
    split
    · exact List.suffix_rfl
    · exact ih.trans (List.suffix_cons c cs)

theorem byteLength_lastBytes_le (n : Nat) (cs : List Char) :
    byteLength (lastBytes n cs) ≤ n := by
  induction cs with
  | nil => exact Nat.zero_le n
  | cons c cs ih =>
    rw [lastBytes]
    split
    · assumption
    · exact ih

variable {n : Nat}

theorem lastBytes_of_le (h : byteLength cs ≤ n) : lastBytes n cs = cs := by
  cases cs with
  | nil => rfl
  | cons c cs => rw [lastBytes, if_pos h]

variable {c : Char}

/-- What does not fit in front of a suffix is not kept. -/
theorem lastBytes_append {p after : List Char}
    (hc : n < byteLength (c :: after)) :
    lastBytes n (p ++ c :: after) = lastBytes n after := by
  induction p with
  | nil => rw [List.nil_append, lastBytes, if_neg (Nat.not_le.2 hc)]
  | cons d p ih =>
    have hlt : n < byteLength (d :: (p ++ c :: after)) := by
      rw [byteLength_cons, byteLength_append]
      omega
    rw [List.cons_append, lastBytes, if_neg (Nat.not_le.2 hlt), ih]

/-- What is cut off in front, the last character of it did not fit. -/
theorem lastBytes_cut {p : List Char} (h : cs = p ++ c :: lastBytes n cs) :
    n < byteLength (c :: lastBytes n cs) := by
  by_contra hle
  have hle := Nat.le_of_not_lt hle
  have hlonger : lastBytes n (p ++ c :: lastBytes n cs) ≠ lastBytes n cs := by
    generalize lastBytes n cs = after at hle
    clear h
    induction p with
    | nil =>
      rw [List.nil_append, lastBytes_of_le hle]
      exact fun h => absurd (congrArg List.length h) (by simp)
    | cons d p ih =>
      rw [List.cons_append, lastBytes]
      split
      · exact fun h => absurd (congrArg List.length h) (by
          simp only [List.length_cons, List.length_append]
          omega)
      · exact ih
  exact hlonger (by rw [← h])

-- ======== cutting in the bytes

/-- The lead byte of a character is no continuation byte. -/
theorem Encodes.lead_not_cont {b : UInt8} {bs : List UInt8}
    (h : Encodes c b bs) : isCont b = false := by
  cases hb : isCont b with
  | false => rfl
  | true =>
    -- such a byte decodes to a replacement by itself
    have hone := h.whole []
    rw [decodeOne_cont hb, Prod.mk.injEq] at hone
    obtain ⟨rfl, hlen⟩ := hone
    have heq := congrArg List.length h.eq
    rw [List.length_cons, ← hlen] at heq
    exact absurd heq (by decide)

/-- The text's bytes do not start inside a character. -/
theorem takeWhile_isCont_encode (cs : List Char) :
    (encode cs).takeWhile isCont = [] := by
  cases cs with
  | nil => rfl
  | cons c cs =>
    obtain ⟨b, bs, h⟩ := exists_encodes c
    rw [encode_cons, h.eq, List.cons_append,
      List.takeWhile_cons_of_neg (by rw [h.lead_not_cont]; decide)]

/-- `while (start < buffer.length && (buffer[start] & 0xc0) === 0x80)`
`start++`. -/
def charBoundary (buffer : List UInt8) (start : Nat) : Nat :=
  start + ((buffer.drop start).takeWhile isCont).length

/-- The boundary found is that between two characters: the first at or
after the byte looked at. -/
theorem charBoundary_encode {s : Nat} (hs : s ≤ byteLength cs) :
    ∃ before after, cs = before ++ after
      ∧ charBoundary (encode cs) s = byteLength before
      ∧ s ≤ byteLength before
      ∧ ∀ p c, before = p ++ [c] → byteLength p < s := by
  induction cs generalizing s with
  | nil =>
    refine ⟨[], [], rfl, ?_, hs, fun p c h => ?_⟩
    · obtain rfl : s = 0 := Nat.le_zero.1 hs
      rfl
    · exact absurd h (by simp)
  | cons c cs ih =>
    obtain ⟨b, bs, h⟩ := exists_encodes c
    have hlen : byteLength [c] = bs.length + 1 := by
      rw [byteLength, encode_cons, h.eq, encode_nil, List.append_nil,
        List.length_cons]
    by_cases hzero : s = 0
    · subst hzero
      refine ⟨[], c :: cs, rfl, ?_, Nat.le_refl 0, fun p d hd => ?_⟩
      · rw [charBoundary, List.drop_zero, takeWhile_isCont_encode]
        rfl
      · exact absurd hd (by simp)
    by_cases hin : s ≤ bs.length + 1
    · -- inside the first character: the rest of it is skipped
      obtain ⟨s, rfl⟩ := Nat.exists_eq_succ_of_ne_zero hzero
      refine ⟨[c], cs, rfl, ?_, hlen ▸ hin, fun p d hd => ?_⟩
      · rw [charBoundary, encode_cons, h.eq, List.cons_append,
          List.drop_succ_cons, List.drop_append_of_le_length (by omega),
          List.takeWhile_append_of_pos
            fun x hx => h.cont x (List.mem_of_mem_drop hx),
          takeWhile_isCont_encode, List.append_nil, List.length_drop, hlen]
        omega
      · have hp : p = [] := by
          have := congrArg List.length hd
          simp only [List.length_append, List.length_singleton] at this
          exact List.eq_nil_of_length_eq_zero (by omega)
        rw [hp]
        exact Nat.succ_pos s
    · -- after it
      have hs' : s - (bs.length + 1) ≤ byteLength cs := by
        rw [byteLength_cons, hlen] at hs
        omega
      obtain ⟨before, after, hcs, hstart, hle, hmin⟩ := ih hs'
      refine ⟨c :: before, after, by rw [hcs]; rfl, ?_, ?_, ?_⟩
      · have hdrop : (encode (c :: cs)).drop s
            = (encode cs).drop (s - (bs.length + 1)) := by
          rw [encode_cons, h.eq]
          conv_lhs => rw [show s = (b :: bs).length
            + (s - (bs.length + 1)) by rw [List.length_cons]; omega]
          exact List.drop_length_add_append _
        rw [charBoundary, hdrop, byteLength_cons, ← hstart, charBoundary, hlen]
        omega
      · rw [byteLength_cons, hlen]
        omega
      · intro p d hd
        cases p with
        | nil =>
          have := Nat.pos_of_ne_zero hzero
          exact this
        | cons e p =>
          rw [List.cons_append, List.cons.injEq] at hd
          have := hmin p d hd.2
          rw [← hd.1, byteLength_cons, hlen]
          omega

/-- Cutting the bytes keeps the longest suffix that fits. -/
theorem exists_before_lastBytes (hn : n ≤ byteLength cs) :
    ∃ before, cs = before ++ lastBytes n cs
      ∧ charBoundary (encode cs) (byteLength cs - n) = byteLength before := by
  obtain ⟨before, after, hcs, hstart, hle, hmin⟩ :=
    charBoundary_encode (Nat.sub_le (byteLength cs) n)
  have hlen : byteLength cs = byteLength before + byteLength after := by
    conv_lhs => rw [hcs, byteLength_append]
  have hafter : lastBytes n cs = after := by
    have hfits : lastBytes n after = after := lastBytes_of_le (by omega)
    rcases List.eq_nil_or_concat' before with rfl | ⟨p, c, rfl⟩
    · rw [hcs, List.nil_append, hfits]
    · have hp := hmin p c rfl
      rw [byteLength_append] at hlen
      rw [hcs, List.append_assoc, List.singleton_append, lastBytes_append,
        hfits]
      rw [byteLength_cons]
      omega
  exact ⟨before, by rw [hafter]; exact hcs, hstart⟩

/-- `buffer.subarray(start).toString("utf-8")` from such a boundary. -/
theorem decode_drop_charBoundary (hn : n ≤ byteLength cs) :
    decode ((encode cs).drop
      (charBoundary (encode cs) (byteLength cs - n))) = lastBytes n cs := by
  obtain ⟨before, hcs, hstart⟩ := exists_before_lastBytes hn
  rw [hstart]
  conv_lhs => rw [hcs, encode_append, byteLength, List.drop_left]
  exact decode_encode _

/-- The byte in front of a boundary is a newline's when the character
is. -/
theorem newline_before_iff (p after : List Char) (c : Char) :
    (encode (p ++ [c] ++ after))[byteLength (p ++ [c]) - 1]? = some 0x0a
      ↔ c = '\n' := by
  obtain ⟨b, bs, h⟩ := exists_encodes c
  have henc : encode [c] = b :: bs := by
    rw [encode_cons, h.eq, encode_nil, List.append_nil]
  have hlast : (encode (p ++ [c] ++ after))[byteLength (p ++ [c]) - 1]?
      = (b :: bs)[bs.length]? := by
    rw [byteLength_append, byteLength, byteLength, henc, encode_append,
      encode_append, henc, List.append_assoc, List.length_cons,
      List.getElem?_append_right (by omega)]
    rw [show (encode p).length + (bs.length + 1) - 1 - (encode p).length
      = bs.length by omega]
    exact List.getElem?_append_left (by rw [List.length_cons]; omega)
  rw [hlast]
  constructor
  · intro hb
    rcases List.eq_nil_or_concat' bs with rfl | ⟨q, x, rfl⟩
    · have hb : b = 0x0a := by simpa using hb
      rcases h.lead with hn | hn
      · rw [hb] at hn
        exact Char.ext (UInt32.toNat_inj.1 hn.symm)
      · rw [hb] at hn
        exact absurd hn (by decide)
    · have hx : x = 0x0a := by simpa using hb
      have hcont := h.cont x (by simp)
      rw [hx] at hcont
      exact absurd hcont (by decide)
  · rintro rfl
    have heq : b :: bs = [0x0a] := by rw [← henc]; decide
    rw [List.cons.injEq] at heq
    rw [heq.1, heq.2]
    rfl

end OneHarness.Lib.Utf8
