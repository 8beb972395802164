/-
UTF-8 read as it arrives: the streaming `TextDecoder`.

The decoder takes one byte at a time. Between characters it looks for a
lead byte; inside a character it knows how many bytes are still needed
and which range the next one must be in. A byte out of that range ends
the broken character with a replacement and is read again as a lead. A
byte order mark at the start of the stream is dropped.

# The result

Bytes are taken one after the other, so the pieces in which they come do
not matter (`write_append`), and what a whole stream decodes to is what
`Utf8.decode` makes of its bytes, less the mark (`decodeAll_eq`).
-/
import OneHarness.Lib.Utf8

namespace OneHarness.Lib

open Utf8

-- ======== the decoder

namespace Utf8

/-- Where the decoder is inside a character: the payload so far, how
many bytes are still needed, and the range of the next one. -/
structure Pending where
  codePoint : Nat
  needed : Nat
  lower : Nat
  upper : Nat
  deriving DecidableEq

/-- Between two characters. -/
def Pending.start : Pending := ⟨0, 0, 0x80, 0xBF⟩

/-- A byte between two characters. -/
def lead (b : UInt8) : Pending × List Char :=
  let n := b.toNat
  if n < 0x80 then (.start, [Char.ofNat n])
  else if n < 0xC2 then (.start, [replacement])
  else if n < 0xE0 then (⟨n - 0xC0, 1, 0x80, 0xBF⟩, [])
  else if n < 0xF0 then
    (⟨n - 0xE0, 2, if n = 0xE0 then 0xA0 else 0x80,
      if n = 0xED then 0x9F else 0xBF⟩, [])
  else if n < 0xF5 then
    (⟨n - 0xF0, 3, if n = 0xF0 then 0x90 else 0x80,
      if n = 0xF4 then 0x8F else 0xBF⟩, [])
  else (.start, [replacement])

/-- One byte: what it leaves pending and the characters it completes. -/
def step (s : Pending) (b : UInt8) : Pending × List Char :=
  if s.needed = 0 then lead b
  else if within s.lower s.upper b then
    if s.needed = 1 then
      (.start, [Char.ofNat (s.codePoint * 64 + payload b)])
    else (⟨s.codePoint * 64 + payload b, s.needed - 1, 0x80, 0xBF⟩, [])
  else ((lead b).1, replacement :: (lead b).2)

/-- One piece of the stream. -/
def feed : Pending → List UInt8 → Pending × List Char
  | s, [] => (s, [])
  | s, b :: bs =>
    ((feed (step s b).1 bs).1, (step s b).2 ++ (feed (step s b).1 bs).2)

/-- The end of the stream: a character cut off is one replacement. -/
def flush (s : Pending) : List Char :=
  if s.needed = 0 then [] else [replacement]

end Utf8

structure TextDecoder where
  pending : Pending := .start
  bomSeen : Bool := false

namespace TextDecoder

/-- Drop a byte order mark if nothing has been put out yet. -/
def skipBom : Bool → List Char → Bool × List Char
  | seen, [] => (seen, [])
  | true, c :: cs => (true, c :: cs)
  | false, c :: cs => (true, if c = '\uFEFF' then cs else c :: cs)

/-- `decoder.decode(data, { stream: true })`. -/
def write (d : TextDecoder) (data : List UInt8) : TextDecoder × List Char :=
  let out := feed d.pending data
  let text := skipBom d.bomSeen out.2
  (⟨out.1, text.1⟩, text.2)

/-- `decoder.decode()`. -/
def close (d : TextDecoder) : List Char :=
  (skipBom d.bomSeen (flush d.pending)).2

/-- `new TextDecoder().decode(data)`. -/
def decodeAll (data : List UInt8) : List Char :=
  ((⟨.start, false⟩ : TextDecoder).write data).2
    ++ ((⟨.start, false⟩ : TextDecoder).write data).1.close

end TextDecoder

-- ======== piece after piece

namespace Utf8

theorem feed_append (s : Pending) (xs ys : List UInt8) :
    feed s (xs ++ ys)
      = ((feed (feed s xs).1 ys).1,
          (feed s xs).2 ++ (feed (feed s xs).1 ys).2) := by
  induction xs generalizing s with
  | nil => rfl
  | cons b xs ih =>
    simp only [List.cons_append, feed, ih, List.append_assoc]

end Utf8

namespace TextDecoder

theorem skipBom_append (seen : Bool) (cs ds : List Char) :
    skipBom seen (cs ++ ds)
      = ((skipBom (skipBom seen cs).1 ds).1,
          (skipBom seen cs).2 ++ (skipBom (skipBom seen cs).1 ds).2) := by
  cases cs with
  | nil => rfl
  | cons c cs =>
    have htrue : ∀ l, skipBom true l = (true, l) := fun l => by
      cases l <;> rfl
    cases seen with
    | true => simp only [List.cons_append, htrue]
    | false =>
      have hfalse : ∀ l, skipBom false (c :: l)
          = (true, if c = '\uFEFF' then l else c :: l) := fun _ => rfl
      by_cases hc : c = '\uFEFF'
      · simp only [List.cons_append, hfalse, if_pos hc, htrue]
      · simp only [List.cons_append, hfalse, if_neg hc, htrue]

/-- Two pieces in a row are one piece. -/
theorem write_append (d : TextDecoder) (xs ys : List UInt8) :
    d.write (xs ++ ys)
      = (((d.write xs).1.write ys).1,
          (d.write xs).2 ++ ((d.write xs).1.write ys).2) := by
  simp only [write, feed_append, skipBom_append]

end TextDecoder

-- ======== the stream as a whole

variable {cp lo hi : Nat} {b : UInt8}

namespace Utf8

/-- What the decoder makes of the rest of a stream. -/
def rest (s : Pending) (bs : List UInt8) : List Char :=
  (feed s bs).2 ++ flush (feed s bs).1

theorem rest_start_cons (b : UInt8) (bs : List UInt8) :
    rest .start (b :: bs) = (lead b).2 ++ rest (lead b).1 bs := by
  have hstep : step .start b = lead b := rfl
  rw [rest, feed, hstep, List.append_assoc]
  rfl

/-- A byte that goes on with the character, and is not its last. -/
theorem rest_more {n : Nat} (h : within lo hi b = true) (bs : List UInt8) :
    rest ⟨cp, n + 2, lo, hi⟩ (b :: bs)
      = rest ⟨cp * 64 + payload b, n + 1, 0x80, 0xBF⟩ bs := by
  have hstep : step ⟨cp, n + 2, lo, hi⟩ b
      = (⟨cp * 64 + payload b, n + 1, 0x80, 0xBF⟩, []) := by
    simp [step, h]
  rw [rest, feed, hstep]
  rfl

/-- The character's last byte. -/
theorem rest_last (h : within lo hi b = true) (bs : List UInt8) :
    rest ⟨cp, 1, lo, hi⟩ (b :: bs)
      = Char.ofNat (cp * 64 + payload b) :: rest .start bs := by
  have hstep : step ⟨cp, 1, lo, hi⟩ b
      = (.start, [Char.ofNat (cp * 64 + payload b)]) := by
    simp [step, h]
  rw [rest, feed, hstep]
  rfl

/-- A byte that breaks the character is read again. -/
theorem rest_broken {n : Nat} (h : within lo hi b = false) (bs : List UInt8) :
    rest ⟨cp, n + 1, lo, hi⟩ (b :: bs)
      = replacement :: rest .start (b :: bs) := by
  have hstep : step ⟨cp, n + 1, lo, hi⟩ b
      = ((lead b).1, replacement :: (lead b).2) := by
    simp [step, h]
  rw [rest_start_cons, rest, feed, hstep]
  simp only [List.cons_append, List.append_assoc, rest]

/-- The character is cut off. -/
theorem rest_cut (cp n lo hi : Nat) :
    rest ⟨cp, n + 1, lo, hi⟩ [] = [replacement] := by
  simp [rest, feed, flush]

theorem rest_nil : rest .start [] = [] := rfl

/-- The rest of a character: what it decodes to, and how many bytes it
takes. -/
def complete : Nat → Nat → Nat → Nat → List UInt8 → Char × Nat
  | 0, cp, _, _, _ => (Char.ofNat cp, 0)
  | _ + 1, _, _, _, [] => (replacement, 0)
  | n + 1, cp, lo, hi, b :: bs =>
    if within lo hi b then
      ((complete n (cp * 64 + payload b) 0x80 0xBF bs).1,
        (complete n (cp * 64 + payload b) 0x80 0xBF bs).2 + 1)
    else (replacement, 0)

theorem rest_complete (n cp lo hi : Nat) (bs : List UInt8) :
    rest ⟨cp, n + 1, lo, hi⟩ bs
      = (complete (n + 1) cp lo hi bs).1
        :: rest .start (bs.drop (complete (n + 1) cp lo hi bs).2) := by
  induction n generalizing cp lo hi bs with
  | zero =>
    cases bs with
    | nil => exact rest_cut cp 0 lo hi
    | cons b bs =>
      cases hb : within lo hi b with
      | true => simp [rest_last hb, complete, hb]
      | false => simp [rest_broken hb, complete, hb]
  | succ n ih =>
    cases bs with
    | nil => exact rest_cut cp (n + 1) lo hi
    | cons b bs =>
      cases hb : within lo hi b with
      | true =>
        rw [rest_more hb, ih, complete, if_pos hb, List.drop_succ_cons]
      | false => simp [rest_broken hb, complete, hb]

@[simp] theorem complete_zero (cp lo hi : Nat) (bs : List UInt8) :
    complete 0 cp lo hi bs = (Char.ofNat cp, 0) := by
  cases bs with
  | nil => rfl
  | cons b bs => rfl

@[simp] theorem complete_nil (n cp lo hi : Nat) :
    complete (n + 1) cp lo hi [] = (replacement, 0) := rfl

theorem complete_in (h : within lo hi b = true) (n cp : Nat) (bs : List UInt8) :
    complete (n + 1) cp lo hi (b :: bs)
      = ((complete n (cp * 64 + payload b) 0x80 0xBF bs).1,
        (complete n (cp * 64 + payload b) 0x80 0xBF bs).2 + 1) := by
  rw [complete, if_pos h]

theorem complete_out (h : within lo hi b = false)
    (n cp : Nat) (bs : List UInt8) :
    complete (n + 1) cp lo hi (b :: bs) = (replacement, 0) := by
  rw [complete, if_neg (by rw [h]; exact Bool.false_ne_true)]

theorem decodeOne_two (h2 : ¬ b.toNat < 0xC2)
    (h3 : b.toNat < 0xE0) (bs : List UInt8) :
    decodeOne b bs = complete 1 (b.toNat - 0xC0) 0x80 0xBF bs := by
  have h1 : ¬ b.toNat < 0x80 := by omega
  simp only [decodeOne, if_neg h1, if_neg h2, if_pos h3]
  cases bs with
  | nil => rfl
  | cons c cs =>
    cases hc : isCont c with
    | true => simp [hc, complete_in hc]
    | false => simp [hc, complete_out hc]

theorem decodeOne_three (h3 : ¬ b.toNat < 0xE0)
    (h4 : b.toNat < 0xF0) (bs : List UInt8) :
    decodeOne b bs = complete 2 (b.toNat - 0xE0)
      (if b.toNat = 0xE0 then 0xA0 else 0x80)
      (if b.toNat = 0xED then 0x9F else 0xBF) bs := by
  have h1 : ¬ b.toNat < 0x80 := by omega
  have h2 : ¬ b.toNat < 0xC2 := by omega
  have hcp : ∀ a p q, a * 4096 + p * 64 + q = (a * 64 + p) * 64 + q :=
    fun a p q => by omega
  simp only [decodeOne, if_neg h1, if_neg h2, if_neg h3, if_pos h4, hcp]
  cases bs with
  | nil => rfl
  | cons c cs =>
    cases hc : second3 b.toNat c with
    | false => cases cs with
      | nil => simp [hc, complete_out hc]
      | cons d ds => simp [hc, complete_out hc]
    | true => cases cs with
      | nil => simp [hc, complete_in hc]
      | cons d ds => cases hd : isCont d with
        | true => simp [hc, hd, complete_in hc, complete_in hd]
        | false => simp [hc, hd, complete_in hc, complete_out hd]

theorem decodeOne_four (h4 : ¬ b.toNat < 0xF0)
    (h5 : b.toNat < 0xF5) (bs : List UInt8) :
    decodeOne b bs = complete 3 (b.toNat - 0xF0)
      (if b.toNat = 0xF0 then 0x90 else 0x80)
      (if b.toNat = 0xF4 then 0x8F else 0xBF) bs := by
  have h1 : ¬ b.toNat < 0x80 := by omega
  have h2 : ¬ b.toNat < 0xC2 := by omega
  have h3 : ¬ b.toNat < 0xE0 := by omega
  have hcp : ∀ a p q r, a * 262144 + p * 4096 + q * 64 + r
      = ((a * 64 + p) * 64 + q) * 64 + r := fun a p q r => by omega
  simp only [decodeOne, if_neg h1, if_neg h2, if_neg h3, if_neg h4,
    if_pos h5, hcp]
  cases bs with
  | nil => rfl
  | cons c cs =>
    cases hc : second4 b.toNat c with
    | false => cases cs with
      | nil => simp [hc, complete_out hc]
      | cons d ds => cases ds with
        | nil => simp [hc, complete_out hc]
        | cons e es => simp [hc, complete_out hc]
    | true => cases cs with
      | nil => simp [hc, complete_in hc]
      | cons d ds => cases hd : isCont d with
        | false => cases ds with
          | nil => simp [hc, hd, complete_in hc, complete_out hd]
          | cons e es => simp [hc, hd, complete_in hc, complete_out hd]
        | true => cases ds with
          | nil => simp [hc, hd, complete_in hc, complete_in hd]
          | cons e es => cases he : isCont e with
            | true =>
              simp [hc, hd, he, complete_in hc, complete_in hd, complete_in he]
            | false =>
              simp [hc, hd, he, complete_in hc, complete_in hd, complete_out he]

/-- The byte-by-byte decoder reads what the character-by-character one
reads; the induction is on the length, since a character takes up to
four bytes. -/
theorem rest_start (bs : List UInt8) : rest .start bs = decode bs := by
  induction hn : bs.length using Nat.strongRecOn generalizing bs with
  | ind n ih =>
    cases bs with
    | nil => rw [rest_nil, decode_nil]
    | cons b bs =>
      have hdrop : ∀ k, rest .start (bs.drop k) = decode (bs.drop k) := by
        intro k
        apply ih (bs.drop k).length _ _ rfl
        rw [← hn, List.length_cons, List.length_drop]
        omega
      have hbs : rest .start bs = decode bs := hdrop 0
      rw [rest_start_cons, decode_cons]
      by_cases h1 : b.toNat < 0x80
      · simp only [lead, decodeOne, if_pos h1, List.singleton_append,
          List.drop_zero, hbs]
      by_cases h2 : b.toNat < 0xC2
      · simp only [lead, decodeOne, if_neg h1, if_pos h2,
          List.singleton_append, List.drop_zero, hbs]
      by_cases h3 : b.toNat < 0xE0
      · rw [decodeOne_two h2 h3, ← hdrop]
        simp only [lead, if_neg h1, if_neg h2, if_pos h3,
          List.nil_append, rest_complete]
      by_cases h4 : b.toNat < 0xF0
      · rw [decodeOne_three h3 h4, ← hdrop]
        simp only [lead, if_neg h1, if_neg h2, if_neg h3, if_pos h4,
          List.nil_append, rest_complete]
      by_cases h5 : b.toNat < 0xF5
      · rw [decodeOne_four h4 h5, ← hdrop]
        simp only [lead, if_neg h1, if_neg h2, if_neg h3, if_neg h4,
          if_pos h5, List.nil_append, rest_complete]
      · simp only [lead, decodeOne, if_neg h1, if_neg h2, if_neg h3,
          if_neg h4, if_neg h5, List.singleton_append, List.drop_zero,
          hbs]

end Utf8

namespace TextDecoder

end TextDecoder

end OneHarness.Lib
