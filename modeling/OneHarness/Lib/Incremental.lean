/-
Incremental readers: a stream arrives in pieces, and what is complete in
the buffer is taken off its front.

`next` looks at a buffer: it asks for more, takes one item off the front,
or fails. `Codes next b f` says that `b` is the writing of `f`: whatever
follows `b`, the reader takes `f` and uses `b` up, and with less than `b`
it asks for more.

# The result

Over the writings of a list of items, however they are cut into pieces,
the items read are those whose writing has arrived whole, and the buffer
is the rest of what has arrived (`Reads.piece`, piece by piece).
-/
import Mathlib.Data.List.Forall2
import Mathlib.Tactic.Common

namespace OneHarness.Lib.Incremental

universe u v w

variable {β : Type u} {φ : Type v} {ε : Type w}

/-- What the reader makes of a buffer: an item and its length, or
`none` to ask for more. -/
abbrev Next (β : Type u) (φ : Type v) (ε : Type w) :=
  List β → Except ε (Option (φ × Nat))

/-- Take items off the front of the buffer while there are any. -/
def drain (next : Next β φ ε) : Nat → List β → Except ε (List φ × List β)
  | 0, buffer => .ok ([], buffer)
  | fuel + 1, buffer =>
    match next buffer with
    | .error e => .error e
    | .ok none => .ok ([], buffer)
    | .ok (some (item, n)) =>
      (drain next fuel (buffer.drop n)).map fun p => (item :: p.1, p.2)

/-- `b` is the writing of `f`. -/
structure Codes (next : Next β φ ε) (b : List β) (f : φ) : Prop where
  nonempty : b ≠ []
  whole : ∀ r, next (b ++ r) = .ok (some (f, b.length))
  part : ∀ p, p <+: b → p ≠ b → next p = .ok none

/-- Of writings `bs`, the first `k` have arrived whole with `n` elements. -/
structure Arrived (bs : List (List β)) (n k : Nat) : Prop where
  le_length : k ≤ bs.length
  le_arrived : (bs.take k).flatten.length ≤ n
  maximal : k < bs.length → n < (bs.take (k + 1)).flatten.length

variable {bs : List (List β)} {k : Nat}

theorem Arrived.cons {b : List β} {n : Nat}
    (h : Arrived bs n k) : Arrived (b :: bs) (b.length + n) (k + 1) := by
  constructor
  · have := h.le_length
    simp only [List.length_cons]
    omega
  · have := h.le_arrived
    simp only [List.take_succ_cons, List.flatten_cons, List.length_append]
    omega
  · intro hk
    have := h.maximal (by simpa using hk)
    simp only [List.take_succ_cons, List.flatten_cons, List.length_append]
    omega

/-- With everything there, everything has arrived. -/
theorem Arrived.all (h : Arrived bs bs.flatten.length k) : k = bs.length := by
  by_contra hne
  have hlt : k < bs.length := Nat.lt_of_le_of_ne h.le_length hne
  have hle : (bs.take (k + 1)).flatten.length ≤ bs.flatten.length := by
    conv_rhs => rw [← List.take_append_drop (k + 1) bs, List.flatten_append]
    rw [List.length_append]
    exact Nat.le_add_right _ _
  exact absurd (h.maximal hlt) (Nat.not_lt.2 hle)

variable {buffer rest : List β}

/-- The buffer holds what has arrived of the writings of `fs`. -/
theorem drain_codes {next : Next β φ ε} {fs : List φ}
    (hcodes : List.Forall₂ (Codes next) bs fs) (hnil : next [] = .ok none)
    (hbuffer : buffer ++ rest = bs.flatten)
    {fuel : Nat} (hfuel : buffer.length ≤ fuel) :
    ∃ k, Arrived bs buffer.length k
      ∧ drain next fuel buffer
        = .ok (fs.take k, buffer.drop (bs.take k).flatten.length) := by
  induction hcodes generalizing buffer fuel with
  | nil =>
    have hb : buffer = [] := (List.append_eq_nil_iff.1 hbuffer).1
    subst hb
    refine ⟨0, ⟨Nat.le_refl 0, Nat.le_refl 0, fun h => absurd h (by simp)⟩, ?_⟩
    cases fuel with
    | zero => rfl
    | succ fuel => simp [drain, hnil]
  | @cons b f bs fs hb hbs ih =>
    by_cases hle : b.length ≤ buffer.length
    · -- the first writing is there
      have hsplit : buffer = b ++ buffer.drop b.length := by
        have htake := congrArg (List.take b.length) hbuffer
        rw [List.take_append_of_le_length hle, List.flatten_cons,
          List.take_left] at htake
        conv_lhs => rw [← List.take_append_drop b.length buffer, htake]
      have hrest : buffer.drop b.length ++ rest = bs.flatten := by
        rw [hsplit, List.flatten_cons, List.append_assoc] at hbuffer
        exact List.append_cancel_left hbuffer
      have hpos : 0 < b.length := List.length_pos_iff.2 hb.nonempty
      cases fuel with
      | zero => omega
      | succ fuel =>
        have hlen : (buffer.drop b.length).length ≤ fuel := by
          rw [List.length_drop]
          omega
        obtain ⟨k, harr, hdrain⟩ := ih hrest hlen
        refine ⟨k + 1, ?_, ?_⟩
        · have h := harr.cons (b := b)
          rw [List.length_drop, Nat.add_sub_cancel' hle] at h
          exact h
        · have hnext : next buffer = .ok (some (f, b.length)) := by
            rw [hsplit]
            exact hb.whole _
          simp only [drain, hnext, hdrain, Except.map, List.take_succ_cons,
            List.flatten_cons, List.length_append, List.drop_drop]
    · -- not yet
      have hlt : buffer.length < b.length := Nat.lt_of_not_le hle
      refine ⟨0, ⟨Nat.zero_le _, Nat.zero_le _, fun _ => ?_⟩, ?_⟩
      · simpa using hlt
      · have hpre : buffer <+: b := by
          have h₁ : buffer <+: (b :: bs).flatten := ⟨rest, hbuffer⟩
          have h₂ : b <+: (b :: bs).flatten := ⟨bs.flatten, rfl⟩
          exact List.prefix_of_prefix_length_le h₁ h₂ (Nat.le_of_lt hlt)
        have hne : buffer ≠ b := fun h => by
          rw [h] at hlt
          exact Nat.lt_irrefl _ hlt
        cases fuel with
        | zero => rfl
        | succ fuel => simp [drain, hb.part buffer hpre hne]

-- ======== the pieces

/-- With `arrived` of the stream there, `k` items were read and `buffer`
is left. -/
structure Reads (bs : List (List β)) (arrived : List β) (k : Nat)
    (buffer : List β) : Prop where
  items : Arrived bs arrived.length k
  left : buffer = arrived.drop (bs.take k).flatten.length

theorem Reads.nil (h : ∀ b ∈ bs, b ≠ []) :
    Reads bs [] 0 [] where
  items :=
    { le_length := Nat.zero_le _
      le_arrived := Nat.zero_le _
      maximal := fun hk => by
        cases bs with
        | nil => exact absurd hk (Nat.lt_irrefl 0)
        | cons b bs =>
          have := List.length_pos_iff.2 (h b List.mem_cons_self)
          simpa using this }
  left := rfl

variable {arrived : List β}

theorem Reads.length_left (h : Reads bs arrived k buffer) :
    buffer.length + (bs.take k).flatten.length = arrived.length := by
  rw [h.left, List.length_drop]
  have := h.items.le_arrived
  omega

/-- What was read is the front of the stream, and the buffer follows. -/
theorem Reads.arrived_eq (h : Reads bs arrived k buffer)
    (hstream : arrived ++ rest = bs.flatten) :
    arrived = (bs.take k).flatten ++ buffer
      ∧ buffer ++ rest = (bs.drop k).flatten := by
  have hsplit : bs.flatten = (bs.take k).flatten ++ (bs.drop k).flatten := by
    rw [← List.flatten_append, List.take_append_drop]
  have htake : arrived.take (bs.take k).flatten.length
      = (bs.take k).flatten := by
    have h' := congrArg (List.take (bs.take k).flatten.length) hstream
    rw [List.take_append_of_le_length h.items.le_arrived, hsplit,
      List.take_left] at h'
    exact h'
  have harr : arrived = (bs.take k).flatten ++ buffer := by
    conv_lhs =>
      rw [← List.take_append_drop (bs.take k).flatten.length arrived, htake,
        ← h.left]
  refine ⟨harr, ?_⟩
  rw [harr, hsplit, List.append_assoc] at hstream
  exact List.append_cancel_left hstream

/-- Items counted from the `k`-th on. -/
theorem Arrived.add {n j : Nat}
    (hk : k ≤ bs.length) (hn : (bs.take k).flatten.length ≤ n)
    (h : Arrived (bs.drop k) (n - (bs.take k).flatten.length) j) :
    Arrived bs n (k + j) := by
  have htake : ∀ i, (bs.take (k + i)).flatten.length
      = (bs.take k).flatten.length + ((bs.drop k).take i).flatten.length := by
    intro i
    rw [List.take_add, List.flatten_append, List.length_append]
  constructor
  · have := h.le_length
    rw [List.length_drop] at this
    omega
  · have := h.le_arrived
    rw [htake]
    omega
  · intro hlt
    have := h.maximal (by rw [List.length_drop]; omega)
    rw [Nat.add_assoc, htake]
    omega

/-- One more piece. -/
theorem Reads.piece {next : Next β φ ε} {fs : List φ}
    (hcodes : List.Forall₂ (Codes next) bs fs) (hnil : next [] = .ok none)
    {piece : List β}
    (h : Reads bs arrived k buffer)
    (hstream : arrived ++ piece ++ rest = bs.flatten) {fuel : Nat}
    (hfuel : (buffer ++ piece).length ≤ fuel) :
    ∃ j buffer', Reads bs (arrived ++ piece) (k + j) buffer'
      ∧ drain next fuel (buffer ++ piece)
        = .ok ((fs.drop k).take j, buffer') := by
  rw [List.append_assoc] at hstream
  obtain ⟨harr, hleft⟩ := h.arrived_eq hstream
  obtain ⟨j, hj, hdrain⟩ := drain_codes (List.forall₂_drop k hcodes) hnil
    ((List.append_assoc ..).trans hleft) hfuel
  refine ⟨j, _, ⟨?_, ?_⟩, hdrain⟩
  · apply Arrived.add h.items.le_length
    · have := h.items.le_arrived
      rw [List.length_append]
      omega
    · have hlen := h.length_left
      rw [List.length_append] at hj
      rw [List.length_append]
      have heq : arrived.length + piece.length - (bs.take k).flatten.length
          = buffer.length + piece.length := by omega
      rw [heq]
      exact hj
  · rw [List.take_add, List.flatten_append, List.length_append,
      ← List.drop_drop, harr, List.append_assoc, List.drop_left]

end OneHarness.Lib.Incremental
