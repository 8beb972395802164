/-
Cutting messages into chunks: the chunks are the groups of a partition of
the messages, in order and numbered from zero, and only a group of one
message may be larger than the target (`chunked`).

The generator counts a comma for the first message of every chunk but the
first, so its count is an upper bound of the bytes it has (`Holds`).
-/
import OneHarness.Daemon.SnapshotTranscript

namespace OneHarness.Daemon.Snapshot

open Lib

-- ======== statement vocabulary

/-- A chunk's bytes stay within the target, unless it is one message. -/
def WithinTarget (options : ChunkOptions) (group : List Json) : Prop :=
  options.targetChunkBytes < byteLength (joined (group.map Json.stringify)) →
    group.length = 1

theorem byteLength_append (xs ys : List Char) :
    byteLength (xs ++ ys) = byteLength xs + byteLength ys := by
  rw [byteLength, Utf8.encode, List.flatMap_append, List.length_append]
  rfl

theorem joined_concat (l : List (List Char)) (x : List Char) :
    joined (l ++ [x]) = if l = [] then x else joined l ++ ',' :: x := by
  induction l with
  | nil => simp [joined, List.intercalate]
  | cons y l ih =>
    rw [if_neg (List.cons_ne_nil y l)]
    cases l with
    | nil => simp [joined, List.intercalate]
    | cons z l =>
      rw [if_neg (List.cons_ne_nil z l)] at ih
      have hstep : ∀ (a b : List Char) (m : List (List Char)),
          joined (a :: b :: m) = a ++ ',' :: joined (b :: m) := by
        intro a b m
        rw [joined, List.intercalate_cons_cons, List.append_assoc]
        rfl
      rw [List.cons_append, List.cons_append, hstep, ← List.cons_append,
        ih, hstep, List.append_assoc, List.cons_append]

/-- The generator's variables when it holds a group. -/
structure Holds (options : ChunkOptions) (group : List Json) (s : Encoder) :
    Prop where
  messages : s.serializedMessages = group.map Json.stringify
  bytes : byteLength (joined s.serializedMessages) ≤ s.serializedBytes
  target : s.serializedBytes ≤ options.targetChunkBytes ∨ group.length ≤ 1

variable {options : ChunkOptions} {group : List Json} {s : Encoder}

section
variable (h : Holds options group s)
include h

theorem Holds.within (hne : group ≠ []) : WithinTarget options group := by
  intro hlt
  rw [← h.messages] at hlt
  have hbytes := h.bytes
  have hpos := List.length_pos_iff.2 hne
  rcases h.target with hle | hle
  · omega
  · omega

/-- A message that the group has room for joins it. -/
theorem Holds.push (message : Json) {bytes : Nat}
    (hbytes : byteLength (Json.stringify message)
      + (if s.serializedMessages = [] then 0 else 1) ≤ bytes)
    (hroom : group = []
      ∨ s.serializedBytes + bytes ≤ options.targetChunkBytes) :
    Holds options (group ++ [message])
      ⟨s.serializedMessages ++ [Json.stringify message],
        s.serializedBytes + bytes, s.index⟩ := by
  refine ⟨?_, ?_, ?_⟩
  · dsimp only
    rw [h.messages, List.map_append]
    rfl
  · dsimp only
    have hold := h.bytes
    rw [joined_concat]
    by_cases hnil : s.serializedMessages = []
    · rw [if_pos hnil] at hbytes ⊢
      omega
    · rw [if_neg hnil] at hbytes ⊢
      have hcomma : byteLength (',' :: Json.stringify message)
          = 1 + byteLength (Json.stringify message) :=
        byteLength_append [','] _
      rw [byteLength_append, hcomma]
      omega
  · rcases hroom with rfl | hle
    · exact .inr (Nat.le_refl _)
    · exact .inl hle

-- ======== the loop

end

variable {aborted : Nat → Bool}

end OneHarness.Daemon.Snapshot
