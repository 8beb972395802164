/-
A streamed output and the truncation of the whole.

# The window

What an accumulator keeps of the text is a suffix, its window. Where the
window starts is a matter of how the text came in pieces (`windowStart`):
it slides when more than twice the rolling size is kept.

# The result

The totals and the flag agree always. The content agrees unless the
window starts inside the last line that is not blank while blank lines
follow (`CutsLastLine`): a truncation of the whole keeps the end of that
line, and the accumulator has left all of it out as partial.
-/
import OneHarness.Tools.OutputAccumulator
import OneHarness.Tools.Proofs.Truncate

namespace OneHarness.Tools

open Lib
open Lib.Utf8

-- ======== the window

/-- One more piece of a text: the text so far and where its window
starts. -/
def slide (rolling : Nat) (w : List Char × Nat) (piece : List Char) :
    List Char × Nat :=
  let text := w.1 ++ piece
  let kept := text.drop w.2
  (text, if rolling * 2 < byteLength kept then
      text.length - (lastBytes rolling kept).length
    else w.2)

/-- Where the window starts after the pieces of a text. -/
def windowStart (rolling : Nat) (pieces : List (List Char)) : Nat :=
  (pieces.foldl (slide rolling) ([], 0)).2

/-- The window starts inside the line `c :: s`, right after `c`; the rest
of the text is blank lines, which do not use the limits up. -/
structure LastLineCut (text : List Char) (start maxLines maxBytes : Nat)
    (p : List Char) (c : Char) (s : List Char) (blanks : Nat) : Prop where
  text_eq : text = p ++ c :: s ++ List.replicate blanks '\n'
  start_eq : start = p.length + 1
  line : '\n' ∉ c :: s
  blanks_pos : 0 < blanks
  blanks_lt : blanks < maxLines
  blanks_le : blanks ≤ maxBytes + 1
  bytes_pos : 0 < maxBytes
  room : ¬ (blanks = maxBytes
    ∧ ∃ d, (c :: s).getLast? = some d ∧ 1 < byteLength [d])

/-- The window starts inside the last line that is not blank, and blank
lines follow it. -/
def CutsLastLine (text : List Char) (start maxLines maxBytes : Nat) :
    Prop :=
  ∃ p c s blanks, LastLineCut text start maxLines maxBytes p c s blanks

/-- What a snapshot reads of the window after the character `c`. -/
def windowText (c : Char) (kept : List Char) : List Char :=
  if c = '\n' then kept
  else if '\n' ∈ kept then (kept.dropWhile (· ≠ '\n')).tail
  else kept

/-- The last byte of a line is left, or its last character takes more. -/
theorem lastBytes_one_eq_nil_iff {line : List Char} (h : line ≠ []) :
    lastBytes 1 line = []
      ↔ ∃ d, line.getLast? = some d ∧ 1 < byteLength [d] := by
  rcases List.eq_nil_or_concat' line with rfl | ⟨q, d, rfl⟩
  · exact absurd rfl h
  have hlast : lastBytes 1 (q ++ [d]) = lastBytes 1 [d] := by
    rcases List.eq_nil_or_concat' q with rfl | ⟨q, e, rfl⟩
    · rfl
    · rw [List.append_assoc, List.singleton_append]
      apply lastBytes_append
      have hd := byteLength_pos d
      have he := byteLength_pos e
      rw [byteLength_cons]
      omega
  rw [hlast, List.getLast?_concat, lastBytes]
  by_cases hd : byteLength [d] ≤ 1
  · rw [if_pos hd]
    constructor
    · exact fun h => absurd h (by simp)
    · rintro ⟨e, he, hlt⟩
      rw [Option.some.injEq] at he
      subst he
      omega
  · rw [if_neg hd]
    exact ⟨fun _ => ⟨d, rfl, Nat.lt_of_not_le hd⟩, fun _ => rfl⟩

/-- Only the last character of a line can be its last byte. -/
theorem lastBytes_one_append {q line : List Char} (h : line ≠ []) :
    lastBytes 1 (q ++ line) = [] ↔ lastBytes 1 line = [] := by
  rw [lastBytes_one_eq_nil_iff h, lastBytes_one_eq_nil_iff
    (fun hnil => h (List.append_eq_nil_iff.1 hnil).2),
    List.getLast?_append_of_ne_nil _ h]

variable {text : List Char}

section

variable {m b : Nat} {p kept : List Char} {c : Char}

/-- The window starts with a line. -/
theorem keptTail_window_newline
    (hroll : max (b * 2) 1 < byteLength ('\n' :: kept)) :
    keptTail m b (p ++ '\n' :: kept) = keptTail m b kept := by
  apply keptTail_append_stop
  intro hfit
  have hbytes := hfit.2
  rw [join_splitOn] at hbytes
  rw [byteLength_cons, byteLength_newline] at hroll
  omega

/-- The window is inside the last line. -/
theorem keptTail_window_line (hc : '\n' ∉ c :: kept)
    (hroll : max (b * 2) 1 < byteLength (c :: kept)) :
    keptTail m b (p ++ c :: kept) = keptTail m b kept := by
  have hkept : '\n' ∉ kept := fun h => hc (List.mem_cons_of_mem _ h)
  obtain ⟨ls, q, -, hlines⟩ := exists_last_line p
  have hover : b < byteLength (q ++ c :: kept) := by
    rw [byteLength_append]
    omega
  rw [keptTail_line (hlines _ hc) hover, lastBytes_append (by omega)]
  have hsplit : kept.splitOn '\n' = [] ++ [kept] :=
    List.splitOn_eq_singleton hkept
  by_cases hle : byteLength kept ≤ b
  · rw [lastBytes_of_le hle]
    by_cases hm : 0 < m
    · rw [if_pos hm, keptTail_fit]
      rw [hsplit]
      exact ⟨hm, by simpa using hle⟩
    · rw [if_neg hm, keptTail, keptLines, hsplit]
      simp [collectTail, hm]
  · rw [keptTail_line hsplit (Nat.lt_of_not_le hle)]

/-- The cut, of a text whose window starts in a line that ends. -/
theorem cutsLastLine_iff {s after : List Char} (hline : '\n' ∉ c :: s) :
    CutsLastLine (p ++ c :: s ++ '\n' :: after) (p.length + 1) m b
      ↔ after = List.replicate (after.count '\n') '\n'
        ∧ after.count '\n' + 1 < m ∧ after.count '\n' ≤ b ∧ 0 < b
        ∧ ¬ (after.count '\n' + 1 = b ∧ lastBytes 1 (c :: s) = []) := by
  rw [lastBytes_one_eq_nil_iff (List.cons_ne_nil c s)]
  constructor
  · rintro ⟨p', c', s', blanks, h⟩
    -- the same characters before the window, and the same line in it
    obtain ⟨blanks, rfl⟩ :=
      Nat.exists_eq_succ_of_ne_zero (Nat.ne_of_gt h.blanks_pos)
    have htext := h.text_eq
    rw [List.append_assoc, List.append_assoc] at htext
    obtain ⟨rfl, hrest⟩ := List.append_inj htext
      (Nat.succ.inj h.start_eq)
    rw [List.cons_append, List.cons_append, List.replicate_succ] at hrest
    have hlines := congrArg (List.splitOn '\n') hrest
    rw [← List.cons_append, ← List.cons_append,
      List.splitOn_append_cons_self_of_not_mem hline,
      List.splitOn_append_cons_self_of_not_mem h.line,
      List.cons.injEq] at hlines
    rw [← List.cons_append, ← List.cons_append, hlines.1] at hrest
    have hafter : after = List.replicate blanks '\n' :=
      (List.cons.inj (List.append_cancel_left hrest)).2
    have hcount : after.count '\n' = blanks := by
      rw [hafter, List.count_replicate_self]
    rw [hcount, hlines.1]
    have hle := h.blanks_le
    exact ⟨hafter, h.blanks_lt, by omega, h.bytes_pos, h.room⟩
  · rintro ⟨hafter, hlt, hle, hpos, hroom⟩
    refine ⟨p, c, s, after.count '\n' + 1, ⟨?_, rfl, hline, Nat.succ_pos _,
      hlt, Nat.succ_le_succ hle, hpos, hroom⟩⟩
    rw [List.replicate_succ, ← hafter]

/-- A line's end in front of newlines is newlines when it is empty. -/
theorem append_replicate_eq_iff {t : List Char} (ht : '\n' ∉ t) (k n : Nat) :
    t ++ List.replicate k '\n' = List.replicate n '\n' ↔ t = [] ∧ k = n := by
  constructor
  · intro h
    have hmem : ∀ d ∈ t, d = '\n' := fun d hd =>
      List.eq_of_mem_replicate (h ▸ List.mem_append_left _ hd)
    have hnil : t = [] := by
      cases t with
      | nil => rfl
      | cons d t =>
        rw [hmem d List.mem_cons_self] at ht
        exact absurd List.mem_cons_self ht
    have hlen := congrArg List.length h
    rw [hnil] at hlen
    exact ⟨hnil, by simpa using hlen⟩
  · rintro ⟨rfl, rfl⟩
    rfl

/-- The window starts in a line that ends: the whole's truncation differs
exactly when the line's end would be kept. -/
theorem keptTail_window_lines_iff {s after : List Char}
    (hline : '\n' ∉ c :: s)
    (hroll : max (b * 2) 1 < byteLength (c :: s ++ '\n' :: after)) :
    keptTail m b after = keptTail m b (p ++ c :: s ++ '\n' :: after)
      ↔ ¬ CutsLastLine (p ++ c :: s ++ '\n' :: after) (p.length + 1) m b := by
  obtain ⟨ls, q, hq, hlines⟩ := exists_last_line p
  rw [cutsLastLine_iff hline]
  rw [byteLength_append, byteLength_cons '\n', byteLength_newline] at hroll
  by_cases hfit : Fit m b (after.splitOn '\n')
  · have hbytes := hfit.2
    rw [join_splitOn] at hbytes
    have hover : b < byteLength after + byteLength (q ++ c :: s) + 1 := by
      rw [byteLength_append]
      omega
    rw [keptTail_fit hfit, keptTail_long_line hfit (hlines _ hline) hover,
      length_splitOn]
    by_cases hblank : after.count '\n' + 1 < m
        ∧ after = List.replicate (after.count '\n') '\n'
    · rw [if_pos hblank]
      obtain ⟨hlt, hafter⟩ := hblank
      generalize after.count '\n' = n at hlt hafter
      subst hafter
      rw [byteLength_newlines] at hbytes
      have ht : '\n' ∉ lastBytes (b - min (n + 1) (b - 1)) (q ++ c :: s) :=
        fun h => (List.mem_append.1 ((lastBytes_suffix _ _).subset h)).elim
          hq hline
      rw [eq_comm, append_replicate_eq_iff ht]
      by_cases hb : 0 < b
      · -- equal when a blank line gives way to a byte the line cannot use
        have hkept : min (n + 1) (b - 1) = n ↔ n + 1 = b := by omega
        rw [hkept]
        constructor
        · rintro ⟨hnil, rfl⟩ hcut
          rw [show n + 1 - min (n + 1) (n + 1 - 1) = 1 by omega,
            lastBytes_one_append (List.cons_ne_nil c s)] at hnil
          exact hcut.2.2.2.2 ⟨rfl, hnil⟩
        · intro hcut
          by_contra hne
          refine hcut ⟨rfl, hlt, hbytes, hb, fun h => hne ?_⟩
          obtain ⟨rfl, hnil⟩ := h
          rw [show n + 1 - min (n + 1) (n + 1 - 1) = 1 by omega,
            lastBytes_one_append (List.cons_ne_nil c s)]
          exact ⟨hnil, rfl⟩
      · -- with no bytes to keep there is nothing to lose
        obtain rfl : b = 0 := by omega
        obtain rfl : n = 0 := by omega
        refine ⟨fun _ h => hb h.2.2.2.1, fun _ => ⟨?_, rfl⟩⟩
        apply eq_nil_of_byteLength
        exact Nat.le_zero.1 (byteLength_lastBytes_le 0 _)
    · rw [if_neg hblank]
      exact ⟨fun _ h => hblank ⟨h.2.1, h.1⟩, fun _ => rfl⟩
  · rw [keptTail_append_stop hfit]
    refine ⟨fun _ h => hfit ⟨?_, ?_⟩, fun _ => rfl⟩
    · rw [length_splitOn]
      exact Nat.le_of_lt h.2.1
    · rw [join_splitOn, h.1, byteLength_newlines]
      exact h.2.2.1

/-- No cut before the window without a line that goes on into it. -/
theorem not_cutsLastLine
    (htext : text = p ++ c :: kept) (hc : c = '\n' ∨ '\n' ∉ c :: kept) :
    ¬ CutsLastLine text (p.length + 1) m b := by
  rintro ⟨p', c', s', blanks, h⟩
  have heq := h.text_eq
  rw [htext, List.append_assoc] at heq
  obtain ⟨-, heq⟩ := List.append_inj heq (Nat.succ.inj h.start_eq)
  rw [List.cons_append, List.cons.injEq] at heq
  rcases hc with hc | hc
  · exact h.line (by rw [← heq.1, hc]; exact List.mem_cons_self)
  · apply hc
    rw [heq.2]
    apply List.mem_cons_of_mem
    apply List.mem_append_right
    exact List.mem_replicate.2 ⟨Nat.ne_of_gt h.blanks_pos, rfl⟩

/-- What a snapshot keeps of the window is what the whole's truncation
keeps, unless the window cuts the last line. -/
theorem keptTail_windowText_iff
    (hroll : max (b * 2) 1 < byteLength (c :: kept)) :
    keptTail m b (windowText c kept) = keptTail m b (p ++ c :: kept)
      ↔ ¬ CutsLastLine (p ++ c :: kept) (p.length + 1) m b := by
  rw [windowText]
  by_cases hc : c = '\n'
  · rw [if_pos hc]
    subst hc
    exact ⟨fun _ => not_cutsLastLine rfl (Or.inl rfl),
      fun _ => (keptTail_window_newline hroll).symm⟩
  rw [if_neg hc]
  by_cases hmem : '\n' ∈ kept
  · rw [if_pos hmem]
    obtain ⟨s, after, rfl, hs⟩ := List.eq_append_cons_of_mem hmem
    have hline : '\n' ∉ c :: s :=
      List.not_mem_cons_of_ne_of_not_mem (Ne.symm hc) hs
    have hne : ∀ d ∈ s, decide (d ≠ '\n') = true := fun d hd =>
      decide_eq_true fun h => hs (h ▸ hd)
    have htail : ((s ++ '\n' :: after).dropWhile (· ≠ '\n')).tail = after := by
      rw [List.dropWhile_append_of_pos hne,
        List.dropWhile_cons_of_neg (by decide), List.tail_cons]
    have heq : p ++ c :: (s ++ '\n' :: after)
        = p ++ c :: s ++ '\n' :: after := by
      rw [List.append_assoc, List.cons_append]
    rw [htail, heq]
    exact keptTail_window_lines_iff hline hroll
  · rw [if_neg hmem]
    have hline : '\n' ∉ c :: kept :=
      List.not_mem_cons_of_ne_of_not_mem (Ne.symm hc) hmem
    exact ⟨fun _ => not_cutsLastLine rfl (Or.inr hline),
      fun _ => (keptTail_window_line hline hroll).symm⟩

end

-- ======== the accumulator

/-- The accumulator has seen `text`, and keeps what follows `before`. -/
structure Tracks (acc : OutputAccumulator) (text before : List Char) :
    Prop where
  text_eq : text = before ++ acc.tailText
  bytes : acc.tailBytes = byteLength acc.tailText
  rolling : acc.maxRollingBytes = max (acc.maxBytes * 2) 1
  bounded : acc.tailBytes ≤ acc.maxRollingBytes * 2
  boundary : acc.tailStartsAtLineBoundary = true
    ↔ ∀ p c, before = p ++ [c] → c = '\n'
  rolled : ∀ p c, before = p ++ [c] →
    acc.maxRollingBytes < byteLength (c :: acc.tailText)
  decoded : acc.totalDecodedBytes = byteLength text
  lines : acc.totalLines = text.count '\n' + 1

/-- The same limits. -/
structure SameLimits (acc acc' : OutputAccumulator) : Prop where
  maxLines : acc'.maxLines = acc.maxLines
  maxBytes : acc'.maxBytes = acc.maxBytes
  rolling : acc'.maxRollingBytes = acc.maxRollingBytes

theorem SameLimits.refl (acc : OutputAccumulator) : SameLimits acc acc :=
  ⟨rfl, rfl, rfl⟩

variable {acc : OutputAccumulator}

theorem SameLimits.trans {acc' acc'' : OutputAccumulator}
    (h : SameLimits acc acc') (h' : SameLimits acc' acc'') :
    SameLimits acc acc'' :=
  ⟨h'.maxLines.trans h.maxLines, h'.maxBytes.trans h.maxBytes,
    h'.rolling.trans h.rolling⟩

variable {before : List Char}

/-- What is tracked is in the tail and the totals. -/
theorem Tracks.congr {acc' : OutputAccumulator}
    (h : Tracks acc text before)
    (hlimits : SameLimits acc acc') (htail : acc'.tailText = acc.tailText)
    (hbytes : acc'.tailBytes = acc.tailBytes)
    (hboundary : acc'.tailStartsAtLineBoundary
      = acc.tailStartsAtLineBoundary)
    (hdecoded : acc'.totalDecodedBytes = acc.totalDecodedBytes)
    (hlines : acc'.totalLines = acc.totalLines) :
    Tracks acc' text before := by
  constructor
  · rw [htail]
    exact h.text_eq
  · rw [hbytes, htail]
    exact h.bytes
  · rw [hlimits.rolling, hlimits.maxBytes]
    exact h.rolling
  · rw [hlimits.rolling, hbytes]
    exact h.bounded
  · rw [hboundary]
    exact h.boundary
  · rw [hlimits.rolling, htail]
    exact h.rolled
  · rw [hdecoded]
    exact h.decoded
  · rw [hlines]
    exact h.lines

namespace OutputAccumulator

/-- Cutting the tail back moves its start to the longest suffix within the
rolling size, and looks at the character in front of it. -/
theorem trimTail_eq (hlong : acc.maxRollingBytes < byteLength acc.tailText) :
    ∃ q d, acc.tailText
        = q ++ d :: lastBytes acc.maxRollingBytes acc.tailText
      ∧ acc.trimTail = { acc with
          tailStartsAtLineBoundary := decide (d = '\n')
          tailText := lastBytes acc.maxRollingBytes acc.tailText
          tailBytes :=
            byteLength (lastBytes acc.maxRollingBytes acc.tailText) } := by
  obtain ⟨cut, hcut, hstart⟩ :=
    exists_before_lastBytes (Nat.le_of_lt hlong)
  have hbytes := congrArg byteLength hcut
  rw [byteLength_append] at hbytes
  have hle := byteLength_lastBytes_le acc.maxRollingBytes acc.tailText
  rcases List.eq_nil_or_concat' cut with rfl | ⟨q, d, rfl⟩
  · rw [byteLength_nil] at hbytes
    omega
  have hpos := byteLength_pos d
  have hstart_pos : byteLength (q ++ [d]) ≠ 0 := by
    rw [byteLength_append]
    omega
  have hnewline : ((encode acc.tailText)[byteLength (q ++ [d]) - 1]?
      = some 0x0a) ↔ d = '\n' := by
    rw [hcut]
    exact newline_before_iff q _ d
  refine ⟨q, d, by rw [List.append_cons]; exact hcut, ?_⟩
  have hlen : (encode acc.tailText).length = byteLength acc.tailText := rfl
  rw [trimTail]
  dsimp only
  rw [hlen, if_neg (Nat.not_le.2 hlong),
    decode_drop_charBoundary (Nat.le_of_lt hlong), hstart,
    if_neg hstart_pos]
  simp only [hnewline]

/-- Counting lines adds the newlines, and leaves the tail alone. -/
theorem countLines_tracks {piece : List Char}
    (h : Tracks { acc with totalLines := acc.totalLines + piece.count '\n' }
      text before) : Tracks (acc.countLines piece) text before := by
  rw [countLines]
  split
  · rename_i hzero
    refine ⟨h.text_eq, h.bytes, h.rolling, h.bounded, h.boundary, h.rolled,
      h.decoded, ?_⟩
    have hlines := h.lines
    rw [hzero] at hlines
    exact hlines
  · exact ⟨h.text_eq, h.bytes, h.rolling, h.bounded, h.boundary, h.rolled,
      h.decoded, h.lines⟩

/-- One more piece of decoded text. -/
theorem appendDecodedText_tracks (h : Tracks acc text before)
    (piece : List Char) :
    ∃ before', Tracks (acc.appendDecodedText piece) (text ++ piece) before'
      ∧ slide acc.maxRollingBytes (text, before.length) piece
        = (text ++ piece, before'.length) := by
  have hkept : (text ++ piece).drop before.length
      = acc.tailText ++ piece := by
    rw [h.text_eq, List.append_assoc, List.drop_left]
  have hbytes : byteLength (acc.tailText ++ piece)
      = acc.tailBytes + byteLength piece := by
    rw [byteLength_append, h.bytes]
  have hslide : slide acc.maxRollingBytes (text, before.length) piece
      = (text ++ piece,
        if acc.maxRollingBytes * 2 < acc.tailBytes + byteLength piece then
          (text ++ piece).length
            - (lastBytes acc.maxRollingBytes (acc.tailText ++ piece)).length
        else before.length) := by
    rw [slide]
    dsimp only
    rw [hkept, hbytes]
  rw [hslide, appendDecodedText]
  by_cases hempty : piece.length = 0
  · rw [if_pos hempty, List.eq_nil_of_length_eq_zero hempty,
      List.append_nil]
    have hbounded := h.bounded
    refine ⟨before, h, ?_⟩
    rw [byteLength_nil, if_neg (by omega)]
  rw [if_neg hempty]
  dsimp only
  by_cases htrim : acc.maxRollingBytes * 2 < acc.tailBytes + byteLength piece
  · -- the tail is cut back, and its start moves
    rw [if_pos htrim]
    have hlong : acc.maxRollingBytes
        < byteLength (acc.tailText ++ piece) := by
      rw [hbytes]
      omega
    have htrimmed := @trimTail_eq { acc with
      totalDecodedBytes := acc.totalDecodedBytes + byteLength piece
      tailText := acc.tailText ++ piece
      tailBytes := acc.tailBytes + byteLength piece } hlong
    obtain ⟨q, d, hcut, heq⟩ := htrimmed
    dsimp only at hcut
    rw [heq]
    have hlast : ∀ p c, before ++ (q ++ [d]) = p ++ [c] → c = d := by
      intro p c hp
      rw [← List.append_assoc] at hp
      exact (List.cons.inj (List.append_inj' hp rfl).2).1.symm
    have hsplit : text ++ piece = before ++ (q ++ [d])
        ++ lastBytes acc.maxRollingBytes (acc.tailText ++ piece) := by
      calc text ++ piece = before ++ (acc.tailText ++ piece) := by
            rw [h.text_eq, List.append_assoc]
        _ = before ++ (q ++ d :: lastBytes acc.maxRollingBytes
              (acc.tailText ++ piece)) := congrArg (before ++ ·) hcut
        _ = _ := by rw [List.append_assoc, List.append_assoc]; rfl
    have hle :=
      byteLength_lastBytes_le acc.maxRollingBytes (acc.tailText ++ piece)
    refine ⟨before ++ (q ++ [d]), ?_, ?_⟩
    · apply countLines_tracks
      constructor
      · exact hsplit
      · rfl
      · exact h.rolling
      · exact Nat.le_trans hle (Nat.le_mul_of_pos_right _ Nat.two_pos)
      · rw [decide_eq_true_iff]
        constructor
        · intro hd p c hp
          rw [hlast p c hp, hd]
        · intro hall
          exact hall (before ++ q) d (List.append_assoc _ _ _).symm
      · intro p c hp
        rw [hlast p c hp]
        exact lastBytes_cut hcut
      · show acc.totalDecodedBytes + _ = _
        rw [byteLength_append, h.decoded]
      · show acc.totalLines + _ = _
        rw [List.count_append, h.lines]
        omega
    · rw [if_pos htrim, Prod.mk.injEq]
      refine ⟨rfl, ?_⟩
      rw [hsplit, List.length_append]
      omega
  · rw [if_neg htrim, if_neg htrim]
    refine ⟨before, countLines_tracks ?_, rfl⟩
    constructor
    · rw [h.text_eq, List.append_assoc]
    · exact hbytes.symm
    · exact h.rolling
    · exact Nat.le_of_not_lt htrim
    · exact h.boundary
    · intro p c hp
      show acc.maxRollingBytes < byteLength (c :: (acc.tailText ++ piece))
      rw [← List.cons_append, byteLength_append]
      exact Nat.lt_of_lt_of_le (h.rolled p c hp) (Nat.le_add_right _ _)
    · show acc.totalDecodedBytes + _ = _
      rw [byteLength_append, h.decoded]
    · show acc.totalLines + _ = _
      rw [List.count_append, h.lines]
      omega

theorem appendDecodedText_frame (acc : OutputAccumulator) (piece : List Char) :
    SameLimits acc (acc.appendDecodedText piece)
      ∧ (acc.appendDecodedText piece).decoder = acc.decoder
      ∧ (acc.appendDecodedText piece).finished = acc.finished := by
  have hcount : ∀ a : OutputAccumulator, SameLimits a (a.countLines piece)
      ∧ (a.countLines piece).decoder = a.decoder
      ∧ (a.countLines piece).finished = a.finished := by
    intro a
    rw [countLines]
    split
    · exact ⟨⟨rfl, rfl, rfl⟩, rfl, rfl⟩
    · exact ⟨⟨rfl, rfl, rfl⟩, rfl, rfl⟩
  have htrim : ∀ a : OutputAccumulator, SameLimits a a.trimTail
      ∧ a.trimTail.decoder = a.decoder
      ∧ a.trimTail.finished = a.finished := by
    intro a
    rw [trimTail]
    dsimp only
    split
    · exact ⟨⟨rfl, rfl, rfl⟩, rfl, rfl⟩
    · exact ⟨⟨rfl, rfl, rfl⟩, rfl, rfl⟩
  rw [appendDecodedText]
  split
  · exact ⟨SameLimits.refl acc, rfl, rfl⟩
  · dsimp only
    split
    · obtain ⟨hlimits, hdecoder, hfinished⟩ := hcount (trimTail { acc with
        totalDecodedBytes := acc.totalDecodedBytes + byteLength piece
        tailText := acc.tailText ++ piece
        tailBytes := acc.tailBytes + byteLength piece })
      obtain ⟨hlimits', hdecoder', hfinished'⟩ := htrim { acc with
        totalDecodedBytes := acc.totalDecodedBytes + byteLength piece
        tailText := acc.tailText ++ piece
        tailBytes := acc.tailBytes + byteLength piece }
      have hall := hlimits'.trans hlimits
      exact ⟨⟨hall.1, hall.2, hall.3⟩,
        hdecoder.trans hdecoder', hfinished.trans hfinished'⟩
    · obtain ⟨hlimits, hdecoder, hfinished⟩ := hcount { acc with
        totalDecodedBytes := acc.totalDecodedBytes + byteLength piece
        tailText := acc.tailText ++ piece
        tailBytes := acc.tailBytes + byteLength piece }
      exact ⟨⟨hlimits.1, hlimits.2, hlimits.3⟩, hdecoder, hfinished⟩

/-- An accumulator that is not finished takes a chunk. -/
theorem append_tracks
    (hfinished : acc.finished = false) (h : Tracks acc text before)
    (tempFilePath : String → String) (data : List UInt8) :
    ∃ acc' before', acc.append tempFilePath data = .ok acc'
      ∧ acc'.finished = false
      ∧ acc'.decoder = (acc.decoder.write data).1
      ∧ SameLimits acc acc'
      ∧ Tracks acc' (text ++ (acc.decoder.write data).2) before'
      ∧ slide acc.maxRollingBytes (text, before.length)
          (acc.decoder.write data).2
        = (text ++ (acc.decoder.write data).2, before'.length) := by
  have hread : Tracks { acc with
      totalRawBytes := acc.totalRawBytes + data.length
      decoder := (acc.decoder.write data).1 } text before :=
    h.congr ⟨rfl, rfl, rfl⟩ rfl rfl rfl rfl rfl
  obtain ⟨before', htracks, hslide⟩ :=
    appendDecodedText_tracks hread (acc.decoder.write data).2
  obtain ⟨hlimits, hdecoder, hfin⟩ := appendDecodedText_frame { acc with
      totalRawBytes := acc.totalRawBytes + data.length
      decoder := (acc.decoder.write data).1 } (acc.decoder.write data).2
  have hsame : SameLimits acc _ := ⟨hlimits.1, hlimits.2, hlimits.3⟩
  rw [append, if_neg (by rw [hfinished]; exact Bool.false_ne_true)]
  dsimp only
  -- what is left concerns the spill only
  split
  · exact ⟨_, before', rfl, hfin.trans hfinished, hdecoder,
      ⟨hsame.1, hsame.2, hsame.3⟩,
      htracks.congr ⟨rfl, rfl, rfl⟩ rfl rfl rfl rfl rfl, hslide⟩
  · split
    · exact ⟨_, before', rfl, hfin.trans hfinished, hdecoder,
        ⟨hsame.1, hsame.2, hsame.3⟩,
        htracks.congr ⟨rfl, rfl, rfl⟩ rfl rfl rfl rfl rfl, hslide⟩
    · exact ⟨_, before', rfl, hfin.trans hfinished, hdecoder, hsame,
        htracks, hslide⟩

/-- Finishing takes what the decoder still holds. -/
theorem finish_tracks
    (hfinished : acc.finished = false) (h : Tracks acc text before)
    (tempFilePath : String → String) :
    ∃ before', SameLimits acc (acc.finish tempFilePath)
      ∧ Tracks (acc.finish tempFilePath) (text ++ acc.decoder.close) before'
      ∧ slide acc.maxRollingBytes (text, before.length) acc.decoder.close
        = (text ++ acc.decoder.close, before'.length) := by
  have hread : Tracks { acc with finished := true } text before :=
    h.congr ⟨rfl, rfl, rfl⟩ rfl rfl rfl rfl rfl
  obtain ⟨before', htracks, hslide⟩ :=
    appendDecodedText_tracks hread acc.decoder.close
  obtain ⟨hlimits, -, -⟩ := appendDecodedText_frame
    { acc with finished := true } acc.decoder.close
  have hsame : SameLimits acc _ := ⟨hlimits.1, hlimits.2, hlimits.3⟩
  refine ⟨before', ?_, ?_, hslide⟩
  · rw [finish, if_neg (by rw [hfinished]; exact Bool.false_ne_true)]
    dsimp only
    split
    · exact ⟨hsame.1, hsame.2, hsame.3⟩
    · exact hsame
  · rw [finish, if_neg (by rw [hfinished]; exact Bool.false_ne_true)]
    dsimp only
    split
    · exact htracks.congr ⟨rfl, rfl, rfl⟩ rfl rfl rfl rfl rfl
    · exact htracks

end OutputAccumulator

-- ======== runs

/-- The text in the pieces in which it is decoded, chunk by chunk and at
the end. -/
def decodePieces (decoder : TextDecoder) :
    List (List UInt8) → List (List Char)
  | [] => [decoder.close]
  | data :: chunks =>
    (decoder.write data).2 :: decodePieces (decoder.write data).1 chunks

/-- The pieces are the text of the stream. -/
theorem flatten_decodePieces (decoder : TextDecoder)
    (chunks : List (List UInt8)) :
    (decodePieces decoder chunks).flatten
      = (decoder.write chunks.flatten).2
        ++ (decoder.write chunks.flatten).1.close := by
  induction chunks generalizing decoder with
  | nil =>
    have hnil : decoder.write [] = (decoder, []) := rfl
    rw [decodePieces, List.flatten_nil, hnil, List.flatten_singleton,
      List.nil_append]
  | cons data chunks ih =>
    rw [decodePieces, List.flatten_cons, List.flatten_cons, ih,
      TextDecoder.write_append, List.append_assoc]

namespace OutputAccumulator

/-- A run, finished, has seen the whole text, and its window starts where
the pieces put it. -/
theorem run_tracks {text before : List Char}
    (hfinished : acc.finished = false) (h : Tracks acc text before)
    (tempFilePath : String → String) (events : List OutputEvent) :
    ∃ acc' before', acc.run tempFilePath events = .ok acc'
      ∧ SameLimits acc (acc'.finish tempFilePath)
      ∧ Tracks (acc'.finish tempFilePath)
          (text ++ (decodePieces acc.decoder
            (OutputEvent.chunks events)).flatten) before'
      ∧ ((decodePieces acc.decoder (OutputEvent.chunks events)).foldl
          (slide acc.maxRollingBytes) (text, before.length)).2
        = before'.length := by
  induction events generalizing acc text before with
  | nil =>
    obtain ⟨before', hlimits, htracks, hslide⟩ :=
      finish_tracks hfinished h tempFilePath
    refine ⟨acc, before', rfl, hlimits, ?_, ?_⟩
    · show Tracks _ (text ++ [acc.decoder.close].flatten) _
      rw [List.flatten_singleton]
      exact htracks
    · exact congrArg Prod.snd hslide
  | cons event events ih =>
    cases event with
    | append data =>
      obtain ⟨acc₁, before₁, happend, hfin, hdecoder, hlimits, htracks,
        hslide⟩ := append_tracks hfinished h tempFilePath data
      obtain ⟨acc', before', hrun, hlimits', htracks', hstart⟩ :=
        ih hfin htracks
      have hpieces : decodePieces acc.decoder
          (OutputEvent.chunks (.append data :: events))
          = (acc.decoder.write data).2
            :: decodePieces acc₁.decoder (OutputEvent.chunks events) := by
        rw [hdecoder]
        rfl
      refine ⟨acc', before', ?_, hlimits.trans hlimits', ?_, ?_⟩
      · rw [run, happend]
        exact hrun
      · rw [hpieces, List.flatten_cons, ← List.append_assoc]
        exact htracks'
      · rw [hpieces, List.foldl_cons, hslide, ← hlimits.rolling]
        exact hstart
    | spillError =>
      have htracks : Tracks acc.spillError text before :=
        h.congr ⟨rfl, rfl, rfl⟩ rfl rfl rfl rfl rfl
      obtain ⟨acc', before', hrun, hlimits', htracks', hstart⟩ :=
        @ih acc.spillError text before hfinished htracks
      exact ⟨acc', before', hrun, ⟨hlimits'.1, hlimits'.2, hlimits'.3⟩,
        htracks', hstart⟩

theorem new_tracks (options : OutputAccumulatorOptions) :
    Tracks (new options) [] [] := by
  constructor
  · rfl
  · rfl
  · rfl
  · exact Nat.zero_le _
  · exact ⟨fun _ p c h => absurd h (by simp), fun _ => rfl⟩
  · exact fun p c h => absurd h (by simp)
  · rfl
  · rfl

/-- What a snapshot reads: all of the text, or the window's. -/
theorem getSnapshotText_eq (h : Tracks acc text before) :
    (before = [] → acc.getSnapshotText = text)
      ∧ ∀ p c, before = p ++ [c] →
        acc.getSnapshotText = windowText c acc.tailText := by
  constructor
  · intro hnil
    have hboundary : acc.tailStartsAtLineBoundary = true :=
      h.boundary.2 fun p c hp => absurd (hnil ▸ hp) (by simp)
    rw [getSnapshotText, if_pos hboundary, h.text_eq, hnil, List.nil_append]
  · intro p c hp
    rw [getSnapshotText, windowText]
    by_cases hc : c = '\n'
    · have hboundary : acc.tailStartsAtLineBoundary = true := by
        refine h.boundary.2 fun p' c' hp' => ?_
        rw [hp] at hp'
        rw [← (List.cons.inj (List.append_inj' hp' rfl).2).1, hc]
      rw [if_pos hboundary, if_pos hc]
    · have hboundary : ¬ acc.tailStartsAtLineBoundary = true :=
        fun hb => hc (h.boundary.1 hb p c hp)
      rw [if_neg hboundary, if_neg hc]

end OutputAccumulator

-- ======== agreement

/-- The snapshot says what the truncation of the whole says. -/
structure Agrees (snapshot : OutputSnapshot) (whole : TruncationResult) :
    Prop where
  content : snapshot.content = whole.content
  truncated : snapshot.truncation.truncated = whole.truncated
  totalLines : snapshot.truncation.totalLines = whole.totalLines
  totalBytes : snapshot.truncation.totalBytes = whole.totalBytes

theorem truncateTail_totals (text : List Char) (options : TruncationOptions) :
    (truncateTail text options).totalLines = text.count '\n' + 1
      ∧ (truncateTail text options).totalBytes = byteLength text
      ∧ (truncateTail text options).truncated
        = (decide (options.maxLines.getD defaultMaxLines
            < text.count '\n' + 1)
          || decide (options.maxBytes.getD defaultMaxBytes
            < byteLength text)) := by
  rw [truncateTail]
  dsimp only
  split
  · rename_i h
    rw [length_splitOn] at h
    refine ⟨length_splitOn text, rfl, ?_⟩
    rw [decide_eq_false (by omega), decide_eq_false (by omega)]
    rfl
  · rename_i h
    rw [length_splitOn] at h
    refine ⟨length_splitOn text, rfl, ?_⟩
    symm
    rw [Bool.or_eq_true, decide_eq_true_iff, decide_eq_true_iff]
    omega

/-- The totals and the flag agree; the rest is the content. -/
theorem agrees_iff_content (h : Tracks acc text before)
    {options : TruncationOptions}
    (hlines : acc.maxLines = options.maxLines.getD defaultMaxLines)
    (hbytes : acc.maxBytes = options.maxBytes.getD defaultMaxBytes) :
    Agrees acc.snapshot (truncateTail text options)
      ↔ keptTail acc.maxLines acc.maxBytes acc.getSnapshotText
        = keptTail acc.maxLines acc.maxBytes text := by
  obtain ⟨htotalLines, htotalBytes, htruncated⟩ :=
    truncateTail_totals text options
  have hsnapshot : acc.snapshot.content
      = keptTail acc.maxLines acc.maxBytes acc.getSnapshotText :=
    truncateTail_content _ _
  have hwhole : (truncateTail text options).content
      = keptTail acc.maxLines acc.maxBytes text := by
    rw [truncateTail_content, hlines, hbytes]
  constructor
  · intro hagrees
    rw [← hsnapshot, ← hwhole]
    exact hagrees.content
  · intro hcontent
    refine ⟨by rw [hsnapshot, hwhole, hcontent], ?_, ?_, ?_⟩
    · rw [htruncated, ← h.lines, ← h.decoded, ← hlines, ← hbytes]
      rfl
    · rw [htotalLines, ← h.lines]
      rfl
    · rw [htotalBytes, ← h.decoded]
      rfl

/-- A streamed output is truncated as the whole is, however it is cut into
chunks, exactly when the window does not cut the last line that is not
blank in front of blank lines. -/
theorem snapshot_agrees_iff (tempFilePath : String → String)
    (options : OutputAccumulatorOptions) (events : List OutputEvent) :
    ∃ acc, (OutputAccumulator.new options).run tempFilePath events = .ok acc
      ∧ (Agrees (acc.finish tempFilePath).snapshot
          (truncateTail
            (TextDecoder.decodeAll (OutputEvent.chunks events).flatten)
            ⟨options.maxLines, options.maxBytes⟩)
        ↔ ¬ CutsLastLine
            (TextDecoder.decodeAll (OutputEvent.chunks events).flatten)
            (windowStart (max (options.maxBytes.getD defaultMaxBytes * 2) 1)
              (decodePieces ⟨.start, false⟩ (OutputEvent.chunks events)))
            (options.maxLines.getD defaultMaxLines)
            (options.maxBytes.getD defaultMaxBytes)) := by
  obtain ⟨acc, before, hrun, hlimits, htracks, hstart⟩ :=
    @OutputAccumulator.run_tracks (.new options) [] [] rfl
      (OutputAccumulator.new_tracks options) tempFilePath events
  rw [List.nil_append, flatten_decodePieces] at htracks
  refine ⟨acc, hrun, ?_⟩
  have hlines : (acc.finish tempFilePath).maxLines
      = options.maxLines.getD defaultMaxLines := hlimits.maxLines
  have hbytes : (acc.finish tempFilePath).maxBytes
      = options.maxBytes.getD defaultMaxBytes := hlimits.maxBytes
  have hagrees := @agrees_iff_content _ _ _ htracks
    ⟨options.maxLines, options.maxBytes⟩ hlines hbytes
  refine hagrees.trans ?_
  have hwindow : windowStart (max (options.maxBytes.getD defaultMaxBytes * 2) 1)
      (decodePieces ⟨.start, false⟩ (OutputEvent.chunks events))
      = before.length := hstart
  rw [hlines, hbytes, hwindow]
  obtain ⟨hnone, hsome⟩ := OutputAccumulator.getSnapshotText_eq htracks
  rcases List.eq_nil_or_concat' before with hnil | ⟨p, c, hp⟩
  · -- everything is kept
    rw [hnone hnil, hnil]
    refine ⟨fun _ ⟨p, c, s, blanks, h⟩ => ?_, fun _ => rfl⟩
    exact absurd h.start_eq (by simp)
  · have htext := htracks.text_eq
    rw [hp, List.append_assoc, List.singleton_append] at htext
    have hroll := htracks.rolled p c hp
    rw [htracks.rolling, hbytes] at hroll
    rw [hsome p c hp, hp, List.length_append, List.length_singleton]
    have hiff := keptTail_windowText_iff (m := options.maxLines.getD
      defaultMaxLines) (p := p) hroll
    rw [← htext] at hiff
    exact hiff

/-- A line longer than the tail may grow, ended by a newline: the window
starts inside it, and the snapshot is empty where the truncation keeps
the line's end. -/
theorem newline_after_long_line_loses_it :
    ∃ acc, (OutputAccumulator.new ⟨some 10, some 4, none⟩).run id
        [.append (List.replicate 17 0x78), .append [0x0a]] = .ok acc
      ∧ ¬ Agrees (acc.finish id).snapshot
          (truncateTail (TextDecoder.decodeAll
            (List.replicate 17 0x78 ++ [0x0a])) ⟨some 10, some 4⟩) := by
  have hstreamed : ((OutputAccumulator.new ⟨some 10, some 4, none⟩).run id
      [.append (List.replicate 17 0x78), .append [0x0a]]).toOption.map
        (fun acc => (acc.finish id).snapshot.content) = some [] := by
    decide +kernel
  have hwhole : (truncateTail (TextDecoder.decodeAll
      (List.replicate 17 0x78 ++ [0x0a])) ⟨some 10, some 4⟩).content
      = ['x', 'x', 'x', '\n'] := by
    decide +kernel
  cases hrun : (OutputAccumulator.new ⟨some 10, some 4, none⟩).run id
      [.append (List.replicate 17 0x78), .append [0x0a]] with
  | error e =>
    rw [hrun] at hstreamed
    exact absurd hstreamed (by simp [Except.toOption])
  | ok acc =>
    rw [hrun] at hstreamed
    refine ⟨acc, rfl, fun hagrees => ?_⟩
    have hempty : (acc.finish id).snapshot.content = [] :=
      Option.some.inj hstreamed
    have hcontent := hagrees.content
    rw [hempty, hwhole] at hcontent
    exact absurd hcontent (by decide)

end OneHarness.Tools
