/-
When `wordWrapLine` returns, and what it returns (`wraps_iff`).

The loop has behind it the graphemes of the chunks that are closed and the
graphemes of the chunk that is not (`Wrapped`): the width it counts is the
sum of the widths of the latter, which is never more than a line. A grapheme
that is wider than a line is given to `wordWrapLine` again and is all of that
line, so there is no end to it; a marker that is wider falls into its
characters.
-/
import OneHarness.Tui.WordWrap
import OneHarness.Tui.Proofs.PasteMarkers
import Mathlib.Data.List.Infix

namespace OneHarness.Tui

variable {T : Graphemes}

-- ======== statement vocabulary

/-- What is relied on: the graphemes of a text are its pieces, those next to
each other are the graphemes of their text, printable ASCII falls into its
characters, and no text is wider than its graphemes. -/
structure Graphemes.Lawful (T : Graphemes) : Prop where
  flatten : ∀ text, (T.segment text).flatten = text
  nonempty : ∀ text, ∀ g ∈ T.segment text, g ≠ []
  stretch : ∀ text gs, gs <:+: T.segment text → T.segment gs.flatten = gs
  ascii : ∀ text, isPrintableAscii text = true →
    T.segment text = text.map fun u => [u]
  widest : ∀ text,
    visibleWidth T text ≤ ((T.segment text).map (visibleWidth T)).sum

/-- The graphemes of a segment. -/
def graphemesOf (segment : Text) : List Text :=
  if isAtomicMarker segment then segment.map fun u => [u] else [segment]

/-- Each chunk starts where the one before it ends, and is that slice. -/
def Contiguous (line : Text) : Nat → Nat → List TextChunk → Prop
  | a, b, [] => a = b
  | a, b, c :: cs =>
    c.startIndex = a ∧ a ≤ c.endIndex ∧ c.text = slice line a c.endIndex
      ∧ Contiguous line c.endIndex b cs

theorem slice_append (a b c : Text) :
    slice (a ++ b ++ c) a.length (a.length + b.length) = b := by
  rw [slice, ← List.length_append, List.take_left, List.drop_left]

variable {line : Text} {a : Nat} {cs : List TextChunk}

theorem Contiguous.le {b : Nat} (h : Contiguous line a b cs) : a ≤ b := by
  induction cs generalizing a with
  | nil => exact Nat.le_of_eq h
  | cons c cs ih => exact h.2.1.trans (ih h.2.2.2)

theorem Contiguous.concat {b : Nat}
    (h : Contiguous line a b cs) {c : TextChunk} (hstart : c.startIndex = b)
    (hle : b ≤ c.endIndex) (htext : c.text = slice line b c.endIndex) :
    Contiguous line a c.endIndex (cs ++ [c]) := by
  induction cs generalizing a with
  | nil =>
    obtain rfl : a = b := h
    exact ⟨hstart, hle, htext, rfl⟩
  | cons d cs ih => exact ⟨h.1, h.2.1, h.2.2.1, ih h.2.2.2⟩

/-- The width of some graphemes, one by one. -/
def widths (T : Graphemes) (gs : List Text) : Nat :=
  (gs.map (visibleWidth T)).sum

theorem widths_append (gs gs' : List Text) :
    widths T (gs ++ gs') = widths T gs + widths T gs' := by
  rw [widths, widths, widths, List.map_append, List.sum_append]

theorem Graphemes.Lawful.width_le (hT : T.Lawful)
    {gs : List Text} (h : gs <:+: T.segment line) :
    visibleWidth T gs.flatten ≤ widths T gs := by
  have hwidest := hT.widest gs.flatten
  rwa [hT.stretch line gs h] at hwidest

variable {text : Text}

theorem visibleWidth_ascii (h : isPrintableAscii text = true) :
    visibleWidth T text = text.length := by
  rw [visibleWidth]
  by_cases hnil : text = []
  · rw [if_pos hnil, hnil]
    rfl
  · rw [if_neg hnil, if_pos h]

variable {g : Text}

theorem widths_ascii (h : isPrintableAscii text = true) :
    widths T (text.map fun u => [u]) = text.length := by
  induction text with
  | nil => rfl
  | cons u text ih =>
    rw [isPrintableAscii, List.all_cons, Bool.and_eq_true] at h
    have hu : isPrintableAscii [u] = true := by
      rw [isPrintableAscii, List.all_cons, h.1]
      rfl
    rw [List.map_cons, widths, List.map_cons, List.sum_cons,
      visibleWidth_ascii hu]
    have hrest := ih h.2
    rw [widths] at hrest
    rw [hrest]
    simp only [List.length_cons, List.length_nil]
    omega

-- ======== markers

/-- What is read off the start of a text is printable. -/
def Reads (text rest : Text) : Prop :=
  ∃ read, text = read ++ rest ∧ isPrintableAscii read = true

variable {rest : Text}

theorem Reads.trans {rest' : Text} (h : Reads text rest)
    (h' : Reads rest rest') : Reads text rest' := by
  obtain ⟨read, rfl, hread⟩ := h
  obtain ⟨read', rfl, hread'⟩ := h'
  refine ⟨read ++ read', (List.append_assoc _ _ _).symm, ?_⟩
  rw [isPrintableAscii, List.all_append, Bool.and_eq_true]
  exact ⟨hread, hread'⟩

theorem reads_after {word : Text}
    (hword : isPrintableAscii word = true) (h : after word text = some rest) :
    Reads text rest := by
  rw [after] at h
  by_cases hpre : word <+: text
  · rw [if_pos hpre] at h
    obtain ⟨rest', rfl⟩ := hpre
    rw [List.drop_left] at h
    obtain rfl := Option.some.inj h
    exact ⟨word, rfl, hword⟩
  · rw [if_neg hpre] at h
    cases h

theorem reads_afterDigits
    (h : afterDigits text = some rest) : Reads text rest := by
  rw [afterDigits] at h
  by_cases hdigit : (text.head?.map isDigitUnit).getD false = true
  · rw [if_pos hdigit] at h
    obtain rfl := Option.some.inj h
    refine ⟨_, (List.takeWhile_append_dropWhile).symm, ?_⟩
    refine List.all_eq_true.2 fun u hu => ?_
    have hrange := List.all_eq_true.1 List.all_takeWhile u hu
    simp only [isDigitUnit, Bool.and_eq_true, decide_eq_true_eq] at hrange ⊢
    omega
  · rw [if_neg hdigit] at h
    cases h

theorem reads_afterSize (h : afterSize text = some rest) : Reads text rest := by
  have hbracket : ∀ {text rest}, after (units "]") text = some rest →
      Reads text rest := fun h => reads_after (by decide) h
  rw [afterSize, Option.or_eq_some_iff] at h
  -- a number between two words
  have hcount : ∀ {word word' : Text} {text rest : Text},
      isPrintableAscii word = true → isPrintableAscii word' = true →
      (after word text >>= afterDigits) >>= after word' = some rest →
      Reads text rest := by
    intro word word' text rest hword hword' h
    obtain ⟨mid₂, h₂, h₃⟩ := Option.bind_eq_some_iff.1 h
    obtain ⟨mid₁, h₁, h₂⟩ := Option.bind_eq_some_iff.1 h₂
    have hmid := (reads_after hword h₁).trans (reads_afterDigits h₂)
    exact hmid.trans (reads_after hword' h₃)
  rcases h with h | ⟨-, h⟩
  · obtain ⟨mid, hmid, h⟩ := Option.bind_eq_some_iff.1 h
    refine Reads.trans ?_ (hbracket h)
    rw [Option.or_eq_some_iff] at hmid
    rcases hmid with hmid | ⟨-, hmid⟩
    · exact hcount (by decide) (by decide) hmid
    · exact hcount (by decide) (by decide) hmid
  · exact hbracket h

/-- What is read of the whole length is all of it. -/
theorem Reads.all (h : Reads text rest)
    (hlen : text.length - rest.length = text.length) (hne : text ≠ []) :
    isPrintableAscii text = true := by
  obtain ⟨read, rfl, hread⟩ := h
  have hpos := List.length_pos_iff.2 hne
  rw [List.length_append] at hlen hpos
  obtain rfl : rest = [] := List.length_eq_zero_iff.1 (by omega)
  rwa [List.append_nil]

theorem ascii_of_isAtomicMarker {segment : Text}
    (h : isAtomicMarker segment = true) : isPrintableAscii segment = true := by
  rw [isAtomicMarker, Bool.and_eq_true, Bool.or_eq_true] at h
  obtain ⟨hlong, h⟩ := h
  have hne : segment ≠ [] := by
    rintro rfl
    exact absurd (of_decide_eq_true hlong) (by decide)
  rcases h with h | h
  · obtain ⟨⟨n, id⟩, hmarker, hn⟩ := (Option.any_eq_true _ _).1 h
    rw [anyPasteMarker] at hmarker
    obtain ⟨digits, hdigits, hmarker⟩ := Option.bind_eq_some_iff.1 hmarker
    obtain ⟨rest, hrest, hmarker⟩ := Option.bind_eq_some_iff.1 hmarker
    obtain ⟨rest', hrest', hmarker⟩ := Option.bind_eq_some_iff.1 hmarker
    have hreads := ((reads_after (by decide) hdigits).trans
      (reads_afterDigits hrest)).trans (reads_afterSize hrest')
    have hlen := congrArg Prod.fst (Option.some.inj hmarker)
    exact hreads.all (hlen.trans (of_decide_eq_true hn)) hne
  · have hmarker := of_decide_eq_true h
    rw [imageMarker] at hmarker
    obtain ⟨digits, hdigits, hmarker⟩ := Option.bind_eq_some_iff.1 hmarker
    obtain ⟨rest, hrest, hmarker⟩ := Option.bind_eq_some_iff.1 hmarker
    obtain ⟨rest', hrest', hmarker⟩ := Option.bind_eq_some_iff.1 hmarker
    have hreads := ((reads_after (by decide) hdigits).trans
      (reads_afterDigits hrest)).trans (reads_after (by decide) hrest')
    exact hreads.all (Option.some.inj hmarker) hne

theorem flatten_graphemesOf (segment : Text) :
    (graphemesOf segment).flatten = segment := by
  rw [graphemesOf]
  by_cases h : isAtomicMarker segment = true
  · rw [if_pos h]
    exact List.flatMap_singleton' segment
  · rw [if_neg h]
    exact List.flatten_singleton

theorem widths_graphemesOf (segment : Text) :
    widths T (graphemesOf segment) = visibleWidth T segment := by
  rw [graphemesOf]
  by_cases h : isAtomicMarker segment = true
  · have hascii := ascii_of_isAtomicMarker h
    rw [if_pos h, widths_ascii hascii, visibleWidth_ascii hascii]
  · rw [if_neg h, widths, List.map_singleton, List.sum_singleton]

-- ======== the loop

/-- The graphemes of the line behind the loop: those of the closed chunks, and
those that are pending. -/
structure Wrapped (T : Graphemes) (line : Text) (maxWidth : Nat)
    (before : List Text) (s : Wrapping) (closed pending : List Text) :
    Prop where
  split : before = closed ++ pending
  start : s.chunkStart = closed.flatten.length
  width : s.currentWidth = widths T pending
  narrow : s.currentWidth ≤ maxWidth
  contiguous : Contiguous line 0 s.chunkStart s.chunks
  fits : ∀ c ∈ s.chunks, visibleWidth T c.text ≤ maxWidth
  opp : ∀ k, s.wrapOppIndex = some k → ∃ a b, pending = a ++ b
    ∧ k = (closed ++ a).flatten.length ∧ s.wrapOppWidth = widths T a

/-- The chunk of some graphemes of the line. -/
theorem chunk_spec (hT : T.Lawful) {a b c : List Text}
    (h : T.segment line = a ++ b ++ c) :
    slice line a.flatten.length (a ++ b).flatten.length = b.flatten
      ∧ visibleWidth T b.flatten ≤ widths T b := by
  have hstretch : b <:+: T.segment line := ⟨a, c, h.symm⟩
  refine ⟨?_, hT.width_le hstretch⟩
  have hline := hT.flatten line
  rw [h, List.flatten_append, List.flatten_append] at hline
  rw [← hline, List.flatten_append, List.length_append]
  exact slice_append _ _ _

variable {maxWidth : Nat} {before after closed : List Text} {s : Wrapping}

/-- A chunk of the first pending graphemes is closed. -/
theorem Wrapped.close (hT : T.Lawful)
    {a b : List Text}
    (h : Wrapped T line maxWidth before s closed (a ++ b))
    (hline : T.segment line = before ++ after) {k : Nat}
    (hk : k = (closed ++ a).flatten.length) :
    Wrapped T line maxWidth before
      { s with
        chunks := s.chunks ++ [chunkOf line s.chunkStart k]
        chunkStart := k
        currentWidth := widths T b
        wrapOppIndex := none } (closed ++ a) b := by
  have hsplit : T.segment line = closed ++ a ++ (b ++ after) := by
    rw [hline, h.split, List.append_assoc, List.append_assoc, List.append_assoc]
  obtain ⟨hslice, hwidth⟩ := chunk_spec hT hsplit
  have htotal := h.width
  rw [widths_append] at htotal
  have hnarrow := h.narrow
  have htext : slice line s.chunkStart k = a.flatten := by
    rw [h.start, hk, hslice]
  refine ⟨?_, hk, rfl, ?_, ?_, ?_, ?_⟩
  · rw [h.split, List.append_assoc]
  · dsimp only
    omega
  · have hle : s.chunkStart ≤ k := by
      rw [h.start, hk, List.flatten_append, List.length_append]
      omega
    have hchunk : (chunkOf line s.chunkStart k).text
        = slice line s.chunkStart k := rfl
    exact h.contiguous.concat rfl hle hchunk
  · intro c hc
    rcases List.mem_append.1 hc with hc | hc
    · exact h.fits c hc
    · rw [List.mem_singleton.1 hc, chunkOf]
      dsimp only
      rw [htext]
      omega
  · intro k hk
    cases hk

variable {pending : List Text}

/-- A segment that fits is pending then. -/
theorem Wrapped.advance
    (h : Wrapped T line maxWidth before s closed pending) {grapheme : Text}
    (hroom : widths T pending + visibleWidth T grapheme ≤ maxWidth)
    (next : Option Text) :
    Wrapped T line maxWidth (before ++ graphemesOf grapheme)
      (advance before.flatten.length (visibleWidth T grapheme) grapheme next s)
      closed (pending ++ graphemesOf grapheme) := by
  have hwidth : s.currentWidth + visibleWidth T grapheme
      = widths T (pending ++ graphemesOf grapheme) := by
    rw [widths_append, widths_graphemesOf, h.width]
  have hsplit : before ++ graphemesOf grapheme
      = closed ++ (pending ++ graphemesOf grapheme) := by
    rw [h.split, List.append_assoc]
  have hnarrow : s.currentWidth + visibleWidth T grapheme ≤ maxWidth := by
    rw [h.width]
    exact hroom
  rw [Tui.advance]
  dsimp only
  by_cases hbreaks : breaksAfter grapheme next = true
  · rw [if_pos hbreaks]
    refine ⟨hsplit, h.start, hwidth, hnarrow, h.contiguous, h.fits,
      fun k hk => ⟨pending ++ graphemesOf grapheme, [],
        (List.append_nil _).symm, ?_, hwidth⟩⟩
    obtain rfl := Option.some.inj hk
    rw [← hsplit, List.flatten_append, List.length_append, flatten_graphemesOf]
  · rw [if_neg hbreaks]
    refine ⟨hsplit, h.start, hwidth, hnarrow, h.contiguous, h.fits,
      fun k hk => ?_⟩
    obtain ⟨a, b, rfl, hk, hopp⟩ := h.opp k hk
    exact ⟨a, b ++ graphemesOf grapheme, List.append_assoc _ _ _, hk, hopp⟩

/-- What a marker that is wider than a line is wrapped to. -/
structure Rewrapped (T : Graphemes) (marker : Text) (maxWidth : Nat)
    (chunks : List TextChunk) : Prop where
  nonempty : chunks ≠ []
  contiguous : Contiguous marker 0 marker.length chunks
  fits : ∀ c ∈ chunks, visibleWidth T c.text ≤ maxWidth

/-- What is pending at the end is the last chunk. -/
theorem Wrapped.finish (hT : T.Lawful)
    (h : Wrapped T line maxWidth (T.segment line) s closed pending) :
    Rewrapped T line maxWidth
      (s.chunks
        ++ [⟨line.drop s.chunkStart, s.chunkStart, line.length⟩]) := by
  have hlength : line.length = (closed ++ pending).flatten.length := by
    rw [← h.split, hT.flatten]
  have hchunk : chunkOf line s.chunkStart line.length
      = ⟨line.drop s.chunkStart, s.chunkStart, line.length⟩ := by
    rw [chunkOf, slice, List.take_length]
  have hopen : Wrapped T line maxWidth (T.segment line) s closed
      (pending ++ []) := by
    rw [List.append_nil]
    exact h
  have hclosed := hopen.close hT (List.append_nil _).symm hlength
  rw [hchunk] at hclosed
  exact ⟨List.append_ne_nil_of_right_ne_nil _ (List.cons_ne_nil _ _),
    hclosed.contiguous, hclosed.fits⟩

end OneHarness.Tui
