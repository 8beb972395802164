/-
When the edits that are accepted are unambiguous (`unambiguous_iff`).

What is looked for is found where it occurs first (`indexOf_matchedText`).
That it occurs nowhere else is asked of other texts, the normalized ones, and
by counting matches that do not overlap; where this says the same of the
content itself, the edits have their places, in whatever order they come
(`sortedSpans_perm`), and replacing them from the last to the first replaces
them all at once.
-/
import OneHarness.Tools.EditDiff

namespace OneHarness.Tools.EditDiff

open Lib Splice

-- ======== statement vocabulary

section
variable (nfkc : Text → Text)

/-- The normal form is kept by what `normalizeForFuzzyMatch` does to it. -/
def Settled : Prop :=
  ∀ text, nfkc (normalizeForFuzzyMatch nfkc text)
    = normalizeForFuzzyMatch nfkc text

/-- What an edit replaces: its old text or, where that does not occur, the
normalized one. -/
def matchedText (content oldText : Text) : Text :=
  if (Search.indexOf oldText content).isSome then oldText
  else normalizeForFuzzyMatch nfkc oldText

def MatchesAt (content oldText : Text) (i : Nat) : Prop :=
  i ≤ content.length ∧ matchedText nfkc content oldText <+: content.drop i

/-- The edit matches there and nowhere else. -/
structure IsPlace (content : Text) (edit : Edit) (span : Span Nat) :
    Prop where
  here : MatchesAt nfkc content edit.oldText span.start
  only : ∀ i, MatchesAt nfkc content edit.oldText i → i = span.start
  length : span.length = (matchedText nfkc content edit.oldText).length
  text : span.text = edit.newText

structure Unambiguous (normalizedContent : Text) (edits : List Edit)
    (result : AppliedEditsResult) : Prop where
  replaces : ∃ spans,
    List.Forall₂ (IsPlace nfkc result.baseContent) (edits.map normalizeEdit)
      spans
    ∧ spans.Pairwise Apart
    ∧ result.newContent = replaced spans result.baseContent
  anyOrder : ∀ edits', edits'.Perm edits →
    applyEditsToNormalizedContent nfkc normalizedContent edits' = .ok result

/-- What the check for duplicates does not see: it counts matches that do not
overlap, in the normalized texts. -/
structure ClearEdit (content : Text) (edit : Edit) : Prop where
  notEmpty : matchedText nfkc content edit.oldText = [] → content = []
  countedOnce : splitLength (matchedText nfkc content edit.oldText) content ≤ 2
  notOverlapped : ∀ i k,
    Search.indexOf (matchedText nfkc content edit.oldText) content = some i →
    0 < k → k < (matchedText nfkc content edit.oldText).length →
    ¬matchedText nfkc content edit.oldText <+: content.drop (i + k)

structure ClearEdits (normalizedContent : Text) (edits : List Edit) :
    Prop where
  each : ∀ edit ∈ edits.map normalizeEdit,
    ClearEdit nfkc
      (baseContent nfkc normalizedContent (edits.map normalizeEdit)) edit
  /-- nothing is replaced in an empty content, only put together -/
  together :
    baseContent nfkc normalizedContent (edits.map normalizeEdit) = [] →
    (edits.map normalizeEdit).Pairwise fun a b =>
      a.newText ++ b.newText = b.newText ++ a.newText

end

-- ======== normalization

theorem toAscii_newline : toAscii newline = newline := rfl

theorem isTrimmed_toAscii {u : Nat} (h : isTrimmed (toAscii u) = true) :
    isTrimmed u = true := by
  rw [toAscii] at h
  split_ifs at h with hquote hdouble hdash hspace
  · cases h
  · cases h
  · cases h
  · simp only [List.mem_cons, List.not_mem_nil, or_false] at hspace
    rw [isTrimmed]
    simp only [List.mem_cons, List.not_mem_nil, or_false, Bool.or_eq_true,
      Bool.and_eq_true, decide_eq_true_eq]
    omega
  · exact h

theorem toAscii_toAscii (u : Nat) : toAscii (toAscii u) = toAscii u := by
  have hcases : toAscii u = 0x27 ∨ toAscii u = 0x22 ∨ toAscii u = 0x2d
      ∨ toAscii u = 0x20 ∨ toAscii u = u := by
    rw [toAscii]
    split_ifs <;> simp
  rcases hcases with h | h | h | h | h
  · rw [h]; rfl
  · rw [h]; rfl
  · rw [h]; rfl
  · rw [h]; rfl
  · rw [h, h]

theorem toAscii_eq_newline {u : Nat} : toAscii u = newline ↔ u = newline := by
  constructor
  · intro h
    rw [toAscii] at h
    split_ifs at h with hquote hdouble hdash hspace
    · cases h
    · cases h
    · cases h
    · cases h
    · exact h
  · rintro rfl
    rfl

theorem trimEnd_map_toAscii (line : Text) :
    trimEnd ((trimEnd line).map toAscii) = (trimEnd line).map toAscii := by
  rw [trimEnd, List.rdropWhile_eq_self_iff]
  intro hne hlast
  rw [List.getLast_map] at hlast
  have hne' : trimEnd line ≠ [] := fun h => hne (by rw [h, List.map_nil])
  exact List.rdropWhile_last_not isTrimmed line hne' (isTrimmed_toAscii hlast)

variable {text : Text}

theorem not_mem_of_mem_splitOn {sep : Nat} {line : Text}
    (h : line ∈ text.splitOn sep) : sep ∉ line := by
  induction text generalizing line with
  | nil =>
    rw [List.splitOn_nil, List.mem_singleton] at h
    rw [h]
    exact List.not_mem_nil
  | cons u text ih =>
    rw [List.splitOn_cons_eq_if_modifyHead] at h
    by_cases hu : (u == sep) = true
    · rw [if_pos hu] at h
      rcases List.mem_cons.1 h with rfl | h
      · exact List.not_mem_nil
      · exact ih h
    · rw [if_neg hu] at h
      obtain ⟨first, lines, hlines⟩ :=
        List.exists_cons_of_ne_nil (List.splitOn_ne_nil sep text)
      rw [hlines] at h ih
      rw [List.modifyHead_cons] at h
      rcases List.mem_cons.1 h with rfl | h
      · intro hmem
        rcases List.mem_cons.1 hmem with rfl | hmem
        · exact hu (BEq.rfl)
        · exact ih List.mem_cons_self hmem
      · exact ih (List.mem_cons_of_mem first h)

/-- Lines that are trimmed stay as they are, in ASCII too. -/
theorem trimLines_map_toAscii (text : Text) :
    trimLines ((trimLines text).map toAscii)
      = (trimLines text).map toAscii := by
  have hmap : ∀ lines : List Text,
      ([newline].intercalate lines).map toAscii
        = [newline].intercalate (lines.map (·.map toAscii)) := by
    intro lines
    induction lines with
    | nil => rfl
    | cons line lines ih =>
      cases lines with
      | nil => rw [List.map_singleton, List.intercalate_singleton,
          List.intercalate_singleton]
      | cons line' lines =>
        rw [List.intercalate_cons_cons, List.map_append, List.map_append, ih]
        simp only [List.map_cons, List.map_nil, toAscii_newline,
          List.intercalate_cons_cons]
  have hlines : ∀ line ∈ ((text.splitOn newline).map trimEnd).map
      (·.map toAscii), newline ∉ line := by
    intro line hline hmem
    obtain ⟨trimmed, htrimmed, rfl⟩ := List.mem_map.1 hline
    obtain ⟨whole, hwhole, rfl⟩ := List.mem_map.1 htrimmed
    obtain ⟨u, hu, hnewline⟩ := List.mem_map.1 hmem
    rw [toAscii_eq_newline.1 hnewline] at hu
    exact not_mem_of_mem_splitOn hwhole
      ((List.rdropWhile_prefix isTrimmed whole).subset hu)
  have hne : ((text.splitOn newline).map trimEnd).map (·.map toAscii) ≠ [] := by
    simp
  rw [trimLines, trimLines, hmap, List.splitOn_intercalate newline hlines hne]
  refine congrArg _ ((List.map_congr_left fun line hline => ?_).trans
    (List.map_id _))
  obtain ⟨trimmed, htrimmed, rfl⟩ := List.mem_map.1 hline
  obtain ⟨whole, -, rfl⟩ := List.mem_map.1 htrimmed
  exact trimEnd_map_toAscii whole

theorem Settled.normalize_normalize {nfkc : Text → Text}
    (hnfkc : Settled nfkc) (text : Text) :
    normalizeForFuzzyMatch nfkc (normalizeForFuzzyMatch nfkc text)
      = normalizeForFuzzyMatch nfkc text := by
  calc normalizeForFuzzyMatch nfkc (normalizeForFuzzyMatch nfkc text)
      = (trimLines (normalizeForFuzzyMatch nfkc text)).map toAscii := by
        rw [normalizeForFuzzyMatch, hnfkc text]
    _ = (normalizeForFuzzyMatch nfkc text).map toAscii := by
        rw [normalizeForFuzzyMatch, trimLines_map_toAscii]
    _ = normalizeForFuzzyMatch nfkc text := by
        rw [normalizeForFuzzyMatch, List.map_map]
        exact List.map_congr_left fun u _ => toAscii_toAscii u

-- ======== one old text

variable {word : Text} {i : Nat} {edit : Edit}

section
variable {nfkc : Text → Text} {content oldText : Text}

theorem indexOf_nil (text : Text) : Search.indexOf [] text = some 0 := by
  cases text with
  | nil => rfl
  | cons u text => rfl

theorem First_of_indexOf
    (h : Search.indexOf word text = some i) : Search.First word text i := by
  cases word with
  | nil =>
    rw [indexOf_nil] at h
    cases h
    exact Search.First.zero (List.nil_prefix)
  | cons u word =>
    exact (Search.indexOf_eq_some (List.cons_ne_nil u word)).1 h

theorem le_length_of_indexOf (h : Search.indexOf word text = some i) :
    i + word.length ≤ text.length := by
  cases word with
  | nil =>
    rw [indexOf_nil] at h
    cases h
    exact Nat.zero_le _
  | cons u word =>
    exact (First_of_indexOf h).length_le (List.cons_ne_nil u word)

/-- What is found is the first place of the text that is replaced. -/
theorem indexOf_matchedText {r : FuzzyMatchResult}
    (h : fuzzyFindText nfkc content oldText = some r)
    (hfuzzy : r.usedFuzzyMatch = true →
      normalizeForFuzzyMatch nfkc content = content) :
    Search.indexOf (matchedText nfkc content oldText) content = some r.index
      ∧ r.matchLength = (matchedText nfkc content oldText).length := by
  rw [fuzzyFindText] at h
  rw [matchedText]
  cases hexact : Search.indexOf oldText content with
  | some i =>
    rw [hexact] at h
    obtain rfl := Option.some.inj h
    rw [if_pos (Option.isSome_some)]
    exact ⟨hexact, rfl⟩
  | none =>
    rw [hexact] at h
    obtain ⟨i, hi, rfl⟩ := Option.map_eq_some_iff.1 h
    rw [hfuzzy rfl] at hi
    rw [if_neg (by rw [Option.isSome_none]; exact Bool.false_ne_true)]
    exact ⟨hi, rfl⟩

theorem startsWith_eq_none {rest : Text} :
    startsWith word rest = none ↔ ¬word <+: rest := by
  rw [startsWith, ← List.isPrefixOf_iff_prefix]
  split <;> simp_all

theorem startsWith_eq_some {rest : Text} (h : word <+: rest) :
    startsWith word rest = some word.length := by
  rw [startsWith, if_pos (List.isPrefixOf_iff_prefix.2 h)]

/-- A word that occurs is counted once if it does not occur behind its first
place. -/
theorem splitLength_le_two (hword : word ≠ []) (h : Search.First word text i) :
    splitLength word text ≤ 2
      ↔ ∀ j, i + word.length ≤ j → ¬word <+: text.drop j := by
  have hpos : 0 < word.length := List.length_pos_iff.2 hword
  have hlen := h.length_le hword
  rw [splitLength, if_neg hword,
    Replace.matchAll_first 0 (fun j hj => startsWith_eq_none.2 (h.before j hj))
      (by omega) hpos (startsWith_eq_some h.here), List.length_cons,
    show ∀ n, n + 1 + 1 ≤ 2 ↔ n = 0 by omega, List.length_eq_zero_iff,
    Replace.matchAll_eq_nil_iff]
  constructor
  · intro hnone j hj hpre
    by_cases hlt : j < text.length
    · have hj' := hnone (j - (i + word.length))
        (by rw [List.length_drop]; omega)
      rw [List.drop_drop, Nat.add_sub_cancel' hj] at hj'
      exact startsWith_eq_none.1 hj' hpre
    · rw [List.drop_eq_nil_of_le (by omega), List.prefix_nil] at hpre
      exact hword hpre
  · intro hnone j hj
    rw [List.drop_drop]
    exact startsWith_eq_none.2 (hnone _ (Nat.le_add_right _ _))

/-- The place is the only one exactly when the edit is clear. -/
theorem only_iff_clearEdit
    (hi : Search.indexOf (matchedText nfkc content edit.oldText) content
      = some i) :
    (∀ j, MatchesAt nfkc content edit.oldText j → j = i)
      ↔ ClearEdit nfkc content edit := by
  have hfirst := First_of_indexOf hi
  have hlen := le_length_of_indexOf hi
  constructor
  · intro honly
    refine ⟨fun hempty => ?_, ?_, fun i' k hi' hk hlt hpre => ?_⟩
    · -- the empty text is everywhere
      have hstart := honly 0 ⟨Nat.zero_le _, hempty ▸ List.nil_prefix⟩
      have hend := honly content.length ⟨le_rfl, hempty ▸ List.nil_prefix⟩
      exact List.length_eq_zero_iff.1 (hend.trans hstart.symm)
    · by_cases hempty : matchedText nfkc content edit.oldText = []
      · have hend := honly content.length ⟨le_rfl, hempty ▸ List.nil_prefix⟩
        have hstart := honly 0 ⟨Nat.zero_le _, hempty ▸ List.nil_prefix⟩
        rw [splitLength, if_pos hempty, hend, ← hstart]
        exact Nat.zero_le _
      · refine (splitLength_le_two hempty hfirst).2 fun j hj hpre => ?_
        have hpos := List.length_pos_iff.2 hempty
        by_cases hle : j ≤ content.length
        · have := honly j ⟨hle, hpre⟩
          omega
        · rw [List.drop_eq_nil_of_le (by omega), List.prefix_nil] at hpre
          exact hempty hpre
    · rw [hi] at hi'
      cases hi'
      have := honly (i + k) ⟨by omega, hpre⟩
      omega
  · rintro ⟨hnotEmpty, hcounted, hoverlap⟩ j ⟨hj, hpre⟩
    by_cases hempty : matchedText nfkc content edit.oldText = []
    · have hcontent := hnotEmpty hempty
      rw [hcontent, List.length_nil] at hj hlen
      omega
    · rcases Nat.lt_trichotomy j i with hlt | heq | hgt
      · exact absurd hpre (hfirst.before j hlt)
      · exact heq
      · by_cases hin : j < i + (matchedText nfkc content edit.oldText).length
        · refine absurd ?_ (hoverlap i (j - i) hi (by omega) (by omega))
          rwa [Nat.add_sub_cancel' (Nat.le_of_lt hgt)]
        · exact absurd hpre
            ((splitLength_le_two hempty hfirst).1 hcounted j (by omega))

end

-- ======== all edits

variable {edits' : List Edit}

section
variable {nfkc : Text → Text} {content : Text} {edits : List Edit}

/-- The span an edit is given. -/
def spanOf (nfkc : Text → Text) (content : Text) (edit : Edit) : Span Nat :=
  ⟨(Search.indexOf (matchedText nfkc content edit.oldText) content).getD 0,
    (matchedText nfkc content edit.oldText).length, edit.newText⟩

def sortedSpans (nfkc : Text → Text) (content : Text) (edits : List Edit) :
    List (Span Nat) :=
  (edits.map (spanOf nfkc content)).mergeSort fun a b => a.start ≤ b.start

/-- An edit passes: it matches, and its normalized text is not counted
twice. -/
def Passes (nfkc : Text → Text) (content : Text) (edit : Edit) : Prop :=
  (fuzzyFindText nfkc content edit.oldText).isSome = true
    ∧ countOccurrences nfkc content edit.oldText ≤ 1

section
variable (hnfkc : Settled nfkc)
include hnfkc

/-- Matching is fuzzy only in normalized content. -/
theorem normalize_baseContent (hedit : edit ∈ edits) {r : FuzzyMatchResult}
    (h : fuzzyFindText nfkc (baseContent nfkc content edits) edit.oldText
      = some r) (hfuzzy : r.usedFuzzyMatch = true) :
    normalizeForFuzzyMatch nfkc (baseContent nfkc content edits)
      = baseContent nfkc content edits := by
  by_cases hany : (edits.any fun edit =>
      (fuzzyFindText nfkc content edit.oldText).any (·.usedFuzzyMatch)) = true
  · rw [baseContent, if_pos hany]
    exact hnfkc.normalize_normalize content
  · rw [baseContent, if_neg hany] at h
    refine absurd (List.any_eq_true.2 ⟨edit, hedit, ?_⟩) hany
    rw [h]
    exact hfuzzy

theorem indexOf_of_passes (hedit : edit ∈ edits)
    (h : Passes nfkc (baseContent nfkc content edits) edit) :
    Search.indexOf
        (matchedText nfkc (baseContent nfkc content edits) edit.oldText)
        (baseContent nfkc content edits)
      = some (spanOf nfkc (baseContent nfkc content edits) edit).start := by
  obtain ⟨r, hr⟩ := Option.isSome_iff_exists.1 h.1
  have hi := (indexOf_matchedText hr
    (normalize_baseContent hnfkc hedit hr)).1
  rw [spanOf, hi]
  rfl

theorem matchEdit_ok (content : Text)
    (hedit : edit ∈ edits) (total i : Nat) :
    (Passes nfkc (baseContent nfkc content edits) edit →
      ∃ matched, matchEdit nfkc (baseContent nfkc content edits) total edit i
        = .ok matched)
    ∧ ∀ matched, matchEdit nfkc (baseContent nfkc content edits) total edit i
        = .ok matched →
      Passes nfkc (baseContent nfkc content edits) edit
        ∧ matched.span
          = spanOf nfkc (baseContent nfkc content edits) edit := by
  rw [matchEdit]
  cases hfind : fuzzyFindText nfkc (baseContent nfkc content edits)
      edit.oldText with
  | none =>
    refine ⟨fun hpasses => ?_, fun matched h => by cases h⟩
    rw [Passes, hfind] at hpasses
    cases hpasses.1
  | some r =>
    dsimp only
    refine ⟨fun hpasses => ?_, fun matched h => ?_⟩
    · exact ⟨_, if_neg (by have := hpasses.2; omega)⟩
    · by_cases hcount : countOccurrences nfkc
          (baseContent nfkc content edits) edit.oldText > 1
      · rw [if_pos hcount] at h
        cases h
      · rw [if_neg hcount] at h
        cases h
        obtain ⟨hi, hlen⟩ := indexOf_matchedText hfind
          (normalize_baseContent hnfkc hedit hfind)
        refine ⟨⟨by rw [hfind]; rfl, by omega⟩, ?_⟩
        rw [spanOf, hi, ← hlen]
        rfl

/-- The edits match when each of them passes, and then have their spans. -/
theorem matchEdits_ok (content : Text)
    (total : Nat) (l : List Edit) (hl : ∀ edit ∈ l, edit ∈ edits) (i : Nat) :
    ((∀ edit ∈ l, Passes nfkc (baseContent nfkc content edits) edit) →
      ∃ matched, matchEdits nfkc (baseContent nfkc content edits) total l i
        = .ok matched)
    ∧ ∀ matched, matchEdits nfkc (baseContent nfkc content edits) total l i
        = .ok matched →
      (∀ edit ∈ l, Passes nfkc (baseContent nfkc content edits) edit)
        ∧ matched.map MatchedEdit.span
          = l.map (spanOf nfkc (baseContent nfkc content edits)) := by
  induction l generalizing i with
  | nil =>
    refine ⟨fun _ => ⟨[], rfl⟩, fun matched h => ?_⟩
    rw [matchEdits] at h
    cases h
    exact ⟨fun edit hedit => absurd hedit List.not_mem_nil, rfl⟩
  | cons edit l ih =>
    obtain ⟨hrun, hread⟩ := ih
      (fun e he => hl e (List.mem_cons_of_mem edit he)) (i + 1)
    have hhere := matchEdit_ok hnfkc content
      (hl edit List.mem_cons_self) total i
    refine ⟨fun hpasses => ?_, fun matched h => ?_⟩
    · obtain ⟨first, hfirst⟩ := hhere.1 (hpasses edit List.mem_cons_self)
      obtain ⟨rest, hrest⟩ := hrun fun e he =>
        hpasses e (List.mem_cons_of_mem edit he)
      exact ⟨first :: rest, by rw [matchEdits, hfirst, hrest]; rfl⟩
    · rw [matchEdits] at h
      cases hfirst : matchEdit nfkc (baseContent nfkc content edits) total
          edit i with
      | error e =>
        rw [hfirst] at h
        cases h
      | ok first =>
        rw [hfirst] at h
        dsimp only at h
        cases hrest : matchEdits nfkc (baseContent nfkc content edits)
            total l (i + 1) with
        | error e =>
          rw [hrest] at h
          cases h
        | ok rest =>
          rw [hrest] at h
          cases h
          obtain ⟨hpass, hspan⟩ := hhere.2 first hfirst
          obtain ⟨hpasses, hspans⟩ := hread rest hrest
          refine ⟨List.forall_mem_cons.2 ⟨hpass, hpasses⟩, ?_⟩
          rw [List.map_cons, List.map_cons, hspan, hspans]

end

theorem firstOverlap_eq_none {matched : List MatchedEdit} :
    firstOverlap matched = none
      ↔ (matched.map MatchedEdit.span).Pairwise fun a b =>
        a.stop ≤ b.start := by
  have htrans : ∀ {a b c : Span Nat}, a.stop ≤ b.start → b.stop ≤ c.start →
      a.stop ≤ c.start := fun {a b c} hab hbc =>
    hab.trans ((Nat.le_add_right b.start b.length).trans hbc)
  induction matched with
  | nil => exact iff_of_true rfl List.Pairwise.nil
  | cons previous matched ih =>
    cases matched with
    | nil => exact iff_of_true rfl (List.pairwise_singleton _ _)
    | cons current rest =>
      rw [firstOverlap]
      rw [List.map_cons] at ih
      rw [List.map_cons, List.map_cons]
      by_cases hover : previous.matchIndex + previous.matchLength
          > current.matchIndex
      · rw [if_pos hover]
        refine iff_of_false (by simp) fun h => ?_
        have hle := List.rel_of_pairwise_cons h List.mem_cons_self
        exact absurd hle (Nat.not_le.2 hover)
      · rw [if_neg hover]
        refine ih.trans ?_
        constructor
        · intro h
          refine List.pairwise_cons.2 ⟨fun t ht => ?_, h⟩
          have hle : previous.span.stop ≤ current.span.start :=
            Nat.not_lt.1 hover
          rcases List.mem_cons.1 ht with rfl | ht
          · exact hle
          · exact htrans hle (List.rel_of_pairwise_cons h ht)
        · exact List.Pairwise.of_cons

/-- The edits are accepted, and this is what becomes of the content. -/
structure Accepted (nfkc : Text → Text) (content : Text) (edits : List Edit)
    (result : AppliedEditsResult) : Prop where
  oldTexts : ∀ edit ∈ edits, edit.oldText ≠ []
  base : result.baseContent = baseContent nfkc content edits
  passes : ∀ edit ∈ edits, Passes nfkc result.baseContent edit
  inOrder : (sortedSpans nfkc result.baseContent edits).Pairwise
    fun a b => a.stop ≤ b.start
  new : result.newContent
    = spliceAll (sortedSpans nfkc result.baseContent edits) result.baseContent
  changed : result.baseContent ≠ result.newContent

theorem map_span_mergeSort (matched : List MatchedEdit) :
    (matched.mergeSort fun a b => a.matchIndex ≤ b.matchIndex).map
        MatchedEdit.span
      = (matched.map MatchedEdit.span).mergeSort
        fun a b => a.start ≤ b.start :=
  List.map_mergeSort fun _ _ _ _ => rfl

theorem applyEdits_ok_iff (hnfkc : Settled nfkc) {result : AppliedEditsResult} :
    applyEditsToNormalizedContent nfkc content edits = .ok result
      ↔ Accepted nfkc content (edits.map normalizeEdit) result := by
  rw [applyEditsToNormalizedContent]
  dsimp only
  generalize edits.map normalizeEdit = edits
  cases hempty : edits.findIdx? (·.oldText.length = 0) with
  | some i =>
    refine iff_of_false (fun h => by cases h) fun h => ?_
    obtain ⟨hi, hedit, -⟩ := List.findIdx?_eq_some_iff_getElem.1 hempty
    exact h.oldTexts _ (List.getElem_mem hi)
      (List.length_eq_zero_iff.1 (of_decide_eq_true hedit))
  | none =>
    have hold : ∀ edit ∈ edits, edit.oldText ≠ [] := by
      intro edit hedit hnil
      have hno := List.findIdx?_eq_none_iff.1 hempty edit hedit
      rw [hnil] at hno
      cases hno
    obtain ⟨hrun, hread⟩ := matchEdits_ok hnfkc content
      edits.length edits (fun _ h => h) 0
    dsimp only
    cases hmatch : matchEdits nfkc (baseContent nfkc content edits)
        edits.length edits 0 with
    | error error =>
      refine iff_of_false (fun h => by cases h) fun h => ?_
      obtain ⟨matched, hmatched⟩ := hrun (h.base ▸ h.passes)
      rw [hmatched] at hmatch
      cases hmatch
    | ok matched =>
      obtain ⟨hpasses, hspans⟩ := hread matched hmatch
      have hsorted : (matched.mergeSort fun a b =>
          a.matchIndex ≤ b.matchIndex).map MatchedEdit.span
          = sortedSpans nfkc (baseContent nfkc content edits) edits := by
        rw [map_span_mergeSort, hspans]
        rfl
      dsimp only
      cases hoverlap : firstOverlap (matched.mergeSort fun a b =>
          a.matchIndex ≤ b.matchIndex) with
      | some pair =>
        refine iff_of_false (fun h => by cases h) fun h => ?_
        have hnone := h.inOrder
        rw [h.base, ← hsorted, ← firstOverlap_eq_none, hoverlap] at hnone
        cases hnone
      | none =>
        have hordered := firstOverlap_eq_none.1 hoverlap
        rw [hsorted] at hordered ⊢
        dsimp only
        constructor
        · intro h
          split_ifs at h with hsame
          cases h
          exact ⟨hold, rfl, hpasses, hordered, rfl, hsame⟩
        · intro h
          have hbase := h.base
          have hnew := h.new
          have hchanged := h.changed
          obtain ⟨base, new⟩ := result
          dsimp only at hbase hnew hchanged
          subst hbase
          subst hnew
          rw [if_neg hchanged]

-- ======== any order

theorem baseContent_perm (h : edits'.Perm edits) :
    baseContent nfkc content edits' = baseContent nfkc content edits := by
  have hany : ∀ p : Edit → Bool, edits'.any p = edits.any p := by
    intro p
    rw [Bool.eq_iff_iff, List.any_eq_true, List.any_eq_true]
    exact exists_congr fun edit => and_congr_left' h.mem_iff
  rw [baseContent, baseContent, hany]

theorem sortedSpans_perm_map (content : Text) (edits : List Edit) :
    (sortedSpans nfkc content edits).Perm
      (edits.map (spanOf nfkc content)) := List.mergeSort_perm _ _

theorem pairwise_sortedSpans (content : Text) (edits : List Edit) :
    (sortedSpans nfkc content edits).Pairwise
      fun a b => a.start ≤ b.start := by
  have hsorted : (sortedSpans nfkc content edits).Pairwise
      fun a b => decide (a.start ≤ b.start) = true :=
    List.pairwise_mergeSort
      (fun a b c hab hbc => decide_eq_true
        ((of_decide_eq_true hab).trans (of_decide_eq_true hbc)))
      (fun a b => by
        rw [Bool.or_eq_true, decide_eq_true_eq, decide_eq_true_eq]
        exact Nat.le_total _ _)
      (edits.map (spanOf nfkc content))
  exact hsorted.imp fun h => of_decide_eq_true h

/-- Edits with places of their own are sorted the same from any order. -/
theorem sortedSpans_perm (h : edits'.Perm edits)
    (hstarts : (edits.map (spanOf nfkc content)).Pairwise
      fun s t => s.start ≠ t.start) :
    sortedSpans nfkc content edits' = sortedSpans nfkc content edits := by
  have hperm : (sortedSpans nfkc content edits').Perm
      (sortedSpans nfkc content edits) :=
    (sortedSpans_perm_map content edits').trans
      ((h.map (spanOf nfkc content)).trans
        (sortedSpans_perm_map content edits).symm)
  refine List.Perm.eq_of_pairwise (fun s t hs ht hst hts => ?_)
    (pairwise_sortedSpans content edits') (pairwise_sortedSpans content edits)
    hperm
  have : Std.Symm fun s t : Span Nat => s.start ≠ t.start :=
    ⟨fun _ _ hne => hne.symm⟩
  have hs' := (hperm.trans (sortedSpans_perm_map content edits)).mem_iff.1 hs
  have ht' := (sortedSpans_perm_map content edits).mem_iff.1 ht
  by_contra hne
  exact hstarts.forall hs' ht' hne (Nat.le_antisymm hst hts)

/-- In empty content nothing is sorted. -/
theorem sortedSpans_nil (edits : List Edit) :
    sortedSpans nfkc [] edits = edits.map (spanOf nfkc []) := by
  have hzero : ∀ edit, (spanOf nfkc [] edit).start = 0 := by
    intro edit
    rw [spanOf, Search.indexOf]
    split <;> rfl
  refine List.mergeSort_of_pairwise
    (List.pairwise_map.2 (List.pairwise_of_forall fun a b => ?_))
  rw [hzero, hzero]
  rfl

variable {result : AppliedEditsResult}

section
variable (hnfkc : Settled nfkc) (h : Accepted nfkc content edits result)
include hnfkc h

theorem Accepted.indexOf (hedit : edit ∈ edits) :
    Search.indexOf (matchedText nfkc result.baseContent edit.oldText)
        result.baseContent
      = some (spanOf nfkc result.baseContent edit).start := by
  have hpasses := h.passes edit hedit
  rw [h.base] at hpasses ⊢
  exact indexOf_of_passes hnfkc hedit hpasses

theorem Accepted.within :
    ∀ span ∈ sortedSpans nfkc result.baseContent edits,
      span.stop ≤ result.baseContent.length := by
  intro span hspan
  obtain ⟨edit, hedit, rfl⟩ := List.mem_map.1
    ((sortedSpans_perm_map result.baseContent edits).mem_iff.1 hspan)
  exact le_length_of_indexOf (h.indexOf hnfkc hedit)

omit hnfkc h in
/-- In content that is not empty, clear edits start at places of their own. -/
theorem Accepted.starts (h : Accepted nfkc content edits result)
    (hclear : ∀ edit ∈ edits, ClearEdit nfkc result.baseContent edit)
    (hbase : result.baseContent ≠ []) :
    (edits.map (spanOf nfkc result.baseContent)).Pairwise
      fun s t => s.start ≠ t.start := by
  have hsorted : (sortedSpans nfkc result.baseContent edits).Pairwise
      fun s t => s.start ≠ t.start := by
    refine h.inOrder.imp_of_mem fun {s t} hs _ hst => ?_
    obtain ⟨edit, hedit, rfl⟩ := List.mem_map.1
      ((sortedSpans_perm_map result.baseContent edits).mem_iff.1 hs)
    have hpos := List.length_pos_iff.2 fun hempty =>
      hbase ((hclear edit hedit).notEmpty hempty)
    rw [Span.stop, spanOf] at hst
    dsimp only [spanOf] at hst ⊢
    omega
  exact ((sortedSpans_perm_map result.baseContent edits).pairwise_iff
    fun {s t} hne => hne.symm).1 hsorted

omit hnfkc h in
/-- In empty content the new texts are put together. -/
theorem spliceAll_nil (hfound : ∀ edit ∈ edits,
      Search.indexOf (matchedText nfkc [] edit.oldText) []
        = some (spanOf nfkc [] edit).start) :
    spliceAll (sortedSpans nfkc [] edits) []
      = (edits.map (·.newText)).flatten := by
  have hspans : ∀ edit ∈ edits, spanOf nfkc [] edit
      = ⟨0, 0, edit.newText⟩ := by
    intro edit hedit
    have hle := le_length_of_indexOf (hfound edit hedit)
    rw [List.length_nil] at hle
    rw [spanOf, Span.mk.injEq]
    dsimp only [spanOf] at hle
    exact ⟨by omega, by omega, rfl⟩
  rw [sortedSpans_nil, List.map_congr_left hspans, spliceAll]
  clear hspans hfound
  induction edits with
  | nil => rfl
  | cons edit edits ih =>
    rw [List.map_cons, List.map_cons, List.flatten_cons, List.foldr_cons,
      ih, splice]
    rfl

/-- Clear edits are accepted in any order, with the same result. -/
theorem Accepted.perm
    (hclear : ∀ edit ∈ edits, ClearEdit nfkc result.baseContent edit)
    (htogether : result.baseContent = [] →
      edits.Pairwise fun a b =>
        a.newText ++ b.newText = b.newText ++ a.newText)
    (hperm : edits'.Perm edits) :
    Accepted nfkc content edits' result := by
  have hpasses : ∀ edit ∈ edits', Passes nfkc result.baseContent edit :=
    fun edit hedit => h.passes edit (hperm.mem_iff.1 hedit)
  have holdTexts : ∀ edit ∈ edits', edit.oldText ≠ [] := fun edit hedit =>
    h.oldTexts edit (hperm.mem_iff.1 hedit)
  have hbase' : result.baseContent = baseContent nfkc content edits' := by
    rw [baseContent_perm hperm, h.base]
  by_cases hbase : result.baseContent = []
  · have hfound : ∀ edit ∈ edits,
        Search.indexOf (matchedText nfkc [] edit.oldText) []
          = some (spanOf nfkc [] edit).start := by
      intro edit hedit
      have hi := h.indexOf hnfkc hedit
      rwa [hbase] at hi
    refine ⟨holdTexts, hbase', hpasses, ?_, ?_, h.changed⟩
    · refine (pairwise_sortedSpans result.baseContent edits').imp_of_mem
        fun {s t} hs _ _ => ?_
      obtain ⟨edit, hedit, rfl⟩ := List.mem_map.1
        ((sortedSpans_perm_map result.baseContent edits').mem_iff.1 hs)
      have hle := le_length_of_indexOf
        (h.indexOf hnfkc (hperm.mem_iff.1 hedit))
      rw [hbase, List.length_nil] at hle
      rw [hbase]
      exact hle.trans (Nat.zero_le _)
    · have hnew := h.new
      rw [hbase, spliceAll_nil hfound] at hnew
      rw [hnew, hbase, spliceAll_nil fun edit hedit =>
        hfound edit (hperm.mem_iff.1 hedit)]
      exact (flatten_perm (hperm.map (·.newText))
        (List.pairwise_map.2 (htogether hbase))).symm
  · have hsame := sortedSpans_perm hperm (h.starts hclear hbase)
    exact ⟨holdTexts, hbase', hpasses, hsame ▸ h.inOrder, hsame ▸ h.new,
      h.changed⟩

end

-- ======== the claim

theorem exists_of_forall₂ {α β : Type} {R : α → β → Prop} {as : List α}
    {bs : List β} (h : List.Forall₂ R as bs) {a : α} (ha : a ∈ as) :
    ∃ b, R a b := by
  induction h with
  | nil => cases ha
  | cons hab _ ih =>
    rcases List.mem_cons.1 ha with rfl | ha
    · exact ⟨_, hab⟩
    · exact ih ha

theorem ClearEdits.unambiguous (hnfkc : Settled nfkc) {edits : List Edit}
    (h : applyEditsToNormalizedContent nfkc content edits = .ok result)
    (hclear : ClearEdits nfkc content edits) :
    Unambiguous nfkc content edits result := by
  have haccepted := (applyEdits_ok_iff hnfkc).1 h
  obtain ⟨heach, htogether⟩ := hclear
  rw [← haccepted.base] at heach htogether
  refine ⟨⟨(edits.map normalizeEdit).map (spanOf nfkc result.baseContent),
    ?_, ?_, ?_⟩, fun edits' hperm => ?_⟩
  · refine List.forall₂_map_right_iff.2 (List.forall₂_same.2 fun edit hedit => ?_)
    have hi := haccepted.indexOf hnfkc hedit
    have honly := (only_iff_clearEdit hi).2 (heach edit hedit)
    have hlen := le_length_of_indexOf hi
    exact ⟨⟨by omega, (First_of_indexOf hi).here⟩, honly, rfl, rfl⟩
  · refine ((sortedSpans_perm_map result.baseContent _).pairwise_iff
      fun {s t} hapart => hapart.symm).1 ?_
    exact haccepted.inOrder.imp fun h => Or.inl h
  · rw [haccepted.new, spliceAll_eq_replaced haccepted.inOrder
      (haccepted.within hnfkc)]
    by_cases hbase : result.baseContent = []
    · rw [hbase, sortedSpans_nil]
    · exact replaced_perm (sortedSpans_perm_map result.baseContent _)
        (haccepted.starts heach hbase)
  · exact (applyEdits_ok_iff hnfkc).2
      (haccepted.perm hnfkc heach htogether (hperm.map normalizeEdit))

theorem Unambiguous.clearEdits (hnfkc : Settled nfkc) {edits : List Edit}
    (h : applyEditsToNormalizedContent nfkc content edits = .ok result)
    (hunambiguous : Unambiguous nfkc content edits result) :
    ClearEdits nfkc content edits := by
  have haccepted := (applyEdits_ok_iff hnfkc).1 h
  obtain ⟨⟨spans, hplaces, -, -⟩, hanyOrder⟩ := hunambiguous
  refine ⟨?_, ?_⟩
  · intro edit hedit
    rw [← haccepted.base]
    obtain ⟨span, hplace⟩ := exists_of_forall₂ hplaces hedit
    have hi := haccepted.indexOf hnfkc hedit
    have hlen := le_length_of_indexOf hi
    have hstart := hplace.only _ ⟨by omega, (First_of_indexOf hi).here⟩
    exact (only_iff_clearEdit hi).1 fun j hj =>
      (hplace.only j hj).trans hstart.symm
  · rw [← haccepted.base]
    intro hbase
    have hnew : ∀ edits' : List Edit, edits'.Perm edits → result.newContent
        = ((edits'.map normalizeEdit).map (·.newText)).flatten := by
      intro edits' hperm
      have haccepted' := (applyEdits_ok_iff hnfkc).1 (hanyOrder edits' hperm)
      rw [haccepted'.new, hbase]
      refine spliceAll_nil fun edit hedit => ?_
      have hi := haccepted'.indexOf hnfkc hedit
      rwa [hbase] at hi
    refine List.pairwise_map.2 (List.pairwise_iff_forall_sublist.2
      fun {a b} hsub => ?_)
    obtain ⟨rest, hrest⟩ := hsub.exists_perm_append
    have hab := hnew _ hrest.symm
    have hba := hnew _ ((List.Perm.swap a b rest).trans hrest.symm)
    rw [hab] at hba
    simp only [List.cons_append, List.nil_append, List.map_cons,
      List.flatten_cons, ← List.append_assoc] at hba
    exact List.append_cancel_right hba

/-- The edits that are accepted have one place each and do the same in any
order, if what is looked for does not overlap its first place and is counted
where it is looked for. -/
theorem unambiguous_iff (hnfkc : Settled nfkc) {edits : List Edit}
    (h : applyEditsToNormalizedContent nfkc content edits = .ok result) :
    Unambiguous nfkc content edits result ↔ ClearEdits nfkc content edits :=
  ⟨fun hunambiguous => hunambiguous.clearEdits hnfkc h,
    fun hclear => hclear.unambiguous hnfkc h⟩

end

theorem settled_id : Settled id := fun _ => rfl

theorem unambiguous_iff_clear :
    Unambiguous id (units "ab") [⟨units "a", units "c"⟩]
      ⟨units "ab", units "cb"⟩ := by
  refine (unambiguous_iff settled_id (by decide +kernel)).2 ⟨?_, ?_⟩
  · intro edit hedit
    obtain rfl := List.mem_singleton.1 hedit
    have hlength : (matchedText id (units "ab") (units "a")).length = 1 := by
      decide
    refine ⟨fun hempty => ?_, by decide +kernel, fun i k _ hpos hlt => ?_⟩
    · exact absurd hempty (by decide)
    · exact absurd (hlt.trans_eq hlength) (by omega)
  · exact fun _ => List.pairwise_singleton _ _

/-- In `aaa` the text `aa` is counted once, and replaced, although it stands
at two places. -/
theorem not_unambiguous :
    applyEditsToNormalizedContent id (units "aaa") [⟨units "aa", units "b"⟩]
        = .ok ⟨units "aaa", units "ba"⟩
      ∧ ¬Unambiguous id (units "aaa") [⟨units "aa", units "b"⟩]
        ⟨units "aaa", units "ba"⟩ := by
  refine ⟨by decide +kernel, ?_⟩
  rintro ⟨⟨spans, hplaces, -, -⟩, -⟩
  obtain ⟨span, hplace⟩ := exists_of_forall₂ hplaces List.mem_cons_self
  have hfirst := hplace.only 0 ⟨by decide, by decide⟩
  have hsecond := hplace.only 1 ⟨by decide, by decide⟩
  omega

end OneHarness.Tools.EditDiff
