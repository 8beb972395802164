/-
A refinement request fits into the context of its model, and keeps as much of
the conversation as it can (`refinementRequest_keeps`).

The longer the part of the conversation that is kept, the more bytes its
prompt takes (`promptFrom_mono`), also where a cut moves behind a low
surrogate. So the lengths that fit are those up to some length, and the search
finds the largest (`searchLength_spec`).
-/
import OneHarness.Refinement.Request
import Mathlib.Data.List.Basic

namespace OneHarness.Refinement

open Lib

-- ======== statement vocabulary

/-- The place is not within a pair of surrogates. -/
def CodePointBoundary (text : Text) (start : Nat) : Prop :=
  ¬(∃ before, start = before + 1
    ∧ (text[before]?).any Utf16.isHigh = true
    ∧ (text[start]?).any Utf16.isLow = true)

/-- Where a cut may stand: not on a low surrogate, unless it was moved there
from another one. -/
def CutPlace (text : Text) (start : Nat) : Prop :=
  (text[start]?).any Utf16.isLow = false
    ∨ ∃ before, start = before + 1 ∧ (text[before]?).any Utf16.isLow = true

/-- Every low surrogate follows a high one. -/
def LowsPaired (text : Text) : Prop :=
  ∀ i, (text[i]?).any Utf16.isLow = true →
    ∃ before, i = before + 1 ∧ (text[before]?).any Utf16.isHigh = true

/-- The request fits, and it has the longest part of the conversation that
starts at a place of this kind and fits. -/
structure KeepsFrom (place : Text → Nat → Prop) (model : Model)
    (systemPrompt conversationText : Text) (buildPrompt : Text → Text)
    (outputReserve : Int) (request : RefinementRequest) : Prop where
  fits : refinementInputTokenBound systemPrompt
      + refinementInputTokenBound request.userPrompt
      + refinementContextOverheadTokens + request.model.maxTokens
    ≤ model.contextWindow
  positive : 0 < request.model.maxTokens
  whole : conversationText = []
      ∨ withinBudget model systemPrompt outputReserve
        (buildPrompt conversationText) = true →
    request.userPrompt = buildPrompt conversationText
  longest : conversationText ≠ [] →
    withinBudget model systemPrompt outputReserve
      (buildPrompt conversationText) = false →
    ∃ start, place conversationText start
      ∧ start ≤ conversationText.length
      ∧ request.userPrompt = promptFrom conversationText buildPrompt start
      ∧ ∀ other, place conversationText other →
        other ≤ conversationText.length →
        withinBudget model systemPrompt outputReserve
          (promptFrom conversationText buildPrompt other) = true →
        start ≤ other ∧ withinBudget model systemPrompt outputReserve
          (promptFrom conversationText buildPrompt start) = true

/-- It embeds its argument between fixed texts. -/
def Embeds (buildPrompt : Text → Text) : Prop :=
  ∃ before after, ∀ conversation,
    buildPrompt conversation = before ++ conversation ++ after

-- ======== the search

/-- Of a predicate that holds up to some length, the search finds the last
length where it holds. -/
theorem searchLength_spec {fits : Nat → Bool}
    (hmono : ∀ m n, m ≤ n → fits n = true → fits m = true) (low high : Nat)
    (hle : low ≤ high) :
    low ≤ searchLength fits low high ∧ searchLength fits low high ≤ high
      ∧ (fits low = true → fits (searchLength fits low high) = true)
      ∧ ∀ n, n ≤ high → fits n = true → n ≤ max low
        (searchLength fits low high) := by
  fun_induction searchLength fits low high with
  | case1 low high hlt length hfits ih =>
    obtain ⟨hlow, hhigh, hfit, hall⟩ := ih (by omega)
    refine ⟨by omega, hhigh, fun _ => hfit hfits, fun n hn hnfits => ?_⟩
    have hmax := hall n hn hnfits
    omega
  | case2 low high hlt length hfits ih =>
    obtain ⟨hlow, hhigh, hfit, hall⟩ := ih (by omega)
    refine ⟨hlow, by omega, hfit, fun n hn hnfits => ?_⟩
    apply hall n _ hnfits
    by_contra hgt
    exact hfits (hmono length n (by omega) hnfits)
  | case3 low high hlt =>
    refine ⟨Nat.le_refl low, hle, id, fun n hn _ => ?_⟩
    omega

-- ======== the cut

section
variable {text : Text} {buildPrompt : Text → Text}

theorem cutForLength_le (length : Nat) :
    cutForLength text length ≤ text.length := by
  rw [cutForLength]
  by_cases hlow : (text[text.length - length]?).any Utf16.isLow = true
  · rw [if_pos hlow]
    obtain ⟨u, hu, -⟩ := (Option.any_eq_true _ _).1 hlow
    have hlt := (List.getElem?_eq_some_iff.1 hu).1
    omega
  · rw [if_neg hlow]
    omega

theorem cutForLength_place (length : Nat) :
    CutPlace text (cutForLength text length) := by
  rw [cutForLength]
  by_cases hlow : (text[text.length - length]?).any Utf16.isLow = true
  · rw [if_pos hlow]
    exact .inr ⟨_, rfl, hlow⟩
  · rw [if_neg hlow]
    exact .inl (Bool.eq_false_iff.2 hlow)

/-- The more is kept, the earlier is the cut. -/
theorem cutForLength_mono {m n : Nat} (h : m ≤ n) :
    cutForLength text n ≤ cutForLength text m := by
  have hbound : ∀ k, text.length - k ≤ cutForLength text k
      ∧ cutForLength text k ≤ text.length - k + 1 := by
    intro k
    rw [cutForLength]
    split_ifs <;> omega
  by_cases heq : text.length - n = text.length - m
  · have hcut : cutForLength text n = cutForLength text m := by
      rw [cutForLength, cutForLength, heq]
    exact Nat.le_of_eq hcut
  · have hn := (hbound n).2
    have hm := (hbound m).1
    omega

/-- There is a length for every place of a cut. -/
theorem CutPlace.exists_length {start : Nat} (h : CutPlace text start)
    (hle : start ≤ text.length) :
    ∃ length ≤ text.length, cutForLength text length = start := by
  rcases h with hnot | ⟨before, rfl, hlow⟩
  · refine ⟨text.length - start, Nat.sub_le _ _, ?_⟩
    rw [cutForLength, Nat.sub_sub_self hle]
    rw [if_neg (by rw [hnot]; exact Bool.false_ne_true)]
  · refine ⟨text.length - before, Nat.sub_le _ _, ?_⟩
    rw [cutForLength, Nat.sub_sub_self (by omega)]
    rw [if_pos hlow]

/-- With all low surrogates paired the places are the code point boundaries. -/
theorem cutPlace_iff (hpaired : LowsPaired text) (start : Nat) :
    CutPlace text start ↔ CodePointBoundary text start := by
  have hexcl : ∀ i : Nat, (text[i]?).any Utf16.isLow = true →
      (text[i]?).any Utf16.isHigh = false := by
    intro i hlow
    obtain ⟨u, hu, hlow⟩ := (Option.any_eq_true _ _).1 hlow
    rw [hu]
    exact Utf16.isHigh_eq_false_of_isLow hlow
  constructor
  · rintro (hnot | ⟨before, rfl, hlow⟩) ⟨before', hstart, hhigh, hlow'⟩
    · rw [hlow'] at hnot
      cases hnot
    · obtain rfl := Nat.succ.inj hstart
      rw [hexcl before hlow] at hhigh
      cases hhigh
  · intro hboundary
    by_cases hlow : (text[start]?).any Utf16.isLow = true
    · obtain ⟨before, rfl, hhigh⟩ := hpaired start hlow
      exact absurd ⟨before, rfl, hhigh, hlow⟩ hboundary
    · exact .inl (Bool.eq_false_iff.2 hlow)

-- ======== the prompt

/-- A longer part takes more bytes. -/
theorem promptFrom_mono (hembeds : Embeds buildPrompt) {m n : Nat} (h : m ≤ n) :
    refinementInputTokenBound (promptFrom text buildPrompt n)
      ≤ refinementInputTokenBound (promptFrom text buildPrompt m) := by
  obtain ⟨before, after, hbuild⟩ := hembeds
  have hlast : ∀ u ∈ (before ++ omissionNote).getLast?,
      Utf16.isHigh u = false := by
    intro u hu
    have hnewline : omissionNote.getLast? = some 0x0a := by decide +kernel
    rw [List.getLast?_append, hnewline] at hu
    obtain rfl := Option.some.inj hu
    rfl
  have hbytes : ∀ k, Utf16.byteLength (promptFrom text buildPrompt k)
      = Utf16.byteLength (before ++ omissionNote)
        + Utf16.byteLength (text.drop k ++ after) := by
    intro k
    rw [promptFrom, hbuild, ← Utf16.byteLength_append hlast]
    simp only [List.append_assoc]
  have hsplit : text.drop m ++ after
      = (text.drop m).take (n - m) ++ (text.drop n ++ after) := by
    rw [← List.append_assoc, show text.drop n = (text.drop m).drop (n - m) by
      rw [List.drop_drop, Nat.add_sub_cancel' h], List.take_append_drop]
  have hle := Utf16.byteLength_le_append ((text.drop m).take (n - m))
    (text.drop n ++ after)
  rw [refinementInputTokenBound, refinementInputTokenBound, hbytes, hbytes,
    hsplit]
  omega

end

-- ======== the request

section
variable {model : Model} {systemPrompt conversationText : Text}
  {buildPrompt : Text → Text} {outputReserve : Int}
  {request : RefinementRequest}

theorem withinBudget_mono {long short : Text}
    (h : refinementInputTokenBound short ≤ refinementInputTokenBound long)
    (hlong : withinBudget model systemPrompt outputReserve long = true) :
    withinBudget model systemPrompt outputReserve short = true := by
  rw [withinBudget, decide_eq_true_eq] at hlong ⊢
  omega

theorem fitPrompt_longest (hembeds : Embeds buildPrompt)
    (hne : conversationText ≠ [])
    (hwhole : withinBudget model systemPrompt outputReserve
      (buildPrompt conversationText) = false) :
    ∃ start, CutPlace conversationText start
      ∧ start ≤ conversationText.length
      ∧ fitPrompt model systemPrompt conversationText buildPrompt outputReserve
        = promptFrom conversationText buildPrompt start
      ∧ ∀ other, CutPlace conversationText other →
        other ≤ conversationText.length →
        withinBudget model systemPrompt outputReserve
          (promptFrom conversationText buildPrompt other) = true →
        start ≤ other ∧ withinBudget model systemPrompt outputReserve
          (promptFrom conversationText buildPrompt start) = true := by
  have hpos : 0 < conversationText.length := List.length_pos_iff.2 hne
  have hmono : ∀ m n, m ≤ n →
      withinBudget model systemPrompt outputReserve
        (promptForLength conversationText buildPrompt n) = true →
      withinBudget model systemPrompt outputReserve
        (promptForLength conversationText buildPrompt m) = true :=
    fun m n h => withinBudget_mono
      (promptFrom_mono hembeds (cutForLength_mono h))
  obtain ⟨-, -, hfits, hall⟩ := searchLength_spec hmono 0
    conversationText.length (Nat.zero_le _)
  refine ⟨cutForLength conversationText
      (searchLength (fun length => withinBudget model systemPrompt outputReserve
        (promptForLength conversationText buildPrompt length)) 0
        conversationText.length),
    cutForLength_place _, cutForLength_le _, ?_, ?_⟩
  · rw [fitPrompt]
    rw [hwhole, decide_eq_true hpos]
    rfl
  · intro other hplace hle hother
    obtain ⟨length, hlength, rfl⟩ := hplace.exists_length hle
    have hlongest := hall length hlength hother
    rw [Nat.zero_max] at hlongest
    exact ⟨cutForLength_mono hlongest,
      hfits (hmono 0 length (Nat.zero_le _) hother)⟩

/-- A request that is made fits the context, and has the whole conversation
or the longest part that fits, from a place where a cut may stand. Such places
are the code point boundaries, if all low surrogates are paired. -/
theorem refinementRequest_keeps (hembeds : Embeds buildPrompt)
    (h : refinementRequest model systemPrompt conversationText buildPrompt
      outputReserve = .ok request) :
    KeepsFrom CutPlace model systemPrompt conversationText buildPrompt
        outputReserve request
      ∧ (LowsPaired conversationText →
        KeepsFrom CodePointBoundary model systemPrompt conversationText
          buildPrompt outputReserve request) := by
  rw [refinementRequest] at h
  split_ifs at h with hroom
  have huser : request.userPrompt
      = fitPrompt model systemPrompt conversationText buildPrompt
        outputReserve := by
    rw [← Except.ok.inj h]
  have hmax : request.model.maxTokens = min model.maxTokens
      (model.contextWindow - systemReserve systemPrompt
        - refinementInputTokenBound request.userPrompt) := by
    rw [← Except.ok.inj h]
  rw [← huser, ← hmax] at hroom
  have hkeeps : KeepsFrom CutPlace model systemPrompt conversationText
      buildPrompt outputReserve request := by
    refine ⟨?_, Int.not_le.1 hroom, ?_, fun hne hwhole => ?_⟩
    · rw [hmax, systemReserve]
      omega
    · rintro (hempty | hwhole)
      · rw [huser, fitPrompt, hempty, List.length_nil, decide_eq_false
          (Nat.lt_irrefl 0), Bool.and_false]
        rfl
      · rw [huser, fitPrompt, hwhole]
        rfl
    · rw [huser]
      exact fitPrompt_longest hembeds hne hwhole
  refine ⟨hkeeps, fun hpaired => ?_⟩
  have hplace : CutPlace conversationText
      = CodePointBoundary conversationText :=
    funext fun start => propext (cutPlace_iff hpaired start)
  obtain ⟨hfits, hpositive, hwhole, hlongest⟩ := hkeeps
  rw [hplace] at hlongest
  exact ⟨hfits, hpositive, hwhole, hlongest⟩

end

-- ======== a lone low surrogate

/-- The conversation alone is the prompt. -/
theorem embeds_id : Embeds id :=
  ⟨[], [], fun conversation => (List.append_nil conversation).symm⟩

def smallModel (contextWindow : Int) : Model := ⟨contextWindow, 10⟩

theorem refinementRequest_small :
    refinementRequest (smallModel 1100) [] (units "hello") id 10
      = .ok ⟨⟨1100, 10⟩, units "hello"⟩ := by
  decide +kernel

theorem refinementRequest_keeps_small :
    KeepsFrom CodePointBoundary (smallModel 1100) [] (units "hello") id 10
      ⟨⟨1100, 10⟩, units "hello"⟩ := by
  refine (refinementRequest_keeps embeds_id refinementRequest_small).2 ?_
  intro i hlow
  obtain ⟨u, hu, hlow⟩ := (Option.any_eq_true _ _).1 hlow
  have hnone : ∀ u ∈ units "hello", Utf16.isLow u = false := by decide
  rw [hnone u (List.mem_of_getElem? hu)] at hlow
  cases hlow

/-- A low surrogate without a high one, and a letter, behind 60 letters. -/
def loneLow : Text := List.replicate 60 0x61 ++ [0xdc00, 0x62]

/-- The surrogate and the letter behind it would fit; the cut is moved behind
the surrogate, although it is not half of a pair. -/
theorem not_keepsFrom_boundary :
    refinementRequest (smallModel 1095) [] loneLow id 10
        = .ok ⟨⟨1095, 10⟩, omissionNote ++ [0x62]⟩
      ∧ ¬KeepsFrom CodePointBoundary (smallModel 1095) [] loneLow id 10
        ⟨⟨1095, 10⟩, omissionNote ++ [0x62]⟩ := by
  refine ⟨by decide +kernel, fun hkeeps => ?_⟩
  obtain ⟨start, -, hle, huser, hlongest⟩ :=
    hkeeps.longest (by decide) (by decide +kernel)
  have hboundary : CodePointBoundary loneLow 60 := by
    rintro ⟨before, hbefore, hhigh, -⟩
    obtain rfl := Nat.succ.inj hbefore
    exact absurd hhigh (by decide)
  have hstart := (hlongest 60 hboundary (by decide) (by decide +kernel)).1
  have hlength := congrArg List.length huser
  have htotal : loneLow.length = 62 := by decide
  rw [promptFrom, id, List.length_append, List.length_append,
    List.length_drop, htotal, List.length_singleton] at hlength
  omega

end OneHarness.Refinement
