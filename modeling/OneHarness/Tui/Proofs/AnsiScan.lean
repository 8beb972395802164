/-
The cache does not change what the scanner answers.

What the backward pass knows at a position is what a forward scan from there
finds, for either terminator (`Pass.Knows`): a unit that ends no control
string is skipped by both, and one that does is the first for all that come
before it. The two units that introduce a control string end none, so a scan
may as well start at them.
-/
import OneHarness.Tui.AnsiScan

namespace OneHarness.Tui.AnsiScan

open Lib

variable {str : List Nat} {i : Nat} {pass : Pass}

/-- Every entry is where the control string there is ended. -/
def Truthful (str : List Nat) (ends : ControlStringEnds) : Prop :=
  ∀ pos stop, ends.get pos = some stop → str[pos]? = some 0x1B ∧
    (allowsBel str[pos + 1]? = true →
      stop = controlStringEnd true (pos + 2) (str.drop (pos + 2))) ∧
    (needsSt str[pos + 1]? = true →
      stop = controlStringEnd false (pos + 2) (str.drop (pos + 2)))

/-- What the pass has found is what is found from `i` on. -/
structure Pass.Knows (str : List Nat) (i : Nat) (pass : Pass) : Prop where
  st : controlStringEnd false i (str.drop i) = pass.nextSt.map (· + 2)
  any : controlStringEnd true i (str.drop i)
    = earliest pass.nextBel pass.nextSt
  belBehind : ∀ bel ∈ pass.nextBel, i ≤ bel
  stBehind : ∀ st ∈ pass.nextSt, i ≤ st
  ends : Truthful str pass.ends

theorem drop_of_get {u : Nat} (h : str[i]? = some u) :
    str.drop i = u :: str.drop (i + 1) := by
  obtain ⟨hlt, rfl⟩ := List.getElem?_eq_some_iff.1 h
  exact List.drop_eq_getElem_cons hlt

theorem head?_drop : (str.drop i).head? = str[i]? := List.head?_drop

theorem not_allowsBel_of_needsSt {next : Option Nat} (h : needsSt next = true) :
    allowsBel next = false := by
  unfold needsSt at h
  unfold allowsBel
  grind

/-- A scan skips what ends nothing. -/
theorem controlStringEnd_skip {allowBel : Bool} {u : Nat}
    (h : str[i]? = some u) (hbel : allowBel = true → u ≠ 0x07)
    (hst : u = 0x1B → str[i + 1]? ≠ some 0x5C) :
    controlStringEnd allowBel i (str.drop i)
      = controlStringEnd allowBel (i + 1) (str.drop (i + 1)) := by
  rw [drop_of_get h, controlStringEnd, head?_drop]
  have hne : ¬(allowBel = true ∧ u = 0x07) := by grind
  have hnot : ¬(u = 0x1B ∧ str[i + 1]? = some 0x5C) := by grind
  rw [if_neg hne, if_neg hnot]

/-- It may start at what introduces the control string. -/
theorem controlStringEnd_introducer (allowBel : Bool)
    (hnext : allowsBel str[i + 1]? = true ∨ needsSt str[i + 1]? = true) :
    controlStringEnd allowBel (i + 2) (str.drop (i + 2))
      = controlStringEnd allowBel (i + 1) (str.drop (i + 1)) := by
  cases hu : str[i + 1]? with
  | none => simp [hu, allowsBel, needsSt] at hnext
  | some u =>
    have hcases : u = 0x5D ∨ u = 0x5F ∨ u = 0x50 ∨ u = 0x5E ∨ u = 0x58 := by
      simp [hu, allowsBel, needsSt] at hnext
      omega
    rw [controlStringEnd_skip hu] <;> omega

section
variable (h : pass.Knows str (i + 1))
include h

/-- What ends nothing leaves the pass as it was. -/
theorem Pass.Knows.skip {u : Nat}
    (hu : str[i]? = some u) (hbel : u ≠ 0x07)
    (hst : u = 0x1B → str[i + 1]? ≠ some 0x5C) : pass.Knows str i where
  st := (controlStringEnd_skip hu (fun _ => hbel) hst).trans h.st
  any := (controlStringEnd_skip hu (fun _ => hbel) hst).trans h.any
  belBehind bel hmem := Nat.le_of_succ_le (h.belBehind bel hmem)
  stBehind st hmem := Nat.le_of_succ_le (h.stBehind st hmem)
  ends := h.ends

theorem Pass.Knows.bel (hu : str[i]? = some 0x07) :
    Pass.Knows str i { pass with nextBel := some i } where
  st := (controlStringEnd_skip hu (by simp) (by simp)).trans h.st
  any := by
    rw [drop_of_get hu]
    have hst := h.stBehind
    cases hn : pass.nextSt with
    | none => simp [controlStringEnd, earliest, hn]
    | some st =>
      have hlt : i < st := hst st hn
      simp [controlStringEnd, earliest, hn, hlt]
  belBehind bel hmem := Nat.le_of_eq (Option.some.inj hmem)
  stBehind st hmem := Nat.le_of_succ_le (h.stBehind st hmem)
  ends := h.ends

theorem Pass.Knows.terminator
    (hu : str[i]? = some 0x1B) (hnext : str[i + 1]? = some 0x5C) :
    Pass.Knows str i { pass with nextSt := some i } where
  st := by simp [drop_of_get hu, controlStringEnd, head?_drop, hnext]
  any := by
    have hbel := h.belBehind
    cases hn : pass.nextBel with
    | none => simp [drop_of_get hu, controlStringEnd, earliest, head?_drop, hnext]
    | some bel =>
      have hnot : ¬bel < i := by
        have := hbel bel hn
        omega
      simp [drop_of_get hu, controlStringEnd, earliest, head?_drop, hnext, hnot]
  belBehind bel hmem := Nat.le_of_succ_le (h.belBehind bel hmem)
  stBehind st hmem := Nat.le_of_eq (Option.some.inj hmem)
  ends := h.ends

omit h in
theorem Truthful.set {ends : ControlStringEnds} (h : Truthful str ends)
    (hu : str[i]? = some 0x1B) {stop : Option Nat}
    (hbel : allowsBel str[i + 1]? = true →
      stop = controlStringEnd true (i + 2) (str.drop (i + 2)))
    (hst : needsSt str[i + 1]? = true →
      stop = controlStringEnd false (i + 2) (str.drop (i + 2))) :
    Truthful str (ends.set i stop) := by
  intro pos stop' hget
  rw [JsMap.get_set] at hget
  by_cases hpos : pos = i
  · subst hpos
    rw [if_pos rfl] at hget
    obtain rfl := Option.some.inj hget
    exact ⟨hu, hbel, hst⟩
  · rw [if_neg (Ne.symm hpos)] at hget
    exact h pos stop' hget

theorem Pass.Knows.visit (hi : i < str.length) :
    (pass.visit str i).Knows str i := by
  obtain ⟨u, hu⟩ : ∃ u, str[i]? = some u := ⟨_, List.getElem?_eq_getElem hi⟩
  unfold Pass.visit
  by_cases h7 : u = 0x07
  · subst h7
    simpa [hu] using h.bel hu
  · by_cases h1B : u = 0x1B
    · subst h1B
      by_cases hnext : str[i + 1]? = some 0x5C
      · simpa [hu, hnext] using h.terminator hu hnext
      · have hskip := h.skip hu h7 fun _ => hnext
        simp only [hu, hnext]
        by_cases hbel : allowsBel str[i + 1]? = true
        · have hintro := controlStringEnd_introducer true (.inl hbel)
          have hneeds : needsSt str[i + 1]? ≠ true := by
            intro hneeds
            simp [not_allowsBel_of_needsSt hneeds] at hbel
          simp only [hbel]
          refine ⟨hskip.1, hskip.2, hskip.3, hskip.4, ?_⟩
          exact h.ends.set hu (fun _ => h.any.symm.trans hintro.symm)
            fun hneeds' => absurd hneeds' hneeds
        · by_cases hneeds : needsSt str[i + 1]? = true
          · have hintro := controlStringEnd_introducer false (.inr hneeds)
            simp only [hbel, hneeds]
            refine ⟨hskip.1, hskip.2, hskip.3, hskip.4, ?_⟩
            exact h.ends.set hu (fun hbel' => absurd hbel' hbel)
              fun _ => h.st.symm.trans hintro.symm
          · simpa [hbel, hneeds] using hskip
    · simpa [hu, h7, h1B] using h.skip hu h7 fun h => absurd h h1B

end

theorem truthful_cacheControlStringEnds (start : Nat) :
    Truthful str (cacheControlStringEnds str start []) := by
  have hpass : ∀ n i, str.length ≤ i + n → i + n ≤ max i str.length →
      ((List.range' i n).foldr (Pass.visit str) ⟨none, none, []⟩).Knows str
        i := by
    intro n
    induction n with
    | zero =>
      intro i hle _
      have hnil : str.drop i = [] := List.drop_eq_nil_of_le hle
      constructor <;> simp [hnil, controlStringEnd, earliest, Truthful]
    | succ n ih =>
      intro i hle hmax
      rw [List.range'_succ, List.foldr_cons]
      exact (ih (i + 1) (by omega) (by omega)).visit (by omega)
  exact (hpass _ start (by omega) (by omega)).ends

-- ======== the answers

/-- What the scanner remembers is true. -/
def AnsiScanState.Truthful (str : List Nat) (state : AnsiScanState) : Prop :=
  ∀ ends, state.controlStringEnds = some ends → AnsiScan.Truthful str ends

/-- The answer is that of a scanner that remembers nothing, and what is
remembered is true again. -/
def Agrees (str : List Nat) {α : Type}
    (extract : Option AnsiScanState → α × Option AnsiScanState)
    (state : AnsiScanState) : Prop :=
  (extract (some state)).1 = (extract none).1
    ∧ ∃ state' : AnsiScanState, state'.Truthful str
      ∧ (extract (some state)).2 = some state'

variable {state : AnsiScanState}

theorem extractControlStringEnd_agrees (h : state.Truthful str) {pos : Nat}
    {allowBel : Bool} (hcached : ∀ stop, cached (some state) pos = some stop →
      stop = controlStringEnd allowBel (pos + 2) (str.drop (pos + 2))) :
    Agrees str (extractControlStringEnd str pos allowBel) state := by
  have hnone : cached none pos = none := rfl
  unfold Agrees extractControlStringEnd
  rw [hnone]
  cases hc : cached (some state) pos with
  | some stop =>
    rw [← hcached stop hc]
    cases stop with
    | none => exact ⟨rfl, state, h, rfl⟩
    | some stop => exact ⟨rfl, state, h, rfl⟩
  | none =>
    cases controlStringEnd allowBel (pos + 2) (str.drop (pos + 2)) with
    | some stop => exact ⟨rfl, state, h, rfl⟩
    | none =>
      refine ⟨rfl, _, fun ends hends => ?_, rfl⟩
      obtain rfl := Option.some.inj hends
      exact truthful_cacheControlStringEnds pos

theorem extractAnsiEndAt_agrees (h : state.Truthful str) (pos : Nat) :
    Agrees str (extractAnsiEndAt str pos) state := by
  have hcached : ∀ stop, cached (some state) pos = some stop →
      ∃ ends, AnsiScan.Truthful str ends ∧ ends.get pos = some stop := by
    intro stop hstop
    change state.controlStringEnds.bind (·.get pos) = some stop at hstop
    obtain ⟨ends, hends, hget⟩ := Option.bind_eq_some_iff.1 hstop
    exact ⟨ends, h ends hends, hget⟩
  have hsame : ∀ stop : Option Nat, Agrees str (fun state => (stop, state)) state :=
    fun stop => ⟨rfl, state, h, rfl⟩
  unfold extractAnsiEndAt
  by_cases hu : str[pos]? = some 0x1B
  · simp only [hu, ne_eq, not_true, if_false]
    by_cases hcsi : str[pos + 1]? = some 0x5B
    · simpa only [hcsi, if_true] using hsame _
    · simp only [hcsi, if_false]
      by_cases hbel : allowsBel str[pos + 1]? = true
      · simp only [hbel, if_true]
        apply extractControlStringEnd_agrees h
        intro stop hstop
        obtain ⟨ends, hends, hget⟩ := hcached stop hstop
        exact (hends pos stop hget).2.1 hbel
      · simp only [hbel, Bool.false_eq_true, if_false]
        by_cases hneeds : needsSt str[pos + 1]? = true
        · simp only [hneeds, if_true]
          apply extractControlStringEnd_agrees h
          intro stop hstop
          obtain ⟨ends, hends, hget⟩ := hcached stop hstop
          exact (hends pos stop hget).2.2 hneeds
        · simpa only [hneeds, Bool.false_eq_true, if_false] using hsame none
  · simpa only [hu, ne_eq, not_false_eq_true, if_true] using hsame none

theorem extractAnsiCodeAt_agrees (h : state.Truthful str) (pos : Int) :
    Agrees str (extractAnsiCodeAt str pos) state := by
  unfold extractAnsiCodeAt
  by_cases hpos : pos < 0
  · simp only [hpos, if_true]
    exact ⟨rfl, state, h, rfl⟩
  · simp only [hpos, if_false]
    obtain ⟨heq, state', h', hstate'⟩ := extractAnsiEndAt_agrees h pos.toNat
    refine ⟨?_, state', h', hstate'⟩
    simp only [heq]

/-- A scanner answers every call as one that remembers nothing. -/
theorem createAnsiCodeExtractor_eq (str : List Nat) (positions : List Int) :
    createAnsiCodeExtractor str positions
      = positions.map (extractAnsiCode str) := by
  have hrun : ∀ state : AnsiScanState, state.Truthful str →
      answers str (some state) positions = positions.map (extractAnsiCode str) := by
    induction positions with
    | nil => exact fun _ _ => rfl
    | cons pos positions ih =>
      intro state h
      obtain ⟨heq, state', h', hstate'⟩ := extractAnsiCodeAt_agrees h pos
      rw [answers, List.map_cons, extractAnsiCode]
      simp only [heq, hstate', ih state' h']
  exact hrun emptyState fun ends hends => nomatch hends

end OneHarness.Tui.AnsiScan
