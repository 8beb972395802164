/-
A cut at a turn boundary is read as a split turn exactly if the kept part
begins with entries that start no turn, after an earlier turn
(`cut_at_boundary_iff`).

Each loop of the cut has one lemma that says what it finds: the token walk
(`crossing_some`, `crossing_none`), the choice of a cut point
(`chosenCut_lands`), the walk back (`walkBack_spec`) and the search for the
start of the turn (`findTurnStartIndex_spec`).
-/
import OneHarness.Session.Compaction

namespace OneHarness.Session

open Lib

variable {entries : List SessionEntry} {startIndex endIndex : Nat}
  {keepRecentTokens : ℚ}

-- ======== the token walk

theorem tokensFrom_end : tokensFrom entries endIndex endIndex = 0 := by
  unfold tokensFrom
  rw [Nat.sub_self]
  rfl

theorem tokensFrom_succ {i : Nat} (h : i < endIndex) :
    tokensFrom entries endIndex i
      = tokensFrom entries endIndex (i + 1) + weight entries[i]? := by
  unfold tokensFrom
  rw [show endIndex - i = (endIndex - (i + 1)) + 1 by omega, List.range'_succ,
    List.map_cons, List.sum_cons, Nat.add_comm]

theorem messageAt_cases (entries : List SessionEntry) (n : Nat) :
    (∃ message, entries[n]?.map SessionEntry.body = some (.message message)
        ∧ MessageAt entries n)
      ∨ (∀ message, entries[n]?.map SessionEntry.body ≠ some (.message message))
        ∧ ¬ MessageAt entries n := by
  unfold MessageAt
  cases entries[n]? with
  | none => exact .inr ⟨nofun, nofun⟩
  | some e =>
    cases hbody : e.body with
    | message message =>
      refine .inl ⟨message, congrArg some hbody, ?_⟩
      show e.isMessage = true
      unfold SessionEntry.isMessage
      rw [hbody]
    | _ =>
      right
      constructor
      · intro message heq
        have heq' := Option.some.inj heq
        rw [hbody] at heq'
        cases heq'
      · show ¬ e.isMessage = true
        unfold SessionEntry.isMessage
        rw [hbody]
        nofun

theorem weight_other {n : Nat} (h : ¬ MessageAt entries n) :
    weight entries[n]? = 0 := by
  rcases messageAt_cases entries n with ⟨message, -, hmessage⟩ | ⟨hother, -⟩
  · exact absurd hmessage h
  · unfold weight
    split
    · rename_i message heq
      exact absurd heq (hother message)
    · rfl

theorem crossing_message {n acc : Nat} (hstart : startIndex ≤ n)
    (h : MessageAt entries n) :
    crossing entries startIndex keepRecentTokens (n + 1) acc
      = if keepRecentTokens ≤ ((acc + weight entries[n]? : Nat) : ℚ) then some n
        else crossing entries startIndex keepRecentTokens n
          (acc + weight entries[n]?) := by
  rcases messageAt_cases entries n with ⟨message, hbody, -⟩ | ⟨-, hother⟩
  · conv_lhs => unfold crossing
    unfold weight
    rw [if_neg (by omega), hbody]
  · exact absurd h hother

theorem crossing_other {n acc : Nat} (hstart : startIndex ≤ n)
    (h : ¬ MessageAt entries n) :
    crossing entries startIndex keepRecentTokens (n + 1) acc
      = crossing entries startIndex keepRecentTokens n acc := by
  rcases messageAt_cases entries n with ⟨message, -, hmessage⟩ | ⟨hother, -⟩
  · exact absurd hmessage h
  · conv_lhs => unfold crossing
    rw [if_neg (by omega)]
    split
    · rename_i message heq
      exact absurd heq (hother message)
    · rfl

/-- No message from the index on reaches the budget. -/
def Unreached (entries : List SessionEntry) (endIndex : Nat)
    (keepRecentTokens : ℚ) (n : Nat) : Prop :=
  ∀ j, n ≤ j → j < endIndex → MessageAt entries j →
    (tokensFrom entries endIndex j : ℚ) < keepRecentTokens

variable (entries startIndex keepRecentTokens) in
/-- The walk finds where the budget is reached, or it is not reached. -/
theorem crossing_spec {n : Nat} (hn : n ≤ endIndex)
    (hlater : Unreached entries endIndex keepRecentTokens n) :
    match crossing entries startIndex keepRecentTokens n
      (tokensFrom entries endIndex n) with
    | some i => Crosses entries startIndex endIndex keepRecentTokens i
    | none => ∀ i, ¬ Crosses entries startIndex endIndex keepRecentTokens i := by
  have hstop : ∀ m, Unreached entries endIndex keepRecentTokens m →
      m ≤ startIndex →
        ∀ i, ¬ Crosses entries startIndex endIndex keepRecentTokens i := by
    intro m hm hle i hcross
    have hlt := hm i (hle.trans hcross.start) hcross.stop hcross.message
    exact absurd hcross.reached (not_le.2 hlt)
  induction n with
  | zero => exact hstop 0 hlater (Nat.zero_le _)
  | succ n ih =>
    by_cases hstart : n < startIndex
    · have hnone : crossing entries startIndex keepRecentTokens (n + 1)
          (tokensFrom entries endIndex (n + 1)) = none := by
        unfold crossing
        rw [if_pos hstart]
      rw [hnone]
      exact hstop (n + 1) hlater hstart
    · have htokens : tokensFrom entries endIndex n = _ := tokensFrom_succ hn
      by_cases hmessage : MessageAt entries n
      · rw [crossing_message (by omega) hmessage, ← htokens]
        by_cases hreached :
            keepRecentTokens ≤ (tokensFrom entries endIndex n : ℚ)
        · rw [if_pos hreached]
          exact ⟨by omega, hn, hmessage, hreached,
            fun j hj => hlater j (by omega)⟩
        · rw [if_neg hreached]
          apply ih (by omega)
          intro j hj hj' hmessage'
          by_cases hjn : j = n
          · rw [hjn]
            exact not_le.1 hreached
          · exact hlater j (by omega) hj' hmessage'
      · have hzero := weight_other hmessage
        have hsame : tokensFrom entries endIndex (n + 1)
            = tokensFrom entries endIndex n := by omega
        rw [crossing_other (by omega) hmessage, hsame]
        apply ih (by omega)
        intro j hj hj' hmessage'
        by_cases hjn : j = n
        · exact absurd (hjn ▸ hmessage') hmessage
        · exact hlater j (by omega) hj' hmessage'

theorem crosses_unique {i j : Nat}
    (hi : Crosses entries startIndex endIndex keepRecentTokens i)
    (hj : Crosses entries startIndex endIndex keepRecentTokens j) : i = j := by
  rcases Nat.lt_trichotomy i j with hlt | heq | hlt
  · exact absurd hj.reached (not_le.2 (hi.newest j hlt hj.stop hj.message))
  · exact heq
  · exact absurd hi.reached (not_le.2 (hj.newest i hlt hi.stop hi.message))

-- ======== the chosen cut point

theorem mem_findValidCutPoints {c : Nat} :
    c ∈ findValidCutPoints entries startIndex endIndex
      ↔ CutAt entries startIndex endIndex c := by
  unfold findValidCutPoints CutAt
  rw [List.mem_filter, List.mem_range'_1]
  constructor
  · rintro ⟨⟨hstart, hstop⟩, hcut⟩
    exact ⟨hstart, by omega, hcut⟩
  · rintro ⟨hstart, hstop, hcut⟩
    exact ⟨⟨hstart, by omega⟩, hcut⟩

variable (entries startIndex endIndex) in
theorem sorted_findValidCutPoints :
    (findValidCutPoints entries startIndex endIndex).Pairwise (· < ·) :=
  (List.pairwise_lt_range' (s := startIndex) (n := endIndex - startIndex)).filter _

variable (keepRecentTokens) in
theorem chosenCut_lands {first : Nat} {rest : List Nat}
    (h : findValidCutPoints entries startIndex endIndex = first :: rest) :
    Lands entries startIndex endIndex keepRecentTokens
      (chosenCut entries startIndex endIndex keepRecentTokens first
        (first :: rest)) := by
  have hsorted := sorted_findValidCutPoints entries startIndex endIndex
  have hmem : ∀ {c}, CutAt entries startIndex endIndex c ↔ c ∈ first :: rest := by
    intro c
    rw [← mem_findValidCutPoints, h]
  rw [h] at hsorted
  have hfirst : ∀ c ∈ first :: rest, first ≤ c := by
    intro c hc
    rcases List.mem_cons.1 hc with rfl | hc
    · exact Nat.le_refl _
    · exact Nat.le_of_lt ((List.pairwise_cons.1 hsorted).1 c hc)
  have hspec := crossing_spec entries startIndex keepRecentTokens
    (Nat.le_refl endIndex)
    (fun j hj hj' => absurd hj' (by omega))
  rw [tokensFrom_end] at hspec
  unfold chosenCut
  cases hcross : crossing entries startIndex keepRecentTokens endIndex 0 with
  | none =>
    rw [hcross] at hspec
    exact ⟨hmem.2 List.mem_cons_self, fun i hi => absurd hi (hspec i),
      fun _ c hc => hfirst c (hmem.1 hc)⟩
  | some i =>
    rw [hcross] at hspec
    dsimp only at hspec ⊢
    have hunique : ∀ {i'}, Crosses entries startIndex endIndex
        keepRecentTokens i' → i' = i := fun hi' => crosses_unique hi' hspec
    cases hfind : (first :: rest).find? (i ≤ ·) with
    | some c =>
      obtain ⟨hle, before, after, hsplit, hbefore⟩ :=
        List.find?_eq_some_iff_append.1 hfind
      rw [Option.getD_some]
      refine ⟨hmem.2 (List.mem_of_find?_eq_some hfind), ?_,
        fun hnone => absurd hspec (hnone i)⟩
      intro i' hi'
      rw [hunique hi']
      refine .inl ⟨of_decide_eq_true hle, fun c' hc' hle' => ?_⟩
      have hc'' := hmem.1 hc'
      rw [hsplit] at hc'' hsorted
      rcases List.mem_append.1 hc'' with hin | hin
      · have hfalse := hbefore c' hin
        simp only [hle', decide_true, Bool.not_true, Bool.false_eq_true]
          at hfalse
      · rcases List.mem_cons.1 hin with rfl | hin
        · exact Nat.le_refl _
        · have hafter := (List.pairwise_append.1 hsorted).2.1
          exact Nat.le_of_lt ((List.pairwise_cons.1 hafter).1 c' hin)
    | none =>
      rw [Option.getD_none]
      have hall := List.find?_eq_none.1 hfind
      have hlast : (first :: rest).getLastD first ∈ first :: rest ∧ ∀ c' ∈
          first :: rest, c' ≤ (first :: rest).getLastD first := by
        rcases List.eq_nil_or_concat (first :: rest) with hnil | ⟨init, z, heq⟩
        · cases hnil
        · rw [List.concat_eq_append] at heq
          rw [heq] at hsorted ⊢
          rw [List.getLastD_concat]
          refine ⟨List.mem_append_right _ (List.mem_singleton_self z), ?_⟩
          intro c' hc'
          rcases List.mem_append.1 hc' with hin | hin
          · exact Nat.le_of_lt ((List.pairwise_append.1 hsorted).2.2 c' hin z
              (List.mem_singleton_self z))
          · exact Nat.le_of_eq (List.mem_singleton.1 hin)
      refine ⟨hmem.2 hlast.1, fun i' hi' => ?_,
        fun hnone => absurd hspec (hnone i)⟩
      rw [hunique hi']
      refine .inr fun c' hc' => ⟨?_, hlast.2 c' (hmem.1 hc')⟩
      have hfalse := hall c' (hmem.1 hc')
      by_contra hge
      exact hfalse (decide_eq_true (by omega))

theorem lands_unique {c c' : Nat}
    (h : Lands entries startIndex endIndex keepRecentTokens c)
    (h' : Lands entries startIndex endIndex keepRecentTokens c') : c = c' := by
  by_cases hcross : ∃ i, Crosses entries startIndex endIndex keepRecentTokens i
  · obtain ⟨i, hi⟩ := hcross
    rcases h.reached i hi with ⟨hle, hfirst⟩ | hlast
    · rcases h'.reached i hi with ⟨hle', hfirst'⟩ | hlast'
      · exact Nat.le_antisymm (hfirst c' h'.valid hle') (hfirst' c h.valid hle)
      · have hlt := (hlast' c h.valid).1
        omega
    · rcases h'.reached i hi with ⟨hle', -⟩ | hlast'
      · have hlt := (hlast c' h'.valid).1
        omega
      · exact Nat.le_antisymm (hlast' c h.valid).2 (hlast c' h'.valid).2
  · have hnone : ∀ i, ¬ Crosses entries startIndex endIndex keepRecentTokens i :=
      fun i hi => hcross ⟨i, hi⟩
    exact Nat.le_antisymm (h.all hnone c' h'.valid) (h'.all hnone c h.valid)

-- ======== the walk back

/-- Back to a message or a compaction, or to the start of the range. -/
structure BackFrom (entries : List SessionEntry) (startIndex c k : Nat) : Prop
    where
  start : startIndex ≤ k
  back : k ≤ c
  run : ∀ i, k ≤ i → i < c → ¬ StopAt entries i
  stop : k = startIndex ∨ StopAt entries (k - 1)

variable (entries) in
theorem walkBack_spec {c : Nat} (h : startIndex ≤ c) :
    BackFrom entries startIndex c (walkBack entries startIndex c) := by
  induction c with
  | zero =>
    refine ⟨h, Nat.le_refl _, fun i _ hi => absurd hi (Nat.not_lt_zero i),
      .inl ?_⟩
    exact (Nat.le_zero.1 h).symm
  | succ c ih =>
    unfold walkBack
    by_cases hstart : startIndex < c + 1
    · rw [if_pos hstart]
      by_cases hstop : (entries[c]?.any fun e =>
          e.isCompaction || e.isMessage) = true
      · rw [if_pos hstop]
        exact ⟨h, Nat.le_refl _, fun i hi hi' => absurd hi' (by omega),
          .inr hstop⟩
      · rw [if_neg hstop]
        have hrest := ih (by omega)
        refine ⟨hrest.start, Nat.le_succ_of_le hrest.back, ?_, hrest.stop⟩
        intro i hi hi'
        by_cases hic : i = c
        · rw [hic]
          exact hstop
        · exact hrest.run i hi (by omega)
    · rw [if_neg hstart]
      exact ⟨h, Nat.le_refl _, fun i hi hi' => absurd hi' (by omega),
        .inl (by omega)⟩

theorem back_unique {c k k' : Nat} (h : BackFrom entries startIndex c k)
    (h' : BackFrom entries startIndex c k') : k = k' := by
  have hle : ∀ {k k'}, BackFrom entries startIndex c k →
      BackFrom entries startIndex c k' → k ≤ k' := by
    intro k k' h h'
    by_contra hlt
    rcases h.stop with heq | hstop
    · have hstart := h'.start
      omega
    · exact h'.run (k - 1) (by omega) (by have := h.back; omega) hstop
  exact Nat.le_antisymm (hle h h') (hle h' h)

-- ======== the start of the turn

variable (entries startIndex) in
theorem findTurnStartIndex_spec (k : Nat) :
    match findTurnStartIndex entries startIndex k with
    | some j => startIndex ≤ j ∧ j ≤ k ∧ TurnStartAt entries j
        ∧ ∀ j', j < j' → j' ≤ k → ¬ TurnStartAt entries j'
    | none => ∀ j, startIndex ≤ j → j ≤ k → ¬ TurnStartAt entries j := by
  induction k with
  | zero =>
    unfold findTurnStartIndex
    by_cases hfound : startIndex = 0 ∧ entries[0]?.any (·.isTurnStart)
    · rw [if_pos hfound]
      exact ⟨Nat.le_of_eq hfound.1, Nat.le_refl _, hfound.2,
        fun j' hj hj' => absurd hj' (by omega)⟩
    · rw [if_neg hfound]
      intro j hj hj' hturn
      have hzero : j = 0 := Nat.le_zero.1 hj'
      rw [hzero] at hj hturn
      exact hfound ⟨Nat.le_zero.1 hj, hturn⟩
  | succ k ih =>
    unfold findTurnStartIndex
    by_cases hbefore : k + 1 < startIndex
    · rw [if_pos hbefore]
      intro j hj hj'
      omega
    · rw [if_neg hbefore]
      by_cases hturn : entries[k + 1]?.any (·.isTurnStart) = true
      · rw [if_pos hturn]
        exact ⟨by omega, Nat.le_refl _, hturn,
          fun j' hj hj' => absurd hj' (by omega)⟩
      · rw [if_neg hturn]
        cases hrest : findTurnStartIndex entries startIndex k with
        | some j =>
          rw [hrest] at ih
          obtain ⟨hstart, hle, hj, hnewest⟩ := ih
          refine ⟨hstart, by omega, hj, fun j' hlt hle' => ?_⟩
          by_cases hlast : j' = k + 1
          · rw [hlast]
            exact hturn
          · exact hnewest j' hlt (by omega)
        | none =>
          rw [hrest] at ih
          intro j hj hj'
          by_cases hlast : j = k + 1
          · rw [hlast]
            exact hturn
          · exact ih j hj (by omega)

-- ======== the result

theorem turnStart_of_user {k : Nat}
    (h : entries[k]?.any (·.isUserMessage) = true) : TurnStartAt entries k := by
  unfold TurnStartAt
  cases hentry : entries[k]? with
  | none =>
    rw [hentry] at h
    cases h
  | some e =>
    rw [hentry] at h
    change e.isUserMessage = true at h
    show e.isTurnStart = true
    unfold SessionEntry.isUserMessage at h
    unfold SessionEntry.isTurnStart
    split at h
    · rename_i heq
      rw [heq]
    · cases h

/-- The prefix that is reported has messages exactly if the cut is misread. -/
theorem atBoundary_iff :
    AtBoundary entries
        (findCutPoint entries startIndex endIndex keepRecentTokens)
      ↔ ¬ Misread entries startIndex endIndex keepRecentTokens := by
  unfold findCutPoint
  cases hcuts : findValidCutPoints entries startIndex endIndex with
  | nil =>
    apply iff_of_true
    · intro _ hsplit
      cases hsplit
    · rintro ⟨c, _, hlands, -⟩
      have hmem := mem_findValidCutPoints.2 hlands.valid
      rw [hcuts] at hmem
      exact absurd hmem List.not_mem_nil
  | cons first rest =>
    have hlands := chosenCut_lands keepRecentTokens hcuts
    dsimp only
    generalize chosenCut entries startIndex endIndex keepRecentTokens first
      (first :: rest) = c at hlands ⊢
    have hback := walkBack_spec entries hlands.valid.1
    generalize walkBack entries startIndex c = k at hback ⊢
    have hturn := findTurnStartIndex_spec entries startIndex k
    constructor
    · rintro hboundary ⟨c', k', hlands', hstart, hle, hrun, hstop, hnone,
        hstarts, j, i, hj, hji, hik, hturnj, hnewest, hproducing⟩
      rw [lands_unique hlands' hlands] at hle hrun
      have hk : k' = k := back_unique ⟨hstart, hle, hrun, hstop⟩ hback
      rw [hk] at hnone hstarts hik hnewest
      have huser : entries[k]?.any (·.isUserMessage) = false := by
        rw [← Bool.not_eq_true]
        exact fun h => hnone (turnStart_of_user h)
      rw [huser] at hboundary
      cases hfound : findTurnStartIndex entries startIndex k with
      | none =>
        rw [hfound] at hturn
        exact hturn j hj (by omega) hturnj
      | some j' =>
        rw [hfound] at hturn hboundary
        obtain ⟨-, hle', hturnj', hnewest'⟩ := hturn
        have hjj : j' ≤ j := by
          by_contra hlt
          by_cases hjk : j' = k
          · exact hnone (hjk ▸ hturnj')
          · exact hnewest j' (by omega) (by omega) hturnj'
        exact hboundary hstarts rfl i (by
          show j' ≤ i
          omega) hik hproducing
    · intro hread hstarts hsplit i hle hlt hproducing
      apply hread
      cases huser : entries[k]?.any (·.isUserMessage) with
      | true =>
        rw [huser] at hsplit
        cases hsplit
      | false =>
        rw [huser] at hsplit hle
        cases hfound : findTurnStartIndex entries startIndex k with
        | none =>
          rw [hfound] at hsplit
          cases hsplit
        | some j =>
          rw [hfound] at hturn hle
          obtain ⟨hj, -, hturnj, hnewest⟩ := hturn
          have hji : j ≤ i := hle
          have hik : i < k := hlt
          refine ⟨c, k, hlands, hback.start, hback.back, hback.run,
            hback.stop, ?_, hstarts, j, i, hj, hji, hik, hturnj,
            fun j' hlt' hlt'' => hnewest j' hlt' (by omega), hproducing⟩
          exact hnewest k (by omega) (Nat.le_refl k)

theorem messagesBetween_eq_nil {start stop : Nat} :
    messagesBetween entries start stop = [] ↔
      ∀ i, start ≤ i → i < stop → ¬ ProducingAt entries i := by
  unfold messagesBetween
  rw [List.filterMap_eq_nil_iff]
  have hget : ∀ i, ((entries.take stop).drop start)[i]?
      = if start + i < stop then entries[start + i]? else none := by
    intro i
    rw [List.getElem?_drop, List.getElem?_take]
  constructor
  · intro hnone i hstart hstop hproducing
    unfold ProducingAt at hproducing
    cases hentry : entries[i]? with
    | none =>
      rw [hentry] at hproducing
      cases hproducing
    | some e =>
      rw [hentry] at hproducing
      have hmem : e ∈ (entries.take stop).drop start := by
        apply List.mem_of_getElem? (i := i - start)
        rw [hget, if_pos (by omega), show start + (i - start) = i by omega]
        exact hentry
      change (getMessageFromEntryForCompaction e).isSome = true at hproducing
      rw [hnone e hmem] at hproducing
      cases hproducing
  · intro hnone e hmem
    obtain ⟨i, hi⟩ := List.mem_iff_getElem?.1 hmem
    rw [hget] at hi
    by_cases hstop : start + i < stop
    · rw [if_pos hstop] at hi
      have hnot := hnone (start + i) (by omega) hstop
      unfold ProducingAt at hnot
      rw [hi] at hnot
      change ¬ (getMessageFromEntryForCompaction e).isSome = true at hnot
      exact Option.not_isSome_iff_eq_none.1 hnot
    · rw [if_neg hstop] at hi
      cases hi

/-- What a preparation takes as the prefix of a turn. -/
theorem turnPrefixMessages_eq {settings : CompactionSettings}
    {preparation : CompactionPreparation}
    (h : prepareCompaction entries settings = some (some preparation)) :
    let r := findCutPoint entries (boundaryStart entries) entries.length
      settings.keepRecentTokens
    preparation.turnPrefixMessages
      = if r.isSplitTurn then
          messagesBetween entries (r.turnStartIndex.getD 0)
            r.firstKeptEntryIndex
        else [] := by
  intro r
  simp only [prepareCompaction] at h
  split at h
  · cases Option.some.inj h
  · obtain ⟨context, -, h⟩ := Option.map_eq_some_iff.1 h
    cases hkept : entries[r.firstKeptEntryIndex]? with
    | none =>
      rw [hkept] at h
      cases h
    | some firstKeptEntry =>
      rw [hkept] at h
      simp only [Option.ite_none_left_eq_some] at h
      obtain ⟨-, -, h⟩ := h
      rw [← Option.some.inj h]

/-- A cut whose first kept message starts a turn splits no turn exactly if it
is not misread, and so does not take an earlier turn for its prefix. -/
theorem cut_at_boundary_iff (entries : List SessionEntry) :
    (∀ startIndex endIndex keepRecentTokens,
        AtBoundary entries
            (findCutPoint entries startIndex endIndex keepRecentTokens)
          ↔ ¬ Misread entries startIndex endIndex keepRecentTokens)
      ∧ ∀ settings preparation,
        prepareCompaction entries settings = some (some preparation) →
        StartsTurn entries (findCutPoint entries (boundaryStart entries)
          entries.length settings.keepRecentTokens).firstKeptEntryIndex →
        (preparation.turnPrefixMessages = [] ↔
          ¬ Misread entries (boundaryStart entries) entries.length
            settings.keepRecentTokens) := by
  refine ⟨fun _ _ _ => atBoundary_iff, ?_⟩
  intro settings preparation h hstarts
  rw [← atBoundary_iff, turnPrefixMessages_eq h]
  constructor
  · intro hnil _ hsplit
    rw [if_pos hsplit] at hnil
    exact messagesBetween_eq_nil.1 hnil
  · intro hboundary
    split
    · rename_i hsplit
      exact messagesBetween_eq_nil.2 (hboundary hstarts hsplit)
    · rfl

/-- A message of the user, with two tokens. -/
def questionEntry (id : String) : SessionEntry where
  id := id
  parentId := none
  timestamp := ""
  body := .message (.user ⟨.text "question", Numeral.ofNat 0⟩)

def commandEntry (id : String) : SessionEntry where
  id := id
  parentId := none
  timestamp := ""
  body := .message (.bashExecution
    ⟨"ls", "", none, false, false, none, Numeral.ofNat 0, none⟩)

theorem cut_at_boundary_user :
    ¬ Misread [questionEntry "1", questionEntry "2"] 0 2 1 := by
  apply (((cut_at_boundary_iff [questionEntry "1", questionEntry "2"]).2
    ⟨true, 0, 1⟩ _ rfl) ⟨1, ?_⟩).1
  · rfl
  · refine ⟨?_, rfl, rfl, ?_⟩
    · decide +kernel
    · intro i hi hlt
      change 1 ≤ i at hi
      omega

/-- A model change before the question makes the whole turn before it a
prefix. -/
theorem turn_taken_for_prefix :
    ¬ AtBoundary
      [questionEntry "1", commandEntry "2", ⟨"3", none, "", .modelChange "p" "m"⟩,
        questionEntry "4"]
      (findCutPoint
        [questionEntry "1", commandEntry "2", ⟨"3", none, "", .modelChange "p" "m"⟩,
          questionEntry "4"] 0 4 1) := by
  have hcut : findCutPoint
      [questionEntry "1", commandEntry "2", ⟨"3", none, "", .modelChange "p" "m"⟩,
        questionEntry "4"] 0 4 1 = ⟨2, some 1, true⟩ := by
    decide +kernel
  rw [hcut]
  intro h
  apply h ⟨3, by decide, rfl, rfl, ?_⟩ rfl 1 (by decide) (by decide) rfl
  intro i hi hlt
  rw [show i = 2 by
    change 2 ≤ i at hi
    omega]
  nofun

end OneHarness.Session
