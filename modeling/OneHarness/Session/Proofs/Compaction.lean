/-
Compaction over the life of a path: what is summarized and what is kept are
what was there, and no tool result is kept without its call.

A path grows entry by entry, and a compaction on it keeps what its preparation
said (`Chained`). The context is then the summary and the messages from one
index on (`window`), which the next preparation starts at. That index is the
start of the path, or a cut point with bookkeeping before it (`guarded`): so
no call is in front of it whose results are behind.
-/
import OneHarness.Session.Proofs.BranchSummary
import OneHarness.Session.Proofs.CutPoint

namespace OneHarness.Session

open Lib BranchSummary

-- ======== statement vocabulary

/-- A path that grew entry by entry: each is under the one before it, and a
compaction keeps what was prepared on what was there. -/
structure Chained (path : List SessionEntry) : Prop where
  distinct : DistinctIds path
  linked : Linked path
  root : ∀ root, path.head? = some root → root.parentId = none
  prepared : ∀ (i : Nat) entry c, path[i]? = some entry →
    entry.body = .compaction c → ∃ settings preparation,
      prepareCompaction (path.take i) settings = some (some preparation)
        ∧ c.firstKeptEntryId = preparation.firstKeptEntryId

/-- How many summaries lead the context. -/
def lead (path : List SessionEntry) : Nat :=
  if path.any (·.isCompaction) then 1 else 0

/-- A harness digest, or the summary of a branch with nothing in it. -/
def AgentMessage.isExcepted : AgentMessage → Bool
  | .custom m => m.customType = harnessDigestCustomType
  | .branchSummary m => m.summary = ""
  | _ => false

/-- The assistant asked for the tool call of that id. -/
def Calls (a : AssistantMessage) (toolCallId : String) : Prop :=
  ∃ name arguments signature,
    AssistantBlock.toolCall toolCallId name arguments signature ∈ a.content

/-- Every tool result follows the message that calls it, with nothing between
them that a path may be cut before. -/
def Answered (path : List SessionEntry) : Prop :=
  ∀ (i : Nat) e m, path[i]? = some e → e.body = .message (.toolResult m) →
    ∃ j x a, j < i ∧ path[j]? = some x ∧ x.body = .message (.assistant a)
      ∧ Calls a m.toolCallId
      ∧ ∀ n, j < n → n < i → ¬ path[n]?.any (·.isCutPoint)

/-- Every tool result comes after the message that calls it. -/
def Paired (messages : List AgentMessage) : Prop :=
  ∀ before m after, messages = before ++ .toolResult m :: after →
    ∃ a, .assistant a ∈ before ∧ Calls a m.toolCallId

-- ======== paths

variable {path xs ys : List SessionEntry} {e : SessionEntry}

theorem Chained.append_left (h : Chained (xs ++ ys)) : Chained xs where
  distinct := by
    have hnd := h.distinct
    rw [DistinctIds, List.map_append] at hnd
    exact hnd.of_append_left
  linked := h.linked.append_left
  root root hroot := h.root root (by rw [List.head?_append, hroot]; rfl)
  prepared i entry c hi hbody := by
    have hlt := (List.getElem?_eq_some_iff.1 hi).1
    have hprepared := h.prepared i entry c
      ((List.getElem?_append_left hlt).trans hi) hbody
    rwa [List.take_append_of_le_length (Nat.le_of_lt hlt)] at hprepared

/-- The context is that of the whole path. -/
theorem Chained.context (h : Chained path) :
    buildSessionContext (path.map .entry) .undefined none
      = some (contextOfPath path) := by
  cases path using List.reverseRecOn with
  | nil => rfl
  | append_singleton es leaf =>
    have hwalk : walk (indexOf (es ++ [leaf])) leaf = some (es ++ [leaf]) := by
      refine walk_of_linked h.linked (fun x hx => ?_) fun root hr => ?_
      · exact indexOf_get h.distinct (List.mem_append_left _ hx)
      · rw [parentOf, h.root root hr]
    unfold buildSessionContext leafEntry
    rw [entriesOf_map_entry, Option.getD_none, List.map_append, List.map_cons,
      List.map_nil, List.getLast?_concat]
    show (walk _ leaf).map _ = _
    rw [hwalk]
    rfl

-- ======== what is cut

variable {settings : CompactionSettings} {preparation : CompactionPreparation}
  {startIndex endIndex k f : Nat} {entries : List SessionEntry}

/-- The cut is a cut point with the bookkeeping before it; with no cut point,
it is the start of the range. -/
def Cuts (entries : List SessionEntry) (startIndex endIndex k : Nat) : Prop :=
  (k = startIndex ∧ ∀ i, ¬ CutAt entries startIndex endIndex i)
    ∨ ∃ i, CutAt entries startIndex endIndex i ∧ BackFrom entries startIndex i k

variable (startIndex endIndex entries) in
theorem findCutPoint_spec (keepRecentTokens : ℚ) :
    let r := findCutPoint entries startIndex endIndex keepRecentTokens
    Cuts entries startIndex endIndex r.firstKeptEntryIndex
      ∧ (r.isSplitTurn → startIndex ≤ r.turnStartIndex.getD 0
        ∧ r.turnStartIndex.getD 0 ≤ r.firstKeptEntryIndex) := by
  unfold findCutPoint
  cases hcuts : findValidCutPoints entries startIndex endIndex with
  | nil =>
    refine ⟨.inl ⟨rfl, fun i hi => ?_⟩, nofun⟩
    have hmem := mem_findValidCutPoints.2 hi
    rw [hcuts] at hmem
    exact List.not_mem_nil hmem
  | cons first rest =>
    have hvalid := (chosenCut_lands keepRecentTokens hcuts).valid
    have hback := walkBack_spec entries hvalid.1
    refine ⟨.inr ⟨_, hvalid, hback⟩, ?_⟩
    dsimp only
    generalize walkBack entries startIndex _ = k
    have hturn := findTurnStartIndex_spec entries startIndex k
    cases entries[k]?.any (·.isUserMessage) with
    | true => nofun
    | false =>
      cases hfound : findTurnStartIndex entries startIndex k with
      | none => nofun
      | some j =>
        rw [hfound] at hturn
        exact fun _ => ⟨hturn.1, hturn.2.1⟩

theorem drop_split {α : Type} (l : List α) (h : k ≤ f) :
    l.drop k = (l.take f).drop k ++ l.drop f := by
  conv_lhs => rw [← List.take_append_drop f l]
  rw [List.drop_append]
  by_cases hlen : f ≤ l.length
  · rw [List.length_take, Nat.min_eq_left hlen, Nat.sub_eq_zero_of_le h,
      List.drop_zero]
  · rw [List.drop_eq_nil_of_le (Nat.le_of_not_le hlen), List.drop_nil]

theorem messagesBetween_append {t : Nat} (h : k ≤ t) (h' : t ≤ f) :
    messagesBetween entries k t ++ messagesBetween entries t f
      = messagesBetween entries k f := by
  unfold messagesBetween
  rw [drop_split (entries.take f) h, List.take_take, Nat.min_eq_left h',
    List.filterMap_append]

/-- A preparation summarizes everything from the boundary up to what it
keeps. -/
theorem prepareCompaction_spec
    (h : prepareCompaction path settings = some (some preparation)) :
    ∃ f e, path[f]? = some e ∧ preparation.firstKeptEntryId = e.id
      ∧ boundaryStart path ≤ f ∧ Cuts path (boundaryStart path) path.length f
      ∧ preparation.messagesToSummarize ++ preparation.turnPrefixMessages
        = messagesBetween path (boundaryStart path) f := by
  obtain ⟨hcut, hturn⟩ := findCutPoint_spec (boundaryStart path) path.length path
    settings.keepRecentTokens
  have hturns := turnPrefixMessages_eq h
  simp only [prepareCompaction] at h
  split at h
  · cases Option.some.inj h
  · obtain ⟨context, -, h⟩ := Option.map_eq_some_iff.1 h
    dsimp only at hturns
    generalize findCutPoint path (boundaryStart path) path.length
      settings.keepRecentTokens = r at h hcut hturn hturns
    cases hkept : path[r.firstKeptEntryIndex]? with
    | none =>
      rw [hkept] at h
      cases h
    | some e =>
      rw [hkept] at h
      simp only [Option.ite_none_left_eq_some] at h
      obtain ⟨-, -, h⟩ := h
      refine ⟨r.firstKeptEntryIndex, e, hkept, ?_, ?_, hcut, ?_⟩
      · rw [← Option.some.inj h]
      · rcases hcut with ⟨heq, -⟩ | ⟨_, -, hback⟩
        · exact Nat.le_of_eq heq.symm
        · exact hback.start
      · rw [hturns, ← Option.some.inj h]
        dsimp only
        split
        · rename_i hsplit
          exact messagesBetween_append (hturn hsplit).1 (hturn hsplit).2
        · exact List.append_nil _

-- ======== where the context begins

variable {before after : List SessionEntry} {entry x : SessionEntry}
  {c : CompactionEntry}

theorem split_at (hf : path[f]? = some x) :
    path = path.take f ++ x :: path.drop (f + 1) := by
  obtain ⟨_, hget⟩ := List.getElem?_eq_some_iff.1 hf
  rw [← hget, List.getElem_cons_drop, List.take_append_drop]

theorem retainedMessages_from (hnd : DistinctIds path)
    (hf : path[f]? = some x) :
    retainedMessages path x.id = (path.drop f).filterMap contextMessage := by
  obtain ⟨_, hget⟩ := List.getElem?_eq_some_iff.1 hf
  conv_lhs => rw [split_at hf]
  rw [split_at hf] at hnd
  rw [retainedMessages_split _ fun y hy => hnd.ne_before hy, ← hget,
    List.getElem_cons_drop]

theorem findSome?_noCompaction (h : NoCompaction path) :
    path.reverse.findSome? (·.compaction?) = none :=
  List.findSome?_eq_none_iff.2 fun e he => by
    simpa [SessionEntry.isCompaction] using h e (List.mem_reverse.1 he)

theorem boundaryStart_plain (h : NoCompaction path) : boundaryStart path = 0 := by
  rw [boundaryStart, prevCompaction, findSome?_noCompaction h]
  rfl

theorem boundaryStart_split (hbody : entry.body = .compaction c)
    (hno : NoCompaction after) (hf : before[f]? = some x)
    (hid : c.firstKeptEntryId = x.id)
    (hnd : DistinctIds (before ++ entry :: after)) :
    boundaryStart (before ++ entry :: after) = f := by
  have hc : (before ++ entry :: after).reverse.findSome? (·.compaction?)
      = some c := by
    rw [List.reverse_append, List.reverse_cons, List.append_assoc,
      List.findSome?_append, findSome?_noCompaction hno, Option.none_or,
      List.singleton_append, List.findSome?_cons,
      SessionEntry.compaction?_eq_some.2 hbody]
  obtain ⟨hlt, hget⟩ := List.getElem?_eq_some_iff.1 hf
  have hidx : (before ++ entry :: after).findIdx?
      (fun e => e.id = c.firstKeptEntryId) = some f := by
    rw [List.findIdx?_append, List.findIdx?_eq_some_iff_getElem.2 ⟨hlt, ?_, ?_⟩]
    · rfl
    · exact decide_eq_true (hget ▸ hid.symm)
    · intro j hj heq
      rw [split_at hf, List.append_assoc, List.cons_append] at hnd
      refine hnd.ne_before (List.mem_take_iff_getElem.2 ⟨j, by omega, rfl⟩) ?_
      rw [of_decide_eq_true heq, hid]
  rw [boundaryStart, prevCompaction, hc]
  simp only [Option.bind_eq_bind, Option.bind_some, Option.pure_def, hidx,
    Option.getD_some]

/-- The last compaction keeps what it said, and the next one starts there. -/
theorem Chained.last (h : Chained path) :
    NoCompaction path ∧ boundaryStart path = 0
      ∨ ∃ before entry c after x, path = before ++ entry :: after
        ∧ entry.body = .compaction c ∧ NoCompaction after
        ∧ before[boundaryStart path]? = some x ∧ c.firstKeptEntryId = x.id
        ∧ Cuts before (boundaryStart before) before.length
          (boundaryStart path) := by
  rcases exists_lastCompaction path with hno | ⟨before, entry, c, after, rfl,
    hbody, hno⟩
  · exact .inl ⟨hno, boundaryStart_plain hno⟩
  · obtain ⟨settings, preparation, hprepared, hkept⟩ :=
      h.prepared before.length entry c (by simp) hbody
    rw [List.take_left] at hprepared
    obtain ⟨f, x, hf, hid, -, hcut, -⟩ := prepareCompaction_spec hprepared
    rw [boundaryStart_split hbody hno hf (hkept.trans hid) h.distinct]
    exact .inr ⟨before, entry, c, after, x, rfl, hbody, hno, hf,
      hkept.trans hid, hcut⟩

/-- The context is the summary and the messages from the boundary on. -/
theorem Chained.window (h : Chained path) :
    ∃ head, head.length = lead path ∧ (∀ m, .toolResult m ∉ head)
      ∧ (contextOfPath path).messages
        = head ++ (path.drop (boundaryStart path)).filterMap contextMessage := by
  rcases h.last with ⟨hno, hstart⟩ | ⟨before, entry, c, after, x, rfl, hbody,
    hno, hf, hid, -⟩
  · refine ⟨[], ?_, fun _ => List.not_mem_nil, ?_⟩
    · rw [lead, if_neg]
      · rfl
      · intro hany
        obtain ⟨e, he, hcompaction⟩ := List.any_eq_true.1 hany
        rw [hno e he] at hcompaction
        cases hcompaction
    · rw [hstart, messages_plain hno]
      rfl
  · have hnew : ∀ e ∈ before, e.id ≠ entry.id :=
      fun e he => h.distinct.ne_before he
    have hentry : contextMessage entry = none := by
      rw [contextMessage, hbody]
    have hlt := (List.getElem?_eq_some_iff.1 hf).1
    have hretained : retainedMessages before c.firstKeptEntryId
        = (before.drop (boundaryStart (before ++ entry :: after))).filterMap
          contextMessage := by
      rw [hid, retainedMessages_from h.append_left.distinct hf]
    refine ⟨[summaryMessage entry c (retainedMessages before c.firstKeptEntryId)],
      ?_, ?_, ?_⟩
    · rw [lead, if_pos]
      · rfl
      · exact List.any_eq_true.2 ⟨entry, by simp,
          SessionEntry.isCompaction_iff.2 ⟨c, hbody⟩⟩
    · intro m hm
      cases List.mem_singleton.1 hm
    · rw [messages_split hbody hno hnew, List.drop_append,
        Nat.sub_eq_zero_of_le (Nat.le_of_lt hlt), List.drop_zero,
        List.filterMap_append, List.filterMap_cons_none hentry, hretained]
      rfl

/-- The start of the path, or a cut point with bookkeeping before it. -/
theorem Chained.guarded (h : Chained path) :
    boundaryStart path = 0 ∨ ∃ i, boundaryStart path ≤ i
      ∧ path[i]?.any (·.isCutPoint)
      ∧ ∀ n, boundaryStart path ≤ n → n < i → ¬ StopAt path n := by
  induction hlen : path.length using Nat.strong_induction_on
    generalizing path with
  | _ n ih =>
    rcases h.last with ⟨-, hstart⟩ | ⟨before, entry, c, after, x, rfl, -, -, -,
      -, hcut⟩
    · exact .inl hstart
    · rcases hcut with ⟨heq, hnone⟩ | ⟨i, hi, hback⟩
      · rw [List.length_append, List.length_cons] at hlen
        rcases ih before.length (by omega) h.append_left rfl with
          hzero | ⟨i, hle, hi, -⟩
        · exact .inl (heq.trans hzero)
        · refine absurd ⟨hle, ?_, hi⟩ (hnone i)
          by_contra hge
          rw [List.getElem?_eq_none (Nat.le_of_not_lt hge)] at hi
          cases hi
      · have hsame : ∀ n, n ≤ i → (before ++ entry :: after)[n]? = before[n]? :=
          fun n hn => List.getElem?_append_left (Nat.lt_of_le_of_lt hn hi.2.1)
        refine .inr ⟨i, hback.back, hsame i (Nat.le_refl i) ▸ hi.2.2,
          fun n hle hlt => ?_⟩
        rw [StopAt, hsame n (Nat.le_of_lt hlt)]
        exact hback.run n hle hlt

-- ======== the results

theorem filter_excepted (es : List SessionEntry) :
    (es.filterMap getMessageFromEntryForCompaction).filter (!·.isExcepted)
      = (es.filterMap contextMessage).filter (!·.isExcepted) := by
  rw [List.filter_filterMap, List.filter_filterMap]
  refine List.filterMap_congr fun e _ => ?_
  unfold getMessageFromEntryForCompaction getMessageFromEntry contextMessage
  cases e.body with
  | customMessage c =>
    by_cases hdigest : c.customType = harnessDigestCustomType
    · simp [hdigest, createCustomMessage, AgentMessage.isExcepted, Option.filter]
    · simp [hdigest]
  | branchSummary b =>
    by_cases hempty : b.summary = ""
    · simp [hempty, createBranchSummaryMessage, AgentMessage.isExcepted,
        Option.filter]
    · simp [hempty]
  | _ => rfl

/-- A compaction divides the messages into those it summarizes and those it
keeps, in order, whatever compactions were before it. -/
theorem compaction_conserves
    (hprepared : prepareCompaction path settings = some (some preparation))
    (hbody : entry.body = .compaction c)
    (hkept : c.firstKeptEntryId = preparation.firstKeptEntryId)
    (h : Chained (path ++ [entry])) :
    ∃ old new summarized kept,
      buildSessionContext (path.map .entry) .undefined none = some old
        ∧ buildSessionContext ((path ++ [entry]).map .entry) .undefined none
          = some new
        ∧ old.messages.drop (lead path) = summarized ++ kept
        ∧ new.messages = summaryMessage entry c kept :: kept
        ∧ (preparation.messagesToSummarize
            ++ preparation.turnPrefixMessages).filter (!·.isExcepted)
          = summarized.filter (!·.isExcepted) := by
  obtain ⟨f, x, hf, hid, hle, -, hsummarized⟩ :=
    prepareCompaction_spec hprepared
  have hpath := h.append_left
  obtain ⟨head, hlead, -, hmessages⟩ := hpath.window
  refine ⟨_, _, ((path.take f).drop (boundaryStart path)).filterMap
    contextMessage, (path.drop f).filterMap contextMessage, hpath.context,
    h.context, ?_, ?_, ?_⟩
  · rw [hmessages, ← hlead, List.drop_left, drop_split path hle,
      List.filterMap_append]
  · have hretained : retainedMessages path c.firstKeptEntryId
        = (path.drop f).filterMap contextMessage := by
      rw [hkept, hid, retainedMessages_from hpath.distinct hf]
    rw [messages_split hbody (fun _ he => absurd he List.not_mem_nil)
      (fun _ he => h.distinct.ne_before he), hretained, List.filterMap_nil, List.append_nil]
  · rw [hsummarized]
    exact filter_excepted _

/-- An edit and its result, and the next prompt. -/
def editedPath : List SessionEntry :=
  [editEntry, ⟨"b", some "a", "", .message
    (.toolResult ⟨"t", "edit", [], none, false, .ofNat 0⟩)⟩,
    userEntry "c" (some "b") "more"]

def editSummary : CompactionEntry :=
  ⟨"edited", "c", .ofNat 0, none, none, none, none, none, none⟩

def summarizedEntry : SessionEntry :=
  ⟨"d", some "c", "", .compaction editSummary⟩

theorem chained_edited : Chained (editedPath ++ [summarizedEntry]) where
  distinct := by decide
  linked := by unfold Linked; decide
  root _ h := by cases h; rfl
  prepared i _ _ hi hbody := by
    match i, hi with
    | 0, rfl | 1, rfl | 2, rfl => cases hbody
    | 3, rfl =>
      cases hbody
      exact ⟨⟨true, 0, 1⟩, _, rfl, rfl⟩

theorem edit_summarized : ∃ new kept,
    buildSessionContext ((editedPath ++ [summarizedEntry]).map .entry)
        .undefined none = some new
      ∧ new.messages = summaryMessage summarizedEntry editSummary kept :: kept := by
  obtain ⟨-, new, -, kept, -, hnew, -, hmessages, -⟩ := @compaction_conserves
    _ ⟨true, 0, 1⟩ _ _ _ rfl rfl rfl chained_edited
  exact ⟨new, kept, hnew, hmessages⟩

theorem entry_of_toolResult {m : ToolResultMessage}
    (h : contextMessage e = some (.toolResult m)) :
    e.body = .message (.toolResult m) := by
  unfold contextMessage at h
  split at h
  · rename_i message heq
    rw [heq, Option.some.inj h]
  · cases h
  · split at h <;> cases h
  · cases h

/-- However often a path is compacted, a tool result that is kept is kept with
its call. -/
theorem never_orphaned (h : Chained path) (ha : Answered path) :
    ∃ context, buildSessionContext (path.map .entry) .undefined none
        = some context ∧ Paired context.messages := by
  refine ⟨_, h.context, fun front m back hsplit => ?_⟩
  obtain ⟨head, -, hhead, hmessages⟩ := h.window
  -- the tool result is not the summary
  obtain ⟨rest, rfl, hrest⟩ : ∃ rest, front = head ++ rest
      ∧ (path.drop (boundaryStart path)).filterMap contextMessage
        = rest ++ .toolResult m :: back := by
    rw [hmessages] at hsplit
    rcases List.append_eq_append_iff.1 hsplit with ⟨rest, hfront, heq⟩ |
      ⟨rest, hfront, heq⟩
    · exact ⟨rest, hfront, heq⟩
    · cases rest with
      | nil => exact ⟨[], by rw [hfront, List.append_nil, List.append_nil],
          heq.symm⟩
      | cons y rest =>
        rw [List.cons_append, List.cons.injEq] at heq
        exact absurd (hfront ▸ heq.1 ▸ by simp) (hhead m)
  obtain ⟨es, tail, hes, rfl, htail⟩ := List.filterMap_eq_append_iff.1 hrest
  obtain ⟨quiet, e, es', rfl, hquiet, hresult, -⟩ :=
    List.filterMap_eq_cons_iff.1 htail
  have hat : ∀ n, (path.drop (boundaryStart path))[n]?
      = path[boundaryStart path + n]? := fun n => List.getElem?_drop
  rw [hes] at hat
  have he : path[boundaryStart path + (es ++ quiet).length]? = some e := by
    rw [← hat, ← List.append_assoc, List.getElem?_append_right (Nat.le_refl _),
      Nat.sub_self]
    rfl
  obtain ⟨j, y, a, hlt, hy, hbody, hcalls, hbetween⟩ :=
    ha _ e m he (entry_of_toolResult hresult)
  -- the call is not in front of what is kept
  have hle : boundaryStart path ≤ j := by
    by_contra hnot
    rcases h.guarded with hzero | ⟨i, hi, hcut, hquiet⟩
    · omega
    · rcases Nat.lt_trichotomy i (boundaryStart path + (es ++ quiet).length)
        with hcase | rfl | hcase
      · exact hbetween i (by omega) hcase hcut
      · rw [he] at hcut
        change e.isCutPoint = true at hcut
        rw [SessionEntry.isCutPoint, entry_of_toolResult hresult] at hcut
        cases hcut
      · refine hquiet _ (Nat.le_add_right _ _) hcase ?_
        rw [StopAt, he]
        show (e.isCompaction || e.isMessage) = true
        rw [SessionEntry.isMessage, entry_of_toolResult hresult, Bool.or_true]
  have hsome : contextMessage y = some (.assistant a) := by
    rw [contextMessage, hbody]
  refine ⟨a, List.mem_append_right _ (List.mem_filterMap.2 ⟨y, ?_, hsome⟩),
    hcalls⟩
  have hmem : y ∈ es ++ quiet := by
    apply List.mem_of_getElem? (i := j - boundaryStart path)
    have hy' := hat (j - boundaryStart path)
    rw [Nat.add_sub_cancel' hle, hy, ← List.append_assoc,
      List.getElem?_append_left (by omega)] at hy'
    exact hy'
  rcases List.mem_append.1 hmem with hin | hin
  · exact hin
  · rw [hquiet y hin] at hsome
    cases hsome

theorem edit_answered : ∃ context,
    buildSessionContext (editedPath.map .entry) .undefined none = some context
      ∧ Paired context.messages := by
  refine never_orphaned chained_edited.append_left fun i e m he hbody => ?_
  match i, he with
  | 0, rfl => cases hbody
  | 1, rfl =>
    cases hbody
    exact ⟨0, _, _, Nat.zero_lt_one, rfl, rfl, ⟨_, _, _, List.mem_singleton_self _⟩,
      fun n _ _ => by omega⟩
  | 2, rfl => cases hbody

end OneHarness.Session
