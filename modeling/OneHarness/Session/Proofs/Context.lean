/-
The context of a path, split at its last compaction, and what dropping
entries from a path does to it.

# The split

`contextOfPath` scans for the last compaction and then looks it up again
by id. On a path with distinct ids the two agree, and the messages are
read off the split `before ++ entry :: after` (`messages_split`).

# Dropping entries

`Silent` entries add no message and change no setting. Dropping them and
rewriting parent links leaves the settings alone, and leaves the messages
alone exactly when the last compaction does not start its retained part
at a dropped entry with messages after it: `messages_drop_iff`.
-/
import OneHarness.Session.Context

namespace OneHarness.Session

open Lib

-- ======== the split

/-- No entry of the list is a compaction. -/
abbrev NoCompaction (es : List SessionEntry) : Prop :=
  ∀ e ∈ es, e.isCompaction = false

/-- Distinct ids. -/
abbrev DistinctIds (es : List SessionEntry) : Prop := (es.map (·.id)).Nodup

theorem step_compaction (s : PathScan) (e : SessionEntry) :
    (s.step e).compaction
      = match e.compaction? with
        | some c => some (e, c)
        | none => s.compaction := by
  unfold PathScan.step SessionEntry.compaction?
  cases e.body with
  | message m => cases m <;> rfl
  | _ => rfl

theorem run_append (path path' : List SessionEntry) :
    PathScan.run (path ++ path') = path'.foldl PathScan.step (.run path) :=
  List.foldl_append

variable {es : List SessionEntry}

theorem foldl_compaction (h : NoCompaction es) (s : PathScan) :
    (es.foldl PathScan.step s).compaction = s.compaction := by
  induction es generalizing s with
  | nil => rfl
  | cons e es ih =>
    have he : e.compaction? = none := by
      have := h e List.mem_cons_self
      rwa [SessionEntry.isCompaction, Option.isSome_eq_false_iff,
        Option.isNone_iff_eq_none] at this
    rw [List.foldl_cons, ih fun x hx => h x (List.mem_cons_of_mem _ hx),
      step_compaction, he]

/-- A path has no compaction, or a last one. -/
theorem exists_lastCompaction (path : List SessionEntry) :
    NoCompaction path ∨ ∃ before entry c after,
      path = before ++ entry :: after ∧ entry.body = .compaction c
        ∧ NoCompaction after := by
  induction path with
  | nil => exact Or.inl fun e he => absurd he List.not_mem_nil
  | cons e es ih =>
    rcases ih with hno | ⟨before, entry, c, after, rfl, hbody, hno⟩
    · cases he : e.isCompaction with
      | true =>
        obtain ⟨c, hc⟩ := SessionEntry.isCompaction_iff.1 he
        exact Or.inr ⟨[], e, c, es, rfl, hc, hno⟩
      | false =>
        refine Or.inl fun x hx => ?_
        rcases List.mem_cons.1 hx with rfl | hx
        · exact he
        · exact hno x hx
    · exact Or.inr ⟨e :: before, entry, c, after, rfl, hbody, hno⟩

variable {xs ys : List SessionEntry} {e : SessionEntry} {c : CompactionEntry}

/-- The last compaction of a path is at one place. -/
theorem lastCompaction_unique {xs' ys' : List SessionEntry}
    {e' : SessionEntry} {c' : CompactionEntry}
    (hbody : e.body = .compaction c) (hno : NoCompaction ys)
    (hbody' : e'.body = .compaction c') (hno' : NoCompaction ys')
    (heq : xs ++ e :: ys = xs' ++ e' :: ys') :
    xs = xs' ∧ e = e' ∧ ys = ys' := by
  have he := SessionEntry.isCompaction_iff.2 ⟨c, hbody⟩
  have he' := SessionEntry.isCompaction_iff.2 ⟨c', hbody'⟩
  rcases List.append_eq_append_iff.1 heq with ⟨t, rfl, ht⟩ | ⟨t, rfl, ht⟩
  · cases t with
    | nil =>
      rw [List.nil_append, List.cons.injEq] at ht
      exact ⟨(List.append_nil _).symm, ht⟩
    | cons x t =>
      rw [List.cons_append, List.cons.injEq] at ht
      rw [hno e' (ht.2 ▸ by simp)] at he'
      cases he'
  · cases t with
    | nil =>
      rw [List.nil_append, List.cons.injEq] at ht
      exact ⟨List.append_nil _, ht.1.symm, ht.2.symm⟩
    | cons x t =>
      rw [List.cons_append, List.cons.injEq] at ht
      rw [hno' e (ht.2 ▸ by simp)] at he
      cases he

/-- Without a compaction the context is the path's messages. -/
theorem messages_plain {path : List SessionEntry} (h : NoCompaction path) :
    (contextOfPath path).messages = path.filterMap contextMessage := by
  have hc : (PathScan.run path).compaction = none := foldl_compaction h _
  simp only [contextOfPath, hc, pathMessages]

variable {before : List SessionEntry} {entry : SessionEntry}

/-- Looking a compaction up by id finds it where it is. -/
theorem findIdx_entry
    (after : List SessionEntry) (hentry : entry.isCompaction = true)
    (hid : ∀ e ∈ before, e.id ≠ entry.id) :
    (before ++ entry :: after).findIdx
      (fun e => e.isCompaction && e.id == entry.id) = before.length := by
  induction before with
  | nil => simp [List.findIdx_cons, hentry]
  | cons x before ih =>
    have hne : (x.id == entry.id) = false := by
      simpa using hid x List.mem_cons_self
    rw [List.cons_append, List.findIdx_cons, hne, Bool.and_false,
      ih fun e he => hid e (List.mem_cons_of_mem _ he)]
    rfl

theorem drop_past {α : Type} (xs : List α) (y : α) (zs : List α) :
    (xs ++ y :: zs).drop (xs.length + 1) = zs := by
  induction xs with
  | nil => rfl
  | cons x xs ih => exact ih

/-- With one, it is the summary, what the last compaction retained, and
what follows it. -/
theorem messages_split {after : List SessionEntry}
    (hbody : entry.body = .compaction c) (hno : NoCompaction after)
    (hid : ∀ e ∈ before, e.id ≠ entry.id) :
    (contextOfPath (before ++ entry :: after)).messages
      = summaryMessage entry c (retainedMessages before c.firstKeptEntryId)
        :: (retainedMessages before c.firstKeptEntryId
          ++ after.filterMap contextMessage) := by
  have hc : (PathScan.run (before ++ entry :: after)).compaction
      = some (entry, c) := by
    rw [run_append, List.foldl_cons, foldl_compaction hno, step_compaction,
      SessionEntry.compaction?_eq_some.2 hbody]
  have hidx := findIdx_entry after
    (SessionEntry.isCompaction_iff.2 ⟨c, hbody⟩) hid
  simp only [contextOfPath, hc, pathMessages, hidx, List.take_left, drop_past]

-- ======== dropping entries

/-- The entry adds no message and changes no setting. -/
structure Silent (e : SessionEntry) : Prop where
  message : contextMessage e = none
  step : ∀ s : PathScan, s.step e = s

theorem silent_of_isLabel (h : e.isLabel = true) : Silent e := by
  unfold SessionEntry.isLabel at h
  split at h
  case h_1 t l hbody =>
    exact ⟨by rw [contextMessage, hbody], fun s => by rw [PathScan.step, hbody]⟩
  case h_2 => cases h

theorem silent_of_isGitState (h : e.isGitState = true) : Silent e := by
  unfold SessionEntry.isGitState at h
  split at h
  case h_1 g hbody =>
    exact ⟨by rw [contextMessage, hbody], fun s => by rw [PathScan.step, hbody]⟩
  case h_2 => cases h

theorem Silent.isCompaction (h : Silent e) : e.isCompaction = false := by
  have hstep := step_compaction .init e
  rw [h.step] at hstep
  cases hc : e.compaction? with
  | none => simp only [SessionEntry.isCompaction, hc, Option.isSome_none]
  | some c =>
    rw [hc] at hstep
    cases hstep

/-- The entry under another parent. -/
def relink (parentId : Option String) (e : SessionEntry) : SessionEntry :=
  { e with parentId := parentId }

section
variable (p : Option String)

@[simp] theorem relink_id (e : SessionEntry) :
    (relink p e).id = e.id := rfl

@[simp] theorem relink_timestamp (e : SessionEntry) :
    (relink p e).timestamp = e.timestamp := rfl

@[simp] theorem relink_body (e : SessionEntry) :
    (relink p e).body = e.body := rfl

@[simp] theorem contextMessage_relink (e : SessionEntry) :
    contextMessage (relink p e) = contextMessage e := rfl

end

/-- What is left of a path when the entries that fail `keep` are dropped
and the others get the parent `link` names. -/
def dropRelink (keep : SessionEntry → Bool)
    (link : SessionEntry → Option String) (path : List SessionEntry) :
    List SessionEntry :=
  (path.filter keep).map fun e => relink (link e) e

section Drop

variable {keep : SessionEntry → Bool} {link : SessionEntry → Option String}

@[simp] theorem dropRelink_append (xs ys : List SessionEntry) :
    dropRelink keep link (xs ++ ys)
      = dropRelink keep link xs ++ dropRelink keep link ys := by
  simp only [dropRelink, List.filter_append, List.map_append]

theorem dropRelink_cons_of_pos (h : keep e = true) (es : List SessionEntry) :
    dropRelink keep link (e :: es)
      = relink (link e) e :: dropRelink keep link es := by
  rw [dropRelink, List.filter_cons_of_pos h, List.map_cons]
  rfl

theorem dropRelink_cons_of_neg (h : keep e = false) (es : List SessionEntry) :
    dropRelink keep link (e :: es) = dropRelink keep link es := by
  rw [dropRelink, List.filter_cons_of_neg (by simp [h])]
  rfl

theorem mem_dropRelink {x : SessionEntry} :
    x ∈ dropRelink keep link es
      ↔ ∃ e ∈ es, keep e = true ∧ relink (link e) e = x := by
  simp only [dropRelink, List.mem_map, List.mem_filter, and_assoc]

/-- Dropping entries that `f` ignores changes nothing `f` collects. -/
theorem filterMap_dropRelink_of {α : Type} {f : SessionEntry → Option α}
    (hf : ∀ p e, f (relink p e) = f e)
    (hs : ∀ e ∈ es, keep e = false → f e = none) :
    (dropRelink keep link es).filterMap f = es.filterMap f := by
  induction es with
  | nil => rfl
  | cons e es ih =>
    have ih := ih fun x hx => hs x (List.mem_cons_of_mem _ hx)
    cases hk : keep e with
    | true =>
      rw [dropRelink_cons_of_pos hk, List.filterMap_cons,
        List.filterMap_cons, hf, ih]
    | false =>
      rw [dropRelink_cons_of_neg hk, ih, List.filterMap_cons,
        hs e List.mem_cons_self hk]

/-- Dropping silent entries drops no message. -/
theorem filterMap_dropRelink (hs : ∀ e ∈ es, keep e = false → Silent e) :
    (dropRelink keep link es).filterMap contextMessage
      = es.filterMap contextMessage :=
  filterMap_dropRelink_of contextMessage_relink fun e he hk =>
    (hs e he hk).message

/-- Two loop states agree on the settings. -/
def SameSettings (s t : PathScan) : Prop :=
  s.thinkingLevel = t.thinkingLevel ∧ s.serviceTier = t.serviceTier
    ∧ s.model = t.model

theorem SameSettings.step {s t : PathScan} (h : SameSettings s t)
    (p : Option String) (e : SessionEntry) :
    SameSettings (s.step (relink p e)) (t.step e) := by
  obtain ⟨h1, h2, h3⟩ := h
  unfold PathScan.step
  rw [relink_body]
  cases e.body with
  | message m => cases m <;> exact ⟨h1, h2, by first | rfl | exact h3⟩
  | thinkingLevelChange level => exact ⟨rfl, h2, h3⟩
  | serviceTierChange tier => exact ⟨h1, rfl, h3⟩
  | modelChange provider modelId => exact ⟨h1, h2, rfl⟩
  | _ => exact ⟨h1, h2, h3⟩

/-- Dropping silent entries changes no setting. -/
theorem run_dropRelink (link : SessionEntry → Option String)
    (hs : ∀ e ∈ es, keep e = false → Silent e) :
    SameSettings (.run (dropRelink keep link es)) (.run es) := by
  have hfold : ∀ (s t : PathScan), SameSettings s t →
      SameSettings ((dropRelink keep link es).foldl PathScan.step s)
        (es.foldl PathScan.step t) := by
    induction es with
    | nil => exact fun s t h => h
    | cons e es ih =>
      have ih := ih fun x hx => hs x (List.mem_cons_of_mem _ hx)
      intro s t h
      cases hk : keep e with
      | true =>
        rw [dropRelink_cons_of_pos hk]
        exact ih _ _ (h.step (link e) e)
      | false =>
        rw [dropRelink_cons_of_neg hk, List.foldl_cons,
          (hs e List.mem_cons_self hk).step]
        exact ih _ _ h
  exact hfold _ _ ⟨rfl, rfl, rfl⟩

theorem noCompaction_dropRelink
    (h : NoCompaction es) : NoCompaction (dropRelink keep link es) := by
  intro x hx
  obtain ⟨e, he, -, rfl⟩ := mem_dropRelink.1 hx
  exact h e he

/-- Retention starts nowhere when no entry has the id. -/
theorem retainedMessages_eq_nil {id : String}
    (h : ∀ e ∈ es, e.id ≠ id) : retainedMessages es id = [] := by
  have hdrop : es.dropWhile (fun e => e.id != id) = [] := by
    rw [List.dropWhile_eq_nil_iff]
    exact fun e he => by simpa using h e he
  rw [retainedMessages, hdrop, List.filterMap_nil]

/-- Retention starts at the first entry of that id. -/
theorem retainedMessages_split
    (ys : List SessionEntry) (h : ∀ x ∈ xs, x.id ≠ e.id) :
    retainedMessages (xs ++ e :: ys) e.id
      = (e :: ys).filterMap contextMessage := by
  have hdrop : (xs ++ e :: ys).dropWhile (fun x => x.id != e.id) = e :: ys := by
    rw [List.dropWhile_append_of_pos fun x hx => by simpa using h x hx,
      List.dropWhile_cons_of_neg (by simp)]
  rw [retainedMessages, hdrop]

/-- The last compaction of the path does not start its retained part at
a dropped entry that has messages between it and the compaction. -/
def CutSurvives (keep : SessionEntry → Bool) (path : List SessionEntry) :
    Prop :=
  ∀ before entry c after, path = before ++ entry :: after →
    entry.body = .compaction c → NoCompaction after →
    ∀ xs e ys, before = xs ++ e :: ys → e.id = c.firstKeptEntryId →
      keep e = false → ys.filterMap contextMessage = []

theorem DistinctIds.ne_before {x : SessionEntry}
    (h : DistinctIds (xs ++ e :: ys)) (hx : x ∈ xs) : x.id ≠ e.id := by
  rw [DistinctIds, List.map_append, List.nodup_append'] at h
  intro heq
  exact h.2.2 (List.mem_map_of_mem hx) (heq ▸ List.mem_cons_self)

theorem DistinctIds.ne_after {y : SessionEntry}
    (h : DistinctIds (xs ++ e :: ys)) (hy : y ∈ ys) : y.id ≠ e.id := by
  rw [DistinctIds, List.map_append, List.nodup_append', List.map_cons,
    List.nodup_cons] at h
  intro heq
  exact h.2.1.1 (heq ▸ List.mem_map_of_mem hy)

/-- An id sits at one place of the path. -/
theorem DistinctIds.split_unique {xs' ys' : List SessionEntry}
    {e' : SessionEntry} (h : DistinctIds (xs ++ e :: ys))
    (heq : xs ++ e :: ys = xs' ++ e' :: ys') (hid : e'.id = e.id) :
    xs = xs' ∧ e = e' ∧ ys = ys' := by
  rcases List.append_eq_append_iff.1 heq with ⟨t, rfl, ht⟩ | ⟨t, rfl, ht⟩
  · cases t with
    | nil =>
      rw [List.nil_append, List.cons.injEq] at ht
      exact ⟨(List.append_nil _).symm, ht⟩
    | cons x t =>
      rw [List.cons_append, List.cons.injEq] at ht
      exact absurd hid (h.ne_after (ht.2 ▸ by simp))
  · cases t with
    | nil =>
      rw [List.nil_append, List.cons.injEq] at ht
      exact ⟨List.append_nil _, ht.1.symm, ht.2.symm⟩
    | cons x t =>
      rw [List.cons_append, List.cons.injEq] at ht
      exact absurd hid (h.ne_before (ht.1 ▸ by simp))

/-- Retention from a kept entry keeps its messages. -/
theorem retainedMessages_dropRelink_of_kept (hnd : DistinctIds (xs ++ e :: ys))
    (hs : ∀ y ∈ ys, keep y = false → Silent y) (hk : keep e = true) :
    retainedMessages (dropRelink keep link (xs ++ e :: ys)) e.id
      = retainedMessages (xs ++ e :: ys) e.id := by
  have hxs : ∀ x ∈ dropRelink keep link xs, x.id ≠ (relink (link e) e).id := by
    intro x hx
    obtain ⟨z, hz, -, rfl⟩ := mem_dropRelink.1 hx
    rw [relink_id]
    exact hnd.ne_before hz
  have hret := retainedMessages_split (dropRelink keep link ys) hxs
  rw [relink_id] at hret
  rw [retainedMessages_split _ fun x hx => hnd.ne_before hx, dropRelink_append,
    dropRelink_cons_of_pos hk, hret, List.filterMap_cons, List.filterMap_cons,
    contextMessage_relink, filterMap_dropRelink hs]

/-- Retention from a dropped entry finds nothing. -/
theorem retainedMessages_dropRelink_of_dropped
    (hnd : DistinctIds (xs ++ e :: ys))
    (hk : keep e = false) :
    retainedMessages (dropRelink keep link (xs ++ e :: ys)) e.id = [] := by
  refine retainedMessages_eq_nil fun x hx => ?_
  obtain ⟨z, hz, hkz, rfl⟩ := mem_dropRelink.1 hx
  rw [relink_id]
  rcases List.mem_append.1 hz with hz | hz
  · exact hnd.ne_before hz
  · rcases List.mem_cons.1 hz with rfl | hz
    · rw [hk] at hkz
      cases hkz
    · exact hnd.ne_after hz

/-- What the last compaction retains survives the dropping exactly when
its cut does. -/
theorem retainedMessages_dropRelink_iff {id : String} (hnd : DistinctIds before)
    (hs : ∀ e ∈ before, keep e = false → Silent e) :
    retainedMessages (dropRelink keep link before) id
        = retainedMessages before id
      ↔ ∀ xs e ys, before = xs ++ e :: ys → e.id = id → keep e = false →
          ys.filterMap contextMessage = [] := by
  by_cases hex : ∃ e ∈ before, e.id = id
  · obtain ⟨e, he, rfl⟩ := hex
    obtain ⟨xs, ys, rfl⟩ := List.append_of_mem he
    have hsys : ∀ y ∈ ys, keep y = false → Silent y := fun y hy =>
      hs y (List.mem_append_right _ (List.mem_cons_of_mem _ hy))
    cases hk : keep e with
    | true =>
      refine ⟨fun _ xs' e' ys' heq hid hk' => ?_, fun _ =>
        retainedMessages_dropRelink_of_kept hnd hsys hk⟩
      obtain ⟨-, rfl, -⟩ := hnd.split_unique heq hid
      rw [hk] at hk'
      cases hk'
    | false =>
      have hsplit : retainedMessages (xs ++ e :: ys) e.id
          = ys.filterMap contextMessage := by
        rw [retainedMessages_split _ fun x hx => hnd.ne_before hx,
          List.filterMap_cons, (hs e (by simp) hk).message]
      rw [retainedMessages_dropRelink_of_dropped hnd hk, hsplit]
      constructor
      · intro h xs' e' ys' heq hid _
        obtain ⟨-, -, rfl⟩ := hnd.split_unique heq hid
        exact h.symm
      · intro h
        exact (h xs e ys rfl rfl hk).symm
  · have hne : ∀ e ∈ before, e.id ≠ id := fun e he heq => hex ⟨e, he, heq⟩
    have hne' : ∀ x ∈ dropRelink keep link before, x.id ≠ id := by
      intro x hx
      obtain ⟨e, he, -, rfl⟩ := mem_dropRelink.1 hx
      exact hne e he
    rw [retainedMessages_eq_nil hne, retainedMessages_eq_nil hne']
    refine ⟨fun _ xs e ys heq hid _ => ?_, fun _ => rfl⟩
    exact absurd hid (hne e (heq ▸ by simp))

/-- Two contexts headed by the same compaction agree exactly when they
retain the same messages. -/
theorem summary_cons_inj {entry' : SessionEntry}
    {xs ys zs : List AgentMessage} (htime : entry'.timestamp = entry.timestamp) :
    summaryMessage entry' c xs :: (xs ++ zs)
        = summaryMessage entry c ys :: (ys ++ zs) ↔ xs = ys := by
  constructor
  · intro h
    exact List.append_cancel_right (List.cons.inj h).2
  · rintro rfl
    simp only [summaryMessage, htime]

/-- Dropping silent entries keeps the messages of the context exactly
when the last compaction's cut survives. -/
theorem messages_dropRelink_iff
    (link : SessionEntry → Option String) {path : List SessionEntry}
    (hnd : DistinctIds path)
    (hs : ∀ e ∈ path, keep e = false → Silent e) :
    (contextOfPath (dropRelink keep link path)).messages
        = (contextOfPath path).messages ↔ CutSurvives keep path := by
  rcases exists_lastCompaction path with
    hno | ⟨before, entry, c, after, rfl, hbody, hno⟩
  · rw [messages_plain hno, messages_plain (noCompaction_dropRelink hno),
      filterMap_dropRelink hs]
    refine ⟨fun _ before entry c after heq hbody _ => ?_, fun _ => rfl⟩
    have h := hno entry (heq ▸ by simp)
    rw [SessionEntry.isCompaction_iff.2 ⟨c, hbody⟩] at h
    cases h
  · have hkeep : keep entry = true := by
      cases hk : keep entry with
      | true => rfl
      | false =>
        have h := (hs entry (by simp) hk).isCompaction
        rw [SessionEntry.isCompaction_iff.2 ⟨c, hbody⟩] at h
        cases h
    have hbefore : ∀ e ∈ before, keep e = false → Silent e := fun e he =>
      hs e (List.mem_append_left _ he)
    have hafter : ∀ e ∈ after, keep e = false → Silent e := fun e he =>
      hs e (List.mem_append_right _ (List.mem_cons_of_mem _ he))
    have hndb : DistinctIds before := by
      rw [DistinctIds, List.map_append] at hnd
      exact (List.nodup_append'.1 hnd).1
    have hid' : ∀ x ∈ dropRelink keep link before,
        x.id ≠ (relink (link entry) entry).id := by
      intro x hx
      obtain ⟨e, he, -, rfl⟩ := mem_dropRelink.1 hx
      rw [relink_id]
      exact hnd.ne_before he
    rw [dropRelink_append, dropRelink_cons_of_pos hkeep,
      messages_split ((relink_body _ _).trans hbody)
        (noCompaction_dropRelink hno) hid',
      messages_split hbody hno fun e he => hnd.ne_before he,
      filterMap_dropRelink hafter, summary_cons_inj (relink_timestamp _ _),
      retainedMessages_dropRelink_iff hndb hbefore]
    constructor
    · intro h before' entry' c' after' heq hbody' hno' xs e ys hb hid hk
      obtain ⟨rfl, rfl, rfl⟩ := lastCompaction_unique hbody hno hbody' hno' heq
      rw [hbody, EntryBody.compaction.injEq] at hbody'
      exact h xs e ys hb (hbody' ▸ hid) hk
    · intro h xs e ys hb hid hk
      exact h before entry c after rfl hbody hno xs e ys hb hid hk

end Drop

end OneHarness.Session
