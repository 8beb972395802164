/-
What a session spent itself, whatever its file looks like.

# The scan

The lines of a file may carry the usage a message was written with or an
aggregate that a rewrite put there. A scan that went through the entries of
the file holds, for every assistant message, the usage that message has in
memory (`scan_entries`): an aggregate always overwrites.

# The sum

`own` of the entries in memory: the usages of the assistant messages and of
the summarization entries, less what was attributed. An append changes it by
the usage of the entry, and an attribution whose aggregate adds its child
usage does not change it (`own_concat`). So in every run `own` is what the
entries spent when they were appended (`run_own`), and both the file and the
entries yield it.
-/
import OneHarness.Session.Proofs.Replay
import OneHarness.Session.Proofs.Trim
import OneHarness.Session.UsageScan
import Mathlib.Tactic.Linarith
import Mathlib.Tactic.Ring

namespace OneHarness.Session

open Lib Lib.Lines

-- ======== statement vocabulary

/-- The usage of each assistant message, by its id. -/
def assistantUsages (es : List SessionEntry) : JsMap String Usage :=
  es.filterMap fun e => e.assistant?.map fun message => (e.id, message.usage)

/-- The attribution an entry is. -/
def SessionEntry.attribution? (e : SessionEntry) :
    Option ChildUsageAttributionEntry :=
  match e.body with
  | .childUsageAttributed a => some a
  | _ => none

/-- The usage of a summarization entry that has one. -/
def SessionEntry.summarization? (e : SessionEntry) : Option Usage :=
  match e.body with
  | .compaction c => c.usage
  | .branchSummary b => b.usage
  | _ => none

/-- What was attributed to messages of these ids. -/
def childUsages (targets : List String) (es : List SessionEntry) :
    List Usage :=
  es.filterMap fun e =>
    (e.attribution?.filter fun a => a.targetId ∈ targets).map (·.childUsage)

/-- The sum of usages. -/
def total (usages : List Usage) : Amounts :=
  fun field => (usages.map fun usage => usage.amounts field).sum

/-- The usage an append spends. -/
def AppendCall.spent : AppendCall → Option Usage
  | .appendMessage (.assistant message) => some message.usage
  | .appendCompaction c => c.usage
  | .branchWithSummary _ _ _ _ usage => usage
  | _ => none

/-- The amounts an append brings are counts and costs. -/
def AppendCall.Counts (adds : UsageField → Prop) (call : AppendCall) : Prop :=
  (∀ usage, call.spent = some usage →
      ∀ field, adds field → 0 ≤ usage.amounts field)
    ∧ ∀ a, call = .appendChildUsageAttribution a →
      ∀ field, adds field → 0 ≤ a.childUsage.amounts field

/-- The aggregate of an attribution is the usage of its target so far and
the usage of the child. -/
def AppendCall.AddsUp (adds : UsageField → Prop) (call : AppendCall)
    (s : SessionManager) : Prop :=
  ∀ a, call = .appendChildUsageAttribution a →
    ∀ e ∈ s.getEntries, e.id = a.targetId → ∀ m, e.assistant? = some m →
      ∀ field, adds field → a.aggregateUsage.amounts field
        = m.usage.amounts field + a.childUsage.amounts field

/-- The id drawn for an entry is not one of the session. -/
def NewId (io : Io) (call : AppendCall) (s : SessionManager) : Prop :=
  ∀ e ∈ s.getEntries, e.id ≠ (call.entry io s).id

/-- A run that logs appends from a new session on, with rewrites of the file
between them; `adds` are the numbers of a usage that attributions add up. -/
inductive LogRun (adds : UsageField → Prop) :
    List AppendCall → Machine → Prop where
  | start {io : Io} {options : NewSessionOptions} {m₀ m : Machine}
      {file : Option String} (hpersist : m₀.manager.persist = true)
      (hnew : newSession io options m₀ = .ok file m) : LogRun adds [] m
  | append {log : List AppendCall} {m m' : Machine} {io : Io}
      {call : AppendCall} {id : String} (hrun : LogRun adds log m)
      (hcounts : call.Counts adds) (hadds : call.AddsUp adds m.manager)
      (hid : NewId io call m.manager) (hcall : call.run io m = .ok id m') :
      LogRun adds (log ++ [call]) m'
  | rewrite {log : List AppendCall} {m m' : Machine}
      (hrun : LogRun adds log m) (hwrite : rewriteFile false m = .ok () m') :
      LogRun adds log m'

/-- What the logged appends spent. -/
def spent (log : List AppendCall) : Amounts :=
  total (log.filterMap AppendCall.spent)

/-- A line that a scan parses. -/
def ShortLine (f : FileEntry) : Prop :=
  (Utf16.encode (Json.stringify (toJson f))).length
    ≤ sessionListParseMaxLineChars

/-- What the entries hold that was not attributed to them. -/
def own (es : List SessionEntry) : Amounts := fun field =>
  total (assistantUsages es).values field
    + total (es.filterMap SessionEntry.summarization?) field
    - total (childUsages (assistantUsages es).keys es) field

-- ======== sums

@[simp] theorem total_nil (field : UsageField) : total [] field = 0 := rfl

variable (header : SessionHeader) (u : Usage) (targets : List String)
  (us : List Usage)

theorem total_append (vs : List Usage) (field : UsageField) :
    total (us ++ vs) field = total us field + total vs field := by
  rw [total, List.map_append, List.sum_append]
  rfl

theorem total_singleton (field : UsageField) :
    total [u] field = u.amounts field := by
  rw [total, List.map_singleton, List.sum_singleton]

theorem total_cons (field : UsageField) :
    total (u :: us) field = u.amounts field + total us field := by
  rw [total, List.map_cons, List.sum_cons]
  rfl

theorem add_total (u : Usage) :
    addAssistantUsage (total us) u.amounts = total (us ++ [u]) := by
  funext field
  rw [total_append, total_singleton]
  rfl

/-- A loop that adds usages up. -/
theorem foldl_add (total' : Amounts) (us : List Usage) :
    us.foldl (fun sum usage => addAssistantUsage sum usage.amounts) total'
      = fun field => total' field + total us field := by
  induction us generalizing total' with
  | nil =>
    funext field
    exact (add_zero _).symm
  | cons u us ih =>
    rw [List.foldl_cons, ih]
    funext field
    rw [total_cons, addAssistantUsage, add_assoc]

variable {usages : JsMap String Usage}

/-- Setting the usage of a message that has one. -/
theorem total_set {id : String} {old : Usage}
    (h : usages.get id = some old) (usage : Usage) (field : UsageField) :
    total (usages.set id usage).values field + old.amounts field
      = total usages.values field + usage.amounts field := by
  induction usages with
  | nil => cases h
  | cons p usages ih =>
    rw [JsMap.get_cons] at h
    by_cases hp : p.1 = id
    · rw [if_pos hp, Option.some.injEq] at h
      rw [JsMap.set, if_pos hp, JsMap.values, List.map_cons, total_cons,
        JsMap.values, List.map_cons, total_cons, h]
      ring
    · rw [if_neg hp] at h
      have htail := ih h
      rw [JsMap.values] at htail
      rw [JsMap.set, if_neg hp, JsMap.values, List.map_cons, total_cons,
        JsMap.values, List.map_cons, total_cons, add_assoc, htail]
      rw [JsMap.values, add_assoc]

/-- Setting the usage of a new message. -/
theorem total_set_new {id : String}
    (h : id ∉ usages.keys) (usage : Usage) (field : UsageField) :
    total (usages.set id usage).values field
      = total usages.values field + usage.amounts field := by
  rw [JsMap.set_of_not_mem usage h, JsMap.values, List.map_append,
    total_append, List.map_singleton, total_singleton]
  rfl

-- ======== the entries

variable {es : List SessionEntry}

theorem mem_keys_assistantUsages {id : String} :
    id ∈ (assistantUsages es).keys
      ↔ ∃ e ∈ es, e.assistant?.isSome = true ∧ e.id = id := by
  rw [assistantUsages, JsMap.keys, List.map_filterMap, List.mem_filterMap]
  constructor
  · rintro ⟨e, he, h⟩
    rw [Option.map_map, Option.map_eq_some_iff] at h
    obtain ⟨m, hm, hid⟩ := h
    exact ⟨e, he, by rw [hm]; rfl, hid⟩
  · rintro ⟨e, he, hm, hid⟩
    obtain ⟨m, hm⟩ := Option.isSome_iff_exists.1 hm
    exact ⟨e, he, by rw [hm, ← hid]; rfl⟩

theorem assistantUsages_append (xs ys : List SessionEntry) :
    assistantUsages (xs ++ ys) = assistantUsages xs ++ assistantUsages ys :=
  List.filterMap_append

/-- Distinct entries have distinct messages. -/
theorem nodup_keys_assistantUsages
    (h : DistinctIds es) : (assistantUsages es).keys.Nodup := by
  have hsub : List.Sublist (assistantUsages es).keys (es.map (·.id)) := by
    rw [assistantUsages, JsMap.keys, List.map_filterMap]
    clear h
    induction es with
    | nil => exact List.Sublist.slnil
    | cons e es ih =>
      cases hm : e.assistant? with
      | none =>
        rw [List.filterMap_cons_none (by rw [hm]; rfl), List.map_cons]
        exact ih.cons _
      | some m =>
        rw [List.filterMap_cons_some (b := e.id) (by rw [hm]; rfl),
          List.map_cons]
        exact ih.cons_cons _
  exact h.sublist hsub

/-- The message an entry holds, under a usage that is set. -/
theorem assistant?_setUsage (e : SessionEntry) :
    (setUsage u e).assistant?
      = e.assistant?.map fun m => { m with usage := u } := by
  obtain ⟨id, parentId, timestamp, body⟩ := e
  cases body with
  | message m => cases m <;> rfl
  | _ => rfl

theorem attributedUsage_eq (id : String) (e : SessionEntry) :
    attributedUsage id (.entry e)
      = (e.attribution?.filter fun a => a.targetId = id).map
        (·.aggregateUsage) := by
  obtain ⟨eid, parentId, timestamp, body⟩ := e
  cases body with
  | childUsageAttributed a =>
    rw [attributedUsage, SessionEntry.attribution?, Option.filter_some]
    by_cases h : a.targetId = id
    · rw [if_pos h, if_pos (decide_eq_true h)]
      rfl
    · rw [if_neg h, if_neg (by simpa using h)]
      rfl
  | _ => rfl

variable {x : SessionEntry} {a : ChildUsageAttributionEntry}

/-- An attribution sets the usage of its target. -/
theorem assistantUsages_bump (hx : x.attribution? = some a)
    (es : List SessionEntry) :
    assistantUsages (es.map (bump x))
      = (assistantUsages es).map fun p =>
          if p.1 = a.targetId then (p.1, a.aggregateUsage) else p := by
  rw [assistantUsages, List.filterMap_map, assistantUsages, List.map_filterMap]
  congr 1
  funext e
  rw [Function.comp_apply, bump_id]
  have hattr := attributedUsage_eq e.id x
  rw [hx, Option.filter_some] at hattr
  by_cases h : e.id = a.targetId
  · rw [if_pos (decide_eq_true h.symm), Option.map_some] at hattr
    rw [bump, hattr]
    dsimp only
    rw [assistant?_setUsage]
    cases e.assistant? with
    | none => rfl
    | some m => simp [h]
  · rw [if_neg (by simpa using fun heq => h heq.symm), Option.map_none]
      at hattr
    rw [bump, hattr]
    cases e.assistant? with
    | none => rfl
    | some m => simp [h]

theorem attribution?_setUsage (e : SessionEntry) :
    (setUsage u e).attribution? = e.attribution? := by
  obtain ⟨id, parentId, timestamp, body⟩ := e
  cases body with
  | message m => cases m <;> rfl
  | _ => rfl

theorem summarization?_setUsage (e : SessionEntry) :
    (setUsage u e).summarization? = e.summarization? := by
  obtain ⟨id, parentId, timestamp, body⟩ := e
  cases body with
  | message m => cases m <;> rfl
  | _ => rfl

/-- An entry under another usage is the same attribution and the same
summarization. -/
theorem bump_eq (x e : SessionEntry) :
    (bump x e).attribution? = e.attribution?
      ∧ (bump x e).summarization? = e.summarization? := by
  unfold bump
  split
  · exact ⟨attribution?_setUsage _ _, summarization?_setUsage _ _⟩
  · exact ⟨rfl, rfl⟩

theorem settle_eq (all : List SessionEntry) (e : SessionEntry) :
    (settle all e).attribution? = e.attribution?
      ∧ (settle all e).summarization? = e.summarization? := by
  unfold settle
  split
  · exact ⟨attribution?_setUsage _ _, summarization?_setUsage _ _⟩
  · exact ⟨rfl, rfl⟩

/-- An entry that is no attribution bumps nothing. -/
theorem bump_of_attribution?_none
    (hx : x.attribution? = none) (e : SessionEntry) : bump x e = e := by
  apply bump_eq_self
  intro id
  rw [attributedUsage_eq, hx]
  rfl

variable {f : SessionEntry → SessionEntry}

section
variable (es : List SessionEntry)

theorem assistantUsages_map (hf : ∀ e, (f e).id = e.id
      ∧ (f e).assistant?.isSome = e.assistant?.isSome) :
    (assistantUsages (es.map f)).keys = (assistantUsages es).keys := by
  rw [assistantUsages, List.filterMap_map, JsMap.keys, List.map_filterMap,
    assistantUsages, JsMap.keys, List.map_filterMap]
  congr 1
  funext e
  obtain ⟨hid, hassistant⟩ := hf e
  rw [Function.comp_apply, hid, Option.map_map, Option.map_map]
  cases h : e.assistant? with
  | none =>
    rw [h, Option.isSome_none, Option.isSome_eq_false_iff,
      Option.isNone_iff_eq_none] at hassistant
    rw [hassistant]
  | some m =>
    rw [h, Option.isSome_some] at hassistant
    obtain ⟨m', hm'⟩ := Option.isSome_iff_exists.1 hassistant
    rw [hm']
    rfl

/-- Usages that change leave what was attributed and summarized. -/
theorem childUsages_map (hf : ∀ e, (f e).attribution? = e.attribution?) :
    childUsages targets (es.map f) = childUsages targets es := by
  rw [childUsages, List.filterMap_map, childUsages]
  congr 1
  funext e
  rw [Function.comp_apply, hf]

theorem summarizations_map (hf : ∀ e, (f e).summarization? = e.summarization?) :
    (es.map f).filterMap SessionEntry.summarization?
      = es.filterMap SessionEntry.summarization? := by
  rw [List.filterMap_map]
  congr 1
  funext e
  exact hf e

end

-- ======== entries one by one

/-- Every entry was new when it came. -/
def Timely (es : List SessionEntry) : Prop :=
  ∀ before x after, es = before ++ x :: after → Fresh before x

theorem timely_nil : Timely [] := by
  intro before x after h
  cases before <;> cases h

theorem timely_concat : Timely (es ++ [x]) ↔ Timely es ∧ Fresh es x := by
  constructor
  · intro h
    refine ⟨fun before y after heq => ?_, h es x [] rfl⟩
    exact h before y (after ++ [x]) (by rw [heq]; simp)
  · rintro ⟨h, hx⟩ before y after heq
    obtain rfl | ⟨after, z, rfl⟩ := List.eq_nil_or_concat' after
    · obtain ⟨hbefore, hlast⟩ := List.append_inj' heq rfl
      rw [List.cons.injEq] at hlast
      rw [← hbefore, ← hlast.1]
      exact hx
    · rw [← List.cons_append, ← List.append_assoc] at heq
      obtain ⟨rfl, -⟩ := List.append_inj' heq rfl
      exact h before y after rfl

theorem Timely.distinct (h : Timely es) : DistinctIds es := by
  induction es using List.reverseRecOn with
  | nil => exact List.nodup_nil
  | append_singleton es x ih =>
    obtain ⟨hes, hx⟩ := timely_concat.1 h
    rw [DistinctIds, List.map_append, List.nodup_append']
    refine ⟨ih hes, List.nodup_singleton _, fun id hid hid' => ?_⟩
    obtain ⟨e, he, rfl⟩ := List.mem_map.1 hid
    exact hx.id e he (by simpa using hid')

/-- Newness is read off ids, attributions and which entries are assistant
messages. -/
theorem Timely.of_map (h : Timely (es.map f))
    (hid : ∀ e, (f e).id = e.id)
    (hassistant : ∀ e, (f e).assistant?.isSome = e.assistant?.isSome)
    (hattr : ∀ id e, attributedUsage id (.entry (f e))
      = attributedUsage id (.entry e)) : Timely es := by
  rintro before x after rfl
  rw [List.map_append, List.map_cons] at h
  have hx := h _ _ _ rfl
  constructor
  · intro e he heq
    refine hx.id (f e) (List.mem_map_of_mem he) ?_
    rw [hid, hid, heq]
  · intro hassist
    have hlast := hx.unattributed (by rw [hassistant]; exact hassist)
    rw [hid, lastUsage, List.filterMap_map] at hlast
    rw [lastUsage, ← hlast]
    congr 2
    funext e
    exact (hattr x.id e).symm

-- ======== the scan

/-- A scan past its header, by what it found. -/
def scanned (header : SessionHeader) (es : List SessionEntry) :
    SessionScanAccumulator where
  header := some header
  invalid := false
  assistantUsageById := assistantUsages (es.map (settle es))
  attributedChildUsage := total (childUsages (assistantUsages es).keys es)
  summarizationUsage := total (es.filterMap SessionEntry.summarization?)

theorem assistant?_settle_isSome (all : List SessionEntry) (e : SessionEntry) :
    (settle all e).assistant?.isSome = e.assistant?.isSome := by
  unfold settle
  split
  · rw [assistant?_setUsage, Option.isSome_map]
  · rfl

theorem assistant?_bump_isSome (x e : SessionEntry) :
    (bump x e).assistant?.isSome = e.assistant?.isSome := by
  unfold bump
  split
  · rw [assistant?_setUsage, Option.isSome_map]
  · rfl

theorem keys_settled (es all : List SessionEntry) :
    (assistantUsages (es.map (settle all))).keys
      = (assistantUsages es).keys :=
  assistantUsages_map es fun e =>
    ⟨settle_id all e, assistant?_settle_isSome all e⟩

/-- The usages in memory when one more entry has come. -/
theorem assistantUsages_settle_concat (hx : Fresh es x) :
    assistantUsages ((es ++ [x]).map (settle (es ++ [x])))
      = assistantUsages ((es.map (settle es)).map (bump x))
        ++ assistantUsages [x] := by
  rw [List.map_append, assistantUsages_append, List.map_map,
    List.map_singleton, settle_fresh hx]
  congr 2
  exact List.map_congr_left fun e _ => settle_concat es x e

/-- What was attributed is not changed by a message that comes later. -/
theorem childUsages_fresh (hx : Fresh es x) (targets : List String)
    (hassistant : x.assistant?.isSome = true) :
    childUsages (targets ++ [x.id]) es = childUsages targets es := by
  have hlast := hx.unattributed hassistant
  rw [lastUsage, List.getLast?_eq_none_iff, List.filterMap_eq_nil_iff]
    at hlast
  unfold childUsages
  apply List.filterMap_congr
  intro e he
  have hnone := hlast e he
  rw [attributedUsage_eq, Option.map_eq_none_iff] at hnone
  cases ha : e.attribution? with
  | none => rfl
  | some a =>
    rw [ha, Option.filter_some] at hnone
    have hne : a.targetId ≠ x.id := by
      intro heq
      rw [if_pos (decide_eq_true heq)] at hnone
      cases hnone
    rw [Option.filter_some, Option.filter_some]
    simp [hne]

theorem assistantUsages_singleton (x : SessionEntry) :
    assistantUsages [x]
      = (x.assistant?.map fun m => (x.id, m.usage)).toList := by
  rw [assistantUsages, List.filterMap_cons, List.filterMap_nil]
  cases x.assistant? with
  | none => rfl
  | some m => rfl

theorem childUsages_concat (es : List SessionEntry) (x : SessionEntry) :
    childUsages targets (es ++ [x])
      = childUsages targets es
        ++ ((x.attribution?.filter fun a => a.targetId ∈ targets).map
          (·.childUsage)).toList := by
  rw [childUsages, List.filterMap_append, List.filterMap_cons,
    List.filterMap_nil]
  cases (x.attribution?.filter fun a => a.targetId ∈ targets).map
      (·.childUsage) with
  | none => rfl
  | some u => rfl

theorem summarizations_concat (es : List SessionEntry) (x : SessionEntry) :
    (es ++ [x]).filterMap SessionEntry.summarization?
      = es.filterMap SessionEntry.summarization?
        ++ x.summarization?.toList := by
  rw [List.filterMap_append, List.filterMap_cons, List.filterMap_nil]
  cases x.summarization? with
  | none => rfl
  | some u => rfl

theorem map_bump_of_none (hx : x.attribution? = none)
    (es : List SessionEntry) : es.map (bump x) = es :=
  (List.map_congr_left fun e _ => bump_of_attribution?_none hx e).trans
    (List.map_id es)

/-- A message is the last usage, and nothing else. -/
theorem scanned_message (hx : Fresh es x) {m : AssistantMessage}
    (hm : x.assistant? = some m) :
    scanned header (es ++ [x])
      = { scanned header es with
          assistantUsageById :=
            (scanned header es).assistantUsageById.set x.id m.usage } := by
  have hbody := SessionEntry.assistant?_eq_some.1 hm
  have hattribution : x.attribution? = none := by
    rw [SessionEntry.attribution?, hbody]
  have hsummarization : x.summarization? = none := by
    rw [SessionEntry.summarization?, hbody]
  have hnew : x.id ∉ (assistantUsages (es.map (settle es))).keys := by
    rw [keys_settled, mem_keys_assistantUsages]
    rintro ⟨e, he, -, heq⟩
    exact hx.id e he heq
  have hkeys : (assistantUsages (es ++ [x])).keys
      = (assistantUsages es).keys ++ [x.id] := by
    rw [assistantUsages_append, assistantUsages_singleton, hm, JsMap.keys,
      List.map_append]
    rfl
  unfold scanned
  rw [assistantUsages_settle_concat hx, map_bump_of_none hattribution,
    assistantUsages_singleton, hm, hkeys, childUsages_concat, hattribution,
    childUsages_fresh hx _ (by rw [hm]; rfl), summarizations_concat,
    hsummarization]
  dsimp only [Option.map_some, Option.toList_some, Option.toList_none,
    Option.filter_none, Option.map_none]
  rw [List.append_nil, List.append_nil, JsMap.set_of_not_mem _ hnew]

/-- Any other entry leaves the messages there are. -/
theorem keys_concat_other (hm : x.assistant? = none) :
    (assistantUsages (es ++ [x])).keys = (assistantUsages es).keys := by
  rw [assistantUsages_append, assistantUsages_singleton, hm]
  dsimp only [Option.map_none, Option.toList_none]
  rw [List.append_nil]

/-- An attribution to a message sets its usage, one to nothing does
nothing. -/
theorem scanned_attribution (hes : Timely es)
    (hx : Fresh es x)
    (ha : x.attribution? = some a) (hm : x.assistant? = none)
    (hs : x.summarization? = none) :
    scanned header (es ++ [x])
      = if (scanned header es).assistantUsageById.has a.targetId then
          { scanned header es with
            assistantUsageById := (scanned header es).assistantUsageById.set
              a.targetId a.aggregateUsage
            attributedChildUsage := addAssistantUsage
              (scanned header es).attributedChildUsage
              a.childUsage.amounts }
        else scanned header es := by
  have hnd : (assistantUsages (es.map (settle es))).keys.Nodup := by
    rw [keys_settled]
    exact nodup_keys_assistantUsages hes.distinct
  have hhas : (scanned header es).assistantUsageById.has a.targetId = true
      ↔ a.targetId ∈ (assistantUsages es).keys := by
    rw [JsMap.has_eq_true_iff, ← keys_settled es es]
    rfl
  have hlist : scanned header (es ++ [x])
      = { scanned header es with
          assistantUsageById :=
            (assistantUsages (es.map (settle es))).map fun p =>
              if p.1 = a.targetId then (p.1, a.aggregateUsage) else p
          attributedChildUsage := total
            (childUsages (assistantUsages es).keys es
              ++ if a.targetId ∈ (assistantUsages es).keys then
                [a.childUsage] else []) } := by
    unfold scanned
    rw [assistantUsages_settle_concat hx, assistantUsages_bump ha,
      assistantUsages_singleton, hm, keys_concat_other hm,
      childUsages_concat, ha, summarizations_concat, hs, Option.filter_some]
    dsimp only [Option.map_none, Option.toList_none]
    rw [List.append_nil, List.append_nil]
    by_cases hmem : a.targetId ∈ (assistantUsages es).keys
    · rw [if_pos (decide_eq_true hmem), if_pos hmem]
      rfl
    · rw [if_neg (by simpa using hmem), if_neg hmem]
      rfl
  rw [hlist]
  by_cases hmem : a.targetId ∈ (assistantUsages es).keys
  · rw [if_pos (hhas.2 hmem), if_pos hmem, ← add_total,
      ← JsMap.set_of_mem hnd _ (by rwa [keys_settled])]
    rfl
  · rw [if_neg (fun h => hmem (hhas.1 h)), if_neg hmem, List.append_nil,
      JsMap.map_of_not_mem _ (by rwa [keys_settled])]
    rfl

/-- An entry that is neither adds its own usage, if it has one. -/
theorem scanned_other (hx : Fresh es x) (ha : x.attribution? = none)
    (hm : x.assistant? = none) :
    scanned header (es ++ [x])
      = (scanned header es).addSummarization x.summarization? := by
  have hsum : scanned header (es ++ [x])
      = { scanned header es with
          summarizationUsage := total
            (es.filterMap SessionEntry.summarization?
              ++ x.summarization?.toList) } := by
    unfold scanned
    rw [assistantUsages_settle_concat hx, map_bump_of_none ha,
      assistantUsages_singleton, hm, keys_concat_other hm,
      childUsages_concat, ha, summarizations_concat]
    dsimp only [Option.map_none, Option.toList_none, Option.filter_none]
    rw [List.append_nil, List.append_nil]
  rw [hsum]
  cases x.summarization? with
  | none =>
    rw [Option.toList_none, List.append_nil]
    rfl
  | some u =>
    rw [Option.toList_some, ← add_total]
    rfl

variable {e : SessionEntry}

/-- A summarization entry past the header. -/
theorem foldEntry_summarization (acc : SessionScanAccumulator)
    {usage : Option Usage}
    (hheader : acc.header.isNone = false) (hm : e.assistant? = none)
    (hbody : acc.foldBody e.body = acc.addSummarization usage) :
    acc.foldEntry (.entry e) = acc.addSummarization usage := by
  have hkeep : (acc.addSummarization usage).header.isNone = false := by
    cases usage with
    | none => exact hheader
    | some u => exact hheader
  rw [SessionScanAccumulator.foldEntry, hbody, hm]
  dsimp only
  rw [if_neg (by rw [hkeep]; exact Bool.false_ne_true)]

/-- One more entry of the file. -/
theorem foldEntry_scanned (hes : Timely es) (hx : Fresh es x) :
    (scanned header es).foldEntry (.entry x)
      = scanned header (es ++ [x]) := by
  have hheader : (scanned header es).header.isNone = false := rfl
  obtain ⟨id, parentId, timestamp, body⟩ := x
  cases body with
  | message message =>
    cases message with
    | assistant m =>
      rw [scanned_message header hx (m := m) rfl]
      rfl
    | _ =>
      rw [scanned_other header hx rfl rfl]
      rfl
  | childUsageAttributed a =>
    rw [scanned_attribution header hes hx (a := a) rfl rfl rfl]
    rw [SessionScanAccumulator.foldEntry, SessionScanAccumulator.foldBody]
    by_cases hhas :
        (scanned header es).assistantUsageById.has a.targetId = true
    · rw [if_pos hhas]
      rfl
    · rw [if_neg hhas]
      rfl
  | compaction c =>
    rw [scanned_other header hx rfl rfl]
    exact foldEntry_summarization _ hheader rfl rfl
  | branchSummary b =>
    rw [scanned_other header hx rfl rfl]
    exact foldEntry_summarization _ hheader rfl rfl
  | _ =>
    rw [scanned_other header hx rfl rfl]
    rfl

/-- The entries of a file, one after another. -/
theorem foldl_foldEntry (h : Timely es) :
    (es.map FileEntry.entry).foldl SessionScanAccumulator.foldEntry
      { SessionScanAccumulator.init with header := some header }
      = scanned header es := by
  induction es using List.reverseRecOn with
  | nil => rfl
  | append_singleton es x ih =>
    obtain ⟨hes, hx⟩ := timely_concat.1 h
    rw [List.map_append, List.foldl_append, ih hes]
    exact foldEntry_scanned header hes hx

-- ======== the lines

theorem foldSessionScanLine_entryText (acc : SessionScanAccumulator)
    {f : FileEntry} (h : ShortLine f) :
    acc.foldSessionScanLine (entryText f) = some (acc.foldEntry f) := by
  rw [SessionScanAccumulator.foldSessionScanLine, decode_entryText,
    trim_stringify,
    if_neg (ofList_stringify_ne_empty _), if_neg (Nat.not_lt.2 h),
    String.toList_ofList, Json.parse_stringify]
  dsimp only
  rw [JsonCodec.ofJson_toJson]
  rfl

/-- A scan past its header, of a session. -/
def PastHeader (acc : SessionScanAccumulator) : Prop :=
  acc.header.isSome = true ∧ acc.invalid = false

variable {acc : SessionScanAccumulator}

theorem PastHeader.foldEntry (h : PastHeader acc)
    (f : FileEntry) : PastHeader (acc.foldEntry f) := by
  have hnone : acc.header.isNone = false := by
    rw [← Option.not_isSome, h.1]
    rfl
  cases f with
  | session header =>
    rw [SessionScanAccumulator.foldEntry, hnone, if_neg Bool.false_ne_true]
    exact h
  | entry e =>
    have hbody : (acc.foldBody e.body).header = acc.header
        ∧ (acc.foldBody e.body).invalid = acc.invalid := by
      have hadd : ∀ usage, (acc.addSummarization usage).header = acc.header
          ∧ (acc.addSummarization usage).invalid = acc.invalid := by
        intro usage
        cases usage with
        | none => exact ⟨rfl, rfl⟩
        | some u => exact ⟨rfl, rfl⟩
      cases e.body with
      | childUsageAttributed a =>
        rw [SessionScanAccumulator.foldBody]
        split
        · exact ⟨rfl, rfl⟩
        · exact ⟨rfl, rfl⟩
      | compaction c => exact hadd c.usage
      | branchSummary b => exact hadd b.usage
      | _ => exact ⟨rfl, rfl⟩
    rw [SessionScanAccumulator.foldEntry, hbody.1, hnone,
      if_neg Bool.false_ne_true]
    cases e.assistant? with
    | none => exact ⟨hbody.1 ▸ h.1, hbody.2.trans h.2⟩
    | some m => exact ⟨hbody.1 ▸ h.1, hbody.2.trans h.2⟩

variable {fs : List FileEntry}

theorem scanSessionLines_texts
    (h : PastHeader acc) (hshort : ∀ f ∈ fs, ShortLine f) :
    acc.scanSessionLines (fs.map entryText)
      = some (fs.foldl SessionScanAccumulator.foldEntry acc) := by
  induction fs generalizing acc with
  | nil => rfl
  | cons f fs ih =>
    have hline := foldSessionScanLine_entryText acc
      (hshort f List.mem_cons_self)
    have hrest := ih (h.foldEntry f)
      fun g hg => hshort g (List.mem_cons_of_mem _ hg)
    rw [SessionScanAccumulator.scanSessionLines] at hrest ⊢
    rw [List.map_cons, List.foldlM_cons, h.2, if_neg Bool.false_ne_true,
      hline, List.foldl_cons]
    exact hrest

/-- A later header says nothing. -/
theorem foldl_entriesOf (h : PastHeader acc) (fs : List FileEntry) :
    fs.foldl SessionScanAccumulator.foldEntry acc
      = ((entriesOf fs).map FileEntry.entry).foldl
        SessionScanAccumulator.foldEntry acc := by
  induction fs generalizing acc with
  | nil => rfl
  | cons f fs ih =>
    rw [List.foldl_cons, ih (h.foldEntry f)]
    cases f with
    | session header =>
      have hskip : acc.foldEntry (.session header) = acc := by
        have hnone : acc.header.isNone = false := by
          rw [← Option.not_isSome, h.1]
          rfl
        rw [SessionScanAccumulator.foldEntry, hnone, if_neg Bool.false_ne_true]
      rw [hskip]
      rfl
    | entry e => rfl

/-- The total of a scan is what the entries hold themselves. -/
theorem usageTotal_scanned (es : List SessionEntry) :
    (scanned header es).usageTotal
      = fun field => max 0 (own (es.map (settle es)) field) := by
  funext field
  rw [SessionScanAccumulator.usageTotal, foldl_add, own, keys_settled,
    childUsages_map _ es fun e => (settle_eq es e).1,
    summarizations_map es fun e => (settle_eq es e).2,
    subtractAssistantUsage, addAssistantUsage, emptyUsage, zero_add]
  rfl

/-- The file of a session, read by a scan. -/
theorem readSessionInfo_linesOf {header : SessionHeader}
    (h : Timely (entriesOf fs))
    (hshort : ∀ f ∈ FileEntry.session header :: fs, ShortLine f) :
    readSessionInfo (linesOf (.session header :: fs))
      = some (some fun field =>
        max 0 (own ((entriesOf fs).map (settle (entriesOf fs))) field)) := by
  have hlines : ∀ l ∈ (FileEntry.session header :: fs).map entryText,
      newline ∉ l := fun l hl => newline_not_mem_of_mem_map hl
  have hsplit := splitLines_join_nil hlines
  have hpast : PastHeader
      { SessionScanAccumulator.init with header := some header } := ⟨rfl, rfl⟩
  have hscan : SessionScanAccumulator.init.scanSessionLines
      ((FileEntry.session header :: fs).map entryText)
      = some (scanned header (entriesOf fs)) := by
    have hrest := scanSessionLines_texts hpast
      fun f hf => hshort f (List.mem_cons_of_mem _ hf)
    have hline := foldSessionScanLine_entryText SessionScanAccumulator.init
      (hshort _ List.mem_cons_self)
    rw [foldl_entriesOf hpast, foldl_foldEntry header h] at hrest
    rw [← hrest, SessionScanAccumulator.scanSessionLines, List.map_cons,
      List.foldlM_cons]
    exact congrArg (· >>= _) hline
  rw [readSessionInfo, linesOf, hsplit]
  dsimp only
  rw [hscan, if_pos rfl]
  change some (some (scanned header (entriesOf fs)).usageTotal) = _
  rw [usageTotal_scanned]

-- ======== in memory

/-- The sums with a usage that may be missing. -/
def addedUsage (sum : Amounts × List String) (usage : Option Usage) :
    Amounts × List String :=
  match usage with
  | some usage => (addAssistantUsage sum.1 usage.amounts, sum.2)
  | none => sum

/-- What one entry adds. -/
theorem addBranchEntry_eq (sum : Amounts × List String) (e : SessionEntry) :
    addBranchEntry sum e
      = (fun field => sum.1 field + (total (assistantUsages [e]).values field
          + total ([e].filterMap SessionEntry.summarization?) field),
        sum.2 ++ (assistantUsages [e]).keys) := by
  have hnone : sum = (fun field => sum.1 field + (0 + 0), sum.2 ++ []) := by
    refine Prod.ext ?_ (List.append_nil _).symm
    funext field
    exact (by ring)
  obtain ⟨id, parentId, timestamp, body⟩ := e
  have hsummary : ∀ usage : Option Usage, addedUsage sum usage
      = (fun field => sum.1 field + (0 + total usage.toList field),
        sum.2 ++ []) := by
    intro usage
    cases usage with
    | none => exact hnone
    | some u =>
      refine Prod.ext ?_ (List.append_nil _).symm
      funext field
      change sum.1 field + u.amounts field
        = sum.1 field + (0 + total [u] field)
      rw [total_singleton, zero_add]
  cases body with
  | message message =>
    cases message with
    | assistant m =>
      refine Prod.ext ?_ rfl
      funext field
      change sum.1 field + m.usage.amounts field
        = sum.1 field + ((m.usage.amounts field + 0) + 0)
      ring
    | _ => exact hnone
  | compaction c =>
    have h := hsummary c.usage
    obtain ⟨_, _, _, _, _, _, usage, _, _⟩ := c
    cases usage with
    | none => exact h
    | some u => exact h
  | branchSummary b =>
    have h := hsummary b.usage
    obtain ⟨_, _, _, _, usage⟩ := b
    cases usage with
    | none => exact h
    | some u => exact h
  | _ => exact hnone

theorem foldl_addBranchEntry (es : List SessionEntry)
    (sum : Amounts × List String) :
    es.foldl addBranchEntry sum
      = (fun field => sum.1 field + (total (assistantUsages es).values field
          + total (es.filterMap SessionEntry.summarization?) field),
        sum.2 ++ (assistantUsages es).keys) := by
  induction es generalizing sum with
  | nil =>
    refine Prod.ext ?_ (List.append_nil _).symm
    funext field
    change sum.1 field = sum.1 field + (0 + 0)
    ring
  | cons e es ih =>
    have husages : assistantUsages (e :: es)
        = assistantUsages [e] ++ assistantUsages es :=
      assistantUsages_append [e] es
    have hsummaries : (e :: es).filterMap SessionEntry.summarization?
        = [e].filterMap SessionEntry.summarization?
          ++ es.filterMap SessionEntry.summarization? :=
      List.filterMap_append (l := [e])
    have hvalues : (assistantUsages [e] ++ assistantUsages es).values
        = (assistantUsages [e]).values ++ (assistantUsages es).values :=
      List.map_append
    have hkeys : (assistantUsages [e] ++ assistantUsages es).keys
        = (assistantUsages [e]).keys ++ (assistantUsages es).keys :=
      List.map_append
    rw [List.foldl_cons, ih, addBranchEntry_eq, husages, hsummaries,
      hvalues, hkeys]
    refine Prod.ext ?_ (List.append_assoc _ _ _)
    funext field
    dsimp only
    rw [total_append, total_append]
    ring

variable {field : UsageField}

theorem total_nonneg {us : List Usage}
    (h : ∀ u ∈ us, 0 ≤ u.amounts field) : 0 ≤ total us field := by
  induction us with
  | nil => exact le_refl 0
  | cons u us ih =>
    have hu := h u List.mem_cons_self
    have hus := ih fun v hv => h v (List.mem_cons_of_mem _ hv)
    rw [total_cons]
    linarith

/-- Subtracting what is there does not stop at zero. -/
theorem foldl_subtract (own' : Amounts)
    (field : UsageField) (hpos : ∀ u ∈ us, 0 ≤ u.amounts field)
    (hle : total us field ≤ own' field) :
    us.foldl (fun sum u => subtractAssistantUsage sum u.amounts) own' field
      = own' field - total us field := by
  induction us generalizing own' with
  | nil =>
    rw [total_nil, sub_zero]
    rfl
  | cons u us ih =>
    rw [total_cons] at hle ⊢
    have hu := hpos u List.mem_cons_self
    have hrest : 0 ≤ total us field :=
      total_nonneg fun v hv => hpos v (List.mem_cons_of_mem _ hv)
    have hmax : subtractAssistantUsage own' u.amounts field
        = own' field - u.amounts field := by
      apply max_eq_right
      linarith
    rw [List.foldl_cons, ih _ (fun v hv => hpos v (List.mem_cons_of_mem _ hv))
      (by rw [hmax]; linarith), hmax]
    ring

theorem foldl_subtractEntry (es : List SessionEntry) (own' : Amounts) :
    es.foldl (subtractEntry targets) own'
      = (childUsages targets es).foldl
        (fun sum u => subtractAssistantUsage sum u.amounts) own' := by
  induction es generalizing own' with
  | nil => rfl
  | cons e es ih =>
    have hcons : childUsages targets (e :: es)
        = ((e.attribution?.filter fun a => a.targetId ∈ targets).map
          (·.childUsage)).toList ++ childUsages targets es := by
      rw [childUsages, List.filterMap_cons]
      cases (e.attribution?.filter fun a => a.targetId ∈ targets).map
          (·.childUsage) with
      | none => rfl
      | some u => rfl
    rw [List.foldl_cons, ih, hcons, List.foldl_append, subtractEntry,
      SessionEntry.attribution?]
    cases e.body with
    | childUsageAttributed a =>
      dsimp only
      rw [Option.filter_some]
      by_cases h : a.targetId ∈ targets
      · rw [if_pos h, if_pos (decide_eq_true h)]
        rfl
      · rw [if_neg h, if_neg (by simpa using h)]
        rfl
    | _ => rfl

/-- The entries in memory yield what they hold themselves. -/
theorem ownUsage_eq (hpos : ∀ u ∈ childUsages (assistantUsages es).keys es,
      0 ≤ u.amounts field)
    (hown : 0 ≤ own es field) :
    (computeOwnAndTotalUsage es es).ownUsage field = own es field := by
  rw [computeOwnAndTotalUsage, foldl_addBranchEntry]
  dsimp only
  rw [List.nil_append, foldl_subtractEntry, foldl_subtract]
  · rw [own, emptyUsage, zero_add]
  · exact hpos
  · rw [emptyUsage, zero_add]
    rw [own] at hown
    linarith

-- ======== one append

theorem own_settled (es : List SessionEntry) (field : UsageField) :
    own (es.map (settle es)) field
      = total (scanned header es).assistantUsageById.values field
        + (scanned header es).summarizationUsage field
        - (scanned header es).attributedChildUsage field := by
  rw [own, keys_settled, childUsages_map _ es fun e => (settle_eq es e).1,
    summarizations_map es fun e => (settle_eq es e).2]
  rfl

theorem map_settle_eq (h : Settled es) : es.map (settle es) = es :=
  (List.map_congr_left h).trans (List.map_id es)

theorem map_settle_concat (h : Settled es) (hx : Fresh es x) :
    (es ++ [x]).map (settle (es ++ [x])) = es.map (bump x) ++ [x] := by
  rw [List.map_append, List.map_singleton, settle_fresh hx]
  congr 1
  apply List.map_congr_left
  intro e he
  rw [settle_concat, h e he]

variable {s : SessionManager}

/-- The message an attribution that is not refused is for. -/
theorem target_of_accepted (hlive : Live s)
    (h : (AppendCall.appendChildUsageAttribution a).refuses s = none) :
    ∃ e ∈ s.getEntries, e.id = a.targetId
      ∧ ∃ m, e.assistant? = some m := by
  rw [AppendCall.refuses] at h
  split at h
  · rename_i hsome
    cases hget : s.byId.get a.targetId with
    | none =>
      rw [hget] at hsome
      cases hsome
    | some e =>
      rw [hget, Option.bind_some] at hsome
      rw [hlive.byId] at hget
      exact ⟨e, mem_of_indexOf hget, (indexOf_keyed _).key_of_get hget,
        Option.isSome_iff_exists.1 hsome⟩
  · cases h

/-- The usage a scan has for a message. -/
theorem get_assistantUsages (hes : DistinctIds es)
    (he : e ∈ es) {m : AssistantMessage}
    (hm : e.assistant? = some m) :
    (assistantUsages es).get e.id = some m.usage := by
  apply JsMap.get_of_mem (nodup_keys_assistantUsages hes)
  exact List.mem_filterMap.2 ⟨e, he, by rw [hm]; rfl⟩

/-- Of the entries in memory, an append changes what they hold themselves by
what it spends. -/
theorem own_pushed {adds : UsageField → Prop}
    (hlive : Live s) (htimely : Timely s.getEntries) (io : Io)
    (call : AppendCall) (hx : FreshEntry io call s)
    (haccepted : call.refuses s = none) (hadds : call.AddsUp adds s)
    (hfield : adds field) :
    own (s.getEntries.map (bump (call.entry io s)) ++ [call.entry io s]) field
      = own s.getEntries field + total call.spent.toList field := by
  obtain ⟨header, fs, -⟩ := hlive.header
  have hbefore := own_settled header s.getEntries field
  rw [map_settle_eq hlive.settled] at hbefore
  have hafter := own_settled header (s.getEntries ++ [call.entry io s]) field
  rw [map_settle_concat hlive.settled hx] at hafter
  rw [hafter, hbefore]
  have hother : (call.entry io s).attribution? = none →
      (call.entry io s).assistant? = none →
      (call.entry io s).summarization? = call.spent →
      total (scanned header (s.getEntries ++ [call.entry io s])
            ).assistantUsageById.values field
          + (scanned header (s.getEntries ++ [call.entry io s])
            ).summarizationUsage field
          - (scanned header (s.getEntries ++ [call.entry io s])
            ).attributedChildUsage field
        = total (scanned header s.getEntries).assistantUsageById.values field
          + (scanned header s.getEntries).summarizationUsage field
          - (scanned header s.getEntries).attributedChildUsage field
          + total call.spent.toList field := by
    intro ha hm hs
    rw [scanned_other header hx ha hm, hs]
    cases call.spent with
    | none =>
      rw [Option.toList_none, total_nil, add_zero]
      rfl
    | some u =>
      rw [Option.toList_some, total_singleton]
      dsimp only [SessionScanAccumulator.addSummarization]
      rw [addAssistantUsage]
      ring
  cases call with
  | appendMessage message =>
    cases message with
    | assistant m =>
      have hnew : ((AppendCall.appendMessage (.assistant m)).entry io s).id
          ∉ (scanned header s.getEntries).assistantUsageById.keys := by
        intro hmem
        obtain ⟨e, he, -, hid⟩ := mem_keys_assistantUsages.1
          ((keys_settled _ _).subst hmem)
        exact hx.id e he hid
      rw [scanned_message header hx (m := m) rfl]
      dsimp only
      rw [total_set_new hnew, AppendCall.spent, Option.toList_some,
        total_singleton]
      ring
    | _ => exact hother rfl rfl rfl
  | appendChildUsageAttribution a =>
    obtain ⟨e, he, hid, m, hm⟩ := target_of_accepted hlive haccepted
    have hget : (scanned header s.getEntries).assistantUsageById.get
        a.targetId = some m.usage := by
      rw [← hid]
      refine Eq.trans ?_ (get_assistantUsages htimely.distinct he hm)
      rw [scanned, map_settle_eq hlive.settled]
    have hset := total_set hget a.aggregateUsage field
    have hsum := hadds a rfl e he hid m hm field hfield
    rw [scanned_attribution header htimely hx (a := a) rfl rfl rfl,
      if_pos (by rw [JsMap.has, hget]; rfl)]
    dsimp only [addAssistantUsage]
    have hspent : (AppendCall.appendChildUsageAttribution a).spent = none :=
      rfl
    rw [hspent, Option.toList_none, total_nil]
    linarith
  | _ => exact hother rfl rfl rfl

-- ======== the run

/-- The file of a session that takes it for flushed: nothing but the lines
of entries, loaded as the entries in memory. -/
def Filed (m : Machine) : Prop :=
  ∀ file bytes, m.manager.sessionFile = some file →
    m.manager.flushed = true → m.disk file = some bytes →
    ∃ ds, bytes = linesOf ds
      ∧ finalizeLoadedEntries ds = m.manager.fileEntries

theorem lines_of_live (h : Live s) :
    fileText s.fileEntries = linesOf s.fileEntries := by
  obtain ⟨hd, fs, hcons⟩ := h.header
  apply fileText_eq
  rw [hcons]
  exact List.cons_ne_nil _ _

variable {options : NewSessionOptions} {file : Option String}

section
variable {io : Io} {call : AppendCall} {m m' m₁ : Machine} {id : String}
  {adds : UsageField → Prop} {log : List AppendCall}

/-- An append that is persisted leaves a file of lines. -/
theorem filed_of_persist (hs : Sound m) (hfiled : Filed m)
    (hx : FreshEntry io call m.manager)
    (hp : persistEntry io (call.entry io m.manager) (call.pushed io m)
      = .ok () m₁) : Filed m₁ := by
  have hline : ∀ {bytes : List UInt8} {ds : List FileEntry},
      bytes = linesOf ds → ∀ e, bytes ++ entryLine e = linesOf (ds ++ [e]) := by
    intro bytes ds hlines e
    rw [hlines, linesOf_append, linesOf_singleton]
  exact (storedAs_of_persist hline hs hfiled lines_of_live hx hp).1

/-- What a run keeps. -/
structure Logged (adds : UsageField → Prop) (log : List AppendCall)
    (m : Machine) : Prop where
  sound : Sound m
  filed : Filed m
  timely : Timely m.manager.getEntries
  /-- An attribution is for an entry of the session. -/
  targets : ∀ e ∈ m.manager.getEntries, ∀ a, e.attribution? = some a →
    ∃ x ∈ m.manager.getEntries, x.id = a.targetId
  children : ∀ e ∈ m.manager.getEntries, ∀ a, e.attribution? = some a →
    ∀ field, adds field → 0 ≤ a.childUsage.amounts field
  brought : ∀ usage ∈ log.filterMap AppendCall.spent,
    ∀ field, adds field → 0 ≤ usage.amounts field
  held : ∀ field, adds field →
    own m.manager.getEntries field = spent log field

theorem entries_newSession {m₀ : Machine}
    (h : newSession io options m₀ = .ok file m) :
    m.manager.getEntries = [] := by
  unfold newSession at h
  split at h
  case h_1 => cases h
  case h_2 =>
    dsimp only at h
    split at h
    case h_1 => cases h
    case h_2 =>
      cases h
      rfl

theorem logged_newSession {m₀ : Machine}
    (hpersist : m₀.manager.persist = true)
    (h : newSession io options m₀ = .ok file m) : Logged adds [] m := by
  have hempty := entries_newSession h
  rcases newSession_cases io options hpersist with
    ⟨f, m', hrun, hreplays, hflushed⟩ | ⟨e, m', hrun, -⟩
  · obtain rfl : m' = m := by
      rw [hrun] at h
      cases h
      rfl
    refine ⟨hreplays.sound, storedAs_of_unflushed hflushed, ?_, ?_, ?_, ?_, ?_⟩
    · rw [hempty]
      exact timely_nil
    · rw [hempty]
      exact fun e he => absurd he List.not_mem_nil
    · rw [hempty]
      exact fun e he => absurd he List.not_mem_nil
    · exact fun usage hu => absurd hu List.not_mem_nil
    · intro field _
      rw [hempty]
      change (0 : ℚ) + 0 - 0 = 0
      ring
  · rw [hrun] at h
    cases h

/-- The attribution an append makes. -/
theorem attribution?_entry (h : (call.entry io s).attribution? = some a) :
    call = .appendChildUsageAttribution a := by
  cases call with
  | appendChildUsageAttribution a' =>
    cases h
    rfl
  | _ => cases h

section
variable (h : Logged adds log m)
include h

/-- An id that is not one of the session is not attributed to. -/
theorem Logged.fresh (hid : NewId io call m.manager) :
    FreshEntry io call m.manager where
  id := hid
  unattributed := by
    intro _
    rw [lastUsage, List.getLast?_eq_none_iff, List.filterMap_eq_nil_iff]
    intro e he
    rw [attributedUsage_eq, Option.map_eq_none_iff]
    cases ha : e.attribution? with
    | none => rfl
    | some a =>
      obtain ⟨x, hx, hxid⟩ := h.targets e he a ha
      rw [Option.filter_some, if_neg]
      rw [decide_eq_true_eq]
      intro heq
      exact hid x hx (hxid.trans heq)

omit h in
/-- Bumped entries came in the same order. -/
theorem Timely.map_bump (h : Timely es)
    (x : SessionEntry) : Timely (es.map (bump x)) := by
  intro before y after heq
  obtain ⟨before', rest, rfl, rfl, hrest⟩ := List.map_eq_append_iff.1 heq
  obtain ⟨z, after', rfl, rfl, rfl⟩ := List.map_eq_cons_iff.1 hrest
  have hz := h before' z after' rfl
  constructor
  · intro e he hid
    obtain ⟨w, hw, rfl⟩ := List.mem_map.1 he
    rw [bump_id, bump_id] at hid
    exact hz.id w hw hid
  · intro hassistant
    rw [assistant?_bump_isSome] at hassistant
    rw [bump_id, lastUsage_map_bump]
    exact hz.unattributed hassistant

omit h in
theorem mem_pushed (he : e ∈ es.map (bump x) ++ [x])
    (ha : e.attribution? = some a) :
    (∃ y ∈ es, y.attribution? = some a) ∨ x.attribution? = some a := by
  rcases List.mem_append.1 he with he | he
  · obtain ⟨y, hy, rfl⟩ := List.mem_map.1 he
    exact .inl ⟨y, hy, (bump_eq x y).1 ▸ ha⟩
  · rw [List.mem_singleton.1 he] at ha
    exact .inr ha

/-- An append that returns. -/
theorem Logged.append (hcounts : call.Counts adds)
    (hadds : call.AddsUp adds m.manager) (hid : NewId io call m.manager)
    (hcall : call.run io m = .ok id m') :
    Logged adds (log ++ [call]) m' := by
  have hx := h.fresh hid
  have hspec := append_spec io call h.sound hx
  rw [hcall] at hspec
  obtain ⟨haccepted, -, hsound, -, -⟩ := hspec
  obtain ⟨-, -, m₁, hp, rfl⟩ := AppendCall.run_ok hcall
  obtain ⟨-, flushed, hman⟩ := persist_ok h.sound hx hp
  have hfiled := filed_of_persist h.sound h.filed hx hp
  have hentries : (call.finish io m₁.manager).getEntries
      = m.manager.getEntries.map (bump (call.entry io m.manager))
        ++ [call.entry io m.manager] := by
    rw [← entriesOf_pushed, SessionManager.getEntries,
      AppendCall.finish_fileEntries, hman]
    rfl
  obtain ⟨_, _, hframe⟩ := AppendCall.finish_frame io call m₁.manager
  refine ⟨hsound, ?_, ?_, ?_, ?_, ?_, ?_⟩
  · intro file bytes hf hflushed hb
    rw [hframe] at hf hflushed ⊢
    exact hfiled file bytes hf hflushed hb
  · rw [hentries]
    refine timely_concat.2 ⟨h.timely.map_bump _, ?_⟩
    constructor
    · intro e he heq
      obtain ⟨y, hy, rfl⟩ := List.mem_map.1 he
      rw [bump_id] at heq
      exact hid y hy heq
    · intro hassistant
      rw [lastUsage_map_bump]
      exact hx.unattributed hassistant
  · rw [hentries]
    intro e he a ha
    have hold : ∀ x ∈ m.manager.getEntries, ∃ x' ∈
        m.manager.getEntries.map (bump (call.entry io m.manager))
          ++ [call.entry io m.manager], x'.id = x.id := fun x hx' =>
      ⟨_, List.mem_append_left _ (List.mem_map_of_mem hx'), bump_id _ x⟩
    rcases mem_pushed he ha with ⟨y, hy, hya⟩ | hxa
    · obtain ⟨x, hx', hxid⟩ := h.targets y hy a hya
      obtain ⟨x', hx'', heq⟩ := hold x hx'
      exact ⟨x', hx'', heq.trans hxid⟩
    · have hcallEq := attribution?_entry hxa
      rw [hcallEq] at haccepted
      obtain ⟨x, hx', hxid, -⟩ := target_of_accepted h.sound.live haccepted
      obtain ⟨x', hx'', heq⟩ := hold x hx'
      exact ⟨x', hx'', heq.trans hxid⟩
  · rw [hentries]
    intro e he a ha
    rcases mem_pushed he ha with ⟨y, hy, hya⟩ | hxa
    · exact h.children y hy a hya
    · exact hcounts.2 a (attribution?_entry hxa)
  · intro usage hu
    rw [List.filterMap_append, List.mem_append] at hu
    rcases hu with hu | hu
    · exact h.brought usage hu
    · obtain ⟨c, hc, hspent⟩ := List.mem_filterMap.1 hu
      rw [List.mem_singleton.1 hc] at hspent
      exact hcounts.1 usage hspent
  · intro field hfield
    rw [hentries, own_pushed h.sound.live h.timely io call hx haccepted hadds
      hfield, h.held field hfield, spent, spent, List.filterMap_append,
      total_append]
    congr 2

/-- A rewrite changes the file, and puts the entries in memory there. -/
theorem Logged.rewrite
    (hwrite : rewriteFile false m = .ok () m') : Logged adds log m' := by
  obtain ⟨file, hm⟩ := h.sound.persisted
  rw [rewriteFile_eq hm, if_neg Bool.false_ne_true] at hwrite
  cases hwrite
  have hdisk := Disk.write_self m.disk file (fileText m.manager.fileEntries)
  refine ⟨⟨⟨file, hm.persist, hm.sessionFile⟩, h.sound.live, ?_⟩, ?_,
    h.timely, h.targets, h.children, h.brought, h.held⟩
  · exact stored_of_rewrite h.sound.live hm.sessionFile hdisk
  · exact storedAs_of_rewrite h.sound.live (lines_of_live h.sound.live)
      hm.sessionFile hdisk

omit h in
theorem logged_run (h : LogRun adds log m) : Logged adds log m := by
  induction h with
  | start hpersist hnew => exact logged_newSession hpersist hnew
  | append _ hcounts hadds hid hcall ih =>
    exact ih.append hcounts hadds hid hcall
  | rewrite _ hwrite ih => exact ih.rewrite hwrite

/-- The numbers of a summary. -/
def SummaryAdds (adds : UsageField → Prop) : Prop :=
  adds .input ∧ adds .cacheRead ∧ adds .cacheWrite ∧ adds .output
    ∧ adds .costTotal

/-- The lines of a file that a scan parses. -/
def ShortLines (bytes : List UInt8) : Prop :=
  ∀ line ∈ (splitLines bytes).1,
    (Utf16.encode (Utf8.decode line)).length ≤ sessionListParseMaxLineChars

omit h in
/-- A summary reads five of the numbers. -/
theorem sessionUsageSummaryFrom_congr {x y : Amounts}
    (hadds : SummaryAdds adds) (h : ∀ field, adds field → x field = y field) :
    sessionUsageSummaryFrom x = sessionUsageSummaryFrom y := by
  obtain ⟨hinput, hread, hwrite, houtput, hcost⟩ := hadds
  rw [sessionUsageSummaryFrom, sessionUsageSummaryFrom, h _ hinput,
    h _ hread, h _ hwrite, h _ houtput, h _ hcost]

theorem Logged.spent_nonneg (hfield : adds field) : 0 ≤ spent log field :=
  total_nonneg fun usage hu => h.brought usage hu field hfield

/-- The entries in memory yield what was spent. -/
theorem Logged.resident (hfield : adds field) :
    (computeOwnAndTotalUsage m.manager.getEntries
      m.manager.getEntries).ownUsage field = spent log field := by
  have hown := h.held field hfield
  rw [← hown]
  apply ownUsage_eq
  · intro u hu
    obtain ⟨e, he, heq⟩ := List.mem_filterMap.1 hu
    obtain ⟨a, ha, rfl⟩ := Option.map_eq_some_iff.1 heq
    exact h.children e he a (Option.eq_some_of_filter_eq_some ha) field hfield
  · rw [hown]
    exact h.spent_nonneg hfield

/-- The file yields what was spent. -/
theorem Logged.scan {file : String}
    {bytes : List UInt8} (hfile : m.manager.sessionFile = some file)
    (hflushed : m.manager.flushed = true)
    (hbytes : m.disk file = some bytes) (hshort : ShortLines bytes) :
    ∃ scan, readSessionInfo bytes = some (some scan)
      ∧ ∀ field, adds field → scan field = spent log field := by
  obtain ⟨ds, rfl, hfin⟩ := h.filed file bytes hfile hflushed hbytes
  obtain ⟨hd, fs, hcons⟩ := h.sound.live.header
  have hne : m.manager.fileEntries ≠ [] := by
    rw [hcons]
    exact List.cons_ne_nil _ _
  obtain ⟨-, hes⟩ := finalize_entries hfin hne h.sound.live.distinct
  obtain ⟨header, rest, rfl⟩ : ∃ header rest,
      ds = FileEntry.session header :: rest := by
    unfold finalizeLoadedEntries at hfin
    split at hfin
    case h_1 header rest => exact ⟨header, rest, rfl⟩
    case h_2 => exact absurd hfin.symm hne
  have htimely : Timely (entriesOf rest) := by
    have htimely := h.timely
    rw [SessionManager.getEntries, hes] at htimely
    exact htimely.of_map (settle_id _) (assistant?_settle_isSome _)
      fun id e => attributedUsage_settle id _ e
  have hlines : ∀ f ∈ FileEntry.session header :: rest, ShortLine f := by
    intro f hf
    have hl := hshort (entryText f) (by
      rw [linesOf, splitLines_join_nil
        fun l hl => newline_not_mem_of_mem_map hl]
      exact List.mem_map_of_mem hf)
    rwa [decode_entryText] at hl
  refine ⟨_, readSessionInfo_linesOf htimely hlines, fun field hfield => ?_⟩
  have hown : own ((entriesOf rest).map (settle (entriesOf rest))) field
      = spent log field := by
    rw [← h.held field hfield, SessionManager.getEntries, hes]
    rfl
  rw [hown]
  exact max_eq_right (h.spent_nonneg hfield)

end

/-- Whatever was rewritten between the appends, the file and the entries in
memory yield what the appends spent. -/
theorem own_spend {file : String} {bytes : List UInt8}
    (hrun : LogRun adds log m) (hfile : m.manager.sessionFile = some file)
    (hflushed : m.manager.flushed = true)
    (hbytes : m.disk file = some bytes) (hshort : ShortLines bytes) :
    ∃ scan, readSessionInfo bytes = some (some scan)
      ∧ (∀ field, adds field → scan field = spent log field
        ∧ (computeOwnAndTotalUsage m.manager.getEntries
            m.manager.getEntries).ownUsage field = spent log field)
      ∧ (SummaryAdds adds → sessionUsageSummaryFrom scan
          = sessionUsageSummaryFrom (spent log)
        ∧ sessionUsageSummaryFrom (computeOwnAndTotalUsage
            m.manager.getEntries m.manager.getEntries).ownUsage
          = sessionUsageSummaryFrom (spent log)) := by
  have hlogged := logged_run hrun
  obtain ⟨scan, hread, hscan⟩ := hlogged.scan hfile hflushed hbytes hshort
  have hresident := fun field (hfield : adds field) =>
    hlogged.resident hfield
  refine ⟨scan, hread, fun field hfield =>
    ⟨hscan field hfield, hresident field hfield⟩, fun hadds => ?_⟩
  exact ⟨sessionUsageSummaryFrom_congr hadds hscan,
    sessionUsageSummaryFrom_congr hadds hresident⟩

end

-- ======== an example

/-- Before its first session. -/
def unstarted : Machine where
  disk := fun _ => none
  manager :=
    { sessionId := "", sessionFile := none, sessionDir := "/", cwd := "/"
      persist := true, flushed := false, hasAssistantEntry := false
      fileEntries := [], byId := [], labelsById := []
      labelTimestampsById := [], leafId := none }

def answerCall : AppendCall := .appendMessage (answer (usageOf 1))

/-- A child spent two of everything. -/
def attributeCall : AppendCall :=
  .appendChildUsageAttribution
    { targetId := "a", childUsage := usageOf 2, aggregateUsage := usageOf 3
      origin := none }

def startedMachine : Machine :=
  (outcome (newSession (ioOf "") ⟨none, none, none⟩ unstarted)).machine

def answeredMachine : Machine :=
  (outcome (answerCall.run (ioOf "a") startedMachine)).machine

def attributedMachine : Machine :=
  (outcome (attributeCall.run (ioOf "b") answeredMachine)).machine

def rewrittenMachine : Machine :=
  (outcome (rewriteFile false attributedMachine)).machine

/-- The samples of a usage differ by their size. -/
theorem amounts_usageOf (field : UsageField) :
    ∃ c : ℚ, 0 ≤ c ∧ ∀ n, (usageOf n).amounts field = c * n := by
  have hone : ∀ n : Nat, (Numeral.ofNat n).toRat = (1 : ℚ) * n := fun n => by
    rw [Numeral.toRat_ofNat, one_mul]
  have hzero : ∀ n : Nat, (Numeral.ofNat 0).toRat = (0 : ℚ) * n := fun n => by
    rw [Numeral.toRat_ofNat, Nat.cast_zero, zero_mul]
  cases field with
  | input => exact ⟨1, zero_le_one, hone⟩
  | totalTokens => exact ⟨1, zero_le_one, hone⟩
  | _ => exact ⟨0, le_refl 0, hzero⟩

theorem usageOf_nonneg (n : Nat) (field : UsageField) :
    0 ≤ (usageOf n).amounts field := by
  obtain ⟨c, hc, h⟩ := amounts_usageOf field
  rw [h]
  exact mul_nonneg hc (Nat.cast_nonneg n)

theorem rewritten_run :
    LogRun (fun _ => True) [answerCall, attributeCall] rewrittenMachine := by
  have hnew : newSession (ioOf "") ⟨none, none, none⟩ unstarted
      = .ok (some "//t.jsonl") startedMachine := rfl
  have hcall : answerCall.run (ioOf "a") startedMachine
      = .ok "a" answeredMachine := rfl
  have hcall' : attributeCall.run (ioOf "b") answeredMachine
      = .ok "b" attributedMachine := rfl
  have hstart : LogRun (fun _ => True) [] startedMachine := .start rfl hnew
  have hanswer : LogRun (fun _ => True) [answerCall] answeredMachine := by
    refine .append hstart ⟨?_, ?_⟩ ?_ ?_ hcall
    · rintro usage ⟨⟩ field -
      exact usageOf_nonneg 1 field
    · intro a h
      cases h
    · intro a h
      cases h
    · intro e he
      cases he
  have hattribute : LogRun (fun _ => True) [answerCall, attributeCall]
      attributedMachine := by
    refine .append hanswer ⟨?_, ?_⟩ ?_ ?_ hcall'
    · rintro usage ⟨⟩
    · rintro a ⟨⟩ field -
      exact usageOf_nonneg 2 field
    · rintro a ⟨⟩ e he - m hm field -
      have hentry : e = answerCall.entry (ioOf "a") startedMachine.manager :=
        List.mem_singleton.1 he
      rw [hentry] at hm
      cases hm
      obtain ⟨c, -, h⟩ := amounts_usageOf field
      rw [h, h, h]
      push_cast
      ring
    · intro e he
      have hentry : e = answerCall.entry (ioOf "a") startedMachine.manager :=
        List.mem_singleton.1 he
      rw [hentry]
      decide
  exact .rewrite hattribute rfl

theorem shortLines_linesOf
    (h : ∀ f ∈ fs, ShortLine f) : ShortLines (linesOf fs) := by
  intro line hline
  rw [linesOf, splitLines_join_nil
    fun l hl => newline_not_mem_of_mem_map hl] at hline
  obtain ⟨f, hf, rfl⟩ := List.mem_map.1 hline
  rw [decode_entryText]
  exact h f hf

/-- An answer and an attribution to it, rewritten: the answer's own usage. -/
theorem own_spend_rewritten :
    ∃ scan, readSessionInfo (linesOf rewrittenMachine.manager.fileEntries)
        = some (some scan)
      ∧ (∀ field, True → scan field = spent [answerCall, attributeCall] field
        ∧ (computeOwnAndTotalUsage rewrittenMachine.manager.getEntries
            rewrittenMachine.manager.getEntries).ownUsage field
          = spent [answerCall, attributeCall] field)
      ∧ (SummaryAdds (fun _ => True) → sessionUsageSummaryFrom scan
          = sessionUsageSummaryFrom (spent [answerCall, attributeCall])
        ∧ sessionUsageSummaryFrom (computeOwnAndTotalUsage
            rewrittenMachine.manager.getEntries
            rewrittenMachine.manager.getEntries).ownUsage
          = sessionUsageSummaryFrom (spent [answerCall, attributeCall])) := by
  have hbytes : rewrittenMachine.disk "//t.jsonl"
      = some (linesOf rewrittenMachine.manager.fileEntries) := by
    have hfile : rewrittenMachine.disk "//t.jsonl"
        = some (fileText rewrittenMachine.manager.fileEntries) := rfl
    rw [hfile, fileText_eq]
    exact List.cons_ne_nil _ _
  have hshort : ∀ f ∈ rewrittenMachine.manager.fileEntries, ShortLine f := by
    unfold ShortLine
    decide +kernel
  exact own_spend rewritten_run rfl rfl hbytes (shortLines_linesOf hshort)

end OneHarness.Session
