/-
Branching a live session off at one of its entries.

`createBranchedSession` keeps the path to the entry, drops the labels on
it and starts the new session with fresh label entries behind it. It does
not touch parent links, so an entry whose parent was a dropped label is
cut off from everything before it.

# The theorem

`createBranchedSession_preserves_iff`: the new session says what the old
one said at that entry, every kept entry still reaches the root and every
cut still resolves, exactly when the labels on the path come after
everything else on it (`LabelsTrail`).

The direction from the labels is `Linked`: the path without its trailing
labels, followed by the fresh ones, is again a linked path of distinct
ids, so it is what the walk visits (`walk_branchedEntries`). The other
direction follows one kept entry that has a label before it: the entries
after that label and the fresh labels are closed under taking parents,
and the root is not among them (`not_reaches_root`).
-/
import OneHarness.Session.Proofs.Index
import OneHarness.Session.Proofs.Ops

namespace OneHarness.Session

open Lib

-- ======== drawn ids

/-- What is relied on of `randomUUID`: 36 characters, and the draws of
last resort are new. -/
structure Uuids (randomUUID : Nat → Nat → String) (count : Nat)
    (used : List String) : Prop where
  length : ∀ n i, (randomUUID n i).length = 36
  unused : ∀ n, n < count → randomUUID n 100 ∉ used
  distinct : ∀ n n', n < n' → n' < count →
    randomUUID n' 100 ≠ randomUUID n 100

/-- An id is a short draw that is not taken, or the last resort. -/
theorem generateId_cases (has : String → Bool) (draws : Nat → String) :
    (has (generateId has draws) = false
        ∧ ∃ i, generateId has draws = String.ofList ((draws i).toList.take 8))
      ∨ generateId has draws = draws 100 := by
  unfold generateId
  simp only []
  cases hf : ((List.range 100).map fun i =>
      String.ofList ((draws i).toList.take 8)).find? fun id => !has id with
  | none => exact Or.inr rfl
  | some id =>
    have hp := List.find?_some hf
    obtain ⟨i, -, hi⟩ := List.mem_map.1 (List.mem_of_find?_eq_some hf)
    refine Or.inl ⟨by simpa using hp, i, ?_⟩
    rw [Option.getD_some]
    exact hi.symm

theorem generateId_fresh {has : String → Bool} {draws : Nat → String}
    (h : has (draws 100) = false) : has (generateId has draws) = false := by
  rcases generateId_cases has draws with ⟨hid, -⟩ | hid
  · exact hid
  · rw [hid]
    exact h

theorem length_short (s : String) :
    (String.ofList (s.toList.take 8)).length ≤ 8 := by
  rw [String.length_ofList, List.length_take]
  omega

theorem generateId_ne_empty {has : String → Bool} {draws : Nat → String}
    (h : ∀ i, (draws i).length = 36) : generateId has draws ≠ "" := by
  have hne : ∀ s : String, s.length ≠ 0 → s ≠ "" := by
    rintro s hs rfl
    exact hs rfl
  rcases generateId_cases has draws with ⟨-, i, hid⟩ | hid
  · rw [hid]
    refine hne _ ?_
    rw [String.length_ofList, List.length_take, String.length_toList, h]
    decide
  · rw [hid]
    exact hne _ (by rw [h]; decide)

-- ======== the fresh labels

variable {labels : List (String × String × String)} {n : Nat}
  {taken : List String} {parentId : Option String} {e x : SessionEntry}

section Labels

variable {draws : Nat → Nat → String}

theorem isLabel_branchLabelEntries
    (he : e ∈ branchLabelEntries draws n taken parentId labels) :
    e.isLabel = true := by
  induction labels generalizing n taken parentId with
  | nil => cases he
  | cons l labels ih =>
    rcases List.mem_cons.1 he with rfl | he
    · rfl
    · exact ih he

section
variable (hlen : ∀ n i, (draws n i).length = 36)
include hlen

theorem ids_branchLabelEntries
    (he : e ∈ branchLabelEntries draws n taken parentId labels) :
    e.id ≠ "" ∧ ∃ k, n ≤ k ∧ ∃ taken' : List String,
      e.id = generateId taken'.contains (draws k) := by
  induction labels generalizing n taken parentId with
  | nil => cases he
  | cons l labels ih =>
    rcases List.mem_cons.1 he with rfl | he
    · exact ⟨generateId_ne_empty (hlen n), n, Nat.le_refl n, taken, rfl⟩
    · obtain ⟨hne, k, hk, taken', hid⟩ := ih he
      exact ⟨hne, k, by omega, taken', hid⟩

/-- The fresh ids are new to the ids in use and to each other. -/
theorem nodup_branchLabelEntries {count : Nat}
    (hdist : ∀ n n', n < n' → n' < count → draws n' 100 ≠ draws n 100)
    (hcount : n + labels.length ≤ count)
    (hunused : ∀ k, n ≤ k → k < count → draws k 100 ∉ taken)
    (hnd : taken.Nodup) :
    (taken ++ (branchLabelEntries draws n taken parentId labels).map
      (·.id)).Nodup := by
  induction labels generalizing n taken parentId with
  | nil => simpa [branchLabelEntries] using hnd
  | cons l labels ih =>
    rw [List.length_cons] at hcount
    have hfresh : generateId taken.contains (draws n) ∉ taken := by
      have h : taken.contains (generateId taken.contains (draws n)) = false :=
        generateId_fresh
          (by simpa using hunused n (Nat.le_refl n) (by omega))
      simpa using h
    rw [branchLabelEntries, List.map_cons, List.append_cons]
    refine ih (n := n + 1) (by omega) (fun k hk hkc hmem => ?_) ?_
    · rcases List.mem_append.1 hmem with hmem | hmem
      · exact hunused k (by omega) hkc hmem
      · have heq : draws k 100 = generateId taken.contains (draws n) :=
          List.mem_singleton.1 hmem
        rcases generateId_cases taken.contains (draws n) with
          ⟨-, i, hid⟩ | hid
        · have hle := length_short (draws n i)
          rw [← hid, ← heq, hlen] at hle
          omega
        · exact hdist n k (by omega) hkc (heq.trans hid)
    · rw [List.nodup_append']
      refine ⟨hnd, List.nodup_singleton _, ?_⟩
      rw [List.disjoint_singleton]
      exact hfresh

/-- The fresh labels are linked, the first to the entry it is given. -/
theorem linked_branchLabelEntries (hx : x.id ≠ "") :
    Linked (x :: branchLabelEntries draws n taken (some x.id) labels) := by
  induction labels generalizing n taken x with
  | nil => exact List.isChain_singleton _
  | cons l labels ih =>
    exact List.isChain_cons_cons.2
      ⟨⟨rfl, hx⟩, ih (generateId_ne_empty (hlen n))⟩

end

end Labels

theorem length_labelsToWrite_nil (s : SessionManager) :
    labelsToWrite s [] = [] := by
  simp [labelsToWrite]

/-- The kept entries of a path. -/
abbrev keptOf (path : List SessionEntry) : List SessionEntry :=
  path.filter fun e => !e.isLabel

/-- The fresh labels behind the kept entries of a path. -/
def freshLabels (io : Io) (s : SessionManager) (path : List SessionEntry) :
    List SessionEntry :=
  branchLabelEntries io.randomUUID 0 ((keptOf path).map (·.id))
    (((keptOf path).getLast?.map (·.id)).filter (· ≠ ""))
    (labelsToWrite s ((keptOf path).map (·.id)))

theorem branchedEntries_eq (io : Io) (s : SessionManager)
    (path : List SessionEntry) :
    branchedEntries io s path = keptOf path ++ freshLabels io s path := rfl

-- ======== the new manager

/-- What a branching that returns has done. -/
theorem createBranchedSession_ok {io : Io} {leafId : String} {m m' : Machine}
    {file : Option String}
    (h : createBranchedSession io leafId m = some (.ok file m')) :
    ∃ path newSessionId newSessionFile flushed,
      m.manager.getBranch (some leafId) = some path ∧ path ≠ []
        ∧ m'.manager = { branchedManager io m.manager path newSessionId
            newSessionFile with flushed := flushed } := by
  unfold createBranchedSession at h
  obtain ⟨path, hpath, h⟩ := Option.map_eq_some_iff.1 h
  cases hp : path.isEmpty with
  | true => simp [hp] at h
  | false =>
    simp only [hp, Bool.false_eq_true, if_false] at h
    have hne : path ≠ [] := by
      rintro rfl
      cases hp
    split at h
    case h_1 => cases h
    case h_2 newSessionId newSessionFile _ =>
      refine ⟨path, newSessionId, newSessionFile, ?_⟩
      split at h
      case isTrue =>
        cases h
        exact ⟨_, hpath, hne, rfl⟩
      case isFalse =>
        split at h
        case isTrue =>
          obtain ⟨_, m₁, hw, h⟩ := bind_eq_ok.1 h
          rw [setFlushed_bind, pure_apply, rewriteFile_manager hw] at h
          cases h
          exact ⟨true, hpath, hne, rfl⟩
        case isFalse =>
          cases h
          exact ⟨false, hpath, hne, rfl⟩

theorem branchedManager_byId (io : Io) (s : SessionManager)
    (path : List SessionEntry) (id : String) (file : Option String) :
    (branchedManager io s path id file).byId
      = indexOf (branchedEntries io s path) := by
  rw [branchedManager, SessionManager.buildIndex_byId]
  simp only [SessionManager.refreshHasAssistantEntry, entriesOf_session,
    entriesOf_map_entry]

theorem branchedManager_leafId (io : Io) (s : SessionManager)
    (path : List SessionEntry) (id : String) (file : Option String) :
    (branchedManager io s path id file).leafId
      = (branchedEntries io s path).getLast?.map (·.id) := by
  rw [branchedManager, SessionManager.buildIndex_leafId]
  simp only [SessionManager.refreshHasAssistantEntry, entriesOf_session,
    entriesOf_map_entry]

-- ======== what is preserved

/-- The walk from `e` reaches `root`. -/
def Reaches (byId : Index) (e root : SessionEntry) : Prop :=
  ∃ l, Chain (parentOf byId) e (l ++ [root])

/-- The id a compaction keeps from names an entry before it on the path. -/
def CutResolves (path : List SessionEntry) (entry : SessionEntry)
    (c : CompactionEntry) : Prop :=
  ∃ before after kept, path = before ++ entry :: after ∧ kept ∈ before
    ∧ kept.id = c.firstKeptEntryId

/-- The session branched off at the end of `path` says what the old one
said there: the same context, every kept entry still reaches the root,
and every kept cut that resolved still does. -/
structure ConversationPreserved (path : List SessionEntry)
    (before : SessionContext) (s' : SessionManager) : Prop where
  context : s'.buildSessionContext = some before
  root : ∀ root, path.head? = some root →
    ∀ e ∈ path, e.isLabel = false → Reaches s'.byId e root
  cut : ∀ e ∈ path, ∀ c, e.body = .compaction c → CutResolves path e c →
    ∃ path', s'.getBranch none = some path' ∧ CutResolves path' e c

/-- On the path, nothing but labels comes after a label. -/
def LabelsTrail (path : List SessionEntry) : Prop :=
  ∀ before e after, path = before ++ e :: after → e.isLabel = true →
    ∀ x ∈ after, x.isLabel = true

theorem LabelsTrail.split {path : List SessionEntry} (h : LabelsTrail path) :
    ∃ labels, path = keptOf path ++ labels
      ∧ ∀ e ∈ labels, e.isLabel = true := by
  induction path with
  | nil => exact ⟨[], rfl, fun e he => absurd he List.not_mem_nil⟩
  | cons e path ih =>
    cases he : e.isLabel with
    | true =>
      have hall := h [] e path rfl he
      refine ⟨e :: path, ?_, fun x hx => ?_⟩
      · rw [keptOf, List.filter_eq_nil_iff.2, List.nil_append]
        intro x hx
        rcases List.mem_cons.1 hx with rfl | hx
        · simp [he]
        · simp [hall x hx]
      · rcases List.mem_cons.1 hx with rfl | hx
        · exact he
        · exact hall x hx
    | false =>
      obtain ⟨labels, heq, hl⟩ := ih fun before x after hb =>
        h (e :: before) x after (by rw [hb]; rfl)
      refine ⟨labels, ?_, hl⟩
      rw [keptOf, List.filter_cons_of_pos (by simp [he]),
        List.cons_append, ← heq]

theorem not_labelsTrail {path : List SessionEntry} (h : ¬ LabelsTrail path) :
    ∃ before e after x, path = before ++ e :: after ∧ e.isLabel = true
      ∧ x ∈ after ∧ x.isLabel = false := by
  unfold LabelsTrail at h
  push Not at h
  obtain ⟨before, e, after, heq, he, x, hx, hxl⟩ := h
  exact ⟨before, e, after, x, heq, he, hx, by simpa using hxl⟩

/-- Labels behind a path change nothing of what it says. -/
theorem contextOfPath_labels {path labels : List SessionEntry}
    (hnd : DistinctIds (path ++ labels))
    (hkept : ∀ e ∈ path, e.isLabel = false)
    (hlabels : ∀ e ∈ labels, e.isLabel = true) :
    contextOfPath (path ++ labels) = contextOfPath path := by
  have hs : ∀ e ∈ path ++ labels, (!e.isLabel) = false → Silent e :=
    fun e _ hk => silent_of_isLabel (by simpa using hk)
  have hdrop : dropRelink (fun e => !e.isLabel) (·.parentId) (path ++ labels)
      = path := by
    have hp : path.filter (fun e => !e.isLabel) = path :=
      List.filter_eq_self.2 fun e he => by simp [hkept e he]
    have hl : labels.filter (fun e => !e.isLabel) = [] :=
      List.filter_eq_nil_iff.2 fun e he => by simp [hlabels e he]
    rw [dropRelink, List.filter_append, hp, hl, List.append_nil]
    exact List.map_id' path
  have hcut : CutSurvives (fun e => !e.isLabel) (path ++ labels) := by
    intro before entry c after heq hbody _ xs e ys hb _ hk
    -- the compaction is in `path`, so nothing before it is a label
    have hentry : entry.isLabel = false := by
      unfold SessionEntry.isLabel
      rw [hbody]
    have hmem : e ∈ path := by
      rcases List.append_eq_append_iff.1 heq with ⟨t, ht, ht'⟩ | ⟨t, ht, ht'⟩
      · cases t with
        | nil =>
          rw [List.append_nil] at ht
          exact ht ▸ hb ▸ by simp
        | cons x t =>
          have := hlabels entry (ht' ▸ by simp)
          rw [hentry] at this
          cases this
      · exact ht ▸ hb ▸ by simp
    simp [hkept e hmem] at hk
  have hmsg := (messages_dropRelink_iff (·.parentId) hnd hs).2 hcut
  have hset := run_dropRelink (·.parentId) hs
  rw [hdrop] at hmsg hset
  obtain ⟨h1, h2, h3⟩ := hset
  simp only [contextOfPath] at hmsg ⊢
  rw [← h1, ← h2, ← h3, hmsg]

-- ======== the theorem

/-- What is relied on of the ids drawn for the fresh labels: they are
UUIDs, and none is the parent a root already names in vain. -/
structure BranchUuids (io : Io) (s : SessionManager)
    (path : List SessionEntry) : Prop
    extends Uuids io.randomUUID
      (labelsToWrite s ((keptOf path).map (·.id))).length
      ((keptOf path).map (·.id)) where
  unnamed : ∀ root p, path.head? = some root → root.parentId = some p →
    p ≠ "" → ∀ n taken, generateId taken (io.randomUUID n) ≠ p

section Theorem

variable {io : Io} {s : SessionManager} {path : List SessionEntry}
  {byId : Index}

theorem distinctIds_branchedEntries (hlive : LivePath byId path)
    (huuid : Uuids io.randomUUID
      (labelsToWrite s ((keptOf path).map (·.id))).length
      ((keptOf path).map (·.id))) :
    DistinctIds (branchedEntries io s path) := by
  have hkept : ((keptOf path).map (·.id)).Nodup :=
    hlive.distinct.sublist (List.filter_sublist.map _)
  rw [branchedEntries_eq, DistinctIds, List.map_append]
  exact nodup_branchLabelEntries huuid.length huuid.distinct
    (by omega) (fun k _ hk => huuid.unused k hk) hkept

theorem fresh_id (huuid : BranchUuids io s path)
    (he : e ∈ freshLabels io s path) :
    e.isLabel = true ∧ e.id ≠ ""
      ∧ ∃ n taken, e.id = generateId taken (io.randomUUID n) := by
  obtain ⟨hne, k, -, taken', hid⟩ := ids_branchLabelEntries huuid.length he
  exact ⟨isLabel_branchLabelEntries he, hne, k, _, hid⟩

section
variable (hlive : LivePath byId path) (huuid : BranchUuids io s path)
include hlive huuid

/-- The fresh labels hang behind the last kept entry. -/
theorem linked_freshLabels {ks : List SessionEntry}
    (hk : keptOf path = ks ++ [x]) :
    x.id ≠ "" ∧ Linked (x :: freshLabels io s path) := by
  have hxk : x ∈ keptOf path := hk ▸ by simp
  have hx : x.id ≠ "" := (hlive.mem x (List.mem_of_mem_filter hxk)).1
  have hlast : ((keptOf path).getLast?.map (·.id)).filter (· ≠ "")
      = some x.id := by
    rw [hk, List.getLast?_concat, Option.map_some, Option.filter_some,
      if_pos (by simpa using hx)]
  refine ⟨hx, ?_⟩
  rw [freshLabels, hlast]
  exact linked_branchLabelEntries huuid.length hx

/-- An index of the branched entries finds each of them. -/
theorem get_branchedEntries (he : e ∈ branchedEntries io s path) :
    (indexOf (branchedEntries io s path)).get e.id = some e :=
  indexOf_get (distinctIds_branchedEntries hlive huuid.toUuids) he

/-- With an entry that has a label before it on the path, the walk from
it never reaches the root. -/
theorem not_reaches_root {before after : List SessionEntry}
    {label root : SessionEntry} (heq : path = before ++ label :: after)
    (hlabel : label.isLabel = true) (hx : x ∈ after)
    (hxl : x.isLabel = false) (hroot : path.head? = some root) :
    ¬ Reaches (indexOf (branchedEntries io s path)) x root := by
  have hnd := distinctIds_branchedEntries hlive huuid.toUuids
  -- the last kept entry comes after the label
  have hkept : keptOf path = keptOf before ++ keptOf after := by
    rw [heq, keptOf, List.filter_append,
      List.filter_cons_of_neg (by simp [hlabel])]
  have hxk : x ∈ keptOf after := List.mem_filter.2 ⟨hx, by simp [hxl]⟩
  obtain ⟨ks, last, hks⟩ : ∃ ks last, keptOf after = ks ++ [last] := by
    rcases List.eq_nil_or_concat (keptOf after) with hnil | ⟨ks, y, hy⟩
    · rw [hnil] at hxk
      cases hxk
    · exact ⟨ks, y, by rw [hy, List.concat_eq_append]⟩
  have hlast : last ∈ after ∧ last.isLabel = false := by
    have h : last ∈ keptOf after := hks ▸ by simp
    obtain ⟨h1, h2⟩ := List.mem_filter.1 h
    exact ⟨h1, by simpa using h2⟩
  have hkeptlast : keptOf path = (keptOf before ++ ks) ++ [last] := by
    rw [hkept, hks, List.append_assoc]
  obtain ⟨-, hfresh⟩ := linked_freshLabels hlive huuid hkeptlast
  have hlastnew : last ∈ branchedEntries io s path := by
    rw [branchedEntries_eq, hkept, hks]
    simp
  have hafter : Linked (label :: after) := (heq ▸ hlive.linked).append_right
  let S : SessionEntry → Prop := fun y =>
    (y ∈ after ∧ y.isLabel = false) ∨ y ∈ freshLabels io s path
  -- a fresh label has a parent, and it is in `S`
  have hfreshParent : ∀ y ∈ freshLabels io s path, ∃ w,
      parentOf (indexOf (branchedEntries io s path)) y = some w ∧ S w := by
    intro y hy
    obtain ⟨w, hw, hp, hwne⟩ := hfresh.exists_parent hy
    have hwnew : w ∈ branchedEntries io s path := by
      rcases List.mem_cons.1 hw with rfl | hw
      · exact hlastnew
      · rw [branchedEntries_eq]
        exact List.mem_append_right _ hw
    refine ⟨w, parentOf_eq_some.2 ⟨w.id, hp, hwne,
      get_branchedEntries hlive huuid hwnew⟩, ?_⟩
    rcases List.mem_cons.1 hw with rfl | hw
    · exact Or.inl hlast
    · exact Or.inr hw
  have hclosed : ∀ y z, S y →
      parentOf (indexOf (branchedEntries io s path)) y = some z → S z := by
    rintro y z (⟨hy, -⟩ | hy) hz
    · obtain ⟨w, hw, hp, -⟩ := hafter.exists_parent hy
      obtain ⟨id, hid, -, hget⟩ := parentOf_eq_some.1 hz
      rw [hp, Option.some.injEq] at hid
      have hzid : z.id = w.id := hid ▸ (indexOf_keyed _).key_of_get hget
      have hznew := mem_of_indexOf hget
      rw [branchedEntries_eq] at hznew
      rcases List.mem_append.1 hznew with hzk | hzf
      · obtain ⟨hzp, hzl⟩ := List.mem_filter.1 hzk
        have hwp : w ∈ path := heq ▸ List.mem_append_right _ hw
        obtain rfl := hlive.distinct.eq_of_id hzp hwp hzid
        refine Or.inl ⟨?_, by simpa using hzl⟩
        rcases List.mem_cons.1 hw with rfl | hw
        · simp [hlabel] at hzl
        · exact hw
      · exact Or.inr hzf
    · obtain ⟨w, hw, hS⟩ := hfreshParent y hy
      rw [hw] at hz
      exact Option.some.inj hz ▸ hS
  rintro ⟨l, hc⟩
  have hend : parentOf (indexOf (branchedEntries io s path)) root = none := by
    have h := hc.parent_getLast
    rwa [List.getLast_append_singleton] at h
  rcases Chain.not_reach hclosed (Or.inl ⟨hx, hxl⟩)
      (hc.reaches (by simp : root ∈ l ++ [root])) with ⟨hr, -⟩ | hr
  · -- the root would be after the label, but it is the head of the path
    have hnd' : DistinctIds ((before ++ [label]) ++ after) := by
      rw [List.append_assoc]
      exact heq ▸ hlive.distinct
    have hhead : root ∈ before ++ [label] := by
      rw [heq] at hroot
      cases before with
      | nil =>
        rw [List.nil_append, List.head?_cons, Option.some.injEq] at hroot
        simp [hroot]
      | cons y ys =>
        rw [List.cons_append, List.head?_cons, Option.some.injEq] at hroot
        simp [hroot]
    obtain ⟨xs, ys, hsplit⟩ := List.append_of_mem hr
    rw [hsplit, ← List.append_assoc] at hnd'
    exact hnd'.ne_before (List.mem_append_left _ hhead) rfl
  · obtain ⟨w, hw, -⟩ := hfreshParent root hr
    rw [hw] at hend
    cases hend

/-- When the labels trail, the branched entries are what a walk from the
last of them visits. -/
theorem walk_branchedEntries {labels : List SessionEntry}
    (hsplit : path = keptOf path ++ labels) (hne : keptOf path ≠ []) :
    ∃ leaf, (branchedEntries io s path).getLast? = some leaf
      ∧ leaf.id ≠ ""
      ∧ walk (indexOf (branchedEntries io s path)) leaf
        = some (branchedEntries io s path) := by
  obtain ⟨ks, x, hk⟩ : ∃ ks x, keptOf path = ks ++ [x] := by
    rcases List.eq_nil_or_concat (keptOf path) with hnil | ⟨ks, y, hy⟩
    · exact absurd hnil hne
    · exact ⟨ks, y, by rw [hy, List.concat_eq_append]⟩
  obtain ⟨hx, hfresh⟩ := linked_freshLabels hlive huuid hk
  have hlink : Linked (branchedEntries io s path) := by
    have hkept : Linked (keptOf path) := by
      have h := hlive.linked
      rw [hsplit] at h
      exact h.append_left
    rw [branchedEntries_eq, hk, List.append_assoc, List.singleton_append]
    exact List.isChain_split.2 ⟨hk ▸ hkept, hfresh⟩
  have hids : ∀ e ∈ branchedEntries io s path, e.id ≠ "" := by
    intro e he
    rw [branchedEntries_eq] at he
    rcases List.mem_append.1 he with he | he
    · exact (hlive.mem e (List.mem_of_mem_filter he)).1
    · exact (fresh_id huuid he).2.1
  have hroot : ∀ root, (branchedEntries io s path).head? = some root →
      parentOf (indexOf (branchedEntries io s path)) root = none := by
    intro root hr
    have hpath : path.head? = some root := by
      rw [branchedEntries_eq] at hr
      rw [hsplit]
      rw [List.head?_append_of_ne_nil _ hne] at hr ⊢
      exact hr
    have hold := hlive.root root hpath
    cases hp : parentOf (indexOf (branchedEntries io s path)) root with
    | none => rfl
    | some w =>
      obtain ⟨p, hpar, hpne, hget⟩ := parentOf_eq_some.1 hp
      have hwid := (indexOf_keyed _).key_of_get hget
      have hw := mem_of_indexOf hget
      rw [branchedEntries_eq] at hw
      rcases List.mem_append.1 hw with hw | hw
      · have hwget := (hlive.mem w (List.mem_of_mem_filter hw)).2
        rw [hwid] at hwget
        rw [parentOf_eq_some.2 ⟨p, hpar, hpne, hwget⟩] at hold
        cases hold
      · obtain ⟨-, -, n, taken, hid⟩ := fresh_id huuid hw
        exact absurd (hid.symm.trans hwid)
          (huuid.unnamed root p hpath hpar hpne n taken)
  obtain ⟨es, leaf, hlast⟩ : ∃ es leaf,
      branchedEntries io s path = es ++ [leaf] := by
    rcases List.eq_nil_or_concat (branchedEntries io s path) with
      hnil | ⟨es, y, hy⟩
    · rw [branchedEntries_eq, List.append_eq_nil_iff] at hnil
      exact absurd hnil.1 hne
    · exact ⟨es, y, by rw [hy, List.concat_eq_append]⟩
  have hget := fun e => get_branchedEntries (e := e) hlive huuid
  rw [hlast] at hlink hids hroot hget ⊢
  refine ⟨leaf, List.getLast?_concat, hids leaf (by simp), ?_⟩
  exact walk_of_linked hlink (fun e he => hget e (by simp [he])) hroot

end

/-- Every entry of a walked path reaches its root. -/
theorem reaches_of_walk {leaf root : SessionEntry}
    (h : walk byId leaf = some path) (he : e ∈ path)
    (hroot : path.head? = some root) : Reaches byId e root := by
  have hc := walk_eq_some_iff.1 h
  obtain ⟨t, hce, u, hu⟩ := hc.of_mem (List.mem_reverse.2 he)
  cases path with
  | nil => cases he
  | cons r rest =>
    rw [List.head?_cons, Option.some.injEq] at hroot
    rw [hroot, List.reverse_cons] at hu
    obtain ⟨l, hl⟩ : ∃ l, e :: t = l ++ [root] := by
      rcases List.eq_nil_or_concat (e :: t) with hnil | ⟨l, y, hy⟩
      · cases hnil
      · rw [List.concat_eq_append] at hy
        rw [hy, ← List.append_assoc] at hu
        have := List.append_inj_right' hu rfl
        exact ⟨l, by rw [hy, this]⟩
    exact ⟨l, hl ▸ hce⟩

/-- A cut that resolved among the kept entries still does. -/
theorem cutResolves_branchedEntries {labels : List SessionEntry}
    (hsplit : path = keptOf path ++ labels)
    (hlabels : ∀ e ∈ labels, e.isLabel = true)
    (he : e.isLabel = false) {c : CompactionEntry}
    (h : CutResolves path e c) :
    CutResolves (branchedEntries io s path) e c := by
  obtain ⟨before, after, kept, heq, hk, hid⟩ := h
  obtain ⟨t, ht⟩ : ∃ t, keptOf path = before ++ e :: t := by
    rw [hsplit] at heq
    rcases List.append_eq_append_iff.1 heq with ⟨t, ht, ht'⟩ | ⟨t, ht, ht'⟩
    · cases t with
      | nil =>
        have := hlabels e (by simp [ht'])
        rw [he] at this
        cases this
      | cons y t =>
        have := hlabels e (by simp [ht'])
        rw [he] at this
        cases this
    · cases t with
      | nil =>
        have := hlabels e (by
          rw [List.nil_append] at ht'
          simp [← ht'])
        rw [he] at this
        cases this
      | cons y t =>
        rw [List.cons_append, List.cons.injEq] at ht'
        exact ⟨t, by rw [ht, ht'.1]⟩
  refine ⟨before, t ++ freshLabels io s path, kept, ?_, hk, hid⟩
  rw [branchedEntries_eq, ht, List.append_assoc, List.cons_append]

end Theorem

/-- Branching a session off at one of its entries preserves the
conversation exactly when, on the path to that entry, nothing but labels
comes after a label. -/
theorem createBranchedSession_preserves_iff {io : Io} {leafId : String}
    {m m' : Machine} {file : Option String} {path : List SessionEntry}
    {before : SessionContext} (hindexed : m.manager.Indexed)
    (hpath : m.manager.getBranch (some leafId) = some path)
    (hbefore : buildSessionContext m.manager.fileEntries (.id leafId) none
      = some before)
    (hrun : createBranchedSession io leafId m = some (.ok file m'))
    (huuid : BranchUuids io m.manager path) :
    ConversationPreserved path before m'.manager ↔ LabelsTrail path := by
  obtain ⟨path', newId, newFile, flushed, hpath', hne, hm'⟩ :=
    createBranchedSession_ok hrun
  obtain rfl : path = path' := by
    rw [hpath] at hpath'
    exact Option.some.inj hpath'
  obtain ⟨hlive, leaf, hid, hget, hwalk⟩ :=
    SessionManager.livePath_of_getBranch hindexed hpath hne
  have hctx : before = contextOfPath path := by
    -- without an index, the context is built on the entries' own
    have hbefore' : buildSessionContext m.manager.fileEntries (.id leafId)
        (some (indexOf m.manager.getEntries)) = some before := hbefore
    rw [buildSessionContext_id hid hget, hwalk, Option.map_some,
      Option.some.injEq] at hbefore'
    exact hbefore'.symm
  have hbyId : m'.manager.byId
      = indexOf (branchedEntries io m.manager path) := by
    rw [hm']
    exact branchedManager_byId _ _ _ _ _
  have hleafId : m'.manager.leafId
      = (branchedEntries io m.manager path).getLast?.map (·.id) := by
    rw [hm']
    exact branchedManager_leafId _ _ _ _ _
  constructor
  · intro hpres
    by_contra hnot
    obtain ⟨xs, label, ys, x, heq, hlabel, hx, hxl⟩ := not_labelsTrail hnot
    obtain ⟨root, hroot⟩ : ∃ root, path.head? = some root := by
      cases path with
      | nil => exact absurd rfl hne
      | cons r rest => exact ⟨r, rfl⟩
    have hreach := hpres.root root hroot x (heq ▸ by simp [hx]) hxl
    rw [hbyId] at hreach
    exact not_reaches_root hlive huuid heq hlabel hx hxl hroot hreach
  · intro htrail
    obtain ⟨labels, hsplit, hlabels⟩ := htrail.split
    have hkeptl : ∀ e ∈ keptOf path, e.isLabel = false := fun e he => by
      simpa using (List.mem_filter.1 he).2
    have hpathctx : contextOfPath path = contextOfPath (keptOf path) := by
      have hnd := hlive.distinct
      rw [hsplit] at hnd
      have h := contextOfPath_labels hnd hkeptl hlabels
      rwa [← hsplit] at h
    have hnewctx : contextOfPath (branchedEntries io m.manager path)
        = contextOfPath (keptOf path) :=
      contextOfPath_labels (distinctIds_branchedEntries hlive huuid.toUuids) hkeptl
        fun e he => (fresh_id huuid he).1
    by_cases hk : keptOf path = []
    · -- nothing is kept: the new session starts empty
      have hall : ∀ e ∈ path, e.isLabel = true := by
        rw [hk, List.nil_append] at hsplit
        exact hsplit ▸ hlabels
      have hnew : branchedEntries io m.manager path = [] := by
        rw [branchedEntries_eq, freshLabels, hk, List.map_nil,
          length_labelsToWrite_nil]
        rfl
      rw [hnew] at hleafId
      refine ⟨?_, fun root _ e he hel => ?_, fun e he c hc _ => ?_⟩
      · rw [SessionManager.buildSessionContext, hleafId, hctx, hpathctx, hk]
        rfl
      · rw [hall e he] at hel
        cases hel
      · have h := hall e he
        rw [SessionEntry.isLabel, hc] at h
        cases h
    · obtain ⟨last, hlast, hlastne, hwalk'⟩ :=
        walk_branchedEntries hlive huuid hsplit hk
      rw [hlast, Option.map_some] at hleafId
      have hgetl : m'.manager.byId.get last.id = some last := by
        rw [hbyId]
        exact get_branchedEntries hlive huuid (List.mem_of_getLast? hlast)
      have hmem : ∀ e ∈ path, e.isLabel = false →
          e ∈ branchedEntries io m.manager path := by
        intro e he hel
        rw [branchedEntries_eq]
        exact List.mem_append_left _ (List.mem_filter.2 ⟨he, by simp [hel]⟩)
      rw [← hbyId] at hwalk'
      refine ⟨?_, fun root hroot e he hel => ?_, fun e he c hc hcut => ?_⟩
      · rw [SessionManager.buildSessionContext, hleafId]
        simp only []
        rw [buildSessionContext_id hlastne hgetl, hwalk', Option.map_some,
          hnewctx, hctx, hpathctx]
      · refine reaches_of_walk hwalk' (hmem e he hel) ?_
        rw [hsplit, List.head?_append_of_ne_nil _ hk] at hroot
        rw [branchedEntries_eq, List.head?_append_of_ne_nil _ hk]
        exact hroot
      · refine ⟨branchedEntries io m.manager path, ?_, ?_⟩
        · rw [SessionManager.getBranch, hleafId, Option.none_or]
          simp only [if_neg hlastne, hgetl]
          exact hwalk'
        · refine cutResolves_branchedEntries hsplit hlabels ?_ hcut
          rw [SessionEntry.isLabel, hc]

-- ======== a labelled path

/-- A label, as an entry. -/
def labelEntry (id : String) (parentId : Option String)
    (targetId label : String) : SessionEntry where
  id := id
  parentId := parentId
  timestamp := "2025-01-01T00:00:01.000Z"
  body := .label targetId (some label)

/-- An in-memory manager that holds these entries. -/
def managerOf (entries : List SessionEntry) : SessionManager :=
  { sessionId := "s"
    sessionFile := none
    sessionDir := ""
    cwd := "/"
    persist := false
    flushed := false
    hasAssistantEntry := false
    fileEntries := entries.map .entry
    byId := []
    labelsById := []
    labelTimestampsById := []
    leafId := none : SessionManager }.refreshHasAssistantEntry.buildIndex

theorem indexed_managerOf (entries : List SessionEntry) :
    (managerOf entries).Indexed := by
  intro id
  rw [SessionManager.getEntries, managerOf, SessionManager.buildIndex_byId,
    SessionManager.buildIndex_fileEntries]

/-- A message, a label on it, and an answer typed after the label. -/
def labelledMachine : Machine where
  disk := fun _ => none
  manager := managerOf
    [userEntry "a" none "first", labelEntry "l" (some "a") "a" "start",
      userEntry "b" (some "l") "second"]

def labelUuid : String := "00000000-1111-4222-8333-444444444444"

/-- Branched off at the message before the label, the session keeps its
context, and the label is written again. -/
theorem createBranchedSession_preserves_labelled :
    ∃ before file m',
      buildSessionContext labelledMachine.manager.fileEntries (.id "a") none
          = some before
        ∧ createBranchedSession (ioOf labelUuid) "a" labelledMachine
          = some (.ok file m')
        ∧ (ConversationPreserved [userEntry "a" none "first"] before m'.manager
          ↔ LabelsTrail [userEntry "a" none "first"]) := by
  refine ⟨_, _, _, rfl, rfl, ?_⟩
  have hrun : createBranchedSession (ioOf labelUuid) "a" labelledMachine
      = some (.ok _ _) := rfl
  refine createBranchedSession_preserves_iff (indexed_managerOf _) rfl rfl
    hrun ?_
  have hlen : labelUuid.length = 36 := by decide
  have hnew : labelUuid ∉ ["a"] := by decide
  refine ⟨⟨fun _ _ => hlen, fun _ _ => hnew, ?_⟩, ?_⟩
  · intro n n' hlt hn'
    have hcount : n' < 1 := hn'
    omega
  · intro root p hr hp
    cases hr
    cases hp

/-- Branched off at the answer, it loses the message before the label. -/
theorem createBranchedSession_loses :
    ¬ ∀ path before file m',
      labelledMachine.manager.getBranch (some "b") = some path →
      buildSessionContext labelledMachine.manager.fileEntries (.id "b") none
        = some before →
      createBranchedSession (ioOf labelUuid) "b" labelledMachine
        = some (.ok file m') →
      ConversationPreserved path before m'.manager := by
  intro h
  have hctx := (h _ _ _ _ rfl rfl rfl).context
  have hlen := congrArg (Option.map fun c => c.messages.length) hctx
  revert hlen
  decide

end OneHarness.Session
