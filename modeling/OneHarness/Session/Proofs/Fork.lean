/-
Forking a session file.

A fork drops every `git_state` entry and hands its children to the
nearest surviving ancestor. On a tree of entries the search for that
ancestor ends (`liveParent_spec`), and what the fork writes is the source
with each surviving entry relinked (`forkEntries_eq`), so a walk in the
fork is the source's walk with the dropped entries filtered out: this is
`Chain.relink`.

# When the conversation survives

Two references are not relinked. A compaction that keeps from a dropped
entry retains nothing; and the leaf is the last line, so where the last
line is dropped the fork opens on the last surviving line, which may be on
another branch. `fork_messages_iff` says these are the only ways to
lose the conversation.

# The files

A fork writes its entries to a file of its own and opens it, and that
file is as valid a source as the one it was forked from
(`validSource_fork`). So both sessions are opened sources, and what an
opened source says is read off its entries (`opened_messages`).
-/
import OneHarness.Session.Open
import OneHarness.Session.Proofs.Open

namespace OneHarness.Session

open Lib

-- ======== the source

/-- A tree of entries: distinct ids, none empty, and every walk ends. -/
structure EntryTree (es : List SessionEntry) : Prop where
  distinct : DistinctIds es
  nonempty : ∀ e ∈ es, e.id ≠ ""
  walks : ∀ e ∈ es, ∃ path, walk (indexOf es) e = some path

/-- The entry survives a fork. -/
def survives (e : SessionEntry) : Bool := !e.isGitState

/-- The parent a fork gives an entry. -/
def forkLink (es : List SessionEntry) (e : SessionEntry) : Option String :=
  (liveParent (droppedParents es) (es.length + 1) e.parentId).getD none

/-- The path from the root to an entry; empty where there is none. -/
def pathTo (es : List SessionEntry) (e : Option SessionEntry) :
    List SessionEntry :=
  (e.bind (walk (indexOf es))).getD []

/-- The messages of the context at the last entry. -/
def lastMessages (es : List SessionEntry) : List AgentMessage :=
  (contextOfPath (pathTo es es.getLast?)).messages

variable {e a : SessionEntry} {l : List SessionEntry}

section Tree

variable {es : List SessionEntry}

theorem droppedParents_get (h : DistinctIds es) (id : String) :
    (droppedParents es).get id
      = ((es.filter SessionEntry.isGitState).find? fun e => e.id = id).map
        (·.parentId) := by
  have hnd : ((es.filter SessionEntry.isGitState).map (·.id)).Nodup :=
    h.sublist (List.filter_sublist.map _)
  rw [droppedParents, JsMap.get_foldl_set _ hnd, JsMap.get_nil, Option.or_none]

theorem droppedParents_get_of_dropped (h : DistinctIds es)
    (he : e ∈ es) (hg : e.isGitState = true) :
    (droppedParents es).get e.id = some e.parentId := by
  rw [droppedParents_get h]
  cases hf : (es.filter SessionEntry.isGitState).find? fun x => x.id = e.id with
  | none =>
    rw [List.find?_eq_none] at hf
    exact absurd (hf e (List.mem_filter.2 ⟨he, hg⟩)) (by simp)
  | some x =>
    have hx := List.mem_of_mem_filter (List.mem_of_find?_eq_some hf)
    have hid : x.id = e.id := by simpa using List.find?_some hf
    rw [h.eq_of_id hx he hid, Option.map_some]

theorem droppedParents_get_eq_none (h : DistinctIds es) {id : String}
    (hne : ∀ e ∈ es, e.id = id → e.isGitState = false) :
    (droppedParents es).get id = none := by
  rw [droppedParents_get h, Option.map_eq_none_iff, List.find?_eq_none]
  intro e he
  obtain ⟨he, hg⟩ := List.mem_filter.1 he
  simp only [decide_eq_true_eq]
  intro hid
  rw [hne e he hid] at hg
  cases hg

/-- A parent link that leads to `x`, or nowhere. -/
def LeadsTo (es : List SessionEntry) (p : Option String) :
    Option SessionEntry → Prop
  | some x => p = some x.id
  | none => ∀ pid, p = some pid → pid = "" ∨ ∀ y ∈ es, y.id ≠ pid

/-- The climb out of the dropped entries ends at the nearest surviving
ancestor, or where the walk ends. -/
theorem liveParent_spec (ht : EntryTree es)
    (h : Chain (parentOf (indexOf es)) a l) :
    ∀ fuel, l.length ≤ fuel →
      ∃ p, liveParent (droppedParents es) fuel a.parentId = some p
        ∧ LeadsTo es p (l.tail.find? survives) := by
  have hno : ∀ pid, (pid = "" ∨ (indexOf es).get pid = none) →
      (droppedParents es).get pid = none := by
    rintro pid hpid
    refine droppedParents_get_eq_none ht.distinct fun e he hid => ?_
    rcases hpid with rfl | hnone
    · exact absurd hid (ht.nonempty e he)
    · exact absurd hid (indexOf_eq_none.1 hnone e he)
  induction h with
  | @stop a hn =>
    intro fuel hfuel
    cases hp : a.parentId with
    | none =>
      refine ⟨none, by cases fuel <;> rfl, fun pid h => by cases h⟩
    | some pid =>
      have hend : pid = "" ∨ (indexOf es).get pid = none := by
        unfold parentOf at hn
        rw [hp] at hn
        simp only [] at hn
        split at hn
        · exact Or.inl ‹_›
        · exact Or.inr hn
      obtain ⟨n, rfl⟩ : ∃ n, fuel = n + 1 := ⟨fuel - 1, by
        rw [List.length_singleton] at hfuel; omega⟩
      refine ⟨some pid, ?_, fun q hq => ?_⟩
      · rw [liveParent, hno pid hend]
      · cases hq
        exact hend.imp id indexOf_eq_none.1
  | @step a b l hs hc ih =>
    intro fuel hfuel
    obtain ⟨t, rfl⟩ := hc.exists_cons
    obtain ⟨n, rfl⟩ : ∃ n, fuel = n + 1 := ⟨fuel - 1, by
      simp only [List.length_cons] at hfuel; omega⟩
    obtain ⟨hp, -⟩ := parentOf_id (indexOf_keyed es) hs
    have hb : b ∈ es := by
      obtain ⟨id, -, -, hget⟩ := parentOf_eq_some.1 hs
      exact mem_of_indexOf hget
    rw [hp, liveParent, List.tail_cons, List.find?_cons]
    cases hg : b.isGitState with
    | true =>
      rw [droppedParents_get_of_dropped ht.distinct hb hg]
      simp only [survives, hg, Bool.not_true]
      exact ih n (by simp only [List.length_cons] at hfuel ⊢; omega)
    | false =>
      have hnone : (droppedParents es).get b.id = none :=
        droppedParents_get_eq_none ht.distinct fun e he hid => by
          rw [ht.distinct.eq_of_id he hb hid]
          exact hg
      rw [hnone]
      simp only [survives, hg, Bool.not_false]
      exact ⟨some b.id, rfl, rfl⟩

/-- No chain is longer than the file. -/
theorem chain_length_le
    (h : Chain (parentOf (indexOf es)) a l) : l.length ≤ es.length + 1 :=
  h.length_le fun x y hxy => by
    obtain ⟨id, -, -, hget⟩ := parentOf_eq_some.1 hxy
    exact mem_of_indexOf hget

theorem forkLink_spec (ht : EntryTree es)
    (h : Chain (parentOf (indexOf es)) a l) :
    liveParent (droppedParents es) (es.length + 1) a.parentId
        = some (forkLink es a)
      ∧ LeadsTo es (forkLink es a) (l.tail.find? survives) := by
  obtain ⟨p, hp, hlead⟩ := liveParent_spec ht h _ (chain_length_le h)
  rw [forkLink, hp]
  exact ⟨rfl, hlead⟩

theorem mapM_eq_map {α β : Type} {f : α → Option β} {g : α → β}
    {l : List α} (h : ∀ a ∈ l, f a = some (g a)) :
    l.mapM f = some (l.map g) := by
  induction l with
  | nil => rfl
  | cons a l ih =>
    rw [List.mapM_cons, h a List.mem_cons_self,
      ih fun x hx => h x (List.mem_cons_of_mem _ hx)]
    rfl

/-- A fork writes the surviving entries, relinked. -/
theorem forkEntries_eq (ht : EntryTree es) :
    forkEntries es = some (dropRelink survives (forkLink es) es) := by
  refine mapM_eq_map fun e he => ?_
  obtain ⟨path, hpath⟩ := ht.walks e (List.mem_of_mem_filter he)
  have h := (forkLink_spec ht (walk_eq_some_iff.1 hpath)).1
  rw [h, Option.map_some]
  rfl

-- ======== the fork

/-- The entry a fork holds for a surviving one. -/
def forked (es : List SessionEntry) (e : SessionEntry) : SessionEntry :=
  relink (forkLink es e) e

/-- The entries of a fork. -/
abbrev forkOf (es : List SessionEntry) : List SessionEntry :=
  dropRelink survives (forkLink es) es

section
variable (ht : EntryTree es)
include ht

theorem distinctIds_forkOf : DistinctIds (forkOf es) := by
  have h : (forkOf es).map (·.id) = (es.filter survives).map (·.id) := by
    rw [forkOf, dropRelink, List.map_map]
    rfl
  rw [DistinctIds, h]
  exact ht.distinct.sublist (List.filter_sublist.map _)

theorem get_forkOf (he : e ∈ es) (hs : survives e = true) :
    (indexOf (forkOf es)).get e.id = some (forked es e) := by
  have hmem : forked es e ∈ forkOf es := mem_dropRelink.2 ⟨e, he, hs, rfl⟩
  exact indexOf_get (distinctIds_forkOf ht) hmem

/-- The parent of a surviving entry in the fork is its nearest surviving
ancestor. -/
theorem parentOf_forked {b : SessionEntry}
    {t : List SessionEntry} (h : Chain (parentOf (indexOf es)) b (b :: t)) :
    parentOf (indexOf (forkOf es)) (forked es b)
      = (t.find? survives).map (forked es) := by
  obtain ⟨-, hlead⟩ := forkLink_spec ht h
  rw [List.tail_cons] at hlead
  have hsub : t ⊆ es := h.tail_subset fun x y hxy => by
    obtain ⟨id, -, -, hget⟩ := parentOf_eq_some.1 hxy
    exact mem_of_indexOf hget
  cases hf : t.find? survives with
  | some x =>
    rw [hf] at hlead
    have hx : x ∈ es := hsub (List.mem_of_find?_eq_some hf)
    exact parentOf_eq_some.2 ⟨x.id, hlead, ht.nonempty x hx,
      get_forkOf ht hx (List.find?_some hf)⟩
  | none =>
    rw [hf] at hlead
    cases hp : parentOf (indexOf (forkOf es)) (forked es b) with
    | none => rfl
    | some w =>
      obtain ⟨pid, hpid, hne, hget⟩ := parentOf_eq_some.1 hp
      rcases hlead pid hpid with rfl | hno
      · exact absurd rfl hne
      · obtain ⟨y, hy, -, rfl⟩ := mem_dropRelink.1 (mem_of_indexOf hget)
        exact absurd ((indexOf_keyed _).key_of_get hget) (hno y hy)

/-- The walk from a surviving entry, in the fork. -/
theorem walk_forked {path : List SessionEntry} (hs : survives e = true)
    (h : walk (indexOf es) e = some path) :
    walk (indexOf (forkOf es)) (forked es e)
      = some (dropRelink survives (forkLink es) path) := by
  have hc := walk_eq_some_iff.1 h
  obtain ⟨t, hrev⟩ := hc.exists_cons
  rw [walk_eq_some_iff]
  have hrelink : Chain (parentOf (indexOf (forkOf es))) (forked es e)
      ((path.reverse.filter survives).map (forked es)) :=
    hc.relink (fun b t hb _ _ => parentOf_forked ht hb) e
      (by rw [hrev, List.find?_cons, hs])
  rw [List.filter_reverse, List.map_reverse] at hrelink
  exact hrelink

omit ht in
theorem getLast?_forkOf :
    (forkOf es).getLast? = (es.filter survives).getLast?.map (forked es) := by
  rw [forkOf, dropRelink, List.getLast?_map]
  rfl

/-- The path to the last line of a fork. -/
theorem pathTo_forkOf :
    pathTo (forkOf es) (forkOf es).getLast?
      = dropRelink survives (forkLink es)
        (pathTo es (es.filter survives).getLast?) := by
  rw [getLast?_forkOf]
  cases hl : (es.filter survives).getLast? with
  | none => rfl
  | some b =>
    obtain ⟨hb, hs⟩ := List.mem_filter.1 (List.mem_of_getLast? hl)
    obtain ⟨path, hpath⟩ := ht.walks b hb
    rw [pathTo, pathTo, Option.map_some, Option.bind_some, Option.bind_some,
      walk_forked ht hs hpath, hpath, Option.getD_some, Option.getD_some]

theorem distinctIds_pathTo {e : Option SessionEntry}
    (he : ∀ x, e = some x → x ∈ es) : DistinctIds (pathTo es e) := by
  cases e with
  | none => exact List.nodup_nil
  | some x =>
    obtain ⟨path, hpath⟩ := ht.walks x (he x rfl)
    rw [pathTo, Option.bind_some, hpath, Option.getD_some]
    exact distinctIds_of_walk (indexOf_keyed es)
      (indexOf_get ht.distinct (he x rfl)) hpath

end

/-- Relinking alone changes no message. -/
theorem messages_relink {keep : SessionEntry → Bool}
    (link : SessionEntry → Option String) {path : List SessionEntry}
    (hnd : DistinctIds path) :
    (contextOfPath (dropRelink keep link path)).messages
      = (contextOfPath (path.filter keep)).messages := by
  have hall : dropRelink keep link path
      = dropRelink (fun _ => true) link (path.filter keep) := by
    rw [dropRelink, dropRelink, List.filter_true]
  rw [hall]
  refine (messages_dropRelink_iff _
    (hnd.sublist (List.filter_sublist.map _)) fun e _ h => by cases h).2 ?_
  intro before entry c after _ _ _ xs e ys _ _ h
  cases h

/-- The conversation of a source survives a fork. Where the last
surviving line is the nearest surviving ancestor of the last line, so
that both end on the same branch, it is enough that no cut starts at a
dropped entry with messages after it; otherwise the two branches have to
say the same. -/
def ForkSafe (es : List SessionEntry) : Prop :=
  let path := pathTo es es.getLast?
  let path' := pathTo es (es.filter survives).getLast?
  (path'.filter survives = path.filter survives → CutSurvives survives path)
    ∧ (path'.filter survives ≠ path.filter survives →
      (contextOfPath (path'.filter survives)).messages
        = (contextOfPath path).messages)

/-- A fork says what its source said exactly when the source is safe to
fork. -/
theorem fork_messages_iff (ht : EntryTree es) :
    lastMessages (forkOf es) = lastMessages es ↔ ForkSafe es := by
  have hnd := distinctIds_pathTo ht (e := es.getLast?) fun x hx =>
    List.mem_of_getLast? hx
  have hnd' := distinctIds_pathTo ht (e := (es.filter survives).getLast?)
    fun x hx => List.mem_of_mem_filter (List.mem_of_getLast? hx)
  have hs : ∀ e ∈ pathTo es es.getLast?, survives e = false → Silent e :=
    fun e _ h => silent_of_isGitState (by simpa [survives] using h)
  rw [lastMessages, lastMessages, pathTo_forkOf ht, messages_relink _ hnd']
  by_cases hsame : (pathTo es (es.filter survives).getLast?).filter survives
      = (pathTo es es.getLast?).filter survives
  · rw [hsame, ← messages_relink (forkLink es) hnd,
      messages_dropRelink_iff _ hnd hs]
    exact ⟨fun h => ⟨fun _ => h, fun hne => absurd hsame hne⟩,
      fun h => h.1 hsame⟩
  · exact ⟨fun h => ⟨fun heq => absurd heq hsame, fun _ => h⟩,
      fun h => h.2 hsame⟩

theorem entryTree_forkOf (ht : EntryTree es) : EntryTree (forkOf es) where
  distinct := distinctIds_forkOf ht
  nonempty := by
    intro x hx
    obtain ⟨e, he, -, rfl⟩ := mem_dropRelink.1 hx
    exact ht.nonempty e he
  walks := by
    intro x hx
    obtain ⟨e, he, hs, rfl⟩ := mem_dropRelink.1 hx
    obtain ⟨path, hpath⟩ := ht.walks e he
    exact ⟨_, walk_forked ht hs hpath⟩

/-- A fork drops no attribution. -/
theorem lastUsage_forkOf (id : String) (es : List SessionEntry) :
    lastUsage id (forkOf es) = lastUsage id es := by
  rw [lastUsage, lastUsage, forkOf,
    filterMap_dropRelink_of (attributedUsage_relink id)]
  intro e _ hs
  obtain ⟨eid, parentId, timestamp, body⟩ := e
  cases body with
  | gitState g => rfl
  | _ => cases hs

theorem settled_forkOf (h : Settled es) : Settled (forkOf es) := by
  intro x hx
  obtain ⟨e, he, -, rfl⟩ := mem_dropRelink.1 hx
  rw [settle_relink, settle, lastUsage_forkOf]
  exact congrArg (relink _) (h e he)

end Tree

-- ======== the opened sessions

/-- The messages a manager has for the model. -/
def SessionManager.messages (s : SessionManager) :
    Option (List AgentMessage) :=
  s.buildSessionContext.map (·.messages)

/-- A manager that stands on the last entry of a tree. -/
theorem messages_of_last {s : SessionManager} {es : List SessionEntry}
    (ht : EntryTree es) (hb : s.byId = indexOf es)
    (hl : s.leafId = es.getLast?.map (·.id)) :
    s.messages = some (lastMessages es) := by
  rw [SessionManager.messages, SessionManager.buildSessionContext, hl, hb,
    lastMessages]
  cases hlast : es.getLast? with
  | none => rfl
  | some e =>
    have he := List.mem_of_getLast? hlast
    obtain ⟨path, hpath⟩ := ht.walks e he
    simp only [Option.map_some]
    rw [buildSessionContext_id (ht.nonempty e he)
      (indexOf_get ht.distinct he), hpath, pathTo, Option.bind_some, hpath]
    rfl

/-- A session file that can be forked: undamaged, a header and a tree of
entries, of a version that has ids. -/
structure ValidSource (disk : Disk) (path : String) (h : SessionHeader)
    (es : List SessionEntry) : Prop where
  undamaged : repairJsonlDamage disk path = disk
  loads : loadEntriesFromFile disk path = some (.session h :: es.map .entry)
  version : 2 ≤ versionOf (.session h :: es.map .entry)
  tree : EntryTree es

section Files

variable {disk : Disk} {path : String} {h : SessionHeader}
  {es : List SessionEntry}

section
variable (src : ValidSource disk path h es)
include src

theorem ValidSource.exists : (disk path).isSome = true := by
  cases hfile : disk path with
  | some bytes => rfl
  | none =>
    have hload := src.loads
    rw [loadEntriesFromFile, hfile] at hload
    cases hload

theorem ValidSource.settled : Settled es := by
  have hload := src.loads
  unfold loadEntriesFromFile at hload
  split at hload
  case h_1 => cases hload
  case h_2 bytes _ =>
    obtain ⟨ds, -, hds⟩ := Option.map_eq_some_iff.1 hload
    have hset := settled_of_finalize hds
    rw [entriesOf_session, entriesOf_map_entry] at hset
    exact hset src.tree.distinct

/-- A valid file opens, on its last entry. -/
theorem opened_messages (io : Io)
    (hio : io.writeFileAtomicSync 0 = false) (cwd dir : String) :
    ∃ m, openSession io cwd dir path disk = some (.ok () m)
      ∧ m.manager.messages = some (lastMessages es) := by
  have hload := src.loads
  have hes : entriesOf (openedEntries io path (.session h :: es.map .entry))
      = es := by
    rw [entriesOf_openedEntries io path src.version, entriesOf_session,
      entriesOf_map_entry]
  rw [← src.undamaged] at hload
  obtain ⟨s, hs, heq⟩ := openSession_eq io cwd dir src.exists hload
    (List.cons_ne_nil _ _)
  rw [hio, Bool.and_false] at heq
  have hon := openedOn io (.session h :: es.map .entry) hs
  refine ⟨_, heq, messages_of_last src.tree ?_ ?_⟩
  · rw [hon.byId, hes]
  · rw [hon.leafId, hes]

/-- The header a fork writes. -/
def forkHeader (io : Io) (h : SessionHeader) (sourcePath targetCwd id : String) :
    SessionHeader where
  version := some currentSessionVersion
  id := id
  timestamp := io.now
  cwd := targetCwd
  parentSession := some sourcePath
  rlmDepth := some (io.resolveSessionRlmDepth (some h) sourcePath)
  git := io.captureGitContext targetCwd

/-- The file of a fork is a valid source itself. -/
theorem validSource_fork
    (h' : SessionHeader) (hv : h'.version = some currentSessionVersion)
    (disk' : Disk) (file : String) :
    ValidSource
      (disk'.write file
        (linesOf (.session h' :: (forkOf es).map .entry)))
      file h' (forkOf es) where
  undamaged := repair_lines (Disk.write_self _ _ _)
  loads := by
    rw [(Records.lines _).load (Disk.write_self _ _ _),
      finalizeLoadedEntries, (applyChildUsageAttributions_eq_self _).2]
    · rw [entriesOf_session, entriesOf_map_entry]
      exact settled_forkOf src.settled
    · rw [entriesOf_session, entriesOf_map_entry]
      exact distinctIds_forkOf src.tree
  version := by
    rw [versionOf_current _ hv]
    decide +kernel
  tree := entryTree_forkOf src.tree

/-- A fork writes the surviving entries, relinked, and opens them. -/
theorem forkFrom_eq {io io' : Io}
    {targetCwd dir id file : String}
    (htarget : createUniqueSessionFileTarget disk dir io.createSessionId
      = some (id, file)) :
    forkFrom io io' path targetCwd dir disk
      = openSession io' targetCwd dir file
        (disk.write file (linesOf (.session (forkHeader io h path targetCwd id)
          :: (forkOf es).map .entry))) := by
  have hmig := entriesOf_migrate io src.version
  rw [entriesOf_session, entriesOf_map_entry] at hmig
  unfold forkFrom
  simp only [src.loads, List.findSome?_cons, FileEntry.header?, htarget, hmig,
    forkEntries_eq src.tree, Option.bind_eq_bind, Option.bind_some,
    flatMap_entryLine]
  rfl

end

/-- A fork has the conversation of its source exactly when the source is
safe to fork. -/
theorem forkFrom_preserves_iff (src : ValidSource disk path h es)
    {io₀ io io' : Io} {cwd₀ dir₀ targetCwd dir id file : String}
    (hio₀ : io₀.writeFileAtomicSync 0 = false)
    (hio' : io'.writeFileAtomicSync 0 = false)
    (htarget : createUniqueSessionFileTarget disk dir io.createSessionId
      = some (id, file)) :
    ∃ m m', openSession io₀ cwd₀ dir₀ path disk = some (.ok () m)
      ∧ forkFrom io io' path targetCwd dir disk = some (.ok () m')
      ∧ (m'.manager.messages = m.manager.messages ↔ ForkSafe es) := by
  obtain ⟨m, hopen, hm⟩ := opened_messages src io₀ hio₀ cwd₀ dir₀
  have src' := validSource_fork src (forkHeader io h path targetCwd id) rfl
    disk file
  obtain ⟨m', hopen', hm'⟩ := opened_messages src' io' hio' targetCwd dir
  refine ⟨m, m', hopen, (forkFrom_eq src htarget).trans hopen', ?_⟩
  rw [hm, hm', Option.some.injEq]
  exact fork_messages_iff src.tree

end Files

-- ======== a cut at a dropped entry

/-- A change of git state, as an entry. -/
def gitEntry (id : String) (parentId : Option String) : SessionEntry where
  id := id
  parentId := parentId
  timestamp := "2025-01-01T00:00:02.000Z"
  body := .gitState { repoUrl := none, commit := none, branch := none }

/-- A compaction, as an entry. -/
def compactionEntry (id : String) (parentId : Option String)
    (firstKeptEntryId : String) : SessionEntry where
  id := id
  parentId := parentId
  timestamp := "2025-01-01T00:00:03.000Z"
  body := .compaction
    { summary := "earlier"
      firstKeptEntryId := firstKeptEntryId
      tokensBefore := .ofNat 0
      details := none
      fromHook := none
      usage := none
      customInstructions := none
      harnessDigest := none
      harnessStateFingerprint := none }

/-- A compaction that keeps from `firstKeptEntryId`: a question, a change
of git state, and a question after it. -/
def cutEntries (firstKeptEntryId : String) : List SessionEntry :=
  [userEntry "a" none "first", gitEntry "g" (some "a"),
    userEntry "b" (some "g") "second",
    compactionEntry "c" (some "b") firstKeptEntryId]

/-- A disk that holds it as a session file. -/
def cutDisk (firstKeptEntryId : String) : Disk := fun p =>
  if p = "/s.jsonl" then
    some (linesOf
      (.session (headerOf "s") :: (cutEntries firstKeptEntryId).map .entry))
  else none

theorem validSource_cutDisk (id : String) :
    ValidSource (cutDisk id) "/s.jsonl" (headerOf "s") (cutEntries id) where
  undamaged := repair_lines rfl
  loads := by
    rw [(Records.lines _).load (if_pos rfl), finalizeLoadedEntries,
      (applyChildUsageAttributions_eq_self _).2]
    · rw [entriesOf_session, entriesOf_map_entry]
      intro e he
      have hnone : lastUsage e.id (cutEntries id) = none := rfl
      rw [settle, hnone]
    · rw [entriesOf_session, entriesOf_map_entry]
      exact (by decide : ["a", "g", "b", "c"].Nodup)
  version := by
    rw [versionOf_current _ rfl]
    decide +kernel
  tree :=
    { distinct := (by decide : ["a", "g", "b", "c"].Nodup)
      nonempty := by
        intro e he
        have hid : e.id ∈ ["a", "g", "b", "c"] := List.mem_map_of_mem he
        rintro heq
        rw [heq] at hid
        exact absurd hid (by decide)
      walks := by
        intro e he
        simp only [cutEntries, List.mem_cons, List.not_mem_nil, or_false]
          at he
        rcases he with rfl | rfl | rfl | rfl <;> exact ⟨_, rfl⟩ }

/-- Cut at the question after it, the session is forked whole. -/
theorem forkFrom_preserves_cut :
    ∃ m m', openSession (ioOf "") "/" "/" "/s.jsonl" (cutDisk "b")
          = some (.ok () m)
      ∧ forkFrom (ioOf "") (ioOf "") "/s.jsonl" "/" "/" (cutDisk "b")
          = some (.ok () m')
      ∧ (m'.manager.messages = m.manager.messages
        ↔ ForkSafe (cutEntries "b")) :=
  forkFrom_preserves_iff (validSource_cutDisk "b") rfl rfl rfl

/-- Cut at the change of git state, a fork loses the question after it. -/
theorem forkFrom_loses :
    ValidSource (cutDisk "g") "/s.jsonl" (headerOf "s") (cutEntries "g")
      ∧ ∃ m m', openSession (ioOf "") "/" "/" "/s.jsonl" (cutDisk "g")
            = some (.ok () m)
        ∧ forkFrom (ioOf "") (ioOf "") "/s.jsonl" "/" "/" (cutDisk "g")
            = some (.ok () m')
        ∧ m'.manager.messages ≠ m.manager.messages := by
  have src := validSource_cutDisk "g"
  obtain ⟨m, hopen, hm⟩ := opened_messages src (ioOf "") rfl "/" "/"
  have src' := validSource_fork src
    (forkHeader (ioOf "") (headerOf "s") "/s.jsonl" "/" "t") rfl
    (cutDisk "g") "//t.jsonl"
  obtain ⟨m', hopen', hm'⟩ := opened_messages src' (ioOf "") rfl "/" "/"
  refine ⟨src, m, m', hopen, (forkFrom_eq src rfl).trans hopen', ?_⟩
  rw [hm, hm', ne_eq, Option.some.injEq]
  intro heq
  have hlen := congrArg List.length heq
  revert hlen
  decide

end OneHarness.Session
