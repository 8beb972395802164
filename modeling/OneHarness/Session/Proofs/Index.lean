/-
The index a manager rebuilds, and walks through an index.

`buildIndex` is a fold that fills four fields at once; read field by
field it is `indexOf`, the last id, and the two label maps
(`buildIndex_byId`, `buildIndex_leafId`). A path whose entries are linked
each to the one before it is the walk from its last entry through any
index that holds it (`walk_of_linked`), and every walk is such a path
(`linked_of_walk`).
-/
import OneHarness.Session.Manager
import OneHarness.Session.Proofs.Context
import Mathlib.Data.List.Chain

namespace OneHarness.Session

open Lib

-- ======== the index of a manager

variable (fs : List FileEntry) (s : SessionManager) (f : FileEntry)

namespace SessionManager

theorem indexEntry_byId :
    (s.indexEntry f).byId
      = match f with
        | .session _ => s.byId
        | .entry e => s.byId.set e.id e := by
  cases f with
  | session h => rfl
  | entry e =>
    unfold indexEntry
    simp only []
    split
    case h_1 t l _ =>
      unfold applyLabel
      split <;> rfl
    case h_2 => rfl

theorem indexEntry_leafId :
    (s.indexEntry f).leafId
      = match f with
        | .session _ => s.leafId
        | .entry e => some e.id := by
  cases f with
  | session h => rfl
  | entry e =>
    unfold indexEntry
    simp only []
    split
    case h_1 t l _ =>
      unfold applyLabel
      split <;> rfl
    case h_2 => rfl

/-- Indexing touches the index and nothing else. -/
theorem indexEntry_frame :
    ∃ byId labelsById labelTimestampsById leafId,
      s.indexEntry f = { s with
        byId := byId
        labelsById := labelsById
        labelTimestampsById := labelTimestampsById
        leafId := leafId } := by
  cases f with
  | session h => exact ⟨_, _, _, _, rfl⟩
  | entry e =>
    unfold indexEntry
    simp only []
    split
    case h_1 t l _ =>
      unfold applyLabel
      split <;> exact ⟨_, _, _, _, rfl⟩
    case h_2 => exact ⟨_, _, _, _, rfl⟩

theorem foldl_indexEntry_frame :
    ∃ byId labelsById labelTimestampsById leafId,
      fs.foldl indexEntry s = { s with
        byId := byId
        labelsById := labelsById
        labelTimestampsById := labelTimestampsById
        leafId := leafId } := by
  induction fs generalizing s with
  | nil => exact ⟨_, _, _, _, rfl⟩
  | cons f fs ih =>
    obtain ⟨b, l, t, i, h⟩ := indexEntry_frame s f
    obtain ⟨b', l', t', i', h'⟩ := ih (s.indexEntry f)
    refine ⟨b', l', t', i', ?_⟩
    rw [List.foldl_cons, h', h]

theorem foldl_indexEntry_byId :
    (fs.foldl indexEntry s).byId
      = (entriesOf fs).foldl (fun m e => m.set e.id e) s.byId := by
  induction fs generalizing s with
  | nil => rfl
  | cons f fs ih =>
    rw [List.foldl_cons, ih, indexEntry_byId]
    cases f with
    | session h => rfl
    | entry e => rfl

theorem foldl_indexEntry_leafId :
    (fs.foldl indexEntry s).leafId
      = ((entriesOf fs).getLast?.map (·.id)).or s.leafId := by
  induction fs generalizing s with
  | nil => rfl
  | cons f fs ih =>
    rw [List.foldl_cons, ih, indexEntry_leafId]
    cases f with
    | session h => rfl
    | entry e =>
      rw [entriesOf_entry]
      cases hes : entriesOf fs with
      | nil => rfl
      | cons x xs =>
        rw [List.getLast?_cons_cons]
        cases hlast : (x :: xs).getLast? with
        | none => simp at hlast
        | some y => rfl

@[simp] theorem buildIndex_byId :
    s.buildIndex.byId = indexOf (entriesOf s.fileEntries) :=
  foldl_indexEntry_byId _ _

@[simp] theorem buildIndex_leafId :
    s.buildIndex.leafId
      = (entriesOf s.fileEntries).getLast?.map (·.id) := by
  rw [buildIndex, foldl_indexEntry_leafId, Option.or_none]

/-- The two label maps after an entry. -/
def labelStep (maps : JsMap String String × JsMap String String)
    (e : SessionEntry) : JsMap String String × JsMap String String :=
  match e.body with
  | .label targetId label =>
    match label.filter (· ≠ "") with
    | some label =>
      (maps.1.set targetId label, maps.2.set targetId e.timestamp)
    | none => (maps.1.delete targetId, maps.2.delete targetId)
  | _ => maps

/-- The two label maps. -/
def labelMaps (s : SessionManager) :
    JsMap String String × JsMap String String :=
  (s.labelsById, s.labelTimestampsById)

theorem labelMaps_applyLabel {e : SessionEntry}
    {targetId : String} {label : Option String}
    (hbody : e.body = .label targetId label) :
    (s.applyLabel targetId label e.timestamp).labelMaps
      = labelStep s.labelMaps e := by
  rw [labelStep, hbody]
  simp only []
  unfold applyLabel
  cases label.filter (· ≠ "") with
  | some l => rfl
  | none => rfl

theorem indexEntry_labelMaps :
    (s.indexEntry f).labelMaps
      = match f with
        | .session _ => s.labelMaps
        | .entry e => labelStep s.labelMaps e := by
  cases f with
  | session h => rfl
  | entry e =>
    unfold indexEntry
    simp only []
    split
    case h_1 t l hbody => exact labelMaps_applyLabel _ hbody
    case h_2 hbody =>
      unfold labelStep
      split
      case h_1 t l hl => exact absurd hl (hbody t l)
      case h_2 => rfl

theorem foldl_indexEntry_labelMaps :
    (fs.foldl indexEntry s).labelMaps
      = (entriesOf fs).foldl labelStep s.labelMaps := by
  induction fs generalizing s with
  | nil => rfl
  | cons f fs ih =>
    rw [List.foldl_cons, ih, indexEntry_labelMaps]
    cases f with
    | session h => rfl
    | entry e => rfl

theorem buildIndex_labelMaps :
    s.buildIndex.labelMaps
      = (entriesOf s.fileEntries).foldl labelStep ([], []) :=
  foldl_indexEntry_labelMaps _ _

/-- Rebuilding touches the index and nothing else. -/
theorem buildIndex_frame :
    ∃ byId labelsById labelTimestampsById leafId,
      s.buildIndex = { s with
        byId := byId
        labelsById := labelsById
        labelTimestampsById := labelTimestampsById
        leafId := leafId } := by
  obtain ⟨b, l, t, i, h⟩ := foldl_indexEntry_frame s.fileEntries
    { s with
      byId := []
      labelsById := []
      labelTimestampsById := []
      leafId := none }
  exact ⟨b, l, t, i, h⟩

@[simp] theorem buildIndex_fileEntries :
    s.buildIndex.fileEntries = s.fileEntries := by
  obtain ⟨b, l, t, i, h⟩ := buildIndex_frame s
  rw [h]

@[simp] theorem buildIndex_persist : s.buildIndex.persist = s.persist := by
  obtain ⟨b, l, t, i, h⟩ := buildIndex_frame s
  rw [h]

@[simp] theorem buildIndex_sessionFile :
    s.buildIndex.sessionFile = s.sessionFile := by
  obtain ⟨b, l, t, i, h⟩ := buildIndex_frame s
  rw [h]

@[simp] theorem buildIndex_hasAssistantEntry :
    s.buildIndex.hasAssistantEntry = s.hasAssistantEntry := by
  obtain ⟨b, l, t, i, h⟩ := buildIndex_frame s
  rw [h]

/-- The index in memory is the index of the entries in memory. -/
def Indexed (s : SessionManager) : Prop :=
  ∀ id, s.byId.get id = (indexOf s.getEntries).get id

end SessionManager

variable {es : List SessionEntry}

/-- On distinct ids the index lists the entries in order. -/
theorem indexOf_eq_map (h : DistinctIds es) :
    indexOf es = es.map fun e => (e.id, e) := by
  induction es using List.reverseRecOn with
  | nil => rfl
  | append_singleton es x ih =>
    rw [DistinctIds, List.map_append, List.nodup_append'] at h
    obtain ⟨hnd, -, hdis⟩ := h
    have hfresh : x.id ∉ JsMap.keys (es.map fun e => (e.id, e)) := by
      intro hmem
      rw [JsMap.keys, List.map_map] at hmem
      exact hdis hmem (by simp)
    rw [indexOf_append, ih hnd, JsMap.set_of_not_mem _ hfresh, List.map_append]
    rfl

-- ======== linked paths

/-- Every entry after the first names the one before it as its parent. -/
def Linked (es : List SessionEntry) : Prop :=
  es.IsChain fun a b => b.parentId = some a.id ∧ a.id ≠ ""

variable {xs ys : List SessionEntry}

theorem Linked.append_left (h : Linked (xs ++ ys)) : Linked xs :=
  (List.isChain_append.1 h).1

theorem Linked.append_right (h : Linked (xs ++ ys)) : Linked ys :=
  (List.isChain_append.1 h).2.1

/-- Consecutive entries of a linked path are parent and child. -/
theorem Linked.parentId {a b : SessionEntry} (h : Linked (xs ++ a :: b :: ys)) :
    b.parentId = some a.id ∧ a.id ≠ "" :=
  (List.isChain_cons_cons.1 h.append_right).1

/-- Every entry after the first has its parent on the path. -/
theorem Linked.exists_parent {p y : SessionEntry}
    (h : Linked (p :: es)) (hy : y ∈ es) :
    ∃ w ∈ p :: es, y.parentId = some w.id ∧ w.id ≠ "" := by
  induction es generalizing p with
  | nil => cases hy
  | cons x es ih =>
    obtain ⟨hlink, htail⟩ := List.isChain_cons_cons.1 h
    rcases List.mem_cons.1 hy with rfl | hy
    · exact ⟨p, List.mem_cons_self, hlink⟩
    · obtain ⟨w, hw, hp⟩ := ih htail hy
      exact ⟨w, List.mem_cons_of_mem _ hw, hp⟩

theorem Linked.concat {a b : SessionEntry}
    (h : Linked (xs ++ [a])) (hp : b.parentId = some a.id) (ha : a.id ≠ "") :
    Linked (xs ++ [a, b]) := by
  have heq : xs ++ [a, b] = (xs ++ [a]) ++ [b] := by simp
  rw [heq]
  refine List.isChain_append.2 ⟨h, List.isChain_singleton _, ?_⟩
  intro x hx y hy
  rw [List.getLast?_concat, Option.mem_def, Option.some.injEq] at hx
  rw [List.head?_cons, Option.mem_def, Option.some.injEq] at hy
  exact hx ▸ hy ▸ ⟨hp, ha⟩

variable {byId : Index}

variable {leaf : SessionEntry}

/-- A linked path the index holds is the chain from its last entry. -/
theorem chain_of_linked (hl : Linked (es ++ [leaf]))
    (hget : ∀ e ∈ es, byId.get e.id = some e)
    (hroot : ∀ root, (es ++ [leaf]).head? = some root →
      parentOf byId root = none) :
    Chain (parentOf byId) leaf (es ++ [leaf]).reverse := by
  induction es using List.reverseRecOn generalizing leaf with
  | nil => exact .stop (hroot leaf rfl)
  | append_singleton es x ih =>
    rw [List.append_assoc] at hl
    obtain ⟨hp, hx⟩ := hl.parentId
    have hstep : parentOf byId leaf = some x :=
      parentOf_eq_some.2 ⟨x.id, hp, hx, hget x (by simp)⟩
    have hl' : Linked (es ++ [x]) := by
      have heq : es ++ ([x] ++ [leaf]) = (es ++ [x]) ++ [leaf] := by simp
      rw [heq] at hl
      exact hl.append_left
    rw [List.reverse_append, List.reverse_singleton, List.singleton_append]
    refine .step hstep (ih hl' (fun e he => hget e (by simp [he]))
      fun root hr => hroot root ?_)
    rw [List.head?_append, hr]
    rfl

theorem walk_of_linked (hl : Linked (es ++ [leaf]))
    (hget : ∀ e ∈ es, byId.get e.id = some e)
    (hroot : ∀ root, (es ++ [leaf]).head? = some root →
      parentOf byId root = none) :
    walk byId leaf = some (es ++ [leaf]) :=
  walk_eq_some_iff.2 (chain_of_linked hl hget hroot)

variable {path : List SessionEntry}

/-- What a walk visits is linked, ends in the leaf, starts at a root, and
sits in the index, the leaf apart. -/
theorem linked_of_walk (hk : byId.Keyed) (h : walk byId leaf = some path) :
    ∃ es, path = es ++ [leaf] ∧ Linked path
      ∧ (∀ e ∈ es, byId.get e.id = some e ∧ e.id ≠ "")
      ∧ (∀ root, path.head? = some root → parentOf byId root = none) := by
  have hc := walk_eq_some_iff.1 h
  generalize hl : path.reverse = l at hc
  obtain rfl : path = l.reverse := by rw [← hl, List.reverse_reverse]
  clear hl h
  induction hc with
  | @stop a hn =>
    refine ⟨[], rfl, List.isChain_singleton _,
      fun e he => absurd he List.not_mem_nil, fun root hr => ?_⟩
    cases hr
    exact hn
  | @step a b t hs ht ih =>
    obtain ⟨es, heq, hlink, hget, hroot⟩ := ih
    obtain ⟨hp, hb⟩ := parentOf_id hk hs
    have hgetb : byId.get b.id = some b := by
      obtain ⟨id, hid, -, hg⟩ := parentOf_eq_some.1 hs
      rw [hp, Option.some.injEq] at hid
      rw [hid]
      exact hg
    rw [List.reverse_cons, heq]
    refine ⟨es ++ [b], rfl, ?_, fun e he => ?_, fun root hr => ?_⟩
    · rw [List.append_assoc]
      exact (heq ▸ hlink).concat hp hb
    · rcases List.mem_append.1 he with he | he
      · exact hget e he
      · rw [List.mem_singleton.1 he]
        exact ⟨hgetb, hb⟩
    · refine hroot root ?_
      rw [heq]
      cases es with
      | nil => simpa using hr
      | cons x es => simpa using hr

/-- Among entries of distinct ids, the id tells the entry. -/
theorem DistinctIds.eq_of_id (h : DistinctIds es)
    {x y : SessionEntry} (hx : x ∈ es) (hy : y ∈ es) (hid : x.id = y.id) :
    x = y :=
  List.inj_on_of_nodup_map h hx hy hid

/-- A walk from an entry the index holds visits distinct ids. -/
theorem distinctIds_of_walk (hk : byId.Keyed)
    (hleaf : byId.get leaf.id = some leaf)
    (h : walk byId leaf = some path) : DistinctIds path := by
  have hnd : path.Nodup :=
    List.nodup_reverse.1 (walk_eq_some_iff.1 h).nodup
  obtain ⟨es, rfl, -, hget, -⟩ := linked_of_walk hk h
  have hmem : ∀ e ∈ es ++ [leaf], byId.get e.id = some e := by
    intro e he
    rcases List.mem_append.1 he with he | he
    · exact (hget e he).1
    · rw [List.mem_singleton.1 he]
      exact hleaf
  refine List.Nodup.map_on (fun x hx y hy hxy => ?_) hnd
  have hgx := hmem x hx
  rw [hxy, hmem y hy] at hgx
  exact (Option.some.inj hgx).symm

/-- Indexes that find the same entries are walked alike. -/
theorem walk_congr {byId byId' : Index}
    (h : ∀ id, byId.get id = byId'.get id) (leaf : SessionEntry) :
    walk byId leaf = walk byId' leaf := by
  have hparent : parentOf byId = parentOf byId' := by
    funext e
    unfold parentOf
    split
    · rw [h]
    · rfl
  refine Option.ext fun path => ?_
  rw [walk_eq_some_iff, walk_eq_some_iff, hparent]

-- ======== live branches

/-- What is known of the path to an entry of a live session: linked,
distinct ids, all in the index, from a root down. -/
structure LivePath (byId : Index) (path : List SessionEntry) : Prop where
  linked : Linked path
  distinct : DistinctIds path
  mem : ∀ e ∈ path, e.id ≠ "" ∧ byId.get e.id = some e
  root : ∀ root, path.head? = some root → parentOf byId root = none

theorem livePath_of_walk {byId : Index} (hk : byId.Keyed)
    (hne : leaf.id ≠ "") (hleaf : byId.get leaf.id = some leaf)
    (h : walk byId leaf = some path) : LivePath byId path := by
  obtain ⟨es, heq, hlink, hget, hroot⟩ := linked_of_walk hk h
  refine ⟨hlink, distinctIds_of_walk hk hleaf h, fun e he => ?_, hroot⟩
  rw [heq] at he
  rcases List.mem_append.1 he with he | he
  · exact ⟨(hget e he).2, (hget e he).1⟩
  · rw [List.mem_singleton.1 he]
    exact ⟨hne, hleaf⟩

variable {id : String}

namespace SessionManager

/-- The branch of an id is the walk from its entry. -/
theorem getBranch_some {s : SessionManager}
    (h : s.getBranch (some id) = some path)
    (hne : path ≠ []) :
    ∃ leaf, id ≠ "" ∧ s.byId.get id = some leaf
      ∧ walk s.byId leaf = some path := by
  unfold getBranch at h
  rw [Option.some_or] at h
  simp only [] at h
  split at h
  · exact absurd (Option.some.inj h).symm hne
  · rename_i hid
    split at h
    case h_1 => exact absurd (Option.some.inj h).symm hne
    case h_2 leaf hget => exact ⟨leaf, hid, hget, h⟩

/-- In a live session the branch of an id is a live path that ends in
its entry. -/
theorem livePath_of_getBranch {s : SessionManager} (hs : s.Indexed)
    (h : s.getBranch (some id) = some path) (hne : path ≠ []) :
    LivePath (indexOf s.getEntries) path
      ∧ ∃ leaf, id ≠ "" ∧ (indexOf s.getEntries).get id = some leaf
        ∧ walk (indexOf s.getEntries) leaf = some path := by
  obtain ⟨leaf, hid, hget, hwalk⟩ := getBranch_some h hne
  rw [hs] at hget
  rw [walk_congr hs] at hwalk
  have hk : Index.Keyed (indexOf s.getEntries) := indexOf_keyed _
  have hleaf : leaf.id = id := hk.key_of_get hget
  exact ⟨livePath_of_walk hk (hleaf ▸ hid) (hleaf ▸ hget) hwalk,
    leaf, hid, hget, hwalk⟩

end SessionManager

/-- The context at an id is the context of its branch. -/
theorem buildSessionContext_id {entries : List FileEntry} {byId : Index}
    (hid : id ≠ "")
    (hget : byId.get id = some leaf) :
    buildSessionContext entries (.id id) (some byId)
      = (walk byId leaf).map contextOfPath := by
  unfold buildSessionContext leafEntry
  simp only [Option.getD_some, if_neg hid, hget, Option.map_some,
    Option.some_or]

end OneHarness.Session
