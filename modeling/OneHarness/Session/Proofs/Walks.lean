/-
The walks over the parent links of a session file end, visiting nothing
twice, exactly when the links have no cycle and no id is attached twice
(`walksEnd_iff`).

Two conditions, because the walks read the links differently. The walks up
(`buildSessionContext`, `getBranch`) go from entry to entry through the last
entry of each id, and nothing in them notices a cycle. The walk down
(`getTree`) sees a cycle only when it comes to it from a root, and it can: an
earlier entry of an id puts the id's one node in a second place.
`branchEntries`, which remembers the ids it has seen, ends on every file
(`branchEntries_ends`).
-/
import OneHarness.Lib.StackWalk
import OneHarness.Session.Open
import OneHarness.Session.Proofs.Index
import OneHarness.Session.Tree

namespace OneHarness.Session

open Lib
open Relation

-- ======== statement vocabulary

/-- The session when its file is these entries. -/
def loaded (s : SessionManager) (entries : List SessionEntry) :
    SessionManager :=
  SessionManager.buildIndex
    { s with fileEntries := entries.map FileEntry.entry }

/-- Every walk ends and visits an entry once, and the context's is the one
usage is summed over. -/
structure WalksEnd (s : SessionManager) (entries : List SessionEntry) :
    Prop where
  context : ∀ leafId, ∃ path,
    contextPath (entries.map FileEntry.entry) leafId none = some path
      ∧ path.Nodup
  branch : ∀ fromId, ∃ path,
    (loaded s entries).getBranch fromId = some path ∧ path.Nodup
  tree : ∃ fuel result,
    (loaded s entries).getTree fuel = some result ∧ result.2.Nodup
  same : ∃ path, branchEntries entries = some path
    ∧ contextPath (entries.map FileEntry.entry) .undefined none = some path

/-- No entry is above itself, where a parent id is that of the last entry
that has it. -/
def Acyclic (entries : List SessionEntry) : Prop :=
  ∀ e, ¬TransGen (fun x y => parentOf (indexOf entries) x = some y) e e

/-- Every entry puts its id under its parent id, or at the root: when it has
none, when it is its own, and when no entry has it. -/
def placement (entries : List SessionEntry) :
    Placement SessionEntry String where
  items := entries
  key e := e.id
  host e := e.parentId.filter fun parentId =>
    parentId ≠ e.id && entries.any fun x => x.id = parentId

-- ======== the context

/-- The context is that of its path. -/
theorem buildSessionContext_eq (entries : List FileEntry) (leafId : LeafId)
    (byId : Option Index) :
    buildSessionContext entries leafId byId
      = (contextPath entries leafId byId).map contextOfPath := by
  unfold buildSessionContext contextPath
  cases leafId with
  | null => rfl
  | undefined | id _ =>
    dsimp only
    generalize leafEntry entries _ _ = leaf
    cases leaf with
    | none => rfl
    | some leaf =>
      cases leaf with
      | session _ => rfl
      | entry _ => rfl

variable {byId : Index} {leaf : SessionEntry}

section
variable {entries : List SessionEntry}

theorem mem_values_of_parent {x y : SessionEntry}
    (h : parentOf byId x = some y) : y ∈ byId.values := by
  obtain ⟨id, -, -, hget⟩ := parentOf_eq_some.1 h
  exact JsMap.mem_values_of_get hget

theorem nodup_of_walk
    {path : List SessionEntry} (h : walk byId leaf = some path) :
    path.Nodup :=
  List.nodup_reverse.1 (walk_eq_some_iff.1 h).nodup

/-- Without cycles every walk up ends. -/
theorem Acyclic.walk (h : Acyclic entries) (leaf : SessionEntry) :
    ∃ path, walk (indexOf entries) leaf = some path ∧ path.Nodup := by
  obtain ⟨l, hl⟩ := Chain.exists_of_acyclic
    (fun _ _ hparent => mem_values_of_parent hparent) h leaf
  have hwalk : Session.walk (indexOf entries) leaf = some l.reverse :=
    walk_eq_some_iff.2 (by rwa [List.reverse_reverse])
  exact ⟨l.reverse, hwalk, nodup_of_walk hwalk⟩

theorem Acyclic.context (h : Acyclic entries) (leafId : LeafId) :
    ∃ path, contextPath (entries.map FileEntry.entry) leafId none = some path
      ∧ path.Nodup := by
  unfold contextPath
  rw [Option.getD_none, entriesOf_map_entry]
  cases leafId with
  | null => exact ⟨[], rfl, List.nodup_nil⟩
  | undefined | id _ =>
    dsimp only
    split
    · exact h.walk _
    · exact ⟨[], rfl, List.nodup_nil⟩

theorem Acyclic.branch (h : Acyclic entries) (s : SessionManager)
    (fromId : Option String) :
    ∃ path, (loaded s entries).getBranch fromId = some path ∧ path.Nodup := by
  have hbyId : (loaded s entries).byId = indexOf entries := by
    rw [loaded, SessionManager.buildIndex_byId]
    exact congrArg indexOf (entriesOf_map_entry entries)
  unfold SessionManager.getBranch
  rw [hbyId]
  split
  · exact ⟨[], rfl, List.nodup_nil⟩
  · split
    · exact ⟨[], rfl, List.nodup_nil⟩
    · split
      · exact ⟨[], rfl, List.nodup_nil⟩
      · exact h.walk _

theorem contextPath_id {id : String} (hid : id ≠ "")
    (hget : (indexOf entries).get id = some leaf) :
    contextPath (entries.map FileEntry.entry) (.id id) none
      = walk (indexOf entries) leaf := by
  unfold contextPath leafEntry
  simp only [Option.getD_none, entriesOf_map_entry, if_neg hid, hget,
    Option.map_some, Option.some_or]

/-- Without a leaf id the path is that of the last entry. -/
theorem contextPath_last (hlast : entries.getLast? = some leaf) :
    contextPath (entries.map FileEntry.entry) .undefined none
      = walk (indexOf entries) leaf := by
  unfold contextPath leafEntry
  simp only [Option.getD_none, entriesOf_map_entry, List.getLast?_map, hlast,
    Option.map_some]

/-- An entry above itself is one a context can be asked for. -/
theorem acyclic_of_context (h : ∀ leafId, ∃ path,
      contextPath (entries.map FileEntry.entry) leafId none = some path
        ∧ path.Nodup) : Acyclic entries := by
  intro e hcycle
  obtain ⟨x, -, hstep⟩ := TransGen.tail'_iff.1 hcycle
  obtain ⟨id, -, hid, hget⟩ := parentOf_eq_some.1 hstep
  obtain ⟨path, hpath, -⟩ := h (.id id)
  have hwalk : walk (indexOf entries) e = some path := by
    rw [← hpath, contextPath_id hid hget]
  exact (walk_eq_some_iff.1 hwalk).not_cycle hcycle

-- ======== branchEntries

/-- The loop with the seen ids goes up a chain of distinct ids. -/
theorem branchLoop_chain {current : SessionEntry}
    {l : List SessionEntry} (h : Chain (parentOf byId) current l) :
    ∀ {fuel : Nat} {seen : List String}, (l.map (·.id)).Nodup →
      (∀ e ∈ l, e.id ∉ seen) → l.length ≤ fuel →
      branchLoop byId fuel seen (some current) = some l := by
  induction h with
  | @stop a hn =>
    intro fuel seen _ hseen hle
    rw [List.length_singleton] at hle
    obtain ⟨n, rfl⟩ : ∃ n, fuel = n + 1 := ⟨fuel - 1, by omega⟩
    rw [branchLoop, if_neg (hseen a List.mem_cons_self), hn]
    cases n with
    | zero => rfl
    | succ n => rfl
  | @step a b l hs ht ih =>
    intro fuel seen hnd hseen hle
    rw [List.length_cons] at hle
    rw [List.map_cons, List.nodup_cons] at hnd
    obtain ⟨n, rfl⟩ : ∃ n, fuel = n + 1 := ⟨fuel - 1, by omega⟩
    have hseen' : ∀ e ∈ l, e.id ∉ a.id :: seen := by
      intro e he hmem
      rcases List.mem_cons.1 hmem with heq | hmem
      · exact hnd.1 (heq ▸ List.mem_map_of_mem he)
      · exact hseen e (List.mem_cons_of_mem _ he) hmem
    rw [branchLoop, if_neg (hseen a List.mem_cons_self), hs,
      ih hnd.2 hseen' (by omega), Option.map_some]

theorem indexOf_get_last (h : entries.getLast? = some leaf) :
    (indexOf entries).get leaf.id = some leaf := by
  obtain ⟨rest, rfl⟩ := List.getLast?_eq_some_iff.1 h
  rw [indexOf_append, JsMap.get_set_self]

/-- Without cycles the branch is the path of the context. -/
theorem Acyclic.same (h : Acyclic entries) :
    ∃ path, branchEntries entries = some path
      ∧ contextPath (entries.map FileEntry.entry) .undefined none
        = some path := by
  cases hlast : entries.getLast? with
  | none =>
    rw [List.getLast?_eq_none_iff] at hlast
    subst hlast
    exact ⟨[], rfl, rfl⟩
  | some leaf =>
    obtain ⟨path, hwalk, hnd⟩ := h.walk leaf
    have hchain := walk_eq_some_iff.1 hwalk
    have hids := distinctIds_of_walk (indexOf_keyed entries)
      (indexOf_get_last hlast) hwalk
    have hmem : path ⊆ entries := by
      intro e he
      obtain ⟨t, ht⟩ := hchain.exists_cons
      rcases List.mem_cons.1 (ht ▸ List.mem_reverse.2 he) with rfl | he'
      · exact List.mem_of_getLast? hlast
      · have htail : path.reverse.tail ⊆ entries := by
          refine hchain.tail_subset fun x y hxy => ?_
          obtain ⟨id, -, -, hget⟩ := parentOf_eq_some.1 hxy
          exact mem_of_indexOf hget
        exact htail (by rw [ht]; exact he')
    have hle := (List.subperm_of_subset hnd hmem).length_le
    refine ⟨path, ?_, (contextPath_last hlast).trans hwalk⟩
    rw [branchEntries, hlast, branchLoop_chain hchain, Option.map_some, List.reverse_reverse]
    · rw [List.map_reverse]
      exact List.nodup_reverse.2 hids
    · exact fun _ _ => List.not_mem_nil
    · rw [List.length_reverse]
      omega

end

-- ======== the tree

variable {t : SessionTree}

namespace SessionTree

@[simp] theorem children_pushRoot (t : SessionTree) (id id' : String) :
    (t.pushRoot id).children id' = t.children id' := rfl

theorem children_setChildren (t : SessionTree) (id id' : String)
    (node : SessionTreeNode) (children : List String) :
    (t.setChildren id node children).children id'
      = if id = id' then children else t.children id' := by
  rw [SessionTree.children, setChildren, JsMap.get_set]
  by_cases hid : id = id'
  · rw [if_pos hid, if_pos hid]
    rfl
  · rw [if_neg hid, if_neg hid]
    rfl

theorem children_of_get {id : String}
    {node : SessionTreeNode} (h : t.nodeMap.get id = some node) :
    t.children id = node.children := by
  rw [children, h]
  rfl

/-- Where an entry goes. -/
def hostIn (t : SessionTree) (flatNode : SessionTreeFlatNode) :
    Option String :=
  flatNode.entry.parentId.filter fun parentId =>
    parentId ≠ flatNode.entry.id && t.nodeMap.has parentId

/-- What linking an entry does: its id goes to the end of one place. -/
theorem link_spec (t : SessionTree) (flatNode : SessionTreeFlatNode) :
    (∀ id, (t.link flatNode).nodeMap.has id = t.nodeMap.has id)
      ∧ (t.link flatNode).roots = t.roots
        ++ (if t.hostIn flatNode = none then [flatNode.entry.id] else [])
      ∧ ∀ id, (t.link flatNode).children id = t.children id
        ++ (if t.hostIn flatNode = some id then [flatNode.entry.id]
          else []) := by
  obtain ⟨entry, label, labelTimestamp⟩ := flatNode
  have hroot : ∀ node : SessionTreeFlatNode, t.hostIn node = none →
      (∀ id, (t.pushRoot node.entry.id).nodeMap.has id = t.nodeMap.has id)
        ∧ (t.pushRoot node.entry.id).roots = t.roots
          ++ (if t.hostIn node = none then [node.entry.id] else [])
        ∧ ∀ id, (t.pushRoot node.entry.id).children id = t.children id
          ++ (if t.hostIn node = some id then [node.entry.id] else []) := by
    intro node hnone
    rw [hnone, if_pos rfl]
    refine ⟨fun _ => rfl, rfl, fun id => ?_⟩
    rw [if_neg (Option.some_ne_none id).symm, List.append_nil,
      children_pushRoot]
  unfold link
  dsimp only
  cases hparent : entry.parentId with
  | none =>
    apply hroot ⟨entry, label, labelTimestamp⟩
    rw [hostIn, hparent, Option.filter_none]
  | some parentId =>
    dsimp only
    by_cases hself : parentId = entry.id
    · rw [if_pos hself]
      apply hroot ⟨entry, label, labelTimestamp⟩
      rw [hostIn, hparent, Option.filter_some, if_neg (by simp [hself])]
    · rw [if_neg hself]
      cases hget : t.nodeMap.get parentId with
      | none =>
        apply hroot ⟨entry, label, labelTimestamp⟩
        rw [hostIn, hparent, Option.filter_some,
          if_neg (by simp [JsMap.has, hget])]
      | some parent =>
        have hhost : t.hostIn ⟨entry, label, labelTimestamp⟩
            = some parentId := by
          rw [hostIn, hparent, Option.filter_some,
            if_pos (by simp [JsMap.has, hget, hself])]
        rw [hhost, if_neg (Option.some_ne_none parentId)]
        refine ⟨fun id => ?_, (List.append_nil _).symm, fun id => ?_⟩
        · dsimp only [setChildren]
          rw [JsMap.has, JsMap.get_set, JsMap.has]
          by_cases hid : parentId = id
          · rw [if_pos hid, ← hid, hget]
            rfl
          · rw [if_neg hid]
        · dsimp only
          rw [children_setChildren]
          by_cases hid : parentId = id
          · rw [if_pos hid, if_pos (congrArg some hid), ← hid,
              children_of_get hget]
          · rw [if_neg hid, if_neg fun h => hid (Option.some.inj h),
              List.append_nil]

theorem has_nodesOf (entries : List SessionTreeFlatNode) (id : String) :
    (nodesOf entries).has id = entries.any fun f => f.entry.id = id := by
  induction entries using List.reverseRecOn with
  | nil => rfl
  | append_singleton entries f ih =>
    have hstep : nodesOf (entries ++ [f])
        = (nodesOf entries).set f.entry.id (nodeOf f) :=
      List.foldl_concat ..
    rw [hstep, JsMap.has, JsMap.get_set, List.any_append, ← ih]
    by_cases hid : f.entry.id = id
    · rw [if_pos hid, List.any_cons, decide_eq_true hid]
      exact (Bool.or_true _).symm
    · rw [if_neg hid, List.any_cons, decide_eq_false hid]
      exact (Bool.or_false _).symm

/-- The links put every id in its place. -/
theorem foldl_link (done rest : List SessionTreeFlatNode)
    (hhas : ∀ id, t.nodeMap.has id
      = (done ++ rest).any fun f => f.entry.id = id)
    {entries : List SessionEntry}
    (hentries : (done ++ rest).map (·.entry) = entries) :
    (rest.foldl link t).roots = t.roots
        ++ (rest.map (·.entry)).filterMap (fun e =>
          if (placement entries).host e = none then some e.id else none)
      ∧ ∀ id, (rest.foldl link t).children id = t.children id
        ++ (rest.map (·.entry)).filterMap (fun e =>
          if (placement entries).host e = some id then some e.id else none) := by
  induction rest generalizing done t with
  | nil => exact ⟨(List.append_nil _).symm, fun _ => (List.append_nil _).symm⟩
  | cons f rest ih =>
    have hsplit : done ++ f :: rest = (done ++ [f]) ++ rest := by
      rw [List.append_assoc, List.singleton_append]
    obtain ⟨hkeys, hroots, hchildren⟩ := t.link_spec f
    obtain ⟨hroots', hchildren'⟩ := ih (done ++ [f])
      (fun id => by rw [hkeys, hhas, hsplit]) (hsplit ▸ hentries)
    have hhost : t.hostIn f = (placement entries).host f.entry := by
      rw [hostIn, placement, ← hentries]
      dsimp only
      congr 1
      funext parentId
      rw [hhas, List.any_map]
      rfl
    rw [hhost] at hroots hchildren
    rw [List.foldl_cons, List.map_cons]
    refine ⟨?_, fun id => ?_⟩
    · rw [hroots', hroots, List.append_assoc]
      by_cases hnone : (placement entries).host f.entry = none
      · rw [if_pos hnone, List.filterMap_cons, if_pos hnone]
        rfl
      · rw [if_neg hnone, List.filterMap_cons, if_neg hnone]
        rfl
    · rw [hchildren', hchildren, List.append_assoc]
      by_cases hsome : (placement entries).host f.entry = some id
      · rw [if_pos hsome, List.filterMap_cons, if_pos hsome]
        rfl
      · rw [if_neg hsome, List.filterMap_cons, if_neg hsome]
        rfl

theorem filterMap_host (entries : List SessionEntry) (place : Option String) :
    entries.filterMap (fun e =>
        if (placement entries).host e = place then some e.id else none)
      = (placement entries).under place := by
  rw [Placement.under]
  change _ = (entries.filter _).map SessionEntry.id
  rw [← List.filterMap_eq_map, ← List.filterMap_eq_filter,
    List.filterMap_filterMap]
  refine List.filterMap_congr fun e _ => ?_
  by_cases hplace : (placement entries).host e = place
  · rw [if_pos hplace, Option.guard, decide_eq_true hplace]
    rfl
  · rw [if_neg hplace, Option.guard, decide_eq_false hplace]
    rfl

/-- Nodes have no children before the links are made. -/
theorem children_nodesOf (entries : List SessionTreeFlatNode)
    (roots : List String) (id : String) :
    (SessionTree.mk (nodesOf entries) roots).children id = [] := by
  induction entries using List.reverseRecOn with
  | nil => rfl
  | append_singleton entries f ih =>
    have hstep : nodesOf (entries ++ [f])
        = (nodesOf entries).set f.entry.id (nodeOf f) :=
      List.foldl_concat ..
    rw [children, hstep]
    dsimp only
    rw [JsMap.get_set]
    by_cases hid : f.entry.id = id
    · rw [if_pos hid]
      rfl
    · rw [if_neg hid]
      exact ih

/-- The tree that is built has every id in its place. -/
theorem build_spec (flatNodes : List SessionTreeFlatNode) :
    (build flatNodes).roots
        = (placement (flatNodes.map (·.entry))).under none
      ∧ ∀ id, (build flatNodes).children id
        = (placement (flatNodes.map (·.entry))).under (some id) := by
  have hentries : ([] ++ flatNodes).map SessionTreeFlatNode.entry
      = flatNodes.map (·.entry) := rfl
  obtain ⟨hroots, hchildren⟩ := foldl_link [] flatNodes
    (t := ⟨nodesOf flatNodes, []⟩) (has_nodesOf flatNodes) hentries
  refine ⟨?_, fun id => ?_⟩
  · rw [build, hroots, filterMap_host]
    rfl
  · rw [build, hchildren, filterMap_host, children_nodesOf, List.nil_append]

-- ======== the stack

section
variable {P : Placement SessionEntry String}

/-- The children of every node are what stands under it, in some order. -/
def Places (P : Placement SessionEntry String) (t : SessionTree) : Prop :=
  ∀ id, (t.children id).Perm (P.under (some id))

theorem Places.sortChildren (h : Places P t) (id : String) :
    Places P (t.sortChildren id) := by
  intro id'
  unfold SessionTree.sortChildren
  cases hget : t.nodeMap.get id with
  | none => exact h id'
  | some node =>
    dsimp only
    rw [children_setChildren]
    by_cases hid : id = id'
    · rw [if_pos hid, ← hid]
      refine (List.mergeSort_perm _ _).trans ?_
      rw [← children_of_get hget]
      exact h id
    · rw [if_neg hid]
      exact h id'

/-- What the loop puts on the stack. -/
theorem Places.next (h : Places P t) (id : String) (stack : List String) :
    ((t.children id).reverse ++ stack).Perm (P.under (some id) ++ stack) :=
  ((List.reverse_perm _).trans (h id)).append_right _

/-- The loop is a walk. -/
theorem sortTree_walk {fuel : Nat}
    {visited stack : List String} {result : SessionTree × List String}
    (hplaces : Places P t) (hwalk : P.Walk visited stack)
    (h : sortTree fuel t stack = some result) :
    P.Walk (visited ++ result.2) [] := by
  induction fuel generalizing t visited stack result with
  | zero =>
    cases stack with
    | nil =>
      rw [sortTree] at h
      rw [← Option.some.inj h, List.append_nil]
      exact hwalk
    | cons id stack => cases h
  | succ fuel ih =>
    cases stack with
    | nil =>
      rw [sortTree] at h
      rw [← Option.some.inj h, List.append_nil]
      exact hwalk
    | cons id stack =>
      rw [sortTree] at h
      obtain ⟨rest, hrest, rfl⟩ := Option.map_eq_some_iff.1 h
      have hsorted := hplaces.sortChildren id
      have hrun := ih hsorted (hwalk.pop (hsorted.next id stack)) hrest
      rw [List.append_assoc, List.singleton_append] at hrun
      exact hrun

/-- Where no id is attached twice, the loop ends within as many steps as
there are entries, and visits nothing twice. -/
theorem sortTree_ends (hlone : P.Lone) {fuel : Nat}
    {visited stack : List String} (hplaces : Places P t)
    (hwalk : P.Walk visited stack) (hnd : visited.Nodup)
    (hfuel : P.items.length ≤ fuel + visited.length) :
    ∃ result, sortTree fuel t stack = some result
      ∧ (visited ++ result.2).Nodup := by
  induction fuel generalizing t visited stack with
  | zero =>
    cases stack with
    | nil => exact ⟨(t, []), rfl, by rwa [List.append_nil]⟩
    | cons id stack =>
      have hle := hwalk.length_le hnd
      rw [List.length_cons] at hle
      omega
  | succ fuel ih =>
    cases stack with
    | nil => exact ⟨(t, []), rfl, by rwa [List.append_nil]⟩
    | cons id stack =>
      have hsorted := hplaces.sortChildren id
      have hnd' : (visited ++ [id]).Nodup := by
        refine (hwalk.nodup hlone hnd).sublist ?_
        exact List.Sublist.append_left
          (List.singleton_sublist.2 List.mem_cons_self) _
      obtain ⟨result, hresult, hall⟩ := ih hsorted
        (hwalk.pop (hsorted.next id stack)) hnd'
        (by rw [List.length_append, List.length_singleton]; omega)
      refine ⟨(result.1, id :: result.2), ?_, ?_⟩
      · rw [sortTree, hresult, Option.map_some]
      · rwa [List.append_assoc, List.singleton_append] at hall

end

end SessionTree

-- ======== the result

/-- `getTree` ends without visiting a node twice exactly when no id is
attached twice. -/
theorem getTree_ends_iff (s : SessionManager) :
    (∃ fuel result, s.getTree fuel = some result ∧ result.2.Nodup)
      ↔ (placement s.getEntries).Lone := by
  have hentries : s.getFlatTree.map (·.entry) = s.getEntries := by
    rw [SessionManager.getFlatTree, List.map_map]
    exact List.map_id _
  obtain ⟨hroots, hchildren⟩ := SessionTree.build_spec s.getFlatTree
  rw [hentries] at hroots hchildren
  have hplaces : SessionTree.Places (placement s.getEntries)
      (SessionTree.build s.getFlatTree) := fun id =>
    .of_eq (hchildren id)
  have hstart : (placement s.getEntries).Walk []
      (SessionTree.build s.getFlatTree).roots.reverse :=
    .start ((List.reverse_perm _).trans (.of_eq hroots))
  constructor
  · rintro ⟨fuel, result, hresult, hnd⟩
    exact (SessionTree.sortTree_walk hplaces hstart hresult).lone hnd
  · intro hlone
    obtain ⟨result, hresult, hnd⟩ := SessionTree.sortTree_ends hlone
      hplaces hstart List.nodup_nil (Nat.le_refl _)
    exact ⟨_, result, hresult, hnd⟩

/-- The walks end, visiting nothing twice and agreeing, exactly when no entry
is above itself and no two entries the tree reaches have one id. -/
theorem walksEnd_iff (s : SessionManager) (entries : List SessionEntry) :
    WalksEnd s entries ↔ Acyclic entries ∧ (placement entries).Lone := by
  have hentries : (loaded s entries).getEntries = entries := by
    rw [SessionManager.getEntries, loaded,
      SessionManager.buildIndex_fileEntries]
    exact entriesOf_map_entry entries
  have htree := getTree_ends_iff (loaded s entries)
  rw [hentries] at htree
  constructor
  · intro h
    exact ⟨acyclic_of_context h.context, htree.1 h.tree⟩
  · rintro ⟨hac, hlone⟩
    exact ⟨hac.context, hac.branch s, htree.2 hlone, hac.same⟩

-- ======== a cycle

/-- A label whose parent is the entry of that id. -/
def labelUnder (id parentId : String) : SessionEntry where
  id := id
  parentId := some parentId
  timestamp := "2026-01-01T00:00:00.000Z"
  body := .label id none

/-- Two entries that are each other's parents: the walk does not end. -/
theorem not_walksEnd_cycle :
    ¬WalksEnd (freshManager "/work" "/sessions" true)
      [labelUnder "a" "b", labelUnder "b" "a"] := by
  intro h
  obtain ⟨path, hpath, -⟩ := h.context .undefined
  have hnone : contextPath
      ([labelUnder "a" "b", labelUnder "b" "a"].map FileEntry.entry)
      .undefined none = none := rfl
  rw [hnone] at hpath
  cases hpath

end OneHarness.Session
