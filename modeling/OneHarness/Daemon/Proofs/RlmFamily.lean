/-
What the family shows (`family_view`).

The two maps of the walk are read back as what the edges say: one has a path
exactly if some edge leads to it (`has_byChild`), the other has the depth of
the last such edge (`get_depthByPath`). The depths fall along the parents, so
that no chain of them comes back.
-/
import OneHarness.Daemon.RlmFamily
import OneHarness.Daemon.Proofs.RlmLedger
import Mathlib.Logic.Relation

namespace OneHarness.Daemon.RlmLedger

open Lib EventLog

section
variable {files : SessionFiles} {canonicalSessionsDir : String}
  {alive : List RlmLedgerEdge}

-- ======== the two maps

theorem get_depthByPath (files : SessionFiles) (alive : List RlmLedgerEdge)
    (path : String) :
    JsMap.get (alive.foldl (fun depths edge =>
      JsMap.set depths (edge.childPath files) edge.depth)
      ([] : JsMap String Nat)) path = ledgerDepth files alive path := by
  rw [JsMap.get_foldl_set_last, JsMap.get_nil, Option.or_none]
  rfl

theorem has_byChild (files : SessionFiles) (alive : List RlmLedgerEdge)
    (path : String) :
    JsMap.has (alive.foldl (fun byChild edge =>
      JsMap.set byChild (edge.childPath files) edge)
      ([] : JsMap String RlmLedgerEdge)) path = true
      ↔ ∃ edge ∈ alive, edge.childPath files = path := by
  unfold JsMap.has
  rw [JsMap.get_foldl_set_last (fun edge : RlmLedgerEdge => edge.childPath files)
    (fun edge => edge), JsMap.get_nil, Option.or_none, Option.isSome_map,
    List.getLast?_isSome, ne_eq, List.filter_eq_nil_iff]
  simp only [decide_eq_true_eq, not_forall, not_not, exists_prop]

-- ======== the rows

/-- The edges that have rows. -/
def kept (files : SessionFiles) (alive : List RlmLedgerEdge) :
    List RlmLedgerEdge :=
  alive.filter fun edge => ¬ Contradictory files alive edge

def rootPaths (files : SessionFiles) (canonicalSessionsDir : String)
    (alive : List RlmLedgerEdge) : List String :=
  (rootFiles files canonicalSessionsDir).filter fun path =>
    ¬ ∃ edge ∈ alive, edge.childPath files = path

theorem familyUnlocked_eq (files : SessionFiles) (canonicalSessionsDir : String)
    (alive : List RlmLedgerEdge) :
    familyUnlocked files canonicalSessionsDir alive
      = ((rootPaths files canonicalSessionsDir alive).map fun rootPath =>
          sessionRow files rootPath 0 none none)
        ++ (kept files alive).map fun edge =>
          sessionRow files (edge.childPath files) edge.depth
            (some (edge.parentPath files)) (some edge.name) := by
  unfold familyUnlocked rootPaths kept
  dsimp only
  congr 2
  · apply List.filter_congr
    intro path _
    rw [Bool.eq_iff_iff, Bool.not_eq_true', ← Bool.not_eq_true, has_byChild,
      decide_eq_true_iff]
  · apply List.filter_congr
    intro edge _
    rw [get_depthByPath, Bool.eq_iff_iff]
    cases hdepth : ledgerDepth files alive (edge.parentPath files) with
    | none =>
      refine iff_of_true rfl (decide_eq_true ?_)
      rintro ⟨depth, h, -⟩
      rw [hdepth] at h
      cases h
    | some depth =>
      rw [decide_eq_true_iff, decide_eq_true_iff]
      constructor
      · rintro heq ⟨depth', h, hne⟩
        rw [hdepth] at h
        cases h
        exact hne heq
      · intro hnot
        by_contra hne
        exact hnot ⟨depth, hdepth, hne⟩

theorem mem_family {row : SessionRow} :
    row ∈ familyUnlocked files canonicalSessionsDir alive ↔
      (∃ path ∈ rootPaths files canonicalSessionsDir alive,
          sessionRow files path 0 none none = row)
        ∨ ∃ edge ∈ kept files alive,
          sessionRow files (edge.childPath files) edge.depth
            (some (edge.parentPath files)) (some edge.name) = row := by
  rw [familyUnlocked_eq, List.mem_append, List.mem_map, List.mem_map]

theorem rowsOf_family (path : String) :
    rowsOf (familyUnlocked files canonicalSessionsDir alive) path
      = (rootPaths files canonicalSessionsDir alive).count path
        + (kept files alive).countP fun edge => edge.childPath files = path := by
  unfold rowsOf
  rw [familyUnlocked_eq, List.map_append, List.count_append, List.map_map,
    List.map_map]
  congr 1
  · congr 1
    exact List.map_id'' (fun _ => rfl) _
  · rw [List.count, List.countP_map]
    apply List.countP_congr
    intro edge _
    show ((edge.childPath files) == path) = true ↔ decide _ = true
    rw [beq_iff_eq, decide_eq_true_iff]

/-- A row with a parent is that of an edge. -/
theorem parent_of_mem {row : SessionRow}
    (h : row ∈ familyUnlocked files canonicalSessionsDir alive) {path : String}
    (hparent : row.parentSessionPath = some path) :
    ∃ edge ∈ kept files alive, edge.parentPath files = path
      ∧ row.path = edge.childPath files ∧ row.rlmDepth = edge.depth := by
  rcases mem_family.1 h with ⟨root, -, rfl⟩ | ⟨edge, hedge, rfl⟩
  · cases hparent
  · have hpath : (some (edge.parentPath files)).filter (· ≠ "") = some path :=
      hparent
    rw [Option.filter_eq_some_iff] at hpath
    exact ⟨edge, hedge, Option.some.inj hpath.1, rfl, rfl⟩

theorem depth_family : ∀ row ∈ familyUnlocked files canonicalSessionsDir alive,
    ∀ path, row.parentSessionPath = some path →
      ∀ depth, ledgerDepth files alive path = some depth →
        row.rlmDepth = depth + 1 := by
  intro row hrow path hparent depth hdepth
  obtain ⟨edge, hedge, hpath, -, hrlm⟩ := parent_of_mem hrow hparent
  have hnot := of_decide_eq_true (List.mem_filter.1 hedge).2
  rw [hrlm]
  by_contra hne
  exact hnot ⟨depth, hpath ▸ hdepth, hne⟩

-- ======== no cycles

/-- With one edge to each child, the depth is that of the edge. -/
theorem ledgerDepth_unique (h : (alive.map (·.childPath files)).Nodup)
    {edge : RlmLedgerEdge} (hedge : edge ∈ alive) :
    ledgerDepth files alive (edge.childPath files) = some edge.depth := by
  have honly : ∀ e ∈ alive.filter
      (·.childPath files = edge.childPath files), e = edge := by
    intro e he
    obtain ⟨hmem, heq⟩ := List.mem_filter.1 he
    exact List.inj_on_of_nodup_map h hmem hedge (of_decide_eq_true heq)
  have hmem : edge ∈ alive.filter
      (·.childPath files = edge.childPath files) :=
    List.mem_filter.2 ⟨hedge, decide_eq_true rfl⟩
  unfold ledgerDepth
  cases hlast : (alive.filter
      (·.childPath files = edge.childPath files)).getLast? with
  | none =>
    rw [List.getLast?_eq_none_iff.1 hlast] at hmem
    cases hmem
  | some e =>
    rw [honly e (List.mem_of_getLast? hlast)]
    rfl

/-- Roots first, then by the depth. -/
def rank (row : SessionRow) : Nat :=
  match row.parentSessionPath with
  | none => 0
  | some _ => row.rlmDepth + 1

theorem rank_parent (hunique : (alive.map (·.childPath files)).Nodup)
    {row parent : SessionRow}
    (h : ParentOf (familyUnlocked files canonicalSessionsDir alive) row parent) :
    rank parent < rank row := by
  obtain ⟨hrow, hparent, hpath⟩ := h
  unfold rank
  rw [hpath]
  cases hroot : parent.parentSessionPath with
  | none => exact Nat.succ_pos _
  | some above =>
    obtain ⟨edge, hedge, -, hchild, hdepth⟩ := parent_of_mem hparent hroot
    have hledger := ledgerDepth_unique hunique (List.mem_filter.1 hedge).1
    rw [← hchild] at hledger
    have hdown := depth_family row hrow _ hpath _ hledger
    show parent.rlmDepth + 1 < row.rlmDepth + 1
    omega

theorem acyclic_family (hunique : (alive.map (·.childPath files)).Nodup)
    (row : SessionRow) :
    ¬ Relation.TransGen
      (ParentOf (familyUnlocked files canonicalSessionsDir alive)) row row := by
  have hfall : ∀ a b, Relation.TransGen
      (ParentOf (familyUnlocked files canonicalSessionsDir alive)) a b →
        rank b < rank a := by
    intro a b h
    induction h with
    | single h => exact rank_parent hunique h
    | tail _ h ih => exact (rank_parent hunique h).trans ih
  intro h
  exact Nat.lt_irrefl _ (hfall row row h)

-- ======== the view

theorem view_familyUnlocked (files : SessionFiles) (canonicalSessionsDir : String)
    (alive : List RlmLedgerEdge) :
    FamilyView files canonicalSessionsDir alive
      (familyUnlocked files canonicalSessionsDir alive) := by
  constructor
  · intro path hroot
    have hnone : (kept files alive).countP
        (fun edge => edge.childPath files = path) = 0 := by
      rw [List.countP_eq_zero]
      intro edge hedge
      rw [decide_eq_true_iff]
      exact hroot edge (List.mem_filter.1 hedge).1
    rw [rowsOf_family, hnone, Nat.add_zero]
    unfold rootPaths
    rw [List.count_filter]
    apply decide_eq_true
    rintro ⟨edge, hedge, heq⟩
    exact hroot edge hedge heq
  · rintro path ⟨edge, hedge, heq, -⟩
    have hnone : (rootPaths files canonicalSessionsDir alive).count path = 0 := by
      rw [List.count_eq_zero]
      intro hmem
      exact of_decide_eq_true (List.mem_filter.1 hmem).2 ⟨edge, hedge, heq⟩
    rw [rowsOf_family, hnone, Nat.zero_add]
    unfold kept
    rw [List.countP_filter]
    apply List.countP_congr
    intro e _
    rw [Bool.and_eq_true, decide_eq_true_iff, decide_eq_true_iff,
      decide_eq_true_iff]
  · exact depth_family
  · exact acyclic_family

end

theorem liveEdgesUnlocked_eq (files : SessionFiles) (edges : Edges) :
    liveEdgesUnlocked files
      (edges.values.filter fun edge => edge.deleted.isNone)
        = existingEdges files edges := by
  unfold liveEdgesUnlocked existingEdges
  rw [List.filter_filter]
  apply List.filter_congr
  intro edge _
  rw [Bool.eq_iff_iff, Bool.and_eq_true, Bool.and_eq_true,
    Option.isNone_iff_eq_none, decide_eq_true_iff, and_comm]

/-- What the family of a ledger that can be replayed shows. -/
theorem family_view (files : SessionFiles)
    (canonicalSessionPath : String → String) (file : Option LedgerFile)
    (ledger ledger' : RlmSpawnLedger) (rows : List SessionRow)
    (h : family files canonicalSessionPath file ledger = .ok (rows, ledger')) :
    ∃ edges, replaySyncCached canonicalSessionPath file ledger
        = .ok (edges, ledger')
      ∧ FamilyView files ledger'.canonicalSessionsDir
        (existingEdges files edges) rows := by
  unfold family at h
  cases hreplay : replaySyncCached canonicalSessionPath file ledger with
  | error error =>
    rw [hreplay] at h
    cases h
  | ok r =>
    obtain ⟨edges, next⟩ := r
    rw [hreplay] at h
    cases h
    refine ⟨edges, rfl, ?_⟩
    rw [liveEdgesUnlocked_eq]
    exact view_familyUnlocked files _ _

-- ======== three families

/-- A directory with one session, and every other session elsewhere. -/
def oneRoot : SessionFiles where
  canonicalSessionPath path := path
  isFile _ := true
  rootEntries := some ["root.jsonl"]
  sessionName _ := none

def spawned (childId parent : String) (depth : Nat) : RlmLedgerRecord :=
  .spawn { at_ := "2026-01-01T00:00:00.000Z", childId := childId
           parent := parent, child := "/agents/" ++ childId ++ ".jsonl"
           depth := depth, name := childId }

def worker : RlmLedgerRecord := spawned "worker" "/sessions/root.jsonl" 1

/-- A worker of the root, and one of the worker at a depth. -/
def nestedAt (depth : Nat) : List RlmLedgerRecord :=
  [created, worker, spawned "nested" "/agents/worker.jsonl" depth]

def fileOf (rs : List RlmLedgerRecord) : LedgerFile where
  bytes := payload (rs.map RlmLedgerRecord.toJson)
  mtimeMs := 0
  ino := 0

theorem family_fileOf {rs : List RlmLedgerRecord}
    (hbytes : (payload (rs.map RlmLedgerRecord.toJson)).length
      ≤ RLM_LEDGER_MAX_BYTES)
    (hrecords : rs.length ≤ RLM_LEDGER_MAX_RECORDS) (hvalid : ∀ r ∈ rs, r.Valid)
    (files : SessionFiles) :
    ∃ ledger', family files id (some (fileOf rs)) (unseeded.ledgers 0)
      = .ok (familyUnlocked files "/sessions"
          (existingEdges files (rs.foldl (replayRecord id) [])), ledger') := by
  have hholds : Holds (some (fileOf rs)) rs := rfl
  have hreplay := replaySync_holds hholds hbytes hrecords hvalid id
  unfold family replaySyncCached
  rw [hreplay, ← liveEdgesUnlocked_eq]
  exact ⟨_, rfl⟩

theorem nestedAt_valid {depth : Nat} (h : SafeDepth depth) :
    ∀ r ∈ nestedAt depth, r.Valid := by
  intro r hr
  rcases List.mem_cons.1 hr with rfl | hr
  · trivial
  · rcases List.mem_cons.1 hr with rfl | hr
    · exact (by decide : SafeDepth 1)
    · rw [List.mem_singleton.1 hr]
      exact h

theorem family_nested : ∃ rows ledger' edges,
    family oneRoot id (some (fileOf (nestedAt 2))) (unseeded.ledgers 0)
        = .ok (rows, ledger')
      ∧ FamilyView oneRoot ledger'.canonicalSessionsDir
        (existingEdges oneRoot edges) rows
      ∧ rows.map (·.rlmDepth) = [0, 1, 2] := by
  obtain ⟨ledger', h⟩ := @family_fileOf (nestedAt 2) (by decide +kernel)
    (by decide +kernel) (nestedAt_valid (by decide)) oneRoot
  obtain ⟨edges, -, hview⟩ := family_view _ _ _ _ _ _ h
  exact ⟨_, ledger', edges, h, hview, by decide +kernel⟩

/-- A worker at two depths, under a root and under one of its own. -/
def twice : List RlmLedgerRecord :=
  [spawned "loop" "/agents/back.jsonl" 5, spawned "back" "/agents/loop.jsonl" 4,
    .spawn { at_ := "2026-01-01T00:00:00.000Z", childId := "again"
             parent := "/sessions/root.jsonl", child := "/agents/loop.jsonl"
             depth := 3, name := "again" }]

theorem twice_valid : ∀ r ∈ twice, r.Valid := by
  intro r hr
  rcases List.mem_cons.1 hr with rfl | hr
  · exact (by decide : SafeDepth 5)
  · rcases List.mem_cons.1 hr with rfl | hr
    · exact (by decide : SafeDepth 4)
    · rw [List.mem_singleton.1 hr]
      exact (by decide : SafeDepth 3)

/-- A worker of a contradictory depth has no row, though it and its parent
exist; and one that two edges lead to has two, in a cycle of parents. -/
theorem family_not_once :
    (∃ rows ledger', family oneRoot id (some (fileOf (nestedAt 3)))
        (unseeded.ledgers 0) = .ok (rows, ledger')
      ∧ rowsOf rows "/agents/nested.jsonl" = 0)
    ∧ ∃ rows ledger', family oneRoot id (some (fileOf twice))
        (unseeded.ledgers 0) = .ok (rows, ledger')
      ∧ rowsOf rows "/agents/loop.jsonl" = 2
      ∧ ∃ row, Relation.TransGen (ParentOf rows) row row := by
  constructor
  · obtain ⟨ledger', h⟩ := @family_fileOf (nestedAt 3) (by decide +kernel)
      (by decide +kernel) (nestedAt_valid (by decide)) oneRoot
    exact ⟨_, ledger', h, by decide +kernel⟩
  · obtain ⟨ledger', h⟩ := @family_fileOf twice (by decide +kernel)
      (by decide +kernel) twice_valid oneRoot
    refine ⟨_, ledger', h, by decide +kernel, ?_⟩
    have hdown : ParentOf (familyUnlocked oneRoot "/sessions" (existingEdges
        oneRoot (twice.foldl (replayRecord id) [])))
        ⟨"/agents/loop.jsonl", 5, some "/agents/back.jsonl", some "loop"⟩
        ⟨"/agents/back.jsonl", 4, some "/agents/loop.jsonl", some "back"⟩ := by
      refine ⟨?_, ?_, rfl⟩ <;> decide +kernel
    have hback : ParentOf (familyUnlocked oneRoot "/sessions" (existingEdges
        oneRoot (twice.foldl (replayRecord id) [])))
        ⟨"/agents/back.jsonl", 4, some "/agents/loop.jsonl", some "back"⟩
        ⟨"/agents/loop.jsonl", 5, some "/agents/back.jsonl", some "loop"⟩ := by
      refine ⟨?_, ?_, rfl⟩ <;> decide +kernel
    exact ⟨_, .tail (.single hdown) hback⟩

end OneHarness.Daemon.RlmLedger
