/-
The listing of an agent's family and the policy about two of its members
agree, over a catalog of one tree of sessions, but for two siblings that name
their parent in different ways (`agrees_iff`).

In the tree an entry names at most one parent, whichever name it uses
(`BuiltFrom.parent_of_isParent`). So both find the same parent and the same
children; and of two siblings both read the same names, except that the
listing also has the entries of all others to relate them.
-/
import OneHarness.Daemon.AgentFamily
import Mathlib.Data.List.Nodup

namespace OneHarness.Daemon.AgentFamily

-- ======== statement vocabulary

/-- Sessions of one tree. Each has an id and a file of its own. -/
structure SessionTree (σ : Type) where
  id : σ → String
  path : σ → String
  parent : σ → Option σ
  depth : σ → Nat
  id_injective : ∀ s t, id s = id t → s = t
  path_injective : ∀ s t, path s = path t → s = t
  depth_root : ∀ s, parent s = none → depth s = 0
  depth_child : ∀ s p, parent s = some p → depth s = depth p + 1

/-- The entry of a session names its parent by id, by session path, or both. -/
structure BuiltFrom {σ : Type} (tree : SessionTree σ) (s : σ)
    (entry : AgentFamilyCatalogEntry) : Prop where
  id : entry.id = tree.id s
  depth : entry.depth = tree.depth s
  sessionPath : ∀ path, entry.sessionPath = some path → path = tree.path s
  parentSessionId : ∀ id, entry.parentSessionId = some id →
    ∃ p, tree.parent s = some p ∧ id = tree.id p
  parentSessionPath : ∀ path, entry.parentSessionPath = some path →
    ∃ p, tree.parent s = some p ∧ path = tree.path p
  named : tree.parent s ≠ none →
    entry.parentSessionId.isSome = true ∨ entry.parentSessionPath.isSome = true

structure BuiltCatalog {σ : Type} (tree : SessionTree σ)
    (catalog : List AgentFamilyCatalogEntry) : Prop where
  built : ∀ entry ∈ catalog, ∃ s, BuiltFrom tree s entry
  uniqueIds : (catalog.map (·.id)).Nodup

def Agrees (nameLe : String → String → Bool)
    (current target : AgentFamilyCatalogEntry)
    (catalog : List AgentFamilyCatalogEntry) : Prop :=
  ∀ r, ⟨r, target⟩ ∈ selectAgentFamily nameLe current catalog
    ↔ agentFamilyRelationship current target = some r

/-- One names its parent by id only and the other by path only, and an entry
of the catalog has both names together. -/
def NamedApart (left right : AgentFamilyCatalogEntry)
    (catalog : List AgentFamilyCatalogEntry) : Prop :=
  left.parentSessionPath = none ∧ right.parentSessionId = none
    ∧ hasCatalogParentPair catalog left.parentSessionId
      right.parentSessionPath = true

-- ======== names

theorem isAgentFamilyParent_iff {parent child : AgentFamilyCatalogEntry} :
    isAgentFamilyParent parent child = true
      ↔ (∃ path, child.parentSessionPath = some path
          ∧ parent.sessionPath = some path)
        ∨ child.parentSessionId = some parent.id := by
  rw [isAgentFamilyParent, Bool.or_eq_true, Bool.and_eq_true,
    Bool.and_eq_true, decide_eq_true_eq, decide_eq_true_eq]
  refine or_congr ?_ ?_
  · rw [Option.isSome_iff_exists]
    constructor
    · rintro ⟨⟨path, hpath⟩, heq⟩
      exact ⟨path, hpath, heq ▸ hpath⟩
    · rintro ⟨path, hpath, hsession⟩
      exact ⟨⟨path, hpath⟩, hpath.trans hsession.symm⟩
  · refine and_iff_right_of_imp fun h => ?_
    rw [h]
    rfl

variable {catalog : List AgentFamilyCatalogEntry} {path : Option String}

theorem hasCatalogParentPair_iff {id : Option String} :
    hasCatalogParentPair catalog id path = true
      ↔ ∃ i p, id = some i ∧ path = some p ∧ ∃ entry ∈ catalog,
        entry.id = i ∧ entry.sessionPath = some p
          ∨ entry.parentSessionId = some i
            ∧ entry.parentSessionPath = some p := by
  rw [hasCatalogParentPair]
  cases id with
  | none => simp
  | some i =>
    cases path with
    | none => simp
    | some p => simp

/-- The names that two scopes share by themselves. -/
def SharesName (left right : AgentSessionNameScope) : Prop :=
  (∃ path, left.parentSessionPath = some path
      ∧ right.parentSessionPath = some path)
    ∨ ∃ id, left.parentSessionId = some id ∧ right.parentSessionId = some id

/-- Both are roots without a parent. -/
def BothRoots (left right : AgentSessionNameScope) : Prop :=
  left.depth = 0 ∧ right.depth = 0
    ∧ left.parentSessionPath = none ∧ right.parentSessionPath = none
    ∧ left.parentSessionId = none ∧ right.parentSessionId = none

variable {left right : AgentSessionNameScope}

theorem sameAgentFamilyParent_iff :
    sameAgentFamilyParent left right catalog = true
      ↔ SharesName left right
        ∨ (hasCatalogParentPair catalog left.parentSessionId
            right.parentSessionPath = true
          ∨ hasCatalogParentPair catalog right.parentSessionId
            left.parentSessionPath = true)
        ∨ BothRoots left right := by
  have hshared : ∀ a b : Option String,
      (a.isSome && decide (a = b)) = true ↔ ∃ x, a = some x ∧ b = some x := by
    intro a b
    rw [Bool.and_eq_true, decide_eq_true_eq, Option.isSome_iff_exists]
    constructor
    · rintro ⟨⟨x, hx⟩, rfl⟩
      exact ⟨x, hx, hx⟩
    · rintro ⟨x, rfl, rfl⟩
      exact ⟨⟨x, rfl⟩, rfl⟩
  rw [sameAgentFamilyParent, SharesName, BothRoots, ← hshared, ← hshared]
  split_ifs with hpath hid hpair
  · simp [hpath]
  · simp [hid]
  · rw [Bool.or_eq_true] at hpair
    exact iff_of_true rfl (.inr (.inl hpair))
  · rw [Bool.or_eq_true] at hpair
    simp only [Bool.and_eq_true, decide_eq_true_eq, hpair, false_or, and_assoc]
    rw [or_iff_right]
    rintro (h | h)
    · exact hpath (by simpa using h)
    · exact hid (by simpa using h)

-- ======== the tree

variable {entry : AgentFamilyCatalogEntry} {r : AgentFamilyRelationship}
  {two : List AgentFamilyCatalogEntry}

section
variable {σ : Type} {tree : SessionTree σ} {s t : σ}
  {current target : AgentFamilyCatalogEntry}
  {catalog : List AgentFamilyCatalogEntry}

theorem SessionTree.not_own_parent (tree : SessionTree σ) (s : σ) :
    tree.parent s ≠ some s := by
  intro h
  have hdepth := tree.depth_child s s h
  omega

theorem BuiltFrom.parent_of_id (h : BuiltFrom tree s current) {p : σ}
    (hid : current.parentSessionId = some (tree.id p)) :
    tree.parent s = some p := by
  obtain ⟨q, hq, heq⟩ := h.parentSessionId _ hid
  rw [hq, tree.id_injective p q heq]

theorem BuiltFrom.parent_of_path (h : BuiltFrom tree s current) {p : σ}
    (hpath : current.parentSessionPath = some (tree.path p)) :
    tree.parent s = some p := by
  obtain ⟨q, hq, heq⟩ := h.parentSessionPath _ hpath
  rw [hq, tree.path_injective p q heq]

/-- Whichever name is used, it is the name of the parent. -/
theorem BuiltFrom.parent_of_isParent (hcurrent : BuiltFrom tree s current)
    (htarget : BuiltFrom tree t target)
    (h : isAgentFamilyParent target current = true) :
    tree.parent s = some t := by
  rcases isAgentFamilyParent_iff.1 h with ⟨path, hpath, hsession⟩ | hid
  · rw [htarget.sessionPath path hsession] at hpath
    exact hcurrent.parent_of_path hpath
  · rw [htarget.id] at hid
    exact hcurrent.parent_of_id hid

/-- Two entries with one id are the same entry. -/
theorem BuiltCatalog.eq_of_id (h : BuiltCatalog tree catalog)
    (hcurrent : current ∈ catalog) (htarget : target ∈ catalog)
    (hid : current.id = target.id) : current = target :=
  List.inj_on_of_nodup_map h.uniqueIds hcurrent htarget hid

-- ======== the listing

variable {nameLe : String → String → Bool}

theorem mem_sortByName {entries : List AgentFamilyCatalogEntry} :
    entry ∈ sortByName nameLe entries ↔ entry ∈ entries :=
  List.mem_mergeSort

theorem mem_selectAgentFamily (htarget : target ∈ catalog) :
    ⟨r, target⟩ ∈ selectAgentFamily nameLe current catalog
      ↔ (r = .parent ∧ catalog.find? (isAgentFamilyParent · current)
          = some target)
        ∨ (r = .sibling ∧ target.id ≠ current.id
          ∧ target.depth = current.depth
          ∧ sameAgentFamilyParent target.toAgentSessionNameScope
            current.toAgentSessionNameScope catalog = true)
        ∨ (r = .child ∧ target.depth = current.depth + 1
          ∧ isAgentFamilyParent current target = true) := by
  rw [selectAgentFamily]
  simp only [List.mem_append, List.mem_map, Option.mem_toList,
    mem_sortByName, List.mem_filter, AgentFamilyMember.mk.injEq,
    Bool.and_eq_true, decide_eq_true_eq, or_assoc]
  refine or_congr ?_ (or_congr ?_ ?_)
  · constructor
    · rintro ⟨entry, hfind, rfl, rfl⟩
      exact ⟨rfl, hfind⟩
    · rintro ⟨rfl, hfind⟩
      exact ⟨target, hfind, rfl, rfl⟩
  · constructor
    · rintro ⟨entry, ⟨-, ⟨hid, hdepth⟩, hsame⟩, rfl, rfl⟩
      exact ⟨rfl, hid, hdepth, hsame⟩
    · rintro ⟨rfl, hid, hdepth, hsame⟩
      exact ⟨target, ⟨htarget, ⟨hid, hdepth⟩, hsame⟩, rfl, rfl⟩
  · constructor
    · rintro ⟨entry, ⟨-, hdepth, hparent⟩, rfl, rfl⟩
      exact ⟨rfl, hdepth, hparent⟩
    · rintro ⟨rfl, hdepth, hparent⟩
      exact ⟨target, ⟨htarget, hdepth, hparent⟩, rfl, rfl⟩

/-- The parent that is listed is the one there is. -/
theorem find_parent (h : BuiltCatalog tree catalog)
    (hcurrent : current ∈ catalog) (htarget : target ∈ catalog) :
    catalog.find? (isAgentFamilyParent · current) = some target
      ↔ isAgentFamilyParent target current = true := by
  constructor
  · intro hfind
    have hparent := List.find?_some hfind
    exact hparent
  · intro hparent
    obtain ⟨s, hs⟩ := h.built current hcurrent
    obtain ⟨t, ht⟩ := h.built target htarget
    cases hfind : catalog.find? (isAgentFamilyParent · current) with
    | none =>
      exact absurd hparent (List.find?_eq_none.1 hfind target htarget)
    | some entry =>
      have hentry := List.mem_of_find?_eq_some hfind
      have hisParent := List.find?_some hfind
      obtain ⟨u, hu⟩ := h.built entry hentry
      have hsame : u = t := Option.some.inj
        ((hs.parent_of_isParent hu hisParent).symm.trans
          (hs.parent_of_isParent ht hparent))
      rw [h.eq_of_id hentry htarget (by rw [hu.id, ht.id, hsame])]

-- ======== siblings

/-- What an entry says about a name pair is said of one session. -/
theorem BuiltFrom.pair_names {u : σ}
    (h : BuiltFrom tree u entry) {id path : String}
    (hpair : entry.id = id ∧ entry.sessionPath = some path
      ∨ entry.parentSessionId = some id
        ∧ entry.parentSessionPath = some path) :
    ∃ p, id = tree.id p ∧ path = tree.path p := by
  rcases hpair with ⟨hid, hpath⟩ | ⟨hid, hpath⟩
  · exact ⟨u, hid ▸ h.id, h.sessionPath path hpath⟩
  · obtain ⟨p, hp, hpid⟩ := h.parentSessionId id hid
    obtain ⟨q, hq, hqpath⟩ := h.parentSessionPath path hpath
    rw [hp] at hq
    exact ⟨p, hpid, Option.some.inj hq ▸ hqpath⟩

section
variable (h : BuiltCatalog tree catalog) (hcurrent : BuiltFrom tree s current)
include h hcurrent

/-- Siblings that share no name and are related by the catalog are named
apart. -/
theorem BuiltCatalog.namedApart (htarget : BuiltFrom tree t target)
    (hshares : ¬SharesName current.toAgentSessionNameScope
      target.toAgentSessionNameScope)
    (hpair : hasCatalogParentPair catalog current.parentSessionId
      target.parentSessionPath = true) :
    NamedApart current target catalog := by
  obtain ⟨id, path, hid, hpath, entry, hentry, hboth⟩ :=
    hasCatalogParentPair_iff.1 hpair
  obtain ⟨u, hu⟩ := h.built entry hentry
  obtain ⟨p, rfl, rfl⟩ := hu.pair_names hboth
  refine ⟨?_, ?_, hpair⟩
  · by_contra hne
    obtain ⟨path', hpath'⟩ := Option.ne_none_iff_exists'.1 hne
    obtain ⟨q, hq, rfl⟩ := hcurrent.parentSessionPath path' hpath'
    rw [hcurrent.parent_of_id hid] at hq
    obtain rfl := Option.some.inj hq
    exact hshares (.inl ⟨_, hpath', hpath⟩)
  · by_contra hne
    obtain ⟨id', hid'⟩ := Option.ne_none_iff_exists'.1 hne
    obtain ⟨q, hq, rfl⟩ := htarget.parentSessionId id' hid'
    rw [htarget.parent_of_path hpath] at hq
    obtain rfl := Option.some.inj hq
    exact hshares (.inr ⟨_, hid, hid'⟩)

/-- The parent of both, where they are named apart. -/
theorem NamedApart.parent (htarget : BuiltFrom tree t target)
    (hapart : NamedApart current target catalog) :
    ∃ p, tree.parent s = some p ∧ tree.parent t = some p := by
  obtain ⟨id, path, hid, hpath, entry, hentry, hboth⟩ :=
    hasCatalogParentPair_iff.1 hapart.2.2
  obtain ⟨u, hu⟩ := h.built entry hentry
  obtain ⟨p, rfl, rfl⟩ := hu.pair_names hboth
  exact ⟨p, hcurrent.parent_of_id hid, htarget.parent_of_path hpath⟩

omit h hcurrent in
theorem NamedApart.siblings (h : BuiltCatalog tree catalog)
    (hcurrent : current ∈ catalog) (htarget : target ∈ catalog)
    (hapart : NamedApart current target catalog) :
    target.id ≠ current.id ∧ target.depth = current.depth := by
  obtain ⟨s, hs⟩ := h.built current hcurrent
  obtain ⟨t, ht⟩ := h.built target htarget
  obtain ⟨p, hsp, htp⟩ := hapart.parent h hs ht
  refine ⟨fun hid => ?_, ?_⟩
  · obtain rfl := h.eq_of_id htarget hcurrent hid
    obtain ⟨hnone, -, hpair⟩ := hapart
    obtain ⟨-, path, -, hpath, -⟩ := hasCatalogParentPair_iff.1 hpair
    rw [hnone] at hpath
    cases hpath
  · rw [hs.depth, ht.depth, tree.depth_child s p hsp, tree.depth_child t p htp]

/-- The two entries alone do not relate their names. -/
theorem NamedApart.not_policy (htarget : BuiltFrom tree t target)
    (hapart : NamedApart current target catalog)
    (htwo : ∀ entry ∈ two, entry = current ∨ entry = target) :
    ¬SharesName current.toAgentSessionNameScope target.toAgentSessionNameScope
      ∧ hasCatalogParentPair two current.parentSessionId
        target.parentSessionPath ≠ true
      ∧ hasCatalogParentPair two target.parentSessionId
        current.parentSessionPath ≠ true
      ∧ ¬BothRoots current.toAgentSessionNameScope
        target.toAgentSessionNameScope := by
  obtain ⟨p, hs, ht⟩ := hapart.parent h hcurrent htarget
  obtain ⟨hcurrentPath, htargetId, hpair⟩ := hapart
  obtain ⟨id, path, hid, hpath, -⟩ := hasCatalogParentPair_iff.1 hpair
  refine ⟨?_, ?_, ?_, ?_⟩
  · rintro (⟨path', hpath', -⟩ | ⟨id', -, hid'⟩)
    · rw [hcurrentPath] at hpath'
      cases hpath'
    · rw [htargetId] at hid'
      cases hid'
  · intro htwoPair
    obtain ⟨id', path', hid', hpath', entry, hentry, hboth⟩ :=
      hasCatalogParentPair_iff.1 htwoPair
    rcases hboth with ⟨hentryId, -⟩ | ⟨hentryId, hentryPath⟩
    · -- an entry would be its own parent
      rcases htwo entry hentry with rfl | rfl
      · rw [← hentryId, hcurrent.id] at hid'
        exact tree.not_own_parent s (hcurrent.parent_of_id hid')
      · rw [← hentryId, htarget.id] at hid'
        rw [hcurrent.parent_of_id hid'] at hs
        obtain rfl := Option.some.inj hs
        exact tree.not_own_parent t ht
    · rcases htwo entry hentry with rfl | rfl
      · rw [hcurrentPath] at hentryPath
        cases hentryPath
      · rw [htargetId] at hentryId
        cases hentryId
  · rw [htargetId, hcurrentPath]
    exact Bool.false_ne_true
  · rintro ⟨-, -, -, -, hroot, -⟩
    rw [hid] at hroot
    cases hroot

end

-- ======== agreement

/-- What the policy says, in the tree. -/
theorem agentFamilyRelationship_iff (hcurrent : BuiltFrom tree s current)
    (htarget : BuiltFrom tree t target) :
    agentFamilyRelationship current target = some r
      ↔ (r = .parent ∧ isAgentFamilyParent target current = true)
        ∨ (r = .sibling ∧ target.id ≠ current.id
          ∧ target.depth = current.depth
          ∧ sameAgentFamilyParent current.toAgentSessionNameScope
            target.toAgentSessionNameScope [current, target] = true)
        ∨ (r = .child ∧ target.depth = current.depth + 1
          ∧ isAgentFamilyParent current target = true) := by
  have hparentDepth : isAgentFamilyParent target current = true →
      current.depth = target.depth + 1 := fun h => by
    rw [hcurrent.depth, htarget.depth]
    exact tree.depth_child s t (hcurrent.parent_of_isParent htarget h)
  have hchildDepth : isAgentFamilyParent current target = true →
      target.depth = current.depth + 1 := fun h => by
    rw [hcurrent.depth, htarget.depth]
    exact tree.depth_child t s (htarget.parent_of_isParent hcurrent h)
  have hid : current.id = target.id → current.depth = target.depth := by
    intro heq
    rw [hcurrent.id, htarget.id] at heq
    rw [hcurrent.depth, htarget.depth, tree.id_injective s t heq]
  rw [agentFamilyRelationship]
  split_ifs with hsame hparent hchild hsibling
  · refine iff_of_false (fun h => by cases h) ?_
    rintro (⟨-, h⟩ | ⟨-, hne, -⟩ | ⟨-, hdepth, -⟩)
    · have := hparentDepth h
      have := hid hsame
      omega
    · exact hne hsame.symm
    · have := hid hsame
      omega
  · have hdepth := hparentDepth hparent
    constructor
    · intro h
      exact .inl ⟨(Option.some.inj h).symm, hparent⟩
    · rintro (⟨rfl, -⟩ | ⟨-, -, h, -⟩ | ⟨-, h, -⟩)
      · rfl
      · omega
      · omega
  · have hdepth := hchildDepth hchild
    constructor
    · intro h
      exact .inr (.inr ⟨(Option.some.inj h).symm, hdepth, hchild⟩)
    · rintro (⟨-, h⟩ | ⟨-, -, h, -⟩ | ⟨rfl, -⟩)
      · exact absurd h hparent
      · omega
      · rfl
  · rw [Bool.and_eq_true, decide_eq_true_eq] at hsibling
    constructor
    · intro h
      exact .inr (.inl ⟨(Option.some.inj h).symm, fun heq => hsame heq.symm,
        hsibling.1.symm, hsibling.2⟩)
    · rintro (⟨-, h⟩ | ⟨rfl, -⟩ | ⟨-, -, h⟩)
      · exact absurd h hparent
      · rfl
      · exact absurd h hchild
  · refine iff_of_false (fun h => by cases h) ?_
    rintro (⟨-, h⟩ | ⟨-, -, hdepth, h⟩ | ⟨-, -, h⟩)
    · exact hparent h
    · apply hsibling
      rw [Bool.and_eq_true, decide_eq_true_eq]
      exact ⟨hdepth.symm, h⟩
    · exact hchild h

theorem SharesName.symm
    (h : SharesName left right) : SharesName right left := by
  rcases h with ⟨path, hl, hr⟩ | ⟨id, hl, hr⟩
  · exact .inl ⟨path, hr, hl⟩
  · exact .inr ⟨id, hr, hl⟩

theorem BothRoots.symm (h : BothRoots left right) : BothRoots right left := by
  obtain ⟨hl, hr, hlPath, hrPath, hlId, hrId⟩ := h
  exact ⟨hr, hl, hrPath, hlPath, hrId, hlId⟩

/-- What relates two entries relates them in any catalog that has them. -/
theorem hasCatalogParentPair_subset
    (htwo : ∀ entry ∈ two, entry ∈ catalog) {id : Option String}
    (h : hasCatalogParentPair two id path = true) :
    hasCatalogParentPair catalog id path = true := by
  obtain ⟨i, p, hid, hpath, entry, hentry, hboth⟩ :=
    hasCatalogParentPair_iff.1 h
  exact hasCatalogParentPair_iff.2
    ⟨i, p, hid, hpath, entry, htwo entry hentry, hboth⟩

/-- Siblings are siblings for both, if they are not named apart. -/
theorem sameParent_agree_iff (h : BuiltCatalog tree catalog)
    (hcurrent : current ∈ catalog) (htarget : target ∈ catalog) :
    (sameAgentFamilyParent target.toAgentSessionNameScope
        current.toAgentSessionNameScope catalog = true
      ↔ sameAgentFamilyParent current.toAgentSessionNameScope
        target.toAgentSessionNameScope [current, target] = true)
      ↔ ¬(NamedApart current target catalog
        ∨ NamedApart target current catalog) := by
  obtain ⟨s, hs⟩ := h.built current hcurrent
  obtain ⟨t, ht⟩ := h.built target htarget
  have htwo : ∀ entry ∈ [current, target],
      entry = current ∨ entry = target := by
    intro entry hentry
    simpa using hentry
  have hin : ∀ entry ∈ [current, target], entry ∈ catalog := by
    intro entry hentry
    rcases htwo entry hentry with rfl | rfl
    · exact hcurrent
    · exact htarget
  constructor
  · rintro hagree (hapart | hapart)
    · obtain ⟨hshares, hpair, hpair', hroots⟩ := hapart.not_policy h hs ht htwo
      have hlisted := hagree.1 (sameAgentFamilyParent_iff.2
        (.inr (.inl (.inr hapart.2.2))))
      rcases sameAgentFamilyParent_iff.1 hlisted with hyes | (hyes | hyes) | hyes
      · exact hshares hyes
      · exact hpair hyes
      · exact hpair' hyes
      · exact hroots hyes
    · obtain ⟨hshares, hpair, hpair', hroots⟩ := hapart.not_policy h ht hs
        fun entry hentry => (htwo entry hentry).symm
      have hlisted := hagree.1 (sameAgentFamilyParent_iff.2
        (.inr (.inl (.inl hapart.2.2))))
      rcases sameAgentFamilyParent_iff.1 hlisted with hyes | (hyes | hyes) | hyes
      · exact hshares hyes.symm
      · exact hpair' hyes
      · exact hpair hyes
      · exact hroots hyes.symm
  · intro hnot
    constructor
    · intro hlisted
      by_cases hshares : SharesName current.toAgentSessionNameScope
          target.toAgentSessionNameScope
      · exact sameAgentFamilyParent_iff.2 (.inl hshares)
      · rcases sameAgentFamilyParent_iff.1 hlisted with
          hyes | (hyes | hyes) | hyes
        · exact absurd hyes.symm hshares
        · exact absurd (.inr (h.namedApart ht hs
            (fun hyes => hshares hyes.symm) hyes)) hnot
        · exact absurd (.inl (h.namedApart hs ht hshares hyes)) hnot
        · exact sameAgentFamilyParent_iff.2 (.inr (.inr hyes.symm))
    · intro hpolicy
      rcases sameAgentFamilyParent_iff.1 hpolicy with
        hyes | (hyes | hyes) | hyes
      · exact sameAgentFamilyParent_iff.2 (.inl hyes.symm)
      · exact sameAgentFamilyParent_iff.2
          (.inr (.inl (.inr (hasCatalogParentPair_subset hin hyes))))
      · exact sameAgentFamilyParent_iff.2
          (.inr (.inl (.inl (hasCatalogParentPair_subset hin hyes))))
      · exact sameAgentFamilyParent_iff.2 (.inr (.inr hyes.symm))

/-- The family that is listed is the family that is reached, unless the two
are named apart. -/
theorem agrees_iff (h : BuiltCatalog tree catalog)
    (hcurrent : current ∈ catalog) (htarget : target ∈ catalog) :
    Agrees nameLe current target catalog
      ↔ ¬(NamedApart current target catalog
        ∨ NamedApart target current catalog) := by
  obtain ⟨s, hs⟩ := h.built current hcurrent
  obtain ⟨t, ht⟩ := h.built target htarget
  constructor
  · intro hagree hapart
    have hsiblings : target.id ≠ current.id
        ∧ target.depth = current.depth := by
      rcases hapart with hapart | hapart
      · exact hapart.siblings h hcurrent htarget
      · obtain ⟨hid, hdepth⟩ := hapart.siblings h htarget hcurrent
        exact ⟨hid.symm, hdepth.symm⟩
    refine (sameParent_agree_iff h hcurrent htarget).1 ?_ hapart
    have hr := hagree .sibling
    rw [mem_selectAgentFamily htarget, agentFamilyRelationship_iff hs ht] at hr
    simpa [hsiblings.1, hsiblings.2] using hr
  · rw [← sameParent_agree_iff h hcurrent htarget]
    intro hsame r
    rw [mem_selectAgentFamily htarget, agentFamilyRelationship_iff hs ht,
      find_parent h hcurrent htarget, hsame]

end

-- ======== two children of one root

/-- A root, `0`, and its children. -/
def oneRoot : SessionTree (Fin 3) where
  id s := ["root", "left", "right"].get s
  path s := ["/root", "/left", "/right"].get s
  parent s := if s = 0 then none else some 0
  depth s := if s = 0 then 0 else 1
  id_injective := by decide
  path_injective := by decide
  depth_root := by decide
  depth_child := by decide

def root : AgentFamilyCatalogEntry where
  parentSessionId := none
  parentSessionPath := none
  depth := 0
  id := "root"
  name := none
  sessionPath := some "/root"

def child (id : String) (parentSessionId parentSessionPath : Option String) :
    AgentFamilyCatalogEntry where
  parentSessionId := parentSessionId
  parentSessionPath := parentSessionPath
  depth := 1
  id := id
  name := none
  sessionPath := none

theorem builtFrom_root : BuiltFrom oneRoot 0 root := by
  refine ⟨rfl, rfl, fun path h => ?_, fun id h => ?_, fun path h => ?_,
    fun h => ?_⟩
  · exact (Option.some.inj h).symm
  · cases h
  · cases h
  · exact absurd rfl h

variable {parentSessionId parentSessionPath : Option String}

theorem builtFrom_child {s : Fin 3} (hs : s ≠ 0)
    (hid : ∀ id, parentSessionId = some id → id = "root")
    (hpath : ∀ path, parentSessionPath = some path → path = "/root")
    (hnamed : parentSessionId.isSome = true
      ∨ parentSessionPath.isSome = true) :
    BuiltFrom oneRoot s
      (child (oneRoot.id s) parentSessionId parentSessionPath) := by
  have hparent : oneRoot.parent s = some 0 := if_neg hs
  refine ⟨rfl, ?_, fun path h => ?_, fun id h => ?_, fun path h => ?_,
    fun _ => hnamed⟩
  · exact (if_neg hs).symm
  · cases h
  · exact ⟨0, hparent, hid id h⟩
  · exact ⟨0, hparent, hpath path h⟩

/-- Both children name the root by its id, or one of them by its path. -/
def twoChildren (parentSessionId parentSessionPath : Option String) :
    List AgentFamilyCatalogEntry :=
  [root, child "left" (some "root") none,
    child "right" parentSessionId parentSessionPath]

theorem builtCatalog_twoChildren
    (hid : ∀ id, parentSessionId = some id → id = "root")
    (hpath : ∀ path, parentSessionPath = some path → path = "/root")
    (hnamed : parentSessionId.isSome = true
      ∨ parentSessionPath.isSome = true) :
    BuiltCatalog oneRoot (twoChildren parentSessionId parentSessionPath) := by
  refine ⟨?_, ?_⟩
  · intro entry hentry
    simp only [twoChildren, List.mem_cons, List.not_mem_nil, or_false]
      at hentry
    rcases hentry with rfl | rfl | rfl
    · exact ⟨0, builtFrom_root⟩
    · refine ⟨1, builtFrom_child (by decide) (fun id h => ?_)
        (fun path h => ?_) (.inl rfl)⟩
      · exact (Option.some.inj h).symm
      · cases h
    · exact ⟨2, builtFrom_child (by decide) hid hpath hnamed⟩
  · change ["root", "left", "right"].Nodup
    decide

theorem builtCatalog_sameNames :
    BuiltCatalog oneRoot (twoChildren (some "root") none) := by
  refine builtCatalog_twoChildren (fun id h => ?_) (fun path h => ?_) (.inl rfl)
  · exact (Option.some.inj h).symm
  · cases h

theorem agrees_iff_sameNames :
    Agrees (fun _ _ => true) (child "left" (some "root") none)
      (child "right" (some "root") none) (twoChildren (some "root") none) := by
  apply (agrees_iff builtCatalog_sameNames (by decide) (by decide)).2
  rintro (⟨-, h, -⟩ | ⟨-, h, -⟩)
  · cases h
  · cases h

/-- A child that names the root by its id and one that names it by its path
are listed as siblings, and out of reach of each other. -/
theorem not_agrees :
    BuiltCatalog oneRoot (twoChildren none (some "/root"))
      ∧ child "left" (some "root") none ∈ twoChildren none (some "/root")
      ∧ child "right" none (some "/root") ∈ twoChildren none (some "/root")
      ∧ assertAgentFamilyReach (child "left" (some "root") none)
          (child "right" none (some "/root")) = .error agentFamilyReachError
      ∧ ¬Agrees (fun _ _ => true) (child "left" (some "root") none)
          (child "right" none (some "/root"))
          (twoChildren none (some "/root")) := by
  refine ⟨?_, by decide, by decide, rfl, fun hagrees => ?_⟩
  · refine builtCatalog_twoChildren (fun id h => ?_) (fun path h => ?_)
      (.inr rfl)
    · cases h
    · exact (Option.some.inj h).symm
  · have hnone : agentFamilyRelationship (child "left" (some "root") none)
        (child "right" none (some "/root")) = none := by decide
    have hlisted := (hagrees .sibling).1 (by decide +kernel)
    rw [hnone] at hlisted
    cases hlisted

end OneHarness.Daemon.AgentFamily
