/-
What a branch summary sees of the branch that is left.

# The entries

Two paths to the root are the same from the entry on at which they meet, so
the walk up from the old leaf, which stops at the first entry of the target's
path that is on its own, passes just the entries that are not on the target's
path (`collected`).

# The messages and the files

The second pass takes the messages from the newest on and stops at the first
that does not fit. It is also the one that reads the tool calls, so of those
it knows what it comes to: an entry is reached when all that is newer fits
(`fill_edited`). The details of earlier summaries are read before, and so are
there whatever the budget.
-/
import OneHarness.Session.BranchSummary
import OneHarness.Session.Proofs.Ops
import OneHarness.Session.Proofs.Walks
import Mathlib.Tactic.Linarith

namespace OneHarness.Session.BranchSummary

open Lib

-- ======== statement vocabulary

/-- The path to an entry, if there is one to go to. -/
def pathTo (session : SessionManager) (id : Option String) :
    Option (List SessionEntry) :=
  if id.getD "" = "" then some [] else session.getBranch id

/-- The entries are what is left of the old path below the deepest entry that
is on the target's path too. -/
structure BelowAncestor (oldPath targetPath entries : List SessionEntry)
    (ancestor : Option String) : Prop where
  split : ∃ shared, oldPath = shared ++ entries
    ∧ (∀ e ∈ shared, e ∈ targetPath) ∧ ancestor = shared.getLast?.map (·.id)
  apart : ∀ e ∈ entries, e ∉ targetPath

/-- The entries of the branch that is left are collected. -/
def Collected (session : SessionManager) (oldLeafId : Option String)
    (targetId : String) : Prop :=
  ∃ r oldPath targetPath,
    collectEntriesForBranchSummary session oldLeafId targetId = some r
      ∧ pathTo session oldLeafId = some oldPath
      ∧ session.getBranch (some targetId) = some targetPath
      ∧ BelowAncestor oldPath targetPath r.entries r.commonAncestorId

/-- The messages of entries. -/
def messagesOf (entries : List SessionEntry) : List AgentMessage :=
  entries.filterMap getMessageFromEntry

def tokensOf (messages : List AgentMessage) : Nat :=
  (messages.map estimateTokens).sum

/-- The messages are a suffix of all, and within the budget but for a summary
at the cut. -/
structure Filled (entries : List SessionEntry) (tokenBudget : ℚ)
    (p : BranchPreparation) : Prop where
  suffix : p.messages <:+ messagesOf entries
  total : p.totalTokens = tokensOf p.messages
  all : tokenBudget ≤ 0 → p.messages = messagesOf entries
  within : 0 < tokenBudget → (p.totalTokens : ℚ) ≤ tokenBudget
    ∨ ∃ entry ∈ entries, ∃ summary rest,
      (entry.isCompaction || isBranchSummary entry) = true
        ∧ getMessageFromEntry entry = some summary
        ∧ p.messages = summary :: rest ∧ (tokensOf rest : ℚ) ≤ tokenBudget

/-- The file operations of all the entries. -/
def allFileOps (entries : List SessionEntry) : FileOperations :=
  (messagesOf entries).foldl extractFileOpsFromMessage
    (entries.foldl addDetails createFileOps)

/-- They have the same files. -/
def SameFiles (ops ops' : FileOperations) : Prop :=
  ∀ file, (file ∈ ops.read ↔ file ∈ ops'.read)
    ∧ (file ∈ ops.edited ↔ file ∈ ops'.edited)

/-- The whole of it. -/
structure Seen (session : SessionManager) (oldLeafId : Option String)
    (targetId : String) (entries : List SessionEntry) (tokenBudget : ℚ) :
    Prop where
  collected : Collected session oldLeafId targetId
  filled : Filled entries tokenBudget (prepareBranchEntries entries tokenBudget)
  files : SameFiles (prepareBranchEntries entries tokenBudget).fileOps
    (allFileOps entries)

/-- The files that tool calls of the entry's message edit. -/
def edits (entry : SessionEntry) : List String :=
  ((getMessageFromEntry entry).map fun message =>
    (extractFileOpsFromMessage createFileOps message).edited).getD []

/-- The newer entries fit, or there is no limit. -/
def Fit (tokenBudget : ℚ) (newer : List SessionEntry) : Prop :=
  0 < tokenBudget → (tokensOf (messagesOf newer) : ℚ) ≤ tokenBudget

/-- A file that is edited where the newer entries do not fit is edited where
they do as well, or is among the details of a generated summary. -/
def KnownElsewhere (entries : List SessionEntry) (tokenBudget : ℚ) : Prop :=
  ∀ older entry newer, entries = older ++ entry :: newer →
    ¬Fit tokenBudget newer → ∀ file ∈ edits entry,
    file ∈ (entries.foldl addDetails createFileOps).edited
      ∨ ∃ older' entry' newer', entries = older' ++ entry' :: newer'
        ∧ Fit tokenBudget newer' ∧ file ∈ edits entry'

-- ======== the entries

variable {byId : Index} {leaf : SessionEntry} {path : List SessionEntry}

/-- An entry that the index has under its own id. -/
def Filed (byId : Index) (e : SessionEntry) : Prop :=
  e.id ≠ "" ∧ byId.get e.id = some e

theorem collectLoop_root (h : parentOf byId leaf = none)
    (ancestor : Option String) (fuel : Nat) :
    collectLoop byId ancestor fuel leaf.parentId = some [] := by
  unfold parentOf at h
  unfold collectLoop
  cases hp : leaf.parentId with
  | none => rfl
  | some id =>
    rw [hp] at h
    by_cases hid : id = ""
    · simp [hid]
    · have hget : byId.get id = none := by simpa [hid] using h
      simp [hget]

/-- The loop takes what is on the chain before the ancestor. -/
theorem collectLoop_chain (hk : byId.Keyed)
    (h : Chain (parentOf byId) leaf path) (hleaf : Filed byId leaf)
    (ancestor : Option String) {fuel : Nat} (hfuel : path.length ≤ fuel) :
    collectLoop byId ancestor fuel (some leaf.id)
      = some (path.takeWhile fun e => some e.id ≠ ancestor) := by
  induction h generalizing fuel with
  | @stop a hn =>
    obtain ⟨n, rfl⟩ : ∃ n, fuel = n + 1 := ⟨fuel - 1, by simp at hfuel; omega⟩
    by_cases hstop : some a.id = ancestor
    · unfold collectLoop
      simp [← hstop]
    · simp [collectLoop, hstop, hleaf.1, hleaf.2, collectLoop_root hn]
  | @step a b l hs ht ih =>
    obtain ⟨n, rfl⟩ : ∃ n, fuel = n + 1 := ⟨fuel - 1, by simp at hfuel; omega⟩
    obtain ⟨hparent, hne⟩ := parentOf_id hk hs
    obtain ⟨id, hid, -, hget⟩ := parentOf_eq_some.1 hs
    have hbid : b.id = id := hk.key_of_get hget
    have hrest := ih ⟨hne, hbid ▸ hget⟩ (Nat.le_of_succ_le_succ hfuel)
    by_cases hstop : some a.id = ancestor
    · unfold collectLoop
      simp [← hstop]
    · simp [collectLoop, hstop, hleaf.1, hleaf.2, hparent, hrest]

/-- The entries of a walk up are filed. -/
theorem filed_of_chain (hk : byId.Keyed)
    (h : Chain (parentOf byId) leaf path) (hleaf : Filed byId leaf) :
    ∀ e ∈ path, Filed byId e := by
  induction h with
  | stop hn => simpa using hleaf
  | step hs ht ih =>
    obtain ⟨-, hne⟩ := parentOf_id hk hs
    obtain ⟨id, -, -, hget⟩ := parentOf_eq_some.1 hs
    have hid := hk.key_of_get hget
    exact List.forall_mem_cons.2 ⟨hleaf, ih ⟨hne, hid ▸ hget⟩⟩

theorem Filed.eq {e e' : SessionEntry} (h : Filed byId e) (h' : Filed byId e')
    (hid : e.id = e'.id) : e = e' := by
  have hget := h.2
  rw [hid, h'.2] at hget
  exact (Option.some.inj hget).symm

/-- What the two walks up come to, from the leaves up. -/
theorem belowAncestor_of_chains {oldPath targetPath : List SessionEntry}
    (hold : ∀ e ∈ oldPath, Filed byId e)
    (htarget : ∀ e ∈ targetPath, Filed byId e)
    (hmeet : (∀ e ∈ targetPath, e ∉ oldPath)
      ∨ ∃ before before' c rest, oldPath = before ++ c :: rest
        ∧ targetPath = before' ++ c :: rest ∧ (∀ e ∈ before, e ∉ targetPath)
        ∧ ∀ e ∈ before', e ∉ oldPath) :
    let ancestor := (targetPath.find? fun e =>
      decide (e.id ∈ oldPath.reverse.map (·.id))).map (·.id)
    BelowAncestor oldPath.reverse targetPath.reverse
      (oldPath.takeWhile fun e => some e.id ≠ ancestor).reverse ancestor := by
  have hmem : ∀ e, Filed byId e →
      (e.id ∈ oldPath.reverse.map (·.id) ↔ e ∈ oldPath) := by
    intro e he
    rw [List.mem_map]
    constructor
    · intro hex
      obtain ⟨x, hx, hid⟩ := hex
      rw [List.mem_reverse] at hx
      rwa [← (hold x hx).eq he hid]
    · exact fun hx => ⟨e, List.mem_reverse.2 hx, rfl⟩
  intro ancestor
  rcases hmeet with hnone | ⟨before, before', c, rest, heq, heq', hl, hl'⟩
  · have hancestor : ancestor = none := by
      simp only [ancestor, Option.map_eq_none_iff, List.find?_eq_none,
        decide_eq_true_eq]
      exact fun e he hid => hnone e he ((hmem e (htarget e he)).1 hid)
    have hall : (oldPath.takeWhile fun e => some e.id ≠ ancestor) = oldPath := by
      rw [hancestor]
      simp
    rw [hall, hancestor]
    refine ⟨⟨[], by simp, by simp, rfl⟩, ?_⟩
    intro e he hmem'
    exact hnone e (List.mem_reverse.1 hmem') (List.mem_reverse.1 he)
  · have hc : Filed byId c := hold c (by simp [heq])
    have hancestor : ancestor = some c.id := by
      have hfind : targetPath.find? (fun e =>
          decide (e.id ∈ oldPath.reverse.map (·.id))) = some c := by
        rw [heq', List.find?_append]
        have hnone : before'.find? (fun e =>
            decide (e.id ∈ oldPath.reverse.map (·.id))) = none := by
          simp only [List.find?_eq_none, decide_eq_true_eq]
          intro e he
          rw [hmem e (htarget e (by simp [heq', he]))]
          exact hl' e he
        rw [hnone, Option.none_or, List.find?_cons_of_pos]
        rw [decide_eq_true_eq, hmem c hc, heq]
        simp
      exact congrArg (Option.map (·.id)) hfind
    have htake : (oldPath.takeWhile fun e => some e.id ≠ ancestor) = before := by
      rw [hancestor, heq, List.takeWhile_append_of_pos, List.takeWhile_cons_of_neg]
      · simp
      · simp
      · intro e he
        have hne : e ≠ c := by
          intro hec
          exact hl e he (by simp [heq', hec])
        have hid : e.id ≠ c.id := fun hid =>
          hne ((hold e (by simp [heq, he])).eq hc hid)
        simpa using hid
    rw [htake, hancestor]
    refine ⟨⟨(c :: rest).reverse, by simp [heq], ?_, by simp⟩, ?_⟩
    · intro e he
      simp only [heq', List.mem_reverse, List.mem_append] at he ⊢
      exact .inr he
    · intro e he hmem'
      exact hl e (List.mem_reverse.1 he) (List.mem_reverse.1 hmem')

variable {all : List SessionEntry}

/-- The branch of an id in a tree, from the leaf up; without an entry there is
none. -/
theorem getBranch_chain (h : Acyclic all)
    (s : SessionManager) {id : String} (hid : id ≠ "") :
    ∃ path, (loaded s all).getBranch (some id) = some path.reverse
      ∧ (∀ e ∈ path, Filed (indexOf all) e)
      ∧ (((indexOf all).get id = none ∧ path = [])
        ∨ ∃ leaf, leaf.id = id ∧ Filed (indexOf all) leaf
          ∧ Chain (parentOf (indexOf all)) leaf path) := by
  have hbyId : (loaded s all).byId = indexOf all := by
    rw [loaded, SessionManager.buildIndex_byId]
    exact congrArg indexOf (entriesOf_map_entry all)
  have hk := indexOf_keyed all
  unfold SessionManager.getBranch
  rw [hbyId, Option.some_or]
  simp only [if_neg hid]
  cases hget : (indexOf all).get id with
  | none => exact ⟨[], rfl, by simp, .inl ⟨rfl, rfl⟩⟩
  | some leaf =>
    obtain ⟨path, hwalk, -⟩ := h.walk leaf
    have hleafId := hk.key_of_get hget
    have hleaf : Filed (indexOf all) leaf := ⟨hleafId ▸ hid, hleafId ▸ hget⟩
    have hchain := walk_eq_some_iff.1 hwalk
    refine ⟨path.reverse, ?_, filed_of_chain hk hchain hleaf, .inr
      ⟨leaf, hleafId, hleaf, hchain⟩⟩
    rw [List.reverse_reverse]
    exact hwalk

/-- In a tree the entries below the deepest common ancestor are collected. -/
theorem collected (h : Acyclic all)
    (s : SessionManager) (oldLeafId : Option String) (targetId : String) :
    Collected (loaded s all) oldLeafId targetId := by
  have hbyId : (loaded s all).byId = indexOf all := by
    rw [loaded, SessionManager.buildIndex_byId]
    exact congrArg indexOf (entriesOf_map_entry all)
  have hk := indexOf_keyed all
  -- a target without an id has an empty path
  obtain ⟨target, htarget, htargetFiled, htargetChain⟩ : ∃ path,
      (loaded s all).getBranch (some targetId) = some path.reverse
        ∧ (∀ e ∈ path, Filed (indexOf all) e)
        ∧ (path = [] ∨ ∃ leaf, Chain (parentOf (indexOf all)) leaf path) := by
    by_cases hid : targetId = ""
    · exact ⟨[], by simp [SessionManager.getBranch, hid], by simp, .inl rfl⟩
    · obtain ⟨path, hbranch, hfiled, hpath⟩ := getBranch_chain h s hid
      refine ⟨path, hbranch, hfiled, ?_⟩
      rcases hpath with ⟨-, hnil⟩ | ⟨leaf, -, -, hchain⟩
      · exact .inl hnil
      · exact .inr ⟨leaf, hchain⟩
  by_cases hold : oldLeafId.getD "" = ""
  · refine ⟨_, [], target.reverse, if_pos hold, if_pos hold, htarget, ?_⟩
    exact ⟨⟨[], rfl, by simp, rfl⟩, by simp⟩
  · obtain ⟨id, rfl⟩ : ∃ id, oldLeafId = some id := by
      cases oldLeafId with
      | none => simp at hold
      | some id => exact ⟨id, rfl⟩
    have hid : id ≠ "" := hold
    obtain ⟨path, hbranch, hfiled, hpath⟩ := getBranch_chain h s hid
    have hmeet : (∀ e ∈ target, e ∉ path)
        ∨ ∃ before before' c rest, path = before ++ c :: rest
          ∧ target = before' ++ c :: rest ∧ (∀ e ∈ before, e ∉ target)
          ∧ ∀ e ∈ before', e ∉ path := by
      rcases hpath with ⟨-, hnil⟩ | ⟨leaf, -, -, hchain⟩
      · exact .inl (by simp [hnil])
      · rcases htargetChain with hnil | ⟨leaf', hchain'⟩
        · exact .inl (by simp [hnil])
        · exact hchain.meet hchain'
    have hbelow := belowAncestor_of_chains hfiled htargetFiled hmeet
    generalize hancestor : (target.find? fun e =>
      decide (e.id ∈ path.reverse.map (·.id))).map (·.id) = ancestor at hbelow
    have hloop : collectLoop (indexOf all) ancestor ((indexOf all).length + 1)
        (some id) = some (path.takeWhile fun e => some e.id ≠ ancestor) := by
      rcases hpath with ⟨hget, hnil⟩ | ⟨leaf, hleafId, hleaf, hchain⟩
      · unfold collectLoop
        simp [hget, hnil]
      · rw [← hleafId]
        apply collectLoop_chain hk hchain hleaf
        have hle := hchain.length_le fun x y => mem_values_of_parent
        rwa [JsMap.values, List.length_map] at hle
    refine ⟨⟨(path.takeWhile fun e => some e.id ≠ ancestor).reverse, ancestor⟩,
      _, _, ?_, ?_, htarget, hbelow⟩
    · unfold collectEntriesForBranchSummary
      rw [if_neg hold, hbranch, htarget, hbyId]
      simp only [List.reverse_reverse, Option.bind_eq_bind, Option.bind_some,
        hancestor, hloop]
      rfl
    · rw [pathTo, if_neg hold, hbranch]

-- ======== the messages

variable (entries : List SessionEntry) (tokenBudget : ℚ)

theorem messagesOf_append (entries' : List SessionEntry) :
    messagesOf (entries ++ entries')
      = messagesOf entries ++ messagesOf entries' := List.filterMap_append

variable {entry : SessionEntry}

theorem messagesOf_none
    (h : getMessageFromEntry entry = none) (entries : List SessionEntry) :
    messagesOf (entry :: entries) = messagesOf entries := by
  simp [messagesOf, h]

theorem messagesOf_some {message : AgentMessage}
    (h : getMessageFromEntry entry = some message)
    (entries : List SessionEntry) :
    messagesOf (entry :: entries) = message :: messagesOf entries := by
  simp [messagesOf, h]

theorem tokensOf_cons (message : AgentMessage) (messages : List AgentMessage) :
    tokensOf (message :: messages)
      = estimateTokens message + tokensOf messages := by
  simp [tokensOf]

/-- What the pass comes to from the newer entries on, which fit. -/
theorem fill_filled (l newer : List SessionEntry)
    {p : BranchPreparation} (hmessages : p.messages = messagesOf newer)
    (htotal : p.totalTokens = tokensOf p.messages)
    (hfit : Fit tokenBudget newer) :
    Filled (l.reverse ++ newer) tokenBudget (fill tokenBudget l p) := by
  induction l generalizing p newer with
  | nil =>
    refine ⟨hmessages ▸ List.suffix_rfl, htotal, fun _ => hmessages, ?_⟩
    intro hpos
    left
    rw [fill, htotal, hmessages]
    exact hfit hpos
  | cons entry older ih =>
    rw [List.reverse_cons, List.append_assoc, List.singleton_append]
    unfold fill
    cases hm : getMessageFromEntry entry with
    | none =>
      apply ih
      · rw [hmessages, messagesOf_none hm]
      · exact htotal
      · unfold Fit
        rwa [messagesOf_none hm]
    | some message =>
      have hall : messagesOf (older.reverse ++ entry :: newer)
          = messagesOf older.reverse ++ message :: p.messages := by
        rw [messagesOf_append, messagesOf_some hm, hmessages]
      have hadded : p.totalTokens + estimateTokens message
          = tokensOf (message :: p.messages) := by
        rw [tokensOf_cons, htotal, Nat.add_comm]
      have hle : 0 < tokenBudget → (tokensOf p.messages : ℚ) ≤ tokenBudget :=
        fun hpos => hmessages ▸ hfit hpos
      dsimp only
      split
      · next hfull =>
          split
          · next hcut =>
              refine ⟨?_, hadded, fun hno => absurd hfull.1 (not_lt.2 hno),
                fun hpos => ?_⟩
              · rw [hall]
                exact List.suffix_append _ _
              · exact .inr ⟨entry, by simp, message, p.messages, hcut.1, hm,
                  rfl, hle hpos⟩
          · refine ⟨?_, htotal, fun hno => absurd hfull.1 (not_lt.2 hno),
              fun hpos => ?_⟩
            · rw [hall]
              exact (List.suffix_cons _ _).trans (List.suffix_append _ _)
            · left
              show (p.totalTokens : ℚ) ≤ tokenBudget
              rw [htotal]
              exact hle hpos
      · next hroom =>
          apply ih
          · rw [messagesOf_some hm, hmessages]
          · exact hadded
          · intro hpos
            rw [messagesOf_some hm, ← hmessages, ← hadded]
            push_cast
            exact not_lt.1 fun hlt => hroom ⟨hpos, hlt⟩

theorem filled :
    Filled entries tokenBudget (prepareBranchEntries entries tokenBudget) := by
  have h := fill_filled tokenBudget entries.reverse []
    (p := ⟨[], entries.foldl addDetails createFileOps, 0⟩) rfl rfl
    (fun hpos => by simpa [messagesOf, tokensOf] using hpos.le)
  rwa [List.reverse_reverse, List.append_nil] at h

-- ======== the files

/-- It edits the same files, whatever was edited before. -/
def Adds (f : FileOperations → FileOperations) : Prop :=
  ∀ ops, (f ops).read = ops.read ∧ ∀ file, file ∈ (f ops).edited
    ↔ file ∈ ops.edited ∨ file ∈ (f createFileOps).edited

theorem adds_id : Adds fun ops => ops := by
  simp [Adds, createFileOps]

theorem Adds.comp {f g : FileOperations → FileOperations} (hf : Adds f)
    (hg : Adds g) : Adds fun ops => g (f ops) := by
  intro ops
  refine ⟨(hg _).1.trans (hf ops).1, fun file => ?_⟩
  rw [(hg (f ops)).2, (hf ops).2, (hg (f createFileOps)).2, or_assoc]

theorem adds_foldl {β : Type} {g : FileOperations → β → FileOperations}
    (hg : ∀ b, Adds fun ops => g ops b) (l : List β) :
    Adds fun ops => l.foldl g ops := by
  induction l with
  | nil => exact adds_id
  | cons b l ih => exact (hg b).comp ih

theorem adds_edit (path : Option Json) : Adds fun ops => ops.edit path := by
  intro ops
  unfold FileOperations.edit createFileOps addOnce
  grind

theorem adds_extract (message : AgentMessage) :
    Adds fun ops => extractFileOpsFromMessage ops message := by
  unfold extractFileOpsFromMessage
  cases message with
  | toolResult m =>
    dsimp only
    by_cases hname : m.toolName = "ipython"
    · simp only [hname, if_true]
      split
      · exact adds_foldl (fun diff => adds_edit _) _
      · exact adds_id
    · simp only [hname, if_false]
      exact adds_id
  | assistant m =>
    apply adds_foldl
    intro block
    split
    · exact adds_edit _
    · exact adds_id
  | _ => exact adds_id

theorem adds_message (l : List AgentMessage) :
    Adds fun ops => l.foldl extractFileOpsFromMessage ops :=
  adds_foldl adds_extract l

theorem mem_edits {message : AgentMessage}
    (h : getMessageFromEntry entry = some message) {file : String} :
    file ∈ edits entry
      ↔ file ∈ (extractFileOpsFromMessage createFileOps message).edited := by
  simp [edits, h]

theorem edits_none
    (h : getMessageFromEntry entry = none) : edits entry = [] := by
  simp [edits, h]

/-- All the entries: the files of the details, and of each entry. -/
theorem allFileOps_files :
    (allFileOps entries).read = (entries.foldl addDetails createFileOps).read
      ∧ ∀ file, file ∈ (allFileOps entries).edited
        ↔ file ∈ (entries.foldl addDetails createFileOps).edited
          ∨ ∃ entry ∈ entries, file ∈ edits entry := by
  unfold allFileOps
  generalize entries.foldl addDetails createFileOps = ops
  refine ⟨(adds_message _ ops).1, fun file => ?_⟩
  induction entries generalizing ops with
  | nil => simp [messagesOf]
  | cons entry entries ih =>
    cases hm : getMessageFromEntry entry with
    | none => simp [messagesOf_none hm, ih, edits_none hm]
    | some message =>
      rw [messagesOf_some hm, List.foldl_cons, ih, (adds_extract message ops).2,
        ← mem_edits hm, or_assoc, List.exists_mem_cons_iff]

/-- The pass: the files there were, and those of the entries at which the
newer ones fit. -/
theorem fill_files (l newer : List SessionEntry)
    {p : BranchPreparation} (htotal : p.totalTokens = tokensOf (messagesOf newer))
    (hfit : Fit tokenBudget newer) :
    (fill tokenBudget l p).fileOps.read = p.fileOps.read
      ∧ ∀ file, file ∈ (fill tokenBudget l p).fileOps.edited
        ↔ file ∈ p.fileOps.edited ∨ ∃ before entry older,
          l = before ++ entry :: older
            ∧ Fit tokenBudget (before.reverse ++ newer)
            ∧ file ∈ edits entry := by
  induction l generalizing p newer with
  | nil => simp [fill]
  | cons entry older ih =>
    -- an entry of the list is the first, or one of the others
    have hsplit : ∀ file, (∃ before e older', entry :: older
          = before ++ e :: older' ∧ Fit tokenBudget (before.reverse ++ newer)
          ∧ file ∈ edits e)
        ↔ file ∈ edits entry ∨ ∃ before e older', older = before ++ e :: older'
          ∧ Fit tokenBudget (before.reverse ++ entry :: newer)
          ∧ file ∈ edits e := by
      intro file
      constructor
      · intro h
        obtain ⟨before, e, older', heq, hf, hfile⟩ := h
        cases before with
        | nil =>
          obtain ⟨rfl, rfl⟩ := List.cons.inj heq
          exact .inl hfile
        | cons b before =>
          obtain ⟨rfl, rfl⟩ := List.cons.inj heq
          exact .inr ⟨before, e, older', rfl, by simpa using hf, hfile⟩
      · intro h
        rcases h with hfile | ⟨before, e, older', rfl, hf, hfile⟩
        · exact ⟨[], entry, older, rfl, hfit, hfile⟩
        · exact ⟨entry :: before, e, older', rfl, by simpa using hf, hfile⟩
    unfold fill
    cases hm : getMessageFromEntry entry with
    | none =>
      have hrest := ih (entry :: newer)
        (by rw [messagesOf_none hm]; exact htotal)
        (by unfold Fit; rwa [messagesOf_none hm])
      refine ⟨hrest.1, fun file => ?_⟩
      rw [hsplit, hrest.2, edits_none hm]
      simp
    | some message =>
      have hadds := adds_extract message p.fileOps
      have hfull : ∀ before : List SessionEntry,
          0 < tokenBudget ∧ tokenBudget
            < (p.totalTokens : ℚ) + estimateTokens message →
          ¬Fit tokenBudget (before.reverse ++ entry :: newer) := by
        intro before hfull hf
        have hle := hf hfull.1
        rw [messagesOf_append, messagesOf_some hm] at hle
        simp only [tokensOf, List.map_append, List.map_cons, List.sum_append,
          List.sum_cons] at hle htotal
        have hpos : (0 : ℚ) ≤ (((messagesOf before.reverse).map
          estimateTokens).sum : Nat) := Nat.cast_nonneg _
        have hlt := hfull.2
        rw [htotal] at hlt
        push_cast at hle hlt hpos
        linarith
      have hstop : 0 < tokenBudget ∧ tokenBudget
            < (p.totalTokens : ℚ) + estimateTokens message →
          ∀ file, file ∈ (extractFileOpsFromMessage p.fileOps message).edited
            ↔ file ∈ p.fileOps.edited ∨ ∃ before e older',
              entry :: older = before ++ e :: older'
                ∧ Fit tokenBudget (before.reverse ++ newer)
                ∧ file ∈ edits e := by
        intro hlt file
        rw [hsplit, hadds.2, ← mem_edits hm]
        have hno : ¬∃ before e older', older = before ++ e :: older'
            ∧ Fit tokenBudget (before.reverse ++ entry :: newer)
            ∧ file ∈ edits e := by
          intro h
          obtain ⟨before, e, older', -, hf, -⟩ := h
          exact hfull before hlt hf
        simp only [hno, or_false]
      dsimp only
      split
      · next hlt =>
          split
          · exact ⟨hadds.1, hstop hlt⟩
          · exact ⟨hadds.1, hstop hlt⟩
      · next hroom =>
          have hrest := ih (entry :: newer)
            (p := ⟨message :: p.messages, extractFileOpsFromMessage p.fileOps
              message, p.totalTokens + estimateTokens message⟩)
            (by rw [messagesOf_some hm, tokensOf_cons, ← htotal, Nat.add_comm])
            (fun hpos => by
              rw [messagesOf_some hm, tokensOf_cons, ← htotal, Nat.add_comm]
              push_cast
              exact not_lt.1 fun hlt => hroom ⟨hpos, hlt⟩)
          refine ⟨hrest.1.trans hadds.1, fun file => ?_⟩
          rw [hsplit, hrest.2, hadds.2, ← mem_edits hm, or_assoc]

-- ======== the whole

/-- A branch summary sees the branch and all its files exactly when what is
edited beyond the budget is known from elsewhere. -/
theorem seen_iff {all : List SessionEntry} (h : Acyclic all)
    (s : SessionManager) (oldLeafId : Option String) (targetId : String)
    (entries : List SessionEntry) (tokenBudget : ℚ) :
    Seen (loaded s all) oldLeafId targetId entries tokenBudget
      ↔ KnownElsewhere entries tokenBudget := by
  obtain ⟨hread, hall⟩ := allFileOps_files entries
  obtain ⟨hread', hfill⟩ := fill_files tokenBudget entries.reverse []
    (p := ⟨[], entries.foldl addDetails createFileOps, 0⟩) rfl
    (fun hpos => by simpa [messagesOf, tokensOf] using hpos.le)
  have hreached : ∀ file,
      file ∈ (prepareBranchEntries entries tokenBudget).fileOps.edited
        ↔ file ∈ (entries.foldl addDetails createFileOps).edited
          ∨ ∃ older entry newer, entries = older ++ entry :: newer
            ∧ Fit tokenBudget newer ∧ file ∈ edits entry := by
    intro file
    rw [prepareBranchEntries, hfill]
    refine or_congr_right ⟨fun h => ?_, fun h => ?_⟩
    · obtain ⟨before, entry, older, heq, hf, hfile⟩ := h
      refine ⟨older.reverse, entry, before.reverse, ?_, by simpa using hf, hfile⟩
      rw [← List.reverse_reverse entries, heq]
      simp
    · obtain ⟨older, entry, newer, heq, hf, hfile⟩ := h
      exact ⟨newer.reverse, entry, older.reverse, by simp [heq],
        by simpa using hf, hfile⟩
  constructor
  · intro hseen older entry newer heq _ file hfile
    have hmem : file ∈ (allFileOps entries).edited :=
      (hall file).2 (.inr ⟨entry, by simp [heq], hfile⟩)
    exact (hreached file).1 ((hseen.files file).2.2 hmem)
  · intro hknown
    refine ⟨collected h s oldLeafId targetId, filled entries tokenBudget,
      fun file => ⟨?_, ?_⟩⟩
    · rw [prepareBranchEntries, hread', hread]
    · rw [hreached, hall]
      refine or_congr_right' fun hnew => ⟨fun hr => ?_, fun he => ?_⟩
      · obtain ⟨older, entry, newer, heq, -, hfile⟩ := hr
        exact ⟨entry, by simp [heq], hfile⟩
      · obtain ⟨entry, hentry, hfile⟩ := he
        obtain ⟨older, newer, heq⟩ := List.append_of_mem hentry
        by_cases hf : Fit tokenBudget newer
        · exact ⟨older, entry, newer, heq, hf, hfile⟩
        · rcases hknown older entry newer heq hf file hfile with hd | hr
          · exact absurd hd hnew
          · exact hr

/-- Entries whose parents have none are a tree. -/
theorem acyclic_of_flat
    (h : ∀ x ∈ (indexOf all).values, ∀ y, parentOf (indexOf all) x = some y →
      parentOf (indexOf all) y = none) : Acyclic all := by
  intro e hcycle
  obtain ⟨x, -, hx⟩ := Relation.TransGen.tail'_iff.1 hcycle
  obtain ⟨y, hy, hrest⟩ := Relation.TransGen.head'_iff.1 hcycle
  have hnone := h e (mem_values_of_parent hx) y hy
  cases hrest.cases_head with
  | inl heq =>
    rw [← heq, hnone] at hy
    cases hy
  | inr hnext =>
    obtain ⟨z, hz, -⟩ := hnext
    rw [hnone] at hz
    cases hz

/-- Two prompts under a first. -/
def forked : List SessionEntry :=
  [userEntry "a" none "Start.", userEntry "b" (some "a") "One way.",
    userEntry "c" (some "a") "The other."]

theorem acyclic_forked : Acyclic forked := by
  apply acyclic_of_flat
  intro x hx y hy
  have hvalues : (indexOf forked).values = forked := rfl
  rw [hvalues] at hx
  simp only [forked, List.mem_cons, List.not_mem_nil, or_false] at hx
  rcases hx with rfl | rfl | rfl
  · cases hy
  · cases hy
    rfl
  · cases hy
    rfl

/-- The way that is left, without a limit. -/
theorem seen_forked :
    Seen (loaded (freshManager "/work" "/sessions" true) forked) (some "b") "c"
      [userEntry "b" (some "a") "One way."] 0 := by
  apply (seen_iff acyclic_forked _ (some "b") "c" _ 0).2
  intro older entry newer heq hfit
  exact absurd (fun hpos => absurd hpos (lt_irrefl 0)) hfit

/-- An answer that edits a file. -/
def editEntry : SessionEntry where
  id := "a"
  parentId := none
  timestamp := "2025-01-01T00:00:00.000Z"
  body := .message (.assistant
    { content := [.toolCall "t" "edit" [("path", .str "a.ts")] none]
      api := "api"
      provider := "p"
      model := "m"
      responseModel := none
      responseId := none
      diagnostics := none
      usage := usageOf 1
      stopReason := .toolUse
      stopReasonRaw := none
      errorMessage := none
      timestamp := .ofNat 0 })

/-- The edit of an answer is lost behind a prompt that does not fit. -/
theorem not_seen_beyond :
    ¬Seen (loaded (freshManager "/work" "/sessions" true) []) none ""
      [editEntry, userEntry "b" (some "a") "A prompt of some words."] 1 := by
  intro h
  have hall : "a.ts" ∈ (allFileOps [editEntry,
      userEntry "b" (some "a") "A prompt of some words."]).edited := by
    decide +kernel
  have hreached : "a.ts" ∉ (prepareBranchEntries [editEntry,
      userEntry "b" (some "a") "A prompt of some words."] 1).fileOps.edited := by
    decide +kernel
  exact hreached ((h.files "a.ts").2.2 hall)

end OneHarness.Session.BranchSummary
