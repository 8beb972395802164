/-
What children used is charged to their parent's message, except by a row
whose append throws after the row is indexed.

`Balanced` is the account with some completions waiting in the buckets of
the runs: it holds between any two batches of a flush. What the rows say
was charged so far only counts the rows whose append returned, and the
next aggregate starts from there.

# Where it breaks

`_rlmDurableParentUsage` is set after the append, so that an append that
throws once the row is indexed leaves it behind. The unindexed usage is
corrected for this row; the aggregate of the next one is not, and omits
its usage.
-/
import OneHarness.Children.Usage
import Mathlib.Algebra.BigOperators.Group.List.Basic

namespace OneHarness.Children

open Lib
open Session (UsageOrigin StopReason)

-- ======== adding and taking away

namespace Usage

instance : Zero Usage := ⟨emptyUsage⟩

instance : Add Usage := ⟨addAssistantUsage⟩

theorem zero_def : (0 : Usage) = emptyUsage := rfl

theorem add_def (a b : Usage) : a + b = addAssistantUsage a b := rfl

instance : AddCancelCommMonoid Usage where
  add_assoc a b c := by
    simp only [add_def, addAssistantUsage, add_assoc]
  zero_add a := by
    simp only [add_def, zero_def, addAssistantUsage, emptyUsage, zero_add]
  add_zero a := by
    simp only [add_def, zero_def, addAssistantUsage, emptyUsage, add_zero]
  add_comm a b := by
    simp only [add_def, addAssistantUsage, add_comm]
  add_left_cancel a b c h := by
    simp only [add_def, addAssistantUsage, mk.injEq, UsageCost.mk.injEq,
      add_right_inj] at h
    obtain ⟨h1, h2, h3, h4, h5, h6, h7, h8, h9, h10⟩ := h
    exact Usage.ext h1 h2 h3 h4 h5 (UsageCost.ext h6 h7 h8 h9 h10)
  nsmul := nsmulRec

theorem eq_zero_of_add {a b : Usage} : a + b = 0 ↔ a = 0 ∧ b = 0 := by
  simp only [add_def, zero_def, addAssistantUsage, emptyUsage, Usage.ext_iff,
    UsageCost.ext_iff, add_eq_zero]
  grind

theorem subtract_add (a b : Usage) : subtractAssistantUsage (a + b) a = b := by
  simp only [add_def, addAssistantUsage, subtractAssistantUsage,
    add_tsub_cancel_left]

theorem sum_concat (usages : List Usage) (usage : Usage) :
    (usages ++ [usage]).sum = usages.sum + usage := by
  rw [List.sum_append, List.sum_singleton]

theorem sum_eq_zero {usages : List Usage} :
    usages.sum = 0 ↔ ∀ u ∈ usages, u = 0 := by
  induction usages with
  | nil => simp
  | cons u usages ih =>
    rw [List.sum_cons, eq_zero_of_add, ih, List.forall_mem_cons]

-- ======== what is charged

/-- All but the context size, which children do not add to. -/
def billable (u : Usage) : Usage := { u with totalTokens := 0 }

theorem billable_attribute (a b : Usage) :
    (attributeChildUsage a b).billable = a.billable + b.billable := by
  simp only [billable, attributeChildUsage, add_def, addAssistantUsage,
    add_zero]

/-- What an attribution reads of the parent's usage. -/
def SameTotals (a b : Usage) : Prop :=
  a.billable = b.billable ∧ contextTokens a = contextTokens b

theorem attribute_eq_iff {a b : Usage} (child : Usage) :
    attributeChildUsage a child = attributeChildUsage b child
      ↔ SameTotals a b := by
  constructor
  · intro h
    refine ⟨?_, congrArg totalTokens h⟩
    have hb := congrArg billable h
    rw [billable_attribute, billable_attribute] at hb
    exact add_right_cancel hb
  · intro ⟨hbillable, htokens⟩
    have hb : (attributeChildUsage a child).billable
        = (attributeChildUsage b child).billable := by
      rw [billable_attribute, billable_attribute, hbillable]
    have ht : (attributeChildUsage a child).totalTokens
        = (attributeChildUsage b child).totalTokens := htokens
    calc attributeChildUsage a child
        = { (attributeChildUsage a child).billable with
            totalTokens := (attributeChildUsage a child).totalTokens } := rfl
      _ = { (attributeChildUsage b child).billable with
            totalTokens := (attributeChildUsage b child).totalTokens } := by
          rw [hb, ht]

/-- A child that used nothing leaves the totals as they are: the context
size that is written down is the one that was read. -/
theorem attribute_nothing {a child : Usage} (h : child.billable = 0) :
    SameTotals (attributeChildUsage a child) a := by
  refine ⟨by rw [billable_attribute, h, add_zero], ?_⟩
  have hin : child.input = 0 := congrArg input h
  have hout : child.output = 0 := congrArg output h
  have hread : child.cacheRead = 0 := congrArg cacheRead h
  have hwrite : child.cacheWrite = 0 := congrArg cacheWrite h
  by_cases ha : contextTokens a = 0
  · have ht : (attributeChildUsage a child).totalTokens = 0 := ha
    rw [contextTokens, if_pos ht]
    show a.input + child.input + (a.output + child.output)
      + (a.cacheRead + child.cacheRead)
      + (a.cacheWrite + child.cacheWrite) = contextTokens a
    rw [hin, hout, hread, hwrite]
    simp only [add_zero]
    by_cases hzero : a.totalTokens = 0
    · rw [contextTokens, if_pos hzero]
    · rw [contextTokens, if_neg hzero] at ha
      exact absurd ha hzero
  · have ht : (attributeChildUsage a child).totalTokens ≠ 0 := ha
    rw [contextTokens, if_neg ht]
    rfl

end Usage

open Usage

/-- What a message's usage is when these completions are charged to it. -/
def charged (originalUsage : Usage) (usages : List Usage) : Usage :=
  usages.foldl attributeChildUsage originalUsage

theorem charged_concat (originalUsage : Usage) (usages : List Usage)
    (usage : Usage) :
    charged originalUsage (usages ++ [usage])
      = attributeChildUsage (charged originalUsage usages) usage := by
  rw [charged, List.foldl_append]
  rfl

theorem billable_charged (originalUsage : Usage) (usages : List Usage) :
    (charged originalUsage usages).billable
      = originalUsage.billable + (usages.map billable).sum := by
  induction usages generalizing originalUsage with
  | nil => rw [List.map_nil, List.sum_nil, add_zero]; rfl
  | cons usage usages ih =>
    show (charged (attributeChildUsage originalUsage usage) usages).billable
      = _
    rw [ih, billable_attribute, List.map_cons, List.sum_cons, add_assoc]

-- ======== rows

def SessionEntry.row? : SessionEntry → Option AttributionRow
  | .childUsageAttributed row => some row
  | _ => none

/-- The attribution rows for the message, oldest first. -/
def Books.rows (s : Books) : List AttributionRow :=
  s.entries.filterMap SessionEntry.row?

/-- What the rows charge. -/
def charges (rows : List AttributionRow) : List Usage :=
  rows.map AttributionRow.childUsage

theorem charges_concat (rows : List AttributionRow) (row : AttributionRow) :
    charges (rows ++ [row]) = charges rows ++ [row.childUsage] := by
  rw [charges, List.map_append]
  rfl

/-- The rows whose append returned. -/
def persistedRows (rows : List AttributionRow) : List AttributionRow :=
  rows.filter AttributionRow.persisted

variable {rows : List AttributionRow}

theorem persistedRows_concat_pos
    {row : AttributionRow} (h : row.persisted = true) :
    persistedRows (rows ++ [row]) = persistedRows rows ++ [row] := by
  rw [persistedRows, List.filter_append, List.filter_cons_of_pos h,
    List.filter_nil]
  rfl

theorem persistedRows_concat_neg
    {row : AttributionRow} (h : ¬row.persisted = true) :
    persistedRows (rows ++ [row]) = persistedRows rows := by
  rw [persistedRows, List.filter_append, List.filter_cons_of_neg h,
    List.filter_nil, List.append_nil]
  rfl

/-- Rows that charge nothing may be left out: their totals stay. -/
theorem charged_persisted
    (h : ∀ row ∈ rows, row.persisted = false → row.childUsage.billable = 0)
    {a b : Usage} (hab : SameTotals a b) :
    SameTotals (charged a (charges (persistedRows rows)))
      (charged b (charges rows)) := by
  induction rows generalizing a b with
  | nil => exact hab
  | cons row rows ih =>
    replace ih := @ih fun r hr => h r (List.mem_cons_of_mem _ hr)
    by_cases hp : row.persisted = true
    · rw [persistedRows, List.filter_cons_of_pos hp]
      have heq := (attribute_eq_iff row.childUsage).2 hab
      exact ih (heq ▸ ⟨rfl, rfl⟩)
    · rw [persistedRows, List.filter_cons_of_neg hp]
      have hzero := h row List.mem_cons_self (Bool.eq_false_iff.2 hp)
      have hsame := attribute_nothing (a := b) hzero
      exact ih ⟨hab.1.trans hsame.1.symm, hab.2.trans hsame.2.symm⟩

/-- Leaving rows out shows, unless they charge nothing. -/
theorem charged_persisted_iff {originalUsage : Usage} :
    SameTotals (charged originalUsage (charges (persistedRows rows)))
        (charged originalUsage (charges rows))
      ↔ ∀ row ∈ rows, row.persisted = false
          → row.childUsage.billable = 0 := by
  refine ⟨fun h => ?_, fun h => charged_persisted h ⟨rfl, rfl⟩⟩
  have hsum := h.1
  rw [billable_charged, billable_charged] at hsum
  have hparts : ((charges rows).map billable).sum
      = ((charges (persistedRows rows)).map billable).sum
        + ((charges (rows.filter (!·.persisted))).map billable).sum := by
    rw [← List.sum_append, ← List.map_append, charges, charges, charges,
      ← List.map_append]
    exact ((((List.filter_append_perm _ rows).map _).map _).sum_eq).symm
  rw [hparts] at hsum
  have hzero := sum_eq_zero.1 (left_eq_add.1 (add_left_cancel hsum))
  intro row hrow hp
  apply hzero
  apply List.mem_map_of_mem
  apply List.mem_map_of_mem
  exact List.mem_filter.2 ⟨hrow, by rw [hp]; rfl⟩

-- ======== the account

/-- The account, with these completions waiting in the buckets. -/
structure Balanced (originalUsage : Usage) (waiting : List Usage)
    (s : Books) : Prop where
  live : s.liveUsage = charged originalUsage s.completions
  durable : s.durableParentUsage
    = some (charged originalUsage (charges (persistedRows s.rows)))
  /-- An aggregate starts from what was durable before its row. -/
  aggregates : ∀ rows row, s.rows = rows ++ [row] → row.aggregateUsage
    = attributeChildUsage
        (charged originalUsage (charges (persistedRows rows)))
        row.childUsage
  sums : ∀ row ∈ s.rows, row.childUsage = row.completions.sum
  /-- A completion is in a row, waits, or was in a batch that no row was
  made of. -/
  shared : ∃ unindexed : List Usage,
    (s.rows.flatMap (·.completions) ++ (waiting ++ unindexed)).Perm
        s.completions
      ∧ s.unindexedChildUsage.getD emptyUsage = (waiting ++ unindexed).sum

/-- What waits in the buckets of a run. -/
def ChildRun.waiting (run : ChildRun) : List Usage :=
  run.pendingChildUsage.flatMap (·.2.completions)

/-- A bucket holds the sum of what was put into it. -/
def ChildRun.Summed (run : ChildRun) : Prop :=
  ∀ bucket ∈ run.pendingChildUsage,
    bucket.2.usage = bucket.2.completions.sum

/-- The account at a step of a run, with what waits in the others. -/
structure RunBalanced (originalUsage : Usage) (rest : List Usage)
    (p : Books × ChildRun) : Prop where
  balanced : Balanced originalUsage (p.2.waiting ++ rest) p.1
  summed : p.2.Summed

variable {originalUsage usage : Usage} {waiting rest : List Usage}
  {s : Books} {run : ChildRun} {outcome : UsageOrigin → AppendOutcome}
  {batch : UsageOrigin × Bucket} {origin : UsageOrigin} {now : Int}
  {stopReason : StopReason}

theorem Balanced.perm {waiting' : List Usage}
    (h : Balanced originalUsage waiting s) (hperm : waiting.Perm waiting') :
    Balanced originalUsage waiting' s := by
  obtain ⟨unindexed, hall, hsum⟩ := h.shared
  have hrest := hperm.append_right unindexed
  refine { h with shared := ⟨unindexed, ?_, ?_⟩ }
  · exact (hrest.symm.append_left _).trans hall
  · rw [hsum, hrest.sum_eq]

/-- What happens to the entries of others does not matter. -/
theorem Balanced.index {entry : SessionEntry} (hrow : entry.row? = none)
    (h : Balanced originalUsage waiting s) :
    Balanced originalUsage waiting
      { s with entries := s.entries ++ [entry] } := by
  have hrows : Books.rows { s with entries := s.entries ++ [entry] }
      = s.rows := by
    rw [Books.rows, Books.rows, List.filterMap_append,
      List.filterMap_cons_none hrow, List.filterMap_nil, List.append_nil]
  constructor
  · exact h.live
  · rw [hrows]
    exact h.durable
  · rw [hrows]
    exact h.aggregates
  · rw [hrows]
    exact h.sums
  · rw [hrows]
    exact h.shared

/-- A completion is charged to the message, and waits. -/
theorem Balanced.complete (h : Balanced originalUsage waiting s) :
    Balanced originalUsage (waiting ++ [usage])
      { s with
        liveUsage := attributeChildUsage s.liveUsage usage
        unindexedChildUsage := some (addAssistantUsage
          (s.unindexedChildUsage.getD emptyUsage) usage)
        completions := s.completions ++ [usage] } := by
  obtain ⟨unindexed, hall, hsum⟩ := h.shared
  have hswap : (waiting ++ [usage] ++ unindexed).Perm
      (waiting ++ unindexed ++ [usage]) := by
    rw [List.append_assoc, List.append_assoc]
    exact List.perm_append_comm.append_left waiting
  constructor
  · show attributeChildUsage s.liveUsage usage = _
    rw [h.live, charged_concat]
  · exact h.durable
  · exact h.aggregates
  · exact h.sums
  · refine ⟨unindexed, ?_, ?_⟩
    · refine (hswap.append_left _).trans ?_
      rw [← List.append_assoc]
      exact hall.append_right [usage]
    · show addAssistantUsage _ usage = _
      rw [hsum, ← Usage.add_def, hswap.sum_eq, sum_concat]

-- ======== a batch

/-- The row that a batch makes. -/
def rowOf (batch : UsageOrigin × Bucket) (durable : Usage)
    (persisted : Bool) : AttributionRow where
  childUsage := batch.2.usage
  aggregateUsage := attributeChildUsage durable batch.2.usage
  origin := batch.1
  persisted := persisted
  completions := batch.2.completions

/-- An append that throws before the row is indexed leaves the books as
they are. -/
theorem attributeBatch_throwsBefore (ho : outcome batch.1 = .throwsBefore) :
    attributeBatch outcome s batch = s := by
  unfold attributeBatch
  cases s.durableParentUsage with
  | none => rfl
  | some durable => simp [ho, appendChildUsageAttribution]

/-- Otherwise the row is indexed, and what was unindexed is less by its
usage. -/
theorem attributeBatch_indexed {durable : Usage}
    (hd : s.durableParentUsage = some durable)
    (ho : outcome batch.1 ≠ .throwsBefore) :
    attributeBatch outcome s batch
      = { s with
          entries := s.entries ++ [.childUsageAttributed
            (rowOf batch durable (outcome batch.1 = .returns))]
          durableParentUsage :=
            if outcome batch.1 = .returns then
              some (attributeChildUsage durable batch.2.usage)
            else some durable
          unindexedChildUsage := s.unindexedChildUsage.map
            (subtractAssistantUsage · batch.2.usage) } := by
  unfold attributeBatch
  rw [hd]
  by_cases hr : outcome batch.1 = .returns
  · simp [hr, appendChildUsageAttribution, rowOf]
  · simp [hr, ho, hd, appendChildUsageAttribution, rowOf]

theorem subtract_getD (unindexed : Option Usage) (usage : Usage) :
    (unindexed.map (subtractAssistantUsage · usage)).getD emptyUsage
      = subtractAssistantUsage (unindexed.getD emptyUsage) usage := by
  cases unindexed with
  | some unindexed => rfl
  | none =>
    simp only [Option.map_none, Option.getD_none, subtractAssistantUsage,
      emptyUsage, zero_tsub]

/-- A batch no longer waits, whatever becomes of it. -/
theorem Balanced.attributeBatch
    (h : Balanced originalUsage (batch.2.completions ++ waiting) s)
    (hb : batch.2.usage = batch.2.completions.sum) :
    Balanced originalUsage waiting
      (Children.attributeBatch outcome s batch) := by
  obtain ⟨unindexed, hall, hsum⟩ := h.shared
  by_cases ho : outcome batch.1 = .throwsBefore
  · rw [attributeBatch_throwsBefore ho]
    have hmove : (waiting ++ (batch.2.completions ++ unindexed)).Perm
        (batch.2.completions ++ waiting ++ unindexed) := by
      rw [← List.append_assoc]
      exact List.perm_append_comm.append_right unindexed
    refine { h with shared :=
      ⟨batch.2.completions ++ unindexed, ?_, ?_⟩ }
    · exact (hmove.append_left _).trans hall
    · rw [hsum, hmove.sum_eq]
  rw [attributeBatch_indexed h.durable ho]
  generalize hrow : rowOf batch _ _ = row
  have hrows : Books.rows { s with entries :=
      s.entries ++ [.childUsageAttributed row] } = s.rows ++ [row] := by
    rw [Books.rows, List.filterMap_append]
    rfl
  constructor
  · exact h.live
  · show (if outcome batch.1 = .returns then _ else _)
      = some (charged originalUsage (charges (persistedRows (Books.rows
          { s with entries := s.entries ++ [.childUsageAttributed row] }))))
    rw [hrows]
    by_cases hr : outcome batch.1 = .returns
    · have hp : row.persisted = true := by
        rw [← hrow]
        exact decide_eq_true hr
      rw [if_pos hr, persistedRows_concat_pos hp, charges_concat,
        charged_concat, ← hrow]
      rfl
    · have hp : ¬row.persisted = true := by
        rw [← hrow]
        exact fun hd => hr (of_decide_eq_true hd)
      rw [if_neg hr, persistedRows_concat_neg hp]
  · intro rows last hsplit
    obtain ⟨hfront, hlast⟩ := List.append_inj' (hrows.symm.trans hsplit) rfl
    rw [← hfront, ← List.singleton_inj.1 hlast, ← hrow]
    rfl
  · intro r hr
    replace hr : r ∈ s.rows ++ [row] := hrows ▸ hr
    rcases List.mem_append.1 hr with hr | hr
    · exact h.sums r hr
    · rw [List.mem_singleton.1 hr, ← hrow]
      exact hb
  · refine ⟨unindexed, ?_, ?_⟩
    · show ((Books.rows { s with entries :=
        s.entries ++ [.childUsageAttributed row] }).flatMap _ ++ _).Perm _
      rw [hrows, List.flatMap_append, List.flatMap_singleton, ← hrow,
        List.append_assoc]
      rw [List.append_assoc] at hall
      exact hall
    · rw [subtract_getD, hsum, hb, List.append_assoc, List.sum_append]
      exact Usage.subtract_add _ _

-- ======== a run

theorem Balanced.batches {batches : List (UsageOrigin × Bucket)}
    (hb : ∀ b ∈ batches, b.2.usage = b.2.completions.sum)
    (h : Balanced originalUsage
      (batches.flatMap (·.2.completions) ++ rest) s) :
    Balanced originalUsage rest
      (batches.foldl (Children.attributeBatch outcome) s) := by
  induction batches generalizing s with
  | nil => exact h
  | cons b batches ih =>
    rw [List.flatMap_cons, List.append_assoc] at h
    apply ih fun b hmem => hb b (List.mem_cons_of_mem _ hmem)
    exact h.attributeBatch (hb b List.mem_cons_self)

theorem RunBalanced.flush {afterParentDrain : Bool}
    (h : RunBalanced originalUsage rest (s, run)) :
    RunBalanced originalUsage rest
      (flushPendingChildUsageAttribution outcome afterParentDrain s run) := by
  unfold flushPendingChildUsageAttribution
  by_cases hempty : run.pendingChildUsage.length = 0
  · rw [if_pos hempty]
    exact ⟨h.balanced, h.summed⟩
  rw [if_neg hempty]
  by_cases hparent : SessionEntry.parent ∉ s.entries
  · rw [if_pos hparent]
    by_cases hdrain :
        (!afterParentDrain && !run.parentEntryDrainScheduled) = true
    · rw [if_pos hdrain]
      exact ⟨h.balanced, h.summed⟩
    · rw [if_neg hdrain]
      exact ⟨h.balanced, h.summed⟩
  · rw [if_neg hparent]
    refine ⟨?_, fun bucket hmem => (List.not_mem_nil hmem).elim⟩
    exact h.balanced.batches h.summed

section
variable (h : RunBalanced originalUsage rest (s, run))
include h

variable (outcome now) in
theorem RunBalanced.flushIfStale :
    RunBalanced originalUsage rest
      (flushPendingChildUsageIfStale outcome now s run) := by
  unfold flushPendingChildUsageIfStale
  by_cases hstale : run.pendingChildUsage.length > 0
      ∧ now - run.pendingChildUsageSince ≥ flushMaxPendingMs
  · rw [if_pos hstale]
    exact h.flush
  · rw [if_neg hstale]
    exact h

omit h in
/-- Into its bucket goes one completion. -/
theorem completions_set (buckets : JsMap UsageOrigin Bucket)
    (origin : UsageOrigin) (usage sum : Usage) :
    ((buckets.set origin ⟨sum,
        ((buckets.get origin).getD ⟨emptyUsage, []⟩).completions ++ [usage]⟩
      ).flatMap (·.2.completions)).Perm
      (buckets.flatMap (·.2.completions) ++ [usage]) := by
  induction buckets with
  | nil => exact .refl _
  | cons bucket buckets ih =>
    by_cases hk : bucket.1 = origin
    · rw [JsMap.get_cons, if_pos hk, JsMap.set, if_pos hk]
      rw [List.flatMap_cons, List.flatMap_cons, List.append_assoc,
        List.append_assoc]
      exact List.perm_append_comm.append_left _
    · rw [JsMap.get_cons, if_neg hk, JsMap.set, if_neg hk]
      rw [List.flatMap_cons, List.flatMap_cons, List.append_assoc]
      exact ih.append_left _

theorem RunBalanced.completed :
    RunBalanced originalUsage rest
      (completed outcome now stopReason usage origin s run) := by
  unfold Children.completed
  by_cases hstop : stopReason = .error ∨ stopReason = .aborted
  · rw [if_pos hstop]
    exact h
  rw [if_neg hstop]
  replace h := h.flushIfStale outcome now
  generalize flushPendingChildUsageIfStale outcome now s run = p at h ⊢
  obtain ⟨s, run⟩ := p
  have hpending : (if run.pendingChildUsage.length = 0 then
      { run with pendingChildUsageSince := now, pendingChildUsageTimer := true }
      else run).pendingChildUsage = run.pendingChildUsage := by
    split <;> rfl
  constructor
  · refine h.balanced.complete.perm ?_
    rw [List.append_assoc]
    refine (List.perm_append_comm.append_left _).trans ?_
    rw [← List.append_assoc]
    apply List.Perm.append_right
    show (run.waiting ++ [usage]).Perm (List.flatMap _ (JsMap.set _ _ _))
    rw [hpending]
    exact (completions_set _ _ _ _).symm
  · intro bucket hmem
    rcases JsMap.mem_set hmem with hmem | hnew
    · exact h.summed bucket (hpending ▸ hmem)
    rw [hnew]
    show addAssistantUsage _ usage = List.sum (_ ++ [usage])
    rw [Usage.sum_concat, ← Usage.add_def, hpending]
    apply congrArg (· + usage)
    cases hget : run.pendingChildUsage.get origin with
    | none => rfl
    | some old => exact h.summed _ (JsMap.mem_of_get hget)

theorem RunBalanced.timerFired :
    RunBalanced originalUsage rest (timerFired outcome s run) := by
  unfold Children.timerFired
  by_cases hset : run.pendingChildUsageTimer = true
  · rw [if_pos hset]
    exact h.flush
  · rw [if_neg hset]
    exact h

theorem RunBalanced.afterDrain :
    RunBalanced originalUsage rest (flushAfterParentDrain outcome s run) := by
  unfold flushAfterParentDrain
  by_cases hset : run.parentEntryDrainScheduled = true
  · rw [if_pos hset]
    exact RunBalanced.flush ⟨h.balanced, h.summed⟩
  · rw [if_neg hset]
    exact h

end

-- ======== all the runs

namespace State

/-- The account of a session: with nothing spawned from the message there
is nothing to account for. -/
structure Accounted (originalUsage : Usage) (s : State) : Prop where
  unspawned : s.runs = [] → s.books.rows = [] ∧ s.books.completions = []
    ∧ s.books.liveUsage = originalUsage
    ∧ s.books.durableParentUsage = none
    ∧ s.books.unindexedChildUsage = none
  balanced : s.runs ≠ [] →
    Balanced originalUsage (s.runs.flatMap ChildRun.waiting) s.books
  summed : ∀ run ∈ s.runs, run.Summed

variable {s : State} {entry : SessionEntry}

/-- What waits in a run, and what waits in the others. -/
theorem waiting_set {runs : List ChildRun} {i : Nat}
    (hrun : runs[i]? = some run) : ∃ rest : List Usage, ∀ run',
      ((runs.set i run').flatMap ChildRun.waiting).Perm
        (run'.waiting ++ rest) := by
  obtain ⟨hi, -⟩ := List.getElem?_eq_some_iff.1 hrun
  refine ⟨(runs.take i).flatMap ChildRun.waiting
    ++ (runs.drop (i + 1)).flatMap ChildRun.waiting, fun run' => ?_⟩
  rw [List.set_eq_take_append_cons_drop, if_pos hi, List.flatMap_append,
    List.flatMap_cons, ← List.append_assoc, ← List.append_assoc]
  exact List.perm_append_comm.append_right _

theorem Accounted.ofRun {i : Nat} {f : Books → ChildRun → Books × ChildRun}
    (hf : ∀ rest s run, RunBalanced originalUsage rest (s, run)
      → RunBalanced originalUsage rest (f s run))
    (h : Accounted originalUsage s) :
    Accounted originalUsage (s.ofRun i f) := by
  unfold State.ofRun
  cases hrun : s.runs[i]? with
  | none => exact h
  | some run =>
    have hmem := List.mem_of_getElem? hrun
    have hne : s.runs ≠ [] := List.ne_nil_of_mem hmem
    obtain ⟨rest, hperm⟩ := waiting_set hrun
    have hself := hperm run
    obtain ⟨hi, hget⟩ := List.getElem?_eq_some_iff.1 hrun
    rw [← hget, List.set_getElem_self, hget] at hself
    have hp := hf rest s.books run
      ⟨(h.balanced hne).perm hself, h.summed run hmem⟩
    constructor
    · intro hnil
      exact absurd (List.set_eq_nil_iff _ _ |>.1 hnil) hne
    · intro _
      exact hp.balanced.perm (hperm _).symm
    · intro run' hmem'
      rcases List.mem_or_eq_of_mem_set hmem' with hold | hnew
      · exact h.summed run' hold
      · exact hnew ▸ hp.summed

theorem Accounted.spawn (h : Accounted originalUsage s) :
    Accounted originalUsage s.spawn := by
  have hwaiting : s.spawn.runs.flatMap ChildRun.waiting
      = s.runs.flatMap ChildRun.waiting := by
    show (s.runs ++ [ChildRun.spawned]).flatMap _ = _
    rw [List.flatMap_append]
    exact List.append_nil _
  constructor
  · intro hnil
    exact absurd hnil (by simp [State.spawn])
  · intro _
    rw [hwaiting]
    by_cases hruns : s.runs = []
    · obtain ⟨hrows, hnone, hlive, hdurable, hunindexed⟩ :=
        h.unspawned hruns
      have hspawned : s.spawn.books.rows = [] := hrows
      rw [hruns]
      constructor
      · show s.books.liveUsage = charged originalUsage s.books.completions
        rw [hnone, hlive]
        rfl
      · rw [hspawned]
        show some (s.books.durableParentUsage.getD s.books.liveUsage) = _
        rw [hdurable, hlive]
        rfl
      · intro rows row hsplit
        rw [hspawned] at hsplit
        exact absurd hsplit (by simp)
      · intro row hrow
        rw [hspawned] at hrow
        exact (List.not_mem_nil hrow).elim
      · refine ⟨[], ?_, ?_⟩
        · rw [hspawned]
          show List.Perm [] s.books.completions
          rw [hnone]
        · show s.books.unindexedChildUsage.getD emptyUsage = _
          rw [hunindexed]
          rfl
    · have hb := h.balanced hruns
      refine { hb with durable := ?_ }
      show some (s.books.durableParentUsage.getD s.books.liveUsage) = _
      rw [hb.durable]
      rfl
  · intro run hmem
    rcases List.mem_append.1 hmem with hold | hnew
    · exact h.summed run hold
    · rw [List.mem_singleton.1 hnew]
      exact fun bucket hbucket => (List.not_mem_nil hbucket).elim

theorem Accounted.index (hrow : entry.row? = none)
    (h : Accounted originalUsage s) :
    Accounted originalUsage (s.index entry) := by
  constructor
  · intro hnil
    obtain ⟨hrows, hrest⟩ := h.unspawned hnil
    refine ⟨?_, hrest⟩
    show (s.books.entries ++ [entry]).filterMap _ = []
    rw [List.filterMap_append, List.filterMap_cons_none hrow,
      List.filterMap_nil, List.append_nil]
    exact hrows
  · exact fun hne => (h.balanced hne).index hrow
  · exact h.summed

theorem Accounted.step (h : Accounted originalUsage s) (event : Event) :
    Accounted originalUsage (s.step event) := by
  cases event with
  | spawn => exact h.spawn
  | completion i now stopReason usage origin outcome =>
    exact h.ofRun fun _ _ _ h => h.completed
  | toolStart i now outcome => exact h.ofRun fun _ _ _ h => h.flushIfStale _ _
  | settle i outcome => exact h.ofRun fun _ _ _ h => h.flush
  | timer i outcome => exact h.ofRun fun _ _ _ h => h.timerFired
  | parentDrained i outcome => exact h.ofRun fun _ _ _ h => h.afterDrain
  | parentIndexed => exact h.index rfl
  | otherIndexed => exact h.index rfl

theorem Accounted.init (originalUsage : Usage) :
    Accounted originalUsage (init originalUsage) where
  unspawned _ := ⟨rfl, rfl, rfl, rfl, rfl⟩
  balanced hne := absurd rfl hne
  summed _ hmem := (List.not_mem_nil hmem).elim

theorem accounted_run (h : Accounted originalUsage s) (events : List Event) :
    Accounted originalUsage (s.run events) := by
  induction events generalizing s with
  | nil => exact h
  | cons event events ih => exact ih (h.step event)

end State

-- ======== what is attributed

/-- Child usage is attributed exactly. -/
structure Exact (originalUsage : Usage) (s : Books) : Prop where
  aggregate : ∀ row ∈ s.rows.getLast?,
    row.aggregateUsage = charged originalUsage (charges s.rows)
  /-- Every completion is in one row, or among the unindexed ones. -/
  shared : ∃ unindexed : List Usage,
    (s.rows.flatMap (·.completions) ++ unindexed).Perm s.completions
      ∧ s.unindexedChildUsage.getD emptyUsage = unindexed.sum
  sums : ∀ row ∈ s.rows, row.childUsage = row.completions.sum
  live : s.liveUsage = charged originalUsage s.completions

/-- No row but the last was left by an append that threw after the row
was indexed, rows that charge nothing aside. -/
def NoRowCutOff (s : Books) : Prop :=
  ∀ row ∈ s.rows.dropLast, row.persisted = false
    → row.childUsage.billable = 0

theorem Balanced.exact_iff (h : Balanced originalUsage waiting s) :
    Exact originalUsage s ↔ NoRowCutOff s := by
  have hlast : (∀ row ∈ s.rows.getLast?,
        row.aggregateUsage = charged originalUsage (charges s.rows))
      ↔ NoRowCutOff s := by
    rcases List.eq_nil_or_concat s.rows with hnil | ⟨rows, row, hrows⟩
    · simp [NoRowCutOff, hnil]
    · rw [List.concat_eq_append] at hrows
      rw [NoRowCutOff, hrows, List.getLast?_concat, List.dropLast_concat,
        charges_concat, charged_concat]
      simp only [Option.mem_some_iff, forall_eq']
      rw [h.aggregates rows row hrows, Usage.attribute_eq_iff]
      exact charged_persisted_iff
  constructor
  · exact fun hexact => hlast.1 hexact.aggregate
  · intro hrows
    obtain ⟨unindexed, hall, hsum⟩ := h.shared
    exact ⟨hlast.2 hrows, ⟨_, hall, hsum⟩, h.sums, h.live⟩

/-- After any run, child usage is attributed exactly if and only if no
row but the last was cut off. -/
theorem attributed_exactly (originalUsage : Usage) (events : List Event) :
    Exact originalUsage ((State.init originalUsage).run events).books
      ↔ NoRowCutOff ((State.init originalUsage).run events).books := by
  have h := State.accounted_run (.init originalUsage) events
  generalize (State.init originalUsage).run events = s at h
  by_cases hruns : s.runs = []
  · obtain ⟨hrows, hnone, hlive, -, hunindexed⟩ := h.unspawned hruns
    constructor
    · intro _ row hrow
      rw [hrows] at hrow
      exact (List.not_mem_nil hrow).elim
    · intro _
      constructor
      · intro row hrow
        rw [hrows] at hrow
        exact absurd hrow (by simp)
      · refine ⟨[], ?_, ?_⟩
        · rw [hrows, hnone]
          exact .refl _
        · rw [hunindexed]
          rfl
      · intro row hrow
        rw [hrows] at hrow
        exact (List.not_mem_nil hrow).elim
      · rw [hnone, hlive]
        rfl
  · exact (h.balanced hruns).exact_iff

/-- Usage of input tokens only. -/
def inputTokens (n : ℚ≥0) : Usage := { emptyUsage with input := n }

/-- Two completions of a child, each followed by a flush; the first
flush's append throws after its row is indexed. -/
def cutOffRun : List Event :=
  [ .parentIndexed, .spawn,
    .completion 0 0 .stop (inputTokens 3) .spawnTask fun _ => .returns,
    .settle 0 fun _ => .throwsAfter,
    .completion 0 0 .stop (inputTokens 5) .spawnTask fun _ => .returns,
    .settle 0 fun _ => .returns ]

/-- The second aggregate says 1 + 5 tokens, where both rows are indexed
and charge 3 + 5. -/
theorem cutOff_row_omitted : ¬Exact (inputTokens 1)
    ((State.init (inputTokens 1)).run cutOffRun).books := by
  intro h
  have hlast := h.aggregate
  exact absurd hlast (by decide +kernel)

end OneHarness.Children
