/-
Appends whose writes fail.

Any write may throw here, `appendFileSync` after any number of bytes of
its line. A run of appends in which no plain append tears its line keeps
the session sound, so the next append that is written leaves a file that
is reloaded, repair included, as the entries in memory
(`reload_after_faults`). The variants with a rollback may tear theirs:
they take the entry back and write the file anew.

A plain append that tears its line keeps the entry in memory, and the
next line is welded to what it left, or hangs under an entry that was
never written: `torn_append_loses`.
-/
import OneHarness.Session.Proofs.Durable
import Mathlib.Logic.Relation

namespace OneHarness.Session

open Lib Lib.Lines

variable {io : Io} {m m' : Machine}

theorem plain_appendCustomEntry (customType : String) (data : Option Json) :
    Plain (.appendCustomEntry customType data) :=
  ⟨fun _ => rfl, fun _ _ => rfl, fun _ => rfl⟩

theorem plain_appendCustomMessageEntry (c : CustomMessageEntry) :
    Plain (.appendCustomMessageEntry c) :=
  ⟨fun _ => rfl, fun _ _ => rfl, fun _ => rfl⟩

/-- The append a call makes, if it makes one, and whether it rolls back. -/
def Call.append? : Call → Option (AppendCall × Bool)
  | append call => some (call, false)
  | appendCustomEntryWithRollback customType data =>
    some (.appendCustomEntry customType data, true)
  | appendCustomMessageEntryWithRollback c =>
    some (.appendCustomMessageEntry c, true)
  | _ => none

/-- An append that leaves the file fit for the next one: its entry is
new, and unless it rolls back, its line is not torn. -/
def SafeAppend (io : Io) (call : Call) (m : Machine) : Prop :=
  ∃ a rollback, call.append? = some (a, rollback)
    ∧ FreshEntry io a m.manager ∧ (rollback = false → Untorn io a m)

/-- One append of a run, whether it returns or throws. -/
def AppendStep (m m' : Machine) : Prop :=
  ∃ io call r, SafeAppend io call m ∧ call.run io m = some r ∧ m' = r.machine

-- ======== the parents

/-- Every parent named is an entry of the session. -/
def ParentsResolve (es : List SessionEntry) : Prop :=
  ∀ e ∈ es, ∀ p, e.parentId = some p → ∃ x ∈ es, x.id = p

theorem bump_parentId (x e : SessionEntry) :
    (bump x e).parentId = e.parentId := by
  unfold bump
  split
  · unfold setUsage
    split <;> rfl
  · rfl

/-- An append puts its entry under one of the session. -/
theorem entry_parent (hs : Live m.manager) {call : AppendCall}
    (hr : call.refuses m.manager = none) {p : String}
    (hp : (call.entry io m.manager).parentId = some p) :
    ∃ x ∈ m.manager.getEntries, x.id = p := by
  have hleaf : (call.prepare m.manager).leafId = some p := hp
  by_cases hb : ∃ b s d f u, call = .branchWithSummary b s d f u
  · obtain ⟨b, s, d, f, u, rfl⟩ := hb
    obtain rfl : b = some p := hleaf
    rw [AppendCall.refuses] at hr
    split at hr
    · cases hr
    · rename_i hhas
      rw [Option.any_some, Bool.not_eq_true', Bool.not_eq_false] at hhas
      rw [JsMap.has, hs.byId, Option.isSome_iff_exists] at hhas
      obtain ⟨x, hx⟩ := hhas
      exact ⟨x, mem_of_indexOf hx, (indexOf_keyed _).key_of_get hx⟩
  · refine hs.leaf p ?_
    cases call with
    | branchWithSummary b s d f u => exact absurd ⟨b, s, d, f, u, rfl⟩ hb
    | _ => exact hleaf

theorem parents_pushed (hs : Live m.manager) {call : AppendCall}
    (hr : call.refuses m.manager = none)
    (h : ParentsResolve m.manager.getEntries) :
    ParentsResolve (call.pushed io m).manager.getEntries := by
  have hkeep : ∀ p, (∃ x ∈ m.manager.getEntries, x.id = p) →
      ∃ x ∈ (call.pushed io m).manager.getEntries, x.id = p := by
    rintro p ⟨x, hx, rfl⟩
    rw [entriesOf_pushed]
    exact ⟨_, List.mem_append_left _ (List.mem_map_of_mem hx), bump_id _ x⟩
  intro e he p hp
  refine hkeep p ?_
  rw [entriesOf_pushed] at he
  rcases List.mem_append.1 he with he | he
  · obtain ⟨y, hy, rfl⟩ := List.mem_map.1 he
    rw [bump_parentId] at hp
    exact h y hy p hp
  · rw [List.mem_singleton.1 he] at hp
    exact entry_parent hs hr hp

-- ======== the run

/-- A run keeps the session sound, and its parents resolved. -/
theorem step_keeps (hs : Sound m) (h : AppendStep m m') :
    Sound m' ∧ (ParentsResolve m.manager.getEntries →
      ParentsResolve m'.manager.getEntries) := by
  obtain ⟨io, call, r, ⟨a, rollback, ha, hx, huntorn⟩, hrun, rfl⟩ := h
  have hentries : ∀ {s s' : SessionManager},
      s'.fileEntries = s.fileEntries → s'.getEntries = s.getEntries :=
    fun h => congrArg entriesOf h
  have happend : rollback = false → call.run io m = some (outcome (a.run io m))
      → Sound r.machine ∧ (ParentsResolve m.manager.getEntries →
        ParentsResolve r.machine.manager.getEntries) := by
    intro hroll heq
    obtain rfl := Option.some.inj (heq.symm.trans hrun)
    have hspec := append_spec io a hs hx
    cases hres : a.run io m with
    | ok id m' =>
      rw [hres] at hspec
      obtain ⟨hr, -, hsound, ⟨flushed, hman⟩, -⟩ := hspec
      refine ⟨hsound, fun h => ?_⟩
      rw [outcome, Outcome.machine, hentries (s := (a.pushed io m).manager)
        (by rw [hman, AppendCall.finish_fileEntries])]
      exact parents_pushed hs.live hr h
    | error e m' =>
      rw [hres] at hspec
      rcases hspec with rfl | ⟨hr, hman, hsound⟩
      · exact ⟨hs, id⟩
      · refine ⟨hsound (huntorn hroll), fun h => ?_⟩
        rw [outcome, Outcome.machine, hman]
        exact parents_pushed hs.live hr h
  have hback : Plain a → call.run io m
      = some (outcome (appendEntryWithRollback io (a.run io) m)) →
      Sound r.machine ∧ (ParentsResolve m.manager.getEntries →
        ParentsResolve r.machine.manager.getEntries) := by
    intro hplain heq
    obtain rfl := Option.some.inj (heq.symm.trans hrun)
    have hspec := rollback_spec io hs hx hplain
    cases hres : appendEntryWithRollback io (a.run io) m with
    | ok id m' =>
      rw [hres] at hspec
      obtain ⟨-, hsound, -, hman⟩ := hspec
      refine ⟨hsound, fun h => ?_⟩
      rw [outcome, Outcome.machine, hman]
      exact parents_pushed hs.live (hplain.refuses _) h
    | error e m' =>
      rw [hres] at hspec
      refine ⟨hspec.1, fun h => ?_⟩
      rw [outcome, Outcome.machine, hentries hspec.2]
      exact h
  cases call with
  | append call =>
    cases ha
    exact happend rfl rfl
  | appendCustomEntryWithRollback customType data =>
    cases ha
    exact hback (plain_appendCustomEntry customType data) rfl
  | appendCustomMessageEntryWithRollback c =>
    cases ha
    exact hback (plain_appendCustomMessageEntry c) rfl
  | _ => cases ha

theorem run_keeps (hs : Sound m) (h : Relation.ReflTransGen AppendStep m m') :
    Sound m' ∧ (ParentsResolve m.manager.getEntries →
      ParentsResolve m'.manager.getEntries) := by
  induction h with
  | refl => exact ⟨hs, id⟩
  | tail _ hstep ih =>
    obtain ⟨hs', hp⟩ := step_keeps ih.1 hstep
    exact ⟨hs', fun h => hp (ih.2 h)⟩

/-- The append of a call is written when it is made: a rollback variant
flushes, a plain append may be deferred. -/
def WritesThrough (io : Io) (call : Call) (m : Machine) : Prop :=
  ∀ a, call.append? = some (a, false) → a.deferred io m.manager = false

theorem written_of_ok (hs : Sound m) {call : Call}
    (hsafe : SafeAppend io call m) (hok : call.run io m = some (.ok () m'))
    (hwrites : WritesThrough io call m) : Written m' := by
  obtain ⟨a, rollback, ha, hx, -⟩ := hsafe
  have hback : Plain a → call.run io m
      = some (outcome (appendEntryWithRollback io (a.run io) m)) →
      Written m' := by
    intro hplain heq
    have hres := Option.some.inj (heq.symm.trans hok)
    have hspec := rollback_spec io hs hx hplain
    cases hrun : appendEntryWithRollback io (a.run io) m with
    | ok id m₁ =>
      rw [hrun] at hres hspec
      cases hres
      exact hspec.2.2.1
    | error e m₁ =>
      rw [hrun] at hres
      cases hres
  cases call with
  | append call =>
    cases ha
    have hres := Option.some.inj hok
    have hspec := append_spec io a hs hx
    cases hrun : a.run io m with
    | ok id m₁ =>
      rw [hrun] at hres hspec
      cases hres
      exact hspec.2.2.2.2 (hwrites a rfl)
    | error e m₁ =>
      rw [hrun] at hres
      cases hres
  | appendCustomEntryWithRollback customType data =>
    cases ha
    exact hback (plain_appendCustomEntry customType data) rfl
  | appendCustomMessageEntryWithRollback c =>
    cases ha
    exact hback (plain_appendCustomMessageEntry c) rfl
  | _ => cases ha

/-- After any run of appends that tear no line for good, the next append
that is written leaves the file a reload of which, repair included, is
the entries in memory, with no parent dangling that did not before. -/
theorem reload_after_faults {m₀ : Machine} {call : Call} (hs : Sound m₀)
    (hrun : Relation.ReflTransGen AppendStep m₀ m)
    (hsafe : SafeAppend io call m) (hok : call.run io m = some (.ok () m'))
    (hwrites : WritesThrough io call m) :
    ∃ file, m'.manager.sessionFile = some file
      ∧ loadEntriesFromFile (repairJsonlDamage m'.disk file) file
        = some m'.manager.fileEntries
      ∧ (ParentsResolve m₀.manager.getEntries →
        ParentsResolve m'.manager.getEntries) := by
  obtain ⟨hsm, hparents⟩ := run_keeps hs hrun
  have hstep : AppendStep m m' := ⟨io, call, _, hsafe, hok, rfl⟩
  obtain ⟨hs', hparent⟩ := step_keeps hsm hstep
  obtain ⟨file, hfile, hrepair, hload⟩ :=
    hs'.reload (written_of_ok hsm hsafe hok hwrites)
  exact ⟨file, hfile, by rw [hrepair]; exact hload,
    fun h => hparent (hparents h)⟩

-- ======== a torn append

/-- A session opened on a file of one answer. -/
theorem open_answered (io : Io) :
    ∃ m, openSession io "/" "/" "/s.jsonl" (diskOf answeredFile)
        = some (.ok () m)
      ∧ m.disk "/s.jsonl" = some (linesOf answeredFile)
      ∧ OpenedOn m.manager "/s.jsonl" answeredFile
      ∧ m.manager.hasAssistantEntry = true ∧ Sound m := by
  have hfile : diskOf answeredFile "/s.jsonl" = some (linesOf answeredFile) :=
    congrArg some (flatMap_entryLine answeredFile)
  have hload : loadEntriesFromFile
      (repairJsonlDamage (diskOf answeredFile) "/s.jsonl") "/s.jsonl"
      = some answeredFile := by
    rw [repair_lines hfile]
    exact (Records.lines answeredFile).load hfile
  have hversion : 3 ≤ versionOf answeredFile := by
    rw [answeredFile, versionOf_current _ rfl]
  obtain ⟨m, hopen, hdisk, hon, hhas⟩ := openSession_current io "/" "/" rfl
    hload (List.cons_ne_nil _ _) hversion rfl
  rw [repair_lines hfile] at hdisk
  have hbytes : m.disk "/s.jsonl" = some (linesOf answeredFile) := by
    rw [hdisk, hfile]
  exact ⟨m, hopen, hbytes, hon, hhas, sound_opened hon hbytes
    (Records.lines _) rfl (List.cons_ne_nil _ _)
    (List.nodup_singleton "a")⟩

/-- A question asked of it. -/
def ask : AppendCall := .appendMessage question

/-- Asked while nothing fails, it is reloaded behind the answer. -/
theorem reload_after_faults_asked :
    ∃ m m' file,
      openSession (ioOf "b") "/" "/" "/s.jsonl" (diskOf answeredFile)
          = some (.ok () m)
        ∧ Call.run (ioOf "b") (.append ask) m = some (.ok () m')
        ∧ m'.manager.sessionFile = some file
        ∧ loadEntriesFromFile (repairJsonlDamage m'.disk file) file
          = some m'.manager.fileEntries := by
  obtain ⟨m, hopen, hbytes, hon, hhas, hs⟩ := open_answered (ioOf "b")
  have hdef : ask.deferred (ioOf "b") m.manager = false := by
    rw [AppendCall.deferred, hhas]
    rfl
  have hrun : ask.run (ioOf "b") m = .ok _ _ :=
    AppendCall.run_line hon.persistedAt hon.flushed hbytes rfl hdef
  have hok : Call.run (ioOf "b") (.append ask) m = some (.ok () _) :=
    congrArg (fun r => some (outcome r)) hrun
  have hid : (ask.entry (ioOf "b") m.manager).id = "b" := by
    have hdraw : (ask.entry (ioOf "b") m.manager).id
        = generateId m.manager.byId.has fun _ => "b" := rfl
    rw [hdraw, hon.byId]
    rfl
  have hx : FreshEntry (ioOf "b") ask m.manager := by
    refine ⟨fun e he => ?_, fun h => by cases h⟩
    rw [SessionManager.getEntries, hon.fileEntries] at he
    rw [hid, List.mem_singleton.1 he]
    decide
  have hsafe : SafeAppend (ioOf "b") (.append ask) m :=
    ⟨ask, false, rfl, hx, fun _ n file h => by cases h⟩
  obtain ⟨file, hfile, hload, -⟩ := reload_after_faults hs .refl hsafe hok
    fun a ha => by cases ha; exact hdef
  exact ⟨m, _, file, hopen, hok, hfile, hload⟩

/-- The question is torn before its first byte and another one asked: the
first one is in memory and was never written. -/
theorem torn_append_loses :
    ∃ m₀ m₁ m₂ e id fs,
      openSession (ioOf "b") "/" "/" "/s.jsonl" (diskOf answeredFile)
          = some (.ok () m₀)
        ∧ ask.run { ioOf "b" with appendFileSync := some 0 } m₀ = .error e m₁
        ∧ ask.run (ioOf "c") m₁ = .ok id m₂
        ∧ loadEntriesFromFile (repairJsonlDamage m₂.disk "/s.jsonl") "/s.jsonl"
          = some fs
        ∧ fs ≠ m₂.manager.fileEntries := by
  obtain ⟨m₀, hopen, hbytes, hon, hhas, -⟩ := open_answered (ioOf "b")
  let torn : Io := { ioOf "b" with appendFileSync := some 0 }
  have hdef : ask.deferred torn m₀.manager = false := by
    rw [AppendCall.deferred, hhas]
    rfl
  have hrun : ask.run torn m₀ = .error "appendFileSync"
      { disk := m₀.disk.write "/s.jsonl" (linesOf answeredFile)
        manager := (ask.pushed torn m₀).manager } := by
    rw [AppendCall.run_line hon.persistedAt hon.flushed hbytes rfl hdef]
    simp only [torn, List.take_zero, List.append_nil]
  let m₁ : Machine :=
    { disk := m₀.disk.write "/s.jsonl" (linesOf answeredFile)
      manager := (ask.pushed torn m₀).manager }
  have hdef₁ : ask.deferred (ioOf "c") m₁.manager = false := by
    have hhas₁ : m₁.manager.hasAssistantEntry = true := by
      rw [AppendCall.pushed_hasAssistantEntry, hhas, Bool.true_or]
    rw [AppendCall.deferred, hhas₁]
    rfl
  have hbytes₁ : m₁.disk "/s.jsonl" = some (linesOf answeredFile) :=
    Disk.write_self m₀.disk "/s.jsonl" (linesOf answeredFile)
  have hrun₁ : ask.run (ioOf "c") m₁ = .ok _ _ :=
    AppendCall.run_line (AppendCall.pushed_persistedAt torn ask hon.persistedAt)
      ((AppendCall.pushed_flushed torn ask m₀).trans hon.flushed)
      hbytes₁ rfl hdef₁
  have hdisk : ∀ x, (m₁.disk.write "/s.jsonl"
      (linesOf answeredFile ++ entryLine (.entry x))) "/s.jsonl"
        = some (linesOf (answeredFile ++ [.entry x])) := by
    intro x
    rw [Disk.write_self, linesOf_append, linesOf_singleton]
  have hload := (Records.lines _).load (hdisk (ask.entry (ioOf "c") m₁.manager))
  refine ⟨m₀, m₁, _, _, _, finalizeLoadedEntries
    (answeredFile ++ [.entry (ask.entry (ioOf "c") m₁.manager)]), hopen, hrun,
    hrun₁, ?_, ?_⟩
  · rw [repair_lines (hdisk _)]
    exact hload
  · intro heq
    have hlen := congrArg List.length heq
    have hfour : (ask.finish (ioOf "c")
        (ask.pushed (ioOf "c") m₁).manager).fileEntries.length = 4 := by
      simp only [AppendCall.finish_fileEntries, AppendCall.pushed_fileEntries,
        m₁, mapEntries, List.length_append, List.length_map, hon.fileEntries]
      rfl
    have hthree : (finalizeLoadedEntries (answeredFile
        ++ [.entry (ask.entry (ioOf "c") m₁.manager)])).length = 3 := rfl
    rw [hthree, hfour] at hlen
    omega

end OneHarness.Session
