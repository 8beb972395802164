/-
What becomes of a job when `writeJobs` is stopped between its files
(`kept_crashed_iff`).

Each file is written whole, and after the writes that were made it is either
what it was or what the merge makes of it (`get_crashedAfter`). The merge
leaves the job in one file, its destination, with its outstanding dispatches.
So a job that moves is lost when only the file it leaves was written, and
there are two of it when only the other one was.
-/
import OneHarness.Cron.Proofs.Store

namespace OneHarness.Cron

open Lib

-- ======== statement vocabulary

def CronJobsState.Holds (state : CronJobsState) (id : String) : Prop :=
  id ∈ state.jobs.map (·.id)

def CronJobsState.dispatchesOf (state : CronJobsState) (id : String) :
    List AgentCronDispatchRecord :=
  state.dispatches.filter (·.jobId = id)

/-- The job is in the artifact of this session with these dispatches, and
nothing of it is in another. -/
structure KeptIn (files : JsMap String CronJobsState) (id : String)
    (dispatches : List AgentCronDispatchRecord) (sessionId : String) :
    Prop where
  there : ∃ state, files.get sessionId = some state ∧ state.Holds id
    ∧ state.dispatchesOf id = dispatches
  elsewhere : ∀ other state, other ≠ sessionId →
    files.get other = some state →
    ¬state.Holds id ∧ state.dispatchesOf id = []

/-- It is in exactly one. -/
def Kept (files : JsMap String CronJobsState) (id : String)
    (dispatches : List AgentCronDispatchRecord) : Prop :=
  ∃ sessionId, KeptIn files id dispatches sessionId

/-- The session whose artifact a job is in after the call. -/
def destination (jobs : List AgentCronJob) (id sessionId : String) : String :=
  ((incomingById jobs).get id).elim sessionId (·.sessionId)

/-- The artifact of the session is among the first files that are written. -/
def WrittenBy (files : JsMap String CronJobsState) (jobs : List AgentCronJob)
    (writes : Nat) (sessionId : String) : Prop :=
  sessionId ∈ ((fileWrites files jobs).take writes).map Prod.fst

instance (files : JsMap String CronJobsState) (jobs : List AgentCronJob)
    (writes : Nat) (sessionId : String) :
    Decidable (WrittenBy files jobs writes sessionId) :=
  inferInstanceAs (Decidable (_ ∈ _))

-- ======== the files

variable {writes : Nat} {current : CronJobsState} {other : String}

section
variable {files : JsMap String CronJobsState} {jobs : List AgentCronJob}

/-- What the merge makes of the artifact of a session. -/
def mergedState (files : JsMap String CronJobsState)
    (jobs : List AgentCronJob) (sessionId : String) (current : CronJobsState) :
    CronJobsState :=
  { jobs := mergedJobs jobs sessionId current
    dispatches := (files.values.flatMap (·.dispatches)).filter fun dispatch =>
      (sessionIdByJobId files jobs).get dispatch.jobId = some sessionId }

theorem get_mergedFiles (files : JsMap String CronJobsState)
    (jobs : List AgentCronJob) (sessionId : String) :
    (mergedFiles files jobs).get sessionId
      = (files.get sessionId).map (mergedState files jobs sessionId) := by
  have hmap : ∀ (m : JsMap String CronJobsState)
      (f : String → CronJobsState → CronJobsState),
      JsMap.get (m.map fun p => (p.1, f p.1 p.2)) sessionId
        = (m.get sessionId).map (f sessionId) := by
    intro m f
    induction m with
    | nil => rfl
    | cons p m ih =>
      obtain ⟨k, v⟩ := p
      rw [List.map_cons, JsMap.get_cons, JsMap.get_cons]
      dsimp only
      by_cases hk : k = sessionId
      · subst hk
        rw [if_pos rfl, if_pos rfl]
        rfl
      · rw [if_neg hk, if_neg hk, ih]
  exact hmap files (mergedState files jobs)

theorem sublist_fileWrites (files : JsMap String CronJobsState)
    (jobs : List AgentCronJob) :
    (fileWrites files jobs).Sublist (mergedFiles files jobs) := by
  rw [fileWrites]
  by_cases hany : (jobs.any fun job => !files.has job.sessionId) = true
  · rw [if_pos hany]
    exact List.nil_sublist _
  · rw [if_neg hany]
    exact List.filter_sublist

/-- Nothing is written for a job without a registered session. -/
theorem WrittenBy.registered {sessionId : String}
    (h : WrittenBy files jobs writes sessionId) :
    ∀ job ∈ jobs, files.has job.sessionId = true := by
  intro job hjob
  by_contra hno
  have hany : (jobs.any fun job => !files.has job.sessionId) = true := by
    refine List.any_eq_true.2 ⟨job, hjob, ?_⟩
    rw [Bool.eq_false_of_not_eq_true hno]
    rfl
  rw [WrittenBy, fileWrites, if_pos hany, List.take_nil] at h
  cases h

/-- A file is what the merge makes of it once it is written. -/
theorem get_crashedAfter (hkeys : files.keys.Nodup) (writes : Nat)
    (sessionId : String) :
    (crashedAfter files jobs writes).get sessionId
      = if WrittenBy files jobs writes sessionId then
          (mergedFiles files jobs).get sessionId
        else files.get sessionId := by
  have hsub : ((fileWrites files jobs).take writes).Sublist
      (mergedFiles files jobs) :=
    (List.take_sublist _ _).trans (sublist_fileWrites files jobs)
  have hmerged : (mergedFiles files jobs).keys.Nodup := by
    rw [keys_mergedFiles]
    exact hkeys
  have hnodup : (((fileWrites files jobs).take writes).map Prod.fst).Nodup :=
    hmerged.sublist (hsub.map _)
  rw [crashedAfter, JsMap.get_foldl_set files hnodup]
  by_cases hwritten : WrittenBy files jobs writes sessionId
  · rw [if_pos hwritten]
    obtain ⟨p, hp, rfl⟩ := List.mem_map.1 hwritten
    have hfind : ((fileWrites files jobs).take writes).find?
        (fun q => q.1 = p.1) = some p :=
      (FreshMerge.find?_key_eq_some hnodup).2 ⟨hp, rfl⟩
    rw [hfind, JsMap.get_of_mem hmerged (hsub.subset hp)]
    rfl
  · rw [if_neg hwritten]
    have hnone : ((fileWrites files jobs).take writes).find?
        (fun q => q.1 = sessionId) = none := by
      refine List.find?_eq_none.2 fun q hq hkey => hwritten ?_
      rw [← of_decide_eq_true hkey]
      exact List.mem_map_of_mem hq
    rw [hnone]
    rfl

-- ======== the jobs

theorem mem_ids {jobs : List AgentCronJob} {id : String} :
    id ∈ jobs.map (·.id) ↔ ∃ job ∈ jobs, job.id = id := List.mem_map

theorem mem_ids_mergeFreshJobs (currents nexts : List AgentCronJob)
    (id : String) :
    id ∈ (mergeFreshJobs currents nexts).map (·.id)
      ↔ id ∈ currents.map (·.id) ∨ id ∈ nexts.map (·.id) :=
  FreshMerge.mem_keys_merge

/-- What comes in under an id is the last job of the list with it. -/
theorem get_incomingById_last (jobs : List AgentCronJob) (id : String) :
    (incomingById jobs).get id = (jobs.filter (·.id = id)).getLast? := by
  induction jobs using List.reverseRecOn with
  | nil => rfl
  | append_singleton jobs job ih =>
    rw [incomingById] at ih ⊢
    rw [List.foldl_append, List.foldl_cons, List.foldl_nil, JsMap.get_set,
      List.filter_append, List.filter_singleton]
    by_cases hid : job.id = id
    · rw [if_pos hid, decide_eq_true hid]
      exact List.getLast?_concat.symm
    · rw [if_neg hid, decide_eq_false hid, ih]
      exact congrArg _ (List.append_nil _).symm

/-- The artifacts that have a job after the merge. -/
theorem holds_mergedState {sessionId : String} {id : String} :
    (mergedState files jobs sessionId current).Holds id
      ↔ (current.Holds id ∧ ∀ incoming,
          (incomingById jobs).get id = some incoming →
            incoming.sessionId = sessionId)
        ∨ ∃ job ∈ jobs, job.id = id ∧ job.sessionId = sessionId := by
  change id ∈ (mergeFreshJobs _ _).map (·.id) ↔ _
  rw [mem_ids_mergeFreshJobs, mem_ids, mem_ids]
  refine or_congr ⟨?_, ?_⟩ ⟨?_, ?_⟩
  · rintro ⟨job, hjob, rfl⟩
    obtain ⟨hjob, hall⟩ := List.mem_filter.1 hjob
    refine ⟨List.mem_map_of_mem hjob, fun incoming hget => ?_⟩
    rw [hget] at hall
    exact of_decide_eq_true hall
  · rintro ⟨hholds, hall⟩
    obtain ⟨job, hjob, rfl⟩ := mem_ids.1 hholds
    refine ⟨job, List.mem_filter.2 ⟨hjob, ?_⟩, rfl⟩
    cases hget : (incomingById jobs).get job.id with
    | none => rfl
    | some incoming => exact decide_eq_true (hall incoming hget)
  · rintro ⟨job, hjob, hid⟩
    obtain ⟨hjob, hsession⟩ := List.mem_filter.1 hjob
    exact ⟨job, hjob, hid, of_decide_eq_true hsession⟩
  · rintro ⟨job, hjob, hid, hsession⟩
    exact ⟨job, List.mem_filter.2 ⟨hjob, decide_eq_true hsession⟩, hid⟩

variable {id sessionId : String} {dispatches : List AgentCronDispatchRecord}

/-- With one job of the id in the list, the merge puts it in one artifact. -/
theorem holds_mergedState_iff (hkept : KeptIn files id dispatches sessionId)
    (hone : (jobs.filter (·.id = id)).length ≤ 1)
    (hcurrent : files.get other = some current) :
    (mergedState files jobs other current).Holds id
      ↔ other = destination jobs id sessionId := by
  rw [holds_mergedState, destination]
  have hheld : current.Holds id ↔ other = sessionId := by
    constructor
    · intro hholds
      by_contra hne
      exact (hkept.elsewhere other current hne hcurrent).1 hholds
    · rintro rfl
      obtain ⟨state, hstate, hholds, -⟩ := hkept.there
      rw [hcurrent] at hstate
      exact Option.some.inj hstate ▸ hholds
  cases hget : (incomingById jobs).get id with
  | none =>
    have hnone : ¬∃ job ∈ jobs, job.id = id
        ∧ job.sessionId = other := by
      rintro ⟨job, hjob, hid, -⟩
      rw [get_incomingById_last, List.getLast?_eq_none_iff] at hget
      have hmem : job ∈ jobs.filter (·.id = id) :=
        List.mem_filter.2 ⟨hjob, decide_eq_true hid⟩
      rw [hget] at hmem
      cases hmem
    rw [or_iff_left hnone, hheld]
    exact and_iff_left fun incoming h => by cases h
  | some job =>
    rw [get_incomingById_last] at hget
    have hmem := List.mem_of_getLast? hget
    obtain ⟨hjob, hid⟩ := List.mem_filter.1 hmem
    have honly : ∀ n ∈ jobs, n.id = id → n = job := by
      intro n hn hnid
      have hmemn : n ∈ jobs.filter (·.id = id) :=
        List.mem_filter.2 ⟨hn, decide_eq_true hnid⟩
      obtain ⟨m, hm⟩ := List.length_eq_one_iff.1
        (Nat.le_antisymm hone (List.length_pos_of_mem hmem))
      rw [hm, List.mem_singleton] at hmem hmemn
      rw [hmem, hmemn]
    dsimp only [Option.elim]
    constructor
    · rintro (⟨-, hall⟩ | ⟨n, hn, hnid, hsession⟩)
      · exact (hall job rfl).symm
      · rw [← hsession, honly n hn hnid]
    · rintro rfl
      exact .inr ⟨job, hjob, of_decide_eq_true hid, rfl⟩

-- ======== the dispatches

section
variable (hkeys : files.keys.Nodup)
include hkeys

/-- All the dispatches of a job are those of its artifact. -/
theorem allDispatches (hkept : KeptIn files id dispatches sessionId) :
    (files.values.flatMap (·.dispatches)).filter (·.jobId = id)
      = dispatches := by
  obtain ⟨state, hstate, -, hdispatches⟩ := hkept.there
  obtain ⟨before, after, rfl⟩ :=
    List.append_of_mem (JsMap.mem_of_get hstate)
  have hothers : ∀ p ∈ before ++ after, p.2.dispatchesOf id = [] := by
    intro p hp
    have hmem : p ∈ before ++ (sessionId, state) :: after := by
      rcases List.mem_append.1 hp with hp | hp
      · exact List.mem_append_left _ hp
      · exact List.mem_append_right _ (List.mem_cons_of_mem _ hp)
    refine (hkept.elsewhere p.1 p.2 ?_ (JsMap.get_of_mem hkeys hmem)).2
    rintro hkey
    have hnodup : ((before ++ after).map Prod.fst).Nodup
        ∧ sessionId ∉ (before ++ after).map Prod.fst := by
      have hmiddle : (before ++ (sessionId, state) :: after).Perm
          ((sessionId, state) :: (before ++ after)) := List.perm_middle
      have hperm := hmiddle.map Prod.fst
      exact (List.nodup_cons.1 (hperm.nodup_iff.1 hkeys)).symm
    exact hnodup.2 (hkey ▸ List.mem_map_of_mem hp)
  have hnone : ∀ ps : List (String × CronJobsState),
      (∀ p ∈ ps, p.2.dispatchesOf id = []) →
      ((ps.map Prod.snd).flatMap (·.dispatches)).filter (·.jobId = id)
        = [] := by
    intro ps hps
    refine List.filter_eq_nil_iff.2 fun dispatch hmem => ?_
    obtain ⟨other, hother, hmem⟩ := List.mem_flatMap.1 hmem
    obtain ⟨p, hp, rfl⟩ := List.mem_map.1 hother
    exact List.filter_eq_nil_iff.1 (hps p hp) dispatch hmem
  rw [JsMap.values, List.map_append, List.flatMap_append, List.filter_append,
    List.map_cons, List.flatMap_cons, List.filter_append,
    hnone before fun p hp => hothers p (List.mem_append_left _ hp),
    hnone after fun p hp => hothers p (List.mem_append_right _ hp),
    List.append_nil, List.nil_append]
  exact hdispatches

omit hkeys in
/-- The session that is found for a job, when one artifact has it. -/
theorem get_sessionIdByJobId {id target : String}
    (honly : ∀ p ∈ files, id ∈ (mergedJobs jobs p.1 p.2).map (·.id) →
      p.1 = target)
    (hthere : ∃ p ∈ files, id ∈ (mergedJobs jobs p.1 p.2).map (·.id)) :
    (sessionIdByJobId files jobs).get id = some target := by
  have hinner : ∀ (l : List AgentCronJob) (session : String)
      (ids : JsMap String String),
      (l.foldl (fun ids job => ids.set job.id session) ids).get id
        = if id ∈ l.map (·.id) then some session else ids.get id := by
    intro l session ids
    induction l generalizing ids with
    | nil => rfl
    | cons job l ih =>
      rw [List.foldl_cons, ih, JsMap.get_set, List.map_cons]
      by_cases hl : id ∈ l.map (·.id)
      · rw [if_pos hl, if_pos (List.mem_cons_of_mem _ hl)]
      · rw [if_neg hl]
        by_cases hid : job.id = id
        · rw [if_pos hid, if_pos (List.mem_cons.2 (.inl hid.symm))]
        · rw [if_neg hid, if_neg]
          intro hmem
          rcases List.mem_cons.1 hmem with heq | hmem
          · exact hid heq.symm
          · exact hl hmem
  have houter : ∀ (m : List (String × CronJobsState))
      (ids : JsMap String String),
      (∀ p ∈ m, id ∈ (mergedJobs jobs p.1 p.2).map (·.id) →
        p.1 = target) →
      ((∃ p ∈ m, id ∈ (mergedJobs jobs p.1 p.2).map (·.id))
        ∨ ids.get id = some target) →
      (m.foldl (fun ids p => (mergedJobs jobs p.1 p.2).foldl
        (fun ids job => ids.set job.id p.1) ids) ids).get id
        = some target := by
    intro m
    induction m with
    | nil =>
      intro ids _ hor
      rcases hor with ⟨p, hp, -⟩ | hget
      · cases hp
      · exact hget
    | cons p m ih =>
      intro ids hall hor
      rw [List.foldl_cons]
      refine ih _ (fun q hq => hall q (List.mem_cons_of_mem p hq)) ?_
      rw [hinner]
      by_cases hp : id ∈ (mergedJobs jobs p.1 p.2).map (·.id)
      · right
        rw [if_pos hp, hall p List.mem_cons_self hp]
      · rw [if_neg hp]
        rcases hor with ⟨q, hq, hmem⟩ | hget
        · rcases List.mem_cons.1 hq with rfl | hq
          · exact absurd hmem hp
          · exact .inl ⟨q, hq, hmem⟩
        · exact .inr hget
  exact houter files [] honly (.inl hthere)

/-- The merge puts the dispatches of a job with it. -/
theorem dispatchesOf_mergedState (hkept : KeptIn files id dispatches sessionId)
    (hone : (jobs.filter (·.id = id)).length ≤ 1)
    (hregistered : files.has (destination jobs id sessionId) = true)
    (other : String) (current : CronJobsState) :
    (mergedState files jobs other current).dispatchesOf id
      = if other = destination jobs id sessionId then dispatches else [] := by
  have hget : (sessionIdByJobId files jobs).get id
      = some (destination jobs id sessionId) := by
    refine get_sessionIdByJobId (fun p hp hmem => ?_) ?_
    · exact (holds_mergedState_iff hkept hone
        (JsMap.get_of_mem hkeys hp)).1 hmem
    · obtain ⟨state, hstate⟩ := Option.isSome_iff_exists.1 hregistered
      exact ⟨_, JsMap.mem_of_get hstate,
        (holds_mergedState_iff hkept hone hstate).2 rfl⟩
  have hall := allDispatches hkeys hkept
  rw [CronJobsState.dispatchesOf, mergedState, List.filter_filter]
  by_cases hother : other = destination jobs id sessionId
  · rw [if_pos hother, ← hall]
    refine List.filter_congr fun dispatch _ => ?_
    by_cases hid : dispatch.jobId = id
    · rw [hid, hget, hother]
      simp
    · simp [hid]
  · rw [if_neg hother]
    refine List.filter_eq_nil_iff.2 fun dispatch _ hboth => ?_
    simp only [Bool.and_eq_true, decide_eq_true_eq] at hboth
    obtain ⟨hid, hsession⟩ := hboth
    rw [hid, hget] at hsession
    exact hother (Option.some.inj hsession).symm

-- ======== the crash

/-- The artifact of the session has the job after the crash. -/
def Has (files : JsMap String CronJobsState) (jobs : List AgentCronJob)
    (writes : Nat) (id sessionId other : String) : Prop :=
  if WrittenBy files jobs writes other then
    other = destination jobs id sessionId
  else other = sessionId

omit hkeys in
theorem WrittenBy.mem_keys
    (h : WrittenBy files jobs writes other) : files.has other = true := by
  have hsub : ((fileWrites files jobs).take writes).Sublist
      (mergedFiles files jobs) :=
    (List.take_sublist _ _).trans (sublist_fileWrites files jobs)
  have hmem := (hsub.map Prod.fst).subset h
  have hkey : other ∈ (mergedFiles files jobs).keys := hmem
  rw [keys_mergedFiles] at hkey
  exact JsMap.has_eq_true_iff.2 hkey

omit hkeys in
/-- A job goes to the artifact of a registered session. -/
theorem registered_destination (hkept : KeptIn files id dispatches sessionId)
    (hregistered : ∀ job ∈ jobs, files.has job.sessionId = true) :
    files.has (destination jobs id sessionId) = true := by
  rw [destination]
  cases hget : (incomingById jobs).get id with
  | none =>
    obtain ⟨state, hstate, -⟩ := hkept.there
    exact Option.isSome_iff_exists.2 ⟨state, hstate⟩
  | some job =>
    rw [get_incomingById_last] at hget
    exact hregistered job (List.mem_of_mem_filter (List.mem_of_getLast? hget))

/-- An artifact after the crash, for the job. -/
theorem crashed_artifact (hkept : KeptIn files id dispatches sessionId)
    (hone : (jobs.filter (·.id = id)).length ≤ 1) (writes : Nat)
    {state : CronJobsState}
    (hstate : (crashedAfter files jobs writes).get other = some state) :
    (state.Holds id ↔ Has files jobs writes id sessionId other)
      ∧ (¬Has files jobs writes id sessionId other →
        state.dispatchesOf id = [])
      ∧ (Has files jobs writes id sessionId other →
        state.dispatchesOf id = dispatches) := by
  rw [get_crashedAfter hkeys] at hstate
  rw [Has]
  by_cases hwritten : WrittenBy files jobs writes other
  · rw [if_pos hwritten, get_mergedFiles] at hstate
    rw [if_pos hwritten]
    obtain ⟨current, hcurrent, rfl⟩ := Option.map_eq_some_iff.1 hstate
    have hdispatches := dispatchesOf_mergedState hkeys hkept hone
      (registered_destination hkept hwritten.registered) other current
    refine ⟨holds_mergedState_iff hkept hone hcurrent, fun hno => ?_,
      fun hyes => ?_⟩
    · rw [hdispatches, if_neg hno]
    · rw [hdispatches, if_pos hyes]
  · rw [if_neg hwritten] at hstate ⊢
    obtain ⟨there, hthere, hholds, hdispatches⟩ := hkept.there
    refine ⟨⟨fun h => ?_, ?_⟩, fun hno => ?_, ?_⟩
    · by_contra hne
      exact (hkept.elsewhere other state hne hstate).1 h
    · rintro rfl
      rw [hthere] at hstate
      exact Option.some.inj hstate ▸ hholds
    · exact (hkept.elsewhere other state hno hstate).2
    · rintro rfl
      rw [hthere] at hstate
      exact Option.some.inj hstate ▸ hdispatches

/-- The artifacts after the crash are those of before. -/
theorem has_crashedAfter (writes : Nat)
    (other : String) :
    (∃ state, (crashedAfter files jobs writes).get other = some state)
      ↔ files.has other = true := by
  rw [get_crashedAfter hkeys, JsMap.has, Option.isSome_iff_exists]
  by_cases hwritten : WrittenBy files jobs writes other
  · rw [if_pos hwritten, get_mergedFiles]
    constructor
    · rintro ⟨state, hstate⟩
      obtain ⟨current, hcurrent, -⟩ := Option.map_eq_some_iff.1 hstate
      exact ⟨current, hcurrent⟩
    · rintro ⟨current, hcurrent⟩
      exact ⟨_, by rw [hcurrent]; rfl⟩
  · rw [if_neg hwritten]

/-- It is in one file after the crash when one artifact has it. -/
theorem kept_crashed (hkept : KeptIn files id dispatches sessionId)
    (hone : (jobs.filter (·.id = id)).length ≤ 1) (writes : Nat) :
    Kept (crashedAfter files jobs writes) id dispatches
      ↔ ∃ target, files.has target = true
        ∧ Has files jobs writes id sessionId target
        ∧ ∀ other, files.has other = true →
          Has files jobs writes id sessionId other → other = target := by
  constructor
  · rintro ⟨target, ⟨state, hstate, hholds, -⟩, helsewhere⟩
    have hhas := (crashed_artifact hkeys hkept hone writes hstate).1.1 hholds
    have hregistered := (has_crashedAfter hkeys writes target).1 ⟨_, hstate⟩
    refine ⟨target, hregistered, hhas, fun other hother hotherHas => ?_⟩
    obtain ⟨state', hstate'⟩ :=
      (has_crashedAfter hkeys writes other).2 hother
    by_contra hne
    apply (helsewhere other state' hne hstate').1
    exact (crashed_artifact hkeys hkept hone writes hstate').1.2 hotherHas
  · rintro ⟨target, hregistered, hhas, honly⟩
    obtain ⟨state, hstate⟩ := (has_crashedAfter hkeys writes target).2
      hregistered
    obtain ⟨hholds, -, hdispatches⟩ :=
      crashed_artifact hkeys hkept hone writes hstate
    refine ⟨target, ⟨state, hstate, hholds.2 hhas, hdispatches hhas⟩,
      fun other state' hne hstate' => ?_⟩
    obtain ⟨hholds', hnone, -⟩ :=
      crashed_artifact hkeys hkept hone writes hstate'
    have hno : ¬Has files jobs writes id sessionId other := fun hother =>
      hne (honly other ((has_crashedAfter hkeys writes other).1
        ⟨_, hstate'⟩) hother)
    exact ⟨fun h => hno (hholds'.1 h), hnone hno⟩

end

/-- After any of the writes the job is in one file with its outstanding
dispatches, if not just one of the two files it moves between is written. -/
theorem kept_crashed_iff (hkeys : files.keys.Nodup)
    (hkept : KeptIn files id dispatches sessionId)
    (hone : (jobs.filter (·.id = id)).length ≤ 1) (writes : Nat) :
    Kept (crashedAfter files jobs writes) id dispatches
      ↔ (WrittenBy files jobs writes sessionId
        ↔ WrittenBy files jobs writes (destination jobs id sessionId)) := by
  have hsource : files.has sessionId = true := by
    obtain ⟨state, hstate, -⟩ := hkept.there
    exact Option.isSome_iff_exists.2 ⟨state, hstate⟩
  rw [kept_crashed hkeys hkept hone]
  constructor
  · rintro ⟨target, -, hhas, honly⟩
    by_cases hfrom : WrittenBy files jobs writes sessionId
    · -- where it was it is no more, so it is where it goes
      refine iff_of_true hfrom ?_
      rw [Has] at hhas
      by_cases htarget : WrittenBy files jobs writes target
      · rw [if_pos htarget] at hhas
        exact hhas ▸ htarget
      · rw [if_neg htarget] at hhas
        exact absurd (hhas ▸ hfrom) htarget
    · refine iff_of_false hfrom fun hto => ?_
      have hold : Has files jobs writes id sessionId sessionId := by
        rw [Has, if_neg hfrom]
      have hnew : Has files jobs writes id sessionId
          (destination jobs id sessionId) := by
        rw [Has, if_pos hto]
      have hsame := (honly _ hsource hold).trans
        (honly _ hto.mem_keys hnew).symm
      exact hfrom (hsame ▸ hto)
  · intro hiff
    by_cases hfrom : WrittenBy files jobs writes sessionId
    · have hto := hiff.1 hfrom
      refine ⟨_, hto.mem_keys, by rw [Has, if_pos hto],
        fun other _ hother => ?_⟩
      rw [Has] at hother
      by_cases hwritten : WrittenBy files jobs writes other
      · rwa [if_pos hwritten] at hother
      · rw [if_neg hwritten] at hother
        exact absurd (hother ▸ hfrom) hwritten
    · refine ⟨sessionId, hsource, by rw [Has, if_neg hfrom],
        fun other _ hother => ?_⟩
      rw [Has] at hother
      by_cases hwritten : WrittenBy files jobs writes other
      · rw [if_pos hwritten] at hother
        exact absurd (hiff.2 (hother ▸ hwritten)) hfrom
      · rwa [if_neg hwritten] at hother

end

-- ======== a move stopped

/-- The session of `leapJob` goes on in a new file. -/
def nextSession : RebindInput where
  activeSessionId := "active"
  sessionId := "next"
  sessionFile := "/sessions/next.jsonl"
  cwd := "/"

def movedJob : AgentCronJob :=
  { leapJob with sessionId := "next", sessionFile := "/sessions/next.jsonl" }

def leapDispatch : AgentCronDispatchRecord :=
  ⟨"dispatch", "leap", leapEve, leapDay⟩

/-- The old artifact was registered before the new one. -/
def twoArtifacts : JsMap String CronJobsState :=
  [("session", ⟨[leapJob], [leapDispatch]⟩), ("next", ⟨[], []⟩)]

theorem keptIn_twoArtifacts :
    KeptIn twoArtifacts "leap" [leapDispatch] "session" := by
  refine ⟨⟨⟨[leapJob], [leapDispatch]⟩, rfl, List.mem_singleton.2 rfl, rfl⟩,
    fun other state hne hstate => ?_⟩
  rw [twoArtifacts, JsMap.get_cons, if_neg hne.symm, JsMap.get_cons] at hstate
  by_cases hnext : "next" = other
  · rw [if_pos hnext] at hstate
    obtain rfl := Option.some.inj hstate
    exact ⟨List.not_mem_nil, rfl⟩
  · rw [if_neg hnext] at hstate
    cases hstate

theorem kept_crashed_iff_moved :
    Kept (crashedAfter twoArtifacts [movedJob] 2) "leap" [leapDispatch] := by
  apply (kept_crashed_iff (by decide) keptIn_twoArtifacts (by decide) 2).2
  decide +kernel

/-- When the process dies between the two writes of the move, the job is in
neither file. And it ends up in both, crash or not, when the list has it with
the one session and with the other. -/
theorem not_kept_crashed :
    rebindSessionJobs id [leapJob] nextSession
        = .ok ⟨some [movedJob], [movedJob]⟩
      ∧ ¬Kept (crashedAfter twoArtifacts [movedJob] 1) "leap" [leapDispatch]
      ∧ ¬Kept (crashedAfter twoArtifacts [movedJob, leapJob] 2) "leap"
          [leapDispatch] := by
  have hlost : ∀ p ∈ crashedAfter twoArtifacts [movedJob] 1,
      p.2.jobs = [] := by
    decide +kernel
  have hold : ((crashedAfter twoArtifacts [movedJob, leapJob] 2).get
      "session").map (·.jobs) = some [leapJob] := by
    decide +kernel
  have hnew : ((crashedAfter twoArtifacts [movedJob, leapJob] 2).get
      "next").map (·.jobs) = some [movedJob] := by
    decide +kernel
  refine ⟨rfl, ?_, ?_⟩
  · rintro ⟨sessionId, ⟨state, hstate, hholds, -⟩, -⟩
    rw [CronJobsState.Holds, hlost _ (JsMap.mem_of_get hstate)] at hholds
    cases hholds
  · rintro ⟨sessionId, -, helsewhere⟩
    obtain ⟨old, hgetOld, hjobsOld⟩ := Option.map_eq_some_iff.1 hold
    obtain ⟨new, hgetNew, hjobsNew⟩ := Option.map_eq_some_iff.1 hnew
    by_cases hsession : "session" = sessionId
    · refine (helsewhere "next" new ?_ hgetNew).1 ?_
      · rw [← hsession]
        decide
      · rw [CronJobsState.Holds, hjobsNew]
        exact List.mem_singleton.2 rfl
    · refine (helsewhere "session" old hsession hgetOld).1 ?_
      rw [CronJobsState.Holds, hjobsOld]
      exact List.mem_singleton.2 rfl

end OneHarness.Cron
