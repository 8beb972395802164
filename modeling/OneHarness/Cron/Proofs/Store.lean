/-
What `writeJobs` makes of the jobs it is handed (`Written`), and the
operations that only settle jobs: their ids and sessions stay, and a job that
is no live heartbeat does not become one (`Settles`).
-/
import OneHarness.Cron.Store
import OneHarness.Cron.Proofs.Claim

namespace OneHarness.Cron

open Lib LocalTime Session

/-- No two jobs have one id. -/
def DistinctIds (jobs : List AgentCronJob) : Prop :=
  (jobs.map (·.id)).Nodup

/-- Every job is in the artifact of its session. -/
def Store.Placed : Store → Prop
  | .jobsFile _ => True
  | .sessionArtifacts files =>
    files.keys.Nodup ∧ ∀ p ∈ files, ∀ job ∈ p.2.jobs, job.sessionId = p.1

def Store.Registered : Store → String → Prop
  | .jobsFile _, _ => True
  | .sessionArtifacts files, sessionId => files.has sessionId = true

variable {job job' : AgentCronJob}

theorem DistinctIds.eq {jobs : List AgentCronJob} (h : DistinctIds jobs)
    (hjob : job ∈ jobs) (hjob' : job' ∈ jobs)
    (hid : job.id = job'.id) : job = job' :=
  List.inj_on_of_nodup_map h hjob hjob' hid

-- ======== the merge

/-- The jobs after a merge: those handed in, and those that are newer. -/
def Fresh (currents nexts : List AgentCronJob) (job : AgentCronJob) : Prop :=
  (job ∈ nexts ∧ ∀ c ∈ currents, c.id = job.id →
      c.updatedAt.1 ≤ job.updatedAt.1)
    ∨ (job ∈ currents ∧ ∀ n ∈ nexts, n.id = job.id →
      n.updatedAt.1 < job.updatedAt.1)

variable {currents nexts : List AgentCronJob}

theorem mem_mergeFreshJobs
    (hcurrents : DistinctIds currents) (hnexts : DistinctIds nexts)
    :
    job ∈ mergeFreshJobs currents nexts ↔ Fresh currents nexts job :=
  FreshMerge.mem_merge hcurrents hnexts

theorem distinctIds_mergeFreshJobs (currents nexts : List AgentCronJob) :
    DistinctIds (mergeFreshJobs currents nexts) :=
  FreshMerge.nodup_merge currents nexts

/-- A job handed in stays in its session, or as old as it was. -/
def Moves (currents nexts : List AgentCronJob) : Prop :=
  ∀ n ∈ nexts, ∀ c ∈ currents, c.id = n.id →
    n.sessionId = c.sessionId ∨ c.updatedAt = n.updatedAt

structure Written (store : Store) (jobs : List AgentCronJob) (store' : Store) :
    Prop where
  placed : store'.Placed
  distinct : DistinctIds store'.readJobs
  mem : ∀ job, job ∈ store'.readJobs ↔ Fresh store.readJobs jobs job

variable {id : String}

section
variable {files : JsMap String CronJobsState} {jobs : List AgentCronJob}
  {sessionId : String} {current : CronJobsState}

theorem mem_readJobs_artifacts :
    job ∈ (Store.sessionArtifacts files).readJobs
      ↔ ∃ p ∈ files, job ∈ p.2.jobs := by
  unfold Store.readJobs Store.readStates JsMap.values
  rw [List.mem_flatMap]
  constructor
  · rintro ⟨state, hstate, hjob⟩
    obtain ⟨p, hp, rfl⟩ := List.mem_map.1 hstate
    exact ⟨p, hp, hjob⟩
  · rintro ⟨p, hp, hjob⟩
    exact ⟨p.2, List.mem_map_of_mem hp, hjob⟩

theorem get_incomingById (hjobs : DistinctIds jobs) {incoming : AgentCronJob} :
    (incomingById jobs).get id = some incoming
      ↔ incoming ∈ jobs ∧ incoming.id = id := by
  unfold incomingById
  rw [JsMap.get_foldl_set [] hjobs, JsMap.get_nil, Option.or_none,
    Option.map_id']
  exact FreshMerge.find?_key_eq_some hjobs

theorem mem_retained (hjobs : DistinctIds jobs) :
    job ∈ retained jobs sessionId current
      ↔ job ∈ current.jobs ∧ ∀ n ∈ jobs, n.id = job.id →
        n.sessionId = sessionId := by
  unfold retained
  rw [List.mem_filter]
  constructor
  · rintro ⟨hjob, hall⟩
    refine ⟨hjob, fun n hn hid => ?_⟩
    rw [(get_incomingById hjobs).2 ⟨hn, hid⟩] at hall
    exact of_decide_eq_true hall
  · rintro ⟨hjob, hall⟩
    refine ⟨hjob, ?_⟩
    cases hget : (incomingById jobs).get job.id with
    | none => rfl
    | some n =>
      obtain ⟨hn, hid⟩ := (get_incomingById hjobs).1 hget
      exact decide_eq_true (hall n hn hid)

theorem distinctIds_filter (h : DistinctIds jobs) (p : AgentCronJob → Bool) :
    DistinctIds (jobs.filter p) :=
  List.Nodup.sublist (List.filter_sublist.map _) h

theorem mem_mergedJobs (hcurrent : DistinctIds current.jobs)
    (hjobs : DistinctIds jobs) :
    job ∈ mergedJobs jobs sessionId current
      ↔ Fresh (retained jobs sessionId current)
        (jobs.filter (·.sessionId = sessionId)) job :=
  mem_mergeFreshJobs (distinctIds_filter hcurrent _)
    (distinctIds_filter hjobs _)

theorem distinctIds_artifact
    (h : DistinctIds (Store.sessionArtifacts files).readJobs)
    {p : String × CronJobsState} (hp : p ∈ files) : DistinctIds p.2.jobs := by
  apply List.Nodup.sublist _ h
  apply List.Sublist.map
  apply List.sublist_flatten_of_mem
  exact List.mem_map_of_mem (List.mem_map_of_mem hp)

/-- Over the artifacts, the merge is the one of all their jobs. -/
theorem mem_mergedFiles (hplaced : (Store.sessionArtifacts files).Placed)
    (hcurrents : DistinctIds (Store.sessionArtifacts files).readJobs)
    (hjobs : DistinctIds jobs)
    (hmoves : Moves (Store.sessionArtifacts files).readJobs jobs)
    (hregistered : ∀ job ∈ jobs, files.has job.sessionId = true)
    :
    (∃ p ∈ files, job ∈ mergedJobs jobs p.1 p.2)
      ↔ Fresh (Store.sessionArtifacts files).readJobs jobs job := by
  constructor
  · rintro ⟨p, hp, hmem⟩
    have hdistinct := distinctIds_artifact hcurrents hp
    rcases (mem_mergedJobs hdistinct hjobs).1 hmem with
      ⟨hjob, hnewer⟩ | ⟨hjob, holder⟩
    · obtain ⟨hjob, hsession⟩ := List.mem_filter.1 hjob
      have hsession := of_decide_eq_true hsession
      refine .inl ⟨hjob, fun c hc hid => ?_⟩
      rcases hmoves job hjob c hc hid with hstays | hsame
      · -- the one that is there is in the file that the job goes to
        obtain ⟨q, hq, hcq⟩ := mem_readJobs_artifacts.1 hc
        have hkey : q.1 = p.1 := by
          rw [← hplaced.2 q hq c hcq, ← hstays, hsession]
        have hqp : q = p := List.inj_on_of_nodup_map hplaced.1 hq hp hkey
        rw [hqp] at hcq
        apply hnewer c _ hid
        refine (mem_retained hjobs).2 ⟨hcq, fun n hn hnid => ?_⟩
        rw [hjobs.eq hn hjob (hnid.trans hid)]
        exact hsession
      · rw [hsame]
    · obtain ⟨hjob, hstays⟩ := (mem_retained hjobs).1 hjob
      refine .inr ⟨mem_readJobs_artifacts.2 ⟨p, hp, hjob⟩, fun n hn hid => ?_⟩
      apply holder n _ hid
      exact List.mem_filter.2 ⟨hn, decide_eq_true (hstays n hn hid)⟩
  · rintro (⟨hjob, hnewer⟩ | ⟨hjob, holder⟩)
    · have hkey := JsMap.has_eq_true_iff.1 (hregistered job hjob)
      obtain ⟨p, hp, hpkey⟩ := List.mem_map.1 hkey
      refine ⟨p, hp, (mem_mergedJobs (distinctIds_artifact hcurrents hp)
        hjobs).2 (.inl ⟨?_, fun c hc hid => ?_⟩)⟩
      · exact List.mem_filter.2 ⟨hjob, decide_eq_true hpkey.symm⟩
      · have hc := ((mem_retained hjobs).1 hc).1
        exact hnewer c (mem_readJobs_artifacts.2 ⟨p, hp, hc⟩) hid
    · obtain ⟨p, hp, hjobp⟩ := mem_readJobs_artifacts.1 hjob
      refine ⟨p, hp, (mem_mergedJobs (distinctIds_artifact hcurrents hp)
        hjobs).2 (.inr ⟨?_, fun n hn hid => ?_⟩)⟩
      · refine (mem_retained hjobs).2 ⟨hjobp, fun n hn hid => ?_⟩
        rcases hmoves n hn job hjob hid.symm with hstays | hsame
        · rw [hstays]
          exact hplaced.2 p hp job hjobp
        · have hlt := holder n hn hid
          rw [hsame] at hlt
          omega
      · exact holder n (List.mem_filter.1 hn).1 hid

theorem session_of_mem_mergedJobs
    (hplaced : ∀ job ∈ current.jobs, job.sessionId = sessionId)
    (hcurrent : DistinctIds current.jobs) (hjobs : DistinctIds jobs)
    (h : job ∈ mergedJobs jobs sessionId current) :
    job.sessionId = sessionId := by
  rcases (mem_mergedJobs hcurrent hjobs).1 h with ⟨hjob, -⟩ | ⟨hjob, -⟩
  · exact of_decide_eq_true (List.mem_filter.1 hjob).2
  · exact hplaced job ((mem_retained hjobs).1 hjob).1

end

-- ======== the written store

theorem find?_unregistered {files : JsMap String CronJobsState}
    {jobs : List AgentCronJob} :
    jobs.find? (fun job => !files.has job.sessionId) = none
      ↔ ∀ job ∈ jobs, files.has job.sessionId = true := by
  rw [List.find?_eq_none]
  apply forall₂_congr
  intro job _
  rw [Bool.not_eq_true, Bool.not_eq_false']

/-- The write goes through exactly if every job has a registered session. -/
theorem writeJobs_ok_iff {store : Store} {jobs : List AgentCronJob} :
    (∃ store', store.writeJobs jobs = .ok store')
      ↔ ∀ job ∈ jobs, store.Registered job.sessionId := by
  cases store with
  | jobsFile state => exact iff_of_true ⟨_, rfl⟩ fun _ _ => trivial
  | sessionArtifacts files =>
    unfold Store.writeJobs
    dsimp only
    cases hfind : jobs.find? fun job => !files.has job.sessionId with
    | none => exact iff_of_true ⟨_, rfl⟩ (find?_unregistered.1 hfind)
    | some job =>
      apply iff_of_false
      · rintro ⟨store', h⟩
        cases h
      · intro hall
        rw [find?_unregistered.2 hall] at hfind
        cases hfind

theorem keys_mergedFiles (files : JsMap String CronJobsState)
    (jobs : List AgentCronJob) :
    (mergedFiles files jobs).keys = files.keys := by
  unfold mergedFiles JsMap.keys
  rw [List.map_map]
  rfl

theorem mem_mergedFiles_jobs {files : JsMap String CronJobsState}
    {jobs : List AgentCronJob} :
    job ∈ (Store.sessionArtifacts (mergedFiles files jobs)).readJobs
      ↔ ∃ p ∈ files, job ∈ mergedJobs jobs p.1 p.2 := by
  rw [mem_readJobs_artifacts]
  unfold mergedFiles
  constructor
  · rintro ⟨q, hq, hjob⟩
    obtain ⟨p, hp, rfl⟩ := List.mem_map.1 hq
    exact ⟨p, hp, hjob⟩
  · rintro ⟨p, hp, hjob⟩
    exact ⟨_, List.mem_map_of_mem hp, hjob⟩

/-- A merge has no two jobs with one id. -/
theorem Fresh.eq (hcurrents : DistinctIds currents) (hnexts : DistinctIds nexts)
    (h : Fresh currents nexts job)
    (h' : Fresh currents nexts job') (hid : job.id = job'.id) : job = job' := by
  rcases h with ⟨hmem, hnewer⟩ | ⟨hmem, holder⟩
  · rcases h' with ⟨hmem', -⟩ | ⟨hmem', holder'⟩
    · exact hnexts.eq hmem hmem' hid
    · have hle := hnewer job' hmem' hid.symm
      have hlt := holder' job hmem hid
      omega
  · rcases h' with ⟨hmem', hnewer'⟩ | ⟨hmem', -⟩
    · have hlt := holder job' hmem' hid.symm
      have hle := hnewer' job hmem hid
      omega
    · exact hcurrents.eq hmem hmem' hid

/-- The artifacts of distinct sessions have distinct jobs. -/
theorem distinctIds_flatMap {files : JsMap String CronJobsState}
    (hkeys : files.keys.Nodup)
    (hplaced : ∀ p ∈ files, ∀ job ∈ p.2.jobs, job.sessionId = p.1)
    (hdistinct : ∀ p ∈ files, DistinctIds p.2.jobs)
    (hsame : ∀ p ∈ files, ∀ q ∈ files, ∀ job ∈ p.2.jobs, ∀ job' ∈ q.2.jobs,
      job.id = job'.id → job = job') :
    DistinctIds (Store.sessionArtifacts files).readJobs := by
  unfold DistinctIds Store.readJobs Store.readStates JsMap.values
  rw [List.map_flatMap, List.flatMap_map, List.nodup_flatMap]
  refine ⟨hdistinct, ?_⟩
  have hpairs : files.Pairwise fun p q => p.1 ≠ q.1 := by
    unfold JsMap.keys at hkeys
    exact List.pairwise_map.1 hkeys
  refine List.Pairwise.imp_of_mem ?_ hpairs
  intro p q hp hq hne id hid hid'
  obtain ⟨job, hjob, rfl⟩ := List.mem_map.1 hid
  obtain ⟨job', hjob', heq⟩ := List.mem_map.1 hid'
  have hjobs := hsame p hp q hq job hjob job' hjob' heq.symm
  apply hne
  rw [← hplaced p hp job hjob, hjobs]
  exact hplaced q hq job' hjob'

theorem writeJobs_written {store store' : Store} {jobs : List AgentCronJob}
    (hplaced : store.Placed) (hcurrents : DistinctIds store.readJobs)
    (hjobs : DistinctIds jobs) (hmoves : Moves store.readJobs jobs)
    (h : store.writeJobs jobs = .ok store') : Written store jobs store' := by
  cases store with
  | jobsFile state =>
    have heq := Except.ok.inj h
    have hread : ∀ state : CronJobsState,
        (Store.jobsFile state).readJobs = state.jobs := fun state =>
      List.append_nil state.jobs
    rw [← heq]
    rw [hread] at hcurrents
    refine ⟨trivial, ?_, fun job => ?_⟩
    · rw [hread]
      exact distinctIds_mergeFreshJobs state.jobs jobs
    · rw [hread, hread]
      exact mem_mergeFreshJobs hcurrents hjobs
  | sessionArtifacts files =>
    have hregistered : _ ↔ ∀ job ∈ jobs, files.has job.sessionId = true :=
      find?_unregistered
    unfold Store.writeJobs at h
    dsimp only at h
    cases hfind : jobs.find? fun job => !files.has job.sessionId with
    | some job =>
      rw [hfind] at h
      cases h
    | none =>
      rw [hfind] at h
      have heq := Except.ok.inj h
      rw [← heq]
      have hmem : ∀ {job}, job ∈ (Store.sessionArtifacts
          (mergedFiles files jobs)).readJobs
            ↔ Fresh (Store.sessionArtifacts files).readJobs jobs job :=
        mem_mergedFiles_jobs.trans (mem_mergedFiles hplaced hcurrents hjobs
          hmoves (hregistered.1 hfind))
      have hkeys : (mergedFiles files jobs).keys.Nodup := by
        rw [keys_mergedFiles]
        exact hplaced.1
      have hsessions : ∀ p ∈ mergedFiles files jobs, ∀ job ∈ p.2.jobs,
          job.sessionId = p.1 := by
        intro q hq job hjob
        obtain ⟨p, hp, rfl⟩ := List.mem_map.1 hq
        exact session_of_mem_mergedJobs (hplaced.2 p hp)
          (distinctIds_artifact hcurrents hp) hjobs hjob
      refine ⟨⟨hkeys, hsessions⟩, ?_, fun job => hmem⟩
      apply distinctIds_flatMap hkeys hsessions
      · intro q hq
        obtain ⟨p, hp, rfl⟩ := List.mem_map.1 hq
        exact distinctIds_mergeFreshJobs _ _
      · intro p hp q hq job hjob job' hjob' hid
        exact Fresh.eq hcurrents hjobs
          (hmem.1 (mem_readJobs_artifacts.2 ⟨p, hp, hjob⟩))
          (hmem.1 (mem_readJobs_artifacts.2 ⟨q, hq, hjob'⟩)) hid

-- ======== settling operations

/-- A job after an operation that settles it at most. -/
structure Settles (job job' : AgentCronJob) : Prop where
  id : job'.id = job.id
  session : job'.sessionId = job.sessionId
  live : ∀ activeSessionId, isLiveHeartbeat activeSessionId job' = true →
    isLiveHeartbeat activeSessionId job = true

theorem Settles.refl (job : AgentCronJob) : Settles job job :=
  ⟨rfl, rfl, fun _ h => h⟩

variable {activeSessionId : String}

theorem isLiveHeartbeat_iff :
    isLiveHeartbeat activeSessionId job = true
      ↔ job.activeSessionId = activeSessionId ∧ job.source = some .heartbeat
        ∧ (job.status = .active ∨ job.status = .paused) := by
  unfold isLiveHeartbeat
  rw [Bool.and_eq_true, Bool.and_eq_true, Bool.or_eq_true, decide_eq_true_iff,
    decide_eq_true_iff, decide_eq_true_iff, decide_eq_true_iff, and_assoc]

/-- Only the status, the times and the record of the runs change, and a job
that is cancelled or completed stays so. -/
theorem Settles.of_status (hid : job'.id = job.id)
    (hsession : job'.sessionId = job.sessionId)
    (hactive : job'.activeSessionId = job.activeSessionId)
    (hsource : job'.source = job.source)
    (hstatus : (job'.status = .active ∨ job'.status = .paused) →
      job.status = .active ∨ job.status = .paused) : Settles job job' := by
  refine ⟨hid, hsession, fun activeSessionId h => ?_⟩
  rw [isLiveHeartbeat_iff] at h ⊢
  exact ⟨hactive ▸ h.1, hsource ▸ h.2.1, hstatus h.2.2⟩

variable {jobs' : List AgentCronJob}

theorem settles_map_id {jobs : List AgentCronJob}
    (h : List.Forall₂ Settles jobs jobs') :
    jobs'.map (·.id) = jobs.map (·.id) := by
  induction h with
  | nil => rfl
  | cons hjob hrest ih => rw [List.map_cons, List.map_cons, ih, hjob.id]

theorem settles_mem {jobs : List AgentCronJob}
    (h : List.Forall₂ Settles jobs jobs')
    (hmem : job' ∈ jobs') : ∃ job ∈ jobs, Settles job job' := by
  induction h with
  | nil => cases hmem
  | cons hjob hrest ih =>
    rcases List.mem_cons.1 hmem with rfl | hmem
    · exact ⟨_, List.mem_cons_self, hjob⟩
    · obtain ⟨job, hin, hsettles⟩ := ih hmem
      exact ⟨job, List.mem_cons_of_mem _ hin, hsettles⟩

theorem settles_updateJobs {update : AgentCronJob → Option AgentCronJob}
    {jobs : List AgentCronJob}
    (h : ∀ job ∈ jobs, ∀ job', update job = some job' → Settles job job') :
    List.Forall₂ Settles jobs (updateJobs update jobs).1 := by
  unfold updateJobs
  rw [List.forall₂_map_right_iff, List.forall₂_same]
  intro job hjob
  cases hupdate : update job with
  | none => exact Settles.refl job
  | some job' => exact h job hjob job' hupdate

theorem settles_mapM {ε : Type}
    {update : AgentCronJob → Except ε (Option AgentCronJob)}
    {jobs : List AgentCronJob} {updates : List (Option AgentCronJob)}
    (hok : jobs.mapM update = .ok updates)
    (h : ∀ job ∈ jobs, ∀ job', update job = .ok (some job') →
      Settles job job') :
    List.Forall₂ Settles jobs
      ((jobs.zip updates).map fun (job, next) => next.getD job) := by
  induction jobs generalizing updates with
  | nil => exact .nil
  | cons job jobs ih =>
    rw [List.mapM_cons] at hok
    cases hjob : update job with
    | error error =>
      rw [hjob] at hok
      cases hok
    | ok next =>
      rw [hjob] at hok
      cases hrest : jobs.mapM update with
      | error error =>
        rw [hrest] at hok
        cases hok
      | ok rest =>
        rw [hrest] at hok
        have heq := Except.ok.inj hok
        rw [← heq]
        refine .cons ?_ (ih hrest fun j hj => h j (.tail _ hj))
        cases next with
        | none => exact Settles.refl job
        | some job' => exact h job (.head _) job' hjob

/-- The store after an operation that settles jobs at most. -/
structure Settled (store store' : Store) : Prop where
  placed : store'.Placed
  distinct : DistinctIds store'.readJobs
  settles : ∀ job' ∈ store'.readJobs, ∃ job ∈ store.readJobs,
    Settles job job'

theorem Settled.refl {store : Store} (hplaced : store.Placed)
    (hdistinct : DistinctIds store.readJobs) : Settled store store :=
  ⟨hplaced, hdistinct, fun job hjob => ⟨job, hjob, Settles.refl job⟩⟩

section
variable {ρ : Type} {store : Store}
  {operation : List AgentCronJob → Except JobError (Edit ρ)}

/-- An operation that hands in no jobs leaves the store as it was. -/
theorem edited_eq (h : ∀ jobs returned,
    operation store.readJobs ≠ .ok ⟨some jobs, returned⟩) :
    store.edited operation = store := by
  unfold Store.edited Store.edit
  cases hresult : operation store.readJobs with
  | error error => rfl
  | ok edit =>
    obtain ⟨jobs, returned⟩ := edit
    cases jobs with
    | none => rfl
    | some jobs => exact absurd hresult (h jobs returned)

variable (operation) in
theorem edited_some {jobs : List AgentCronJob} {returned : ρ}
    (h : operation store.readJobs = .ok ⟨some jobs, returned⟩) :
    (∃ store', store.writeJobs jobs = .ok store'
        ∧ store.edited operation = store')
      ∨ (∀ store', store.writeJobs jobs ≠ .ok store')
        ∧ store.edited operation = store := by
  unfold Store.edited Store.edit
  rw [h]
  dsimp only
  cases hwrite : store.writeJobs jobs with
  | ok store' => exact .inl ⟨store', rfl, rfl⟩
  | error error => exact .inr ⟨nofun, rfl⟩

theorem settled_edited (hplaced : store.Placed)
    (hdistinct : DistinctIds store.readJobs)
    (h : ∀ jobs returned,
      operation store.readJobs = .ok ⟨some jobs, returned⟩ →
        List.Forall₂ Settles store.readJobs jobs) :
    Settled store (store.edited operation) := by
  by_cases hnone : ∀ jobs returned,
      operation store.readJobs ≠ .ok ⟨some jobs, returned⟩
  · rw [edited_eq hnone]
    exact Settled.refl hplaced hdistinct
  · simp only [not_forall, ne_eq, not_not] at hnone
    obtain ⟨jobs, returned, hjobs⟩ := hnone
    have hsettles := h jobs returned hjobs
    have hjobs' : DistinctIds jobs := by
      unfold DistinctIds
      rw [settles_map_id hsettles]
      exact hdistinct
    have hmoves : Moves store.readJobs jobs := by
      intro n hn c hc hid
      obtain ⟨job, hjob, hsettled⟩ := settles_mem hsettles hn
      rw [hdistinct.eq hc hjob (hid.trans hsettled.id)]
      exact .inl hsettled.session
    rcases edited_some operation hjobs with ⟨store', hwrite, heq⟩ | ⟨-, heq⟩
    · rw [heq]
      have hwritten := writeJobs_written hplaced hdistinct hjobs' hmoves hwrite
      refine ⟨hwritten.placed, hwritten.distinct, fun job' hjob' => ?_⟩
      rcases (hwritten.mem job').1 hjob' with ⟨hmem, -⟩ | ⟨hmem, -⟩
      · exact settles_mem hsettles hmem
      · exact ⟨job', hmem, Settles.refl job'⟩
    · rw [heq]
      exact Settled.refl hplaced hdistinct

end

variable {returned : Option AgentCronJob} {now : Instant}

variable {action : AgentHeartbeatManagementAction}

section
variable {zone : TimeZone} {jobs : List AgentCronJob}

theorem mem_of_getHeartbeat {current : AgentCronJob}
    (h : getHeartbeat jobs activeSessionId = some current) :
    current ∈ jobs ∧ isLiveHeartbeat activeSessionId current = true := by
  unfold getHeartbeat at h
  have hmem := List.mem_of_mem_head? h
  rw [List.mem_mergeSort, List.mem_filter] at hmem
  exact hmem

section
variable (hjobs : DistinctIds jobs)
include hjobs

/-- The job that is updated is the live heartbeat. -/
theorem settles_editHeartbeat
    {update : AgentCronJob → Except JobError (AgentCronJob → AgentCronJob)}
    (hupdate : ∀ current change, update current = .ok change → ∀ job,
      (job.status = .active ∨ job.status = .paused) → Settles job (change job))
    (h : editHeartbeat jobs activeSessionId update
      = .ok ⟨some jobs', returned⟩) : List.Forall₂ Settles jobs jobs' := by
  unfold editHeartbeat at h
  cases hcurrent : getHeartbeat jobs activeSessionId with
  | none =>
    rw [hcurrent] at h
    cases h
  | some current =>
    obtain ⟨hmem, hlive⟩ := mem_of_getHeartbeat hcurrent
    rw [hcurrent] at h
    dsimp only at h
    cases hchange : update current with
    | error error =>
      rw [hchange] at h
      cases h
    | ok change =>
      rw [hchange] at h
      have heq := Except.ok.inj h
      injection heq with heq
      rw [← Option.some.inj heq]
      apply settles_updateJobs
      intro job hjob job' hjob'
      by_cases hid : job.id = current.id
      · rw [if_pos hid] at hjob'
        rw [← Option.some.inj hjob', hjobs.eq hjob hmem hid]
        exact hupdate current change hchange current
          (isLiveHeartbeat_iff.1 hlive).2.2
      · rw [if_neg hid] at hjob'
        cases hjob'

theorem settles_pauseHeartbeat
    (h : pauseHeartbeat jobs activeSessionId now = .ok ⟨some jobs', returned⟩) :
    List.Forall₂ Settles jobs jobs' := by
  refine settles_editHeartbeat hjobs (fun current change hchange job hlive => ?_)
    h
  rw [← Except.ok.inj hchange]
  exact Settles.of_status rfl rfl rfl rfl fun _ => hlive

theorem settles_resumeHeartbeat
    (h : resumeHeartbeat zone jobs activeSessionId now
      = .ok ⟨some jobs', returned⟩) : List.Forall₂ Settles jobs jobs' := by
  refine settles_editHeartbeat hjobs (fun current change hchange job hlive => ?_)
    h
  cases hnext : heartbeatNextRun zone current.schedule now with
  | error error =>
    rw [hnext] at hchange
    cases hchange
  | ok nextRunAt =>
    rw [hnext] at hchange
    rw [← Except.ok.inj hchange]
    exact Settles.of_status rfl rfl rfl rfl fun _ => hlive

theorem settles_clearHeartbeat
    (h : clearHeartbeat jobs activeSessionId now = .ok ⟨some jobs', returned⟩) :
    List.Forall₂ Settles jobs jobs' := by
  refine settles_editHeartbeat hjobs (fun current change hchange job hlive => ?_)
    h
  rw [← Except.ok.inj hchange]
  exact Settles.of_status rfl rfl rfl rfl fun _ => hlive

end

theorem settles_manageJob
    (h : manageJob zone activeSessionId id action now job = .ok (some job')) :
    Settles job job' := by
  unfold manageJob at h
  split at h
  · cases h
  · split at h
    · cases h
    · rename_i hstatus
      have hlive : job.status = .active ∨ job.status = .paused := by
        cases hjob : job.status with
        | active => exact .inl rfl
        | paused => exact .inr rfl
        | completed => exact absurd (.inr hjob) hstatus
        | cancelled => exact absurd (.inl hjob) hstatus
      cases action with
      | pause =>
        rw [← Option.some.inj (Except.ok.inj h)]
        exact Settles.of_status rfl rfl rfl rfl fun _ => hlive
      | stop =>
        rw [← Option.some.inj (Except.ok.inj h)]
        exact Settles.of_status rfl rfl rfl rfl fun _ => hlive
      | resume =>
        dsimp only at h
        cases hnext : heartbeatNextRun zone job.schedule now with
        | error error =>
          rw [hnext] at h
          cases h
        | ok nextRunAt =>
          rw [hnext] at h
          rw [← Option.some.inj (Except.ok.inj h)]
          exact Settles.of_status rfl rfl rfl rfl fun _ => hlive

theorem settles_manageHeartbeat
    (h : manageHeartbeat zone jobs activeSessionId id action now
      = .ok ⟨some jobs', returned⟩) : List.Forall₂ Settles jobs jobs' := by
  unfold manageHeartbeat at h
  cases hupdates : jobs.mapM (manageJob zone activeSessionId id action now) with
  | error error =>
    rw [hupdates] at h
    cases h
  | ok updates =>
    rw [hupdates] at h
    have heq := Except.ok.inj h
    injection heq with heq
    rw [Option.ite_none_right_eq_some] at heq
    rw [← Option.some.inj heq.2]
    exact settles_mapM hupdates fun job _ job' => settles_manageJob

theorem settles_cancel (h : cancel jobs id now = .ok ⟨some jobs', returned⟩) :
    List.Forall₂ Settles jobs jobs' := by
  unfold cancel at h
  dsimp only at h
  have heq := Except.ok.inj h
  injection heq with heq
  rw [Option.ite_none_left_eq_some] at heq
  rw [← Option.some.inj heq.2]
  apply settles_updateJobs
  intro job hjob job' hjob'
  rw [Option.ite_none_left_eq_some] at hjob'
  rw [← Option.some.inj hjob'.2]
  refine Settles.of_status rfl rfl rfl rfl ?_
  rintro (hstatus | hstatus) <;> cases hstatus

end

-- ======== claims and dispatches

variable {dueAt claimedAt : Instant} {uuid : Nat → String}
  {outcome : AgentCronJobRunResult} {error : Option String}

section
variable {zone : TimeZone}

theorem settles_claimJobs {claimedJobIds : List String}
    {drawn : Nat}
    {jobs : List AgentCronJob}
    {claims : List (AgentCronDispatchRecord × AgentCronDispatch)}
    (h : claimJobs zone claimedJobIds dueAt claimedAt uuid drawn jobs
      = .ok (jobs', claims)) : List.Forall₂ Settles jobs jobs' := by
  induction jobs generalizing drawn jobs' claims with
  | nil =>
    cases h
    exact .nil
  | cons job jobs ih =>
    cases hdue : isDueJob job dueAt with
    | false =>
      rw [claimJobs_of_not_due hdue, map_ok_iff] at h
      obtain ⟨r, hr, heq⟩ := h
      cases heq
      exact .cons (Settles.refl job) (ih hr)
    | true =>
      cases hnext : storedNextRun zone job.schedule claimedAt with
      | error error =>
        rw [claimJobs_of_error hdue hnext] at h
        cases h
      | ok next =>
        cases hclaimed : claimedJobIds.contains job.id with
        | true =>
          rw [claimJobs_of_claimed hdue hnext hclaimed, map_ok_iff] at h
          obtain ⟨r, hr, heq⟩ := h
          cases heq
          exact .cons
            (Settles.of_status rfl rfl rfl rfl fun hlive => hlive)
            (ih hr)
        | false =>
          obtain ⟨scheduledFor, hsome, -⟩ := isDueJob_iff.1 hdue
          rw [claimJobs_of_free hdue hsome hnext hclaimed, map_ok_iff] at h
          obtain ⟨r, hr, heq⟩ := h
          cases heq
          exact .cons
            (Settles.of_status rfl rfl rfl rfl fun hlive => hlive)
            (ih hr)

/-- The states of the files, each with its jobs settled at most. -/
def SettledStates (states states' : List CronJobsState) : Prop :=
  List.Forall₂ (fun state state' => List.Forall₂ Settles state.jobs state'.jobs)
    states states'

theorem SettledStates.refl (states : List CronJobsState) :
    SettledStates states states := by
  unfold SettledStates
  rw [List.forall₂_same]
  intro state _
  rw [List.forall₂_same]
  exact fun job _ => Settles.refl job

theorem settledStates_claimDue (drawn : Nat) (states : List CronJobsState) :
    SettledStates states
      (claimDue zone dueAt claimedAt uuid drawn states).1 := by
  induction states generalizing drawn with
  | nil => exact .nil
  | cons state states ih =>
    unfold claimDue
    cases hclaim : claimDueInState zone state dueAt claimedAt uuid drawn with
    | error error => exact SettledStates.refl (state :: states)
    | ok r =>
      have hjobs : List.Forall₂ Settles state.jobs r.1.jobs := by
        unfold claimDueInState at hclaim
        dsimp only at hclaim
        cases hpass : claimJobs zone (state.dispatches.map (·.jobId)) dueAt
            claimedAt uuid drawn state.jobs with
        | error error =>
          rw [hpass] at hclaim
          cases hclaim
        | ok passed =>
          rw [hpass] at hclaim
          rw [← Except.ok.inj hclaim]
          exact settles_claimJobs hpass
      have hrest := ih (drawn + r.2.length)
      dsimp only
      cases hmore : claimDue zone dueAt claimedAt uuid
          (drawn + r.2.length) states with
      | mk states' result =>
        rw [hmore] at hrest
        cases result with
        | error error => exact .cons hjobs hrest
        | ok more => exact .cons hjobs hrest

theorem settles_settleJob {jobId : String}
    (h : settleJob zone now outcome error jobId job = .ok (some job')) :
    Settles job job' := by
  unfold settleJob at h
  split at h
  · cases h
  · rename_i hactive
    have hlive : job.status = .active ∨ job.status = .paused := by
      rw [not_or, not_not, not_not] at hactive
      exact .inl hactive.2
    dsimp only at h
    generalize (if job.schedule.kind = .once then AgentCronJobStatus.completed
      else job.status) = status at h
    split at h
    · cases hnext : storedNextRun zone job.schedule now with
      | error error =>
        rw [hnext] at h
        cases h
      | ok nextRunAt =>
        rw [hnext] at h
        rw [← Option.some.inj (Except.ok.inj h)]
        exact Settles.of_status rfl rfl rfl rfl fun _ => hlive
    · rw [← Option.some.inj (Except.ok.inj h)]
      exact Settles.of_status rfl rfl rfl rfl fun _ => hlive

theorem settledStates_recordDispatchResult {dispatchId : String}
    (states : List CronJobsState) :
    SettledStates states
      (recordDispatchResult zone dispatchId now outcome error states).1 := by
  induction states with
  | nil => exact .nil
  | cons state states ih =>
    unfold recordDispatchResult
    cases hrecord : recordDispatchInState zone dispatchId now outcome error
        state with
    | error e => exact SettledStates.refl (state :: states)
    | ok r =>
      refine .cons ?_ ih
      unfold recordDispatchInState at hrecord
      split at hrecord
      · rw [← Except.ok.inj hrecord, List.forall₂_same]
        exact fun job _ => Settles.refl job
      · rename_i dispatch _
        cases hupdates : state.jobs.mapM
            (settleJob zone now outcome error dispatch.jobId) with
        | error e =>
          rw [hupdates] at hrecord
          cases hrecord
        | ok updates =>
          rw [hupdates] at hrecord
          rw [← Except.ok.inj hrecord]
          exact settles_mapM hupdates fun job _ job' => settles_settleJob

end

variable {states : List CronJobsState}

/-- A file after a claim or a result has the sessions that it had. -/
theorem placed_zip {files : JsMap String CronJobsState}
    (h : SettledStates files.values states)
    (hplaced : ∀ p ∈ files, ∀ job ∈ p.2.jobs, job.sessionId = p.1) :
    JsMap.keys (files.keys.zip states) = files.keys
      ∧ (∀ q ∈ files.keys.zip states, ∀ job' ∈ q.2.jobs,
        job'.sessionId = q.1)
      ∧ ((Store.sessionArtifacts (files.keys.zip states)).readJobs.map (·.id)
        = (Store.sessionArtifacts files).readJobs.map (·.id))
      ∧ ∀ job' ∈ (Store.sessionArtifacts (files.keys.zip states)).readJobs,
        ∃ job ∈ (Store.sessionArtifacts files).readJobs, Settles job job' := by
  induction files generalizing states with
  | nil =>
    refine ⟨rfl, ?_, rfl, ?_⟩
    · exact fun q hq => absurd hq List.not_mem_nil
    · exact fun job' hjob' => absurd hjob' List.not_mem_nil
  | cons p files ih =>
    cases h with
    | @cons _ state' _ states' hjobs hrest =>
      obtain ⟨hkeys, hsessions, hids, hsettles⟩ := ih hrest
        fun q hq => hplaced q (.tail _ hq)
      refine ⟨congrArg (p.1 :: ·) hkeys, ?_, ?_, ?_⟩
      · intro q hq job' hjob'
        rcases List.mem_cons.1 hq with rfl | hq
        · obtain ⟨job, hjob, hsettled⟩ := settles_mem hjobs hjob'
          exact hsettled.session.trans (hplaced p (.head _) job hjob)
        · exact hsessions q hq job' hjob'
      · show (state'.jobs ++ _).map (·.id) = (p.2.jobs ++ _).map (·.id)
        rw [List.map_append, List.map_append]
        exact congrArg₂ (· ++ ·) (settles_map_id hjobs) hids
      · intro job' hjob'
        rcases List.mem_append.1
          (show job' ∈ state'.jobs ++ _ from hjob') with hjob' | hjob'
        · obtain ⟨job, hjob, hsettled⟩ := settles_mem hjobs hjob'
          exact ⟨job, List.mem_append_left _ hjob, hsettled⟩
        · obtain ⟨job, hjob, hsettled⟩ := hsettles job' hjob'
          exact ⟨job, List.mem_append_right p.2.jobs hjob, hsettled⟩

theorem settled_withStates {store : Store}
    (hplaced : store.Placed) (hdistinct : DistinctIds store.readJobs)
    (h : SettledStates store.readStates states) :
    Settled store (store.withStates states) := by
  cases store with
  | jobsFile state =>
    cases h with
    | @cons _ state' _ rest hjobs hrest =>
      refine ⟨trivial, ?_, ?_⟩
      · unfold DistinctIds at hdistinct ⊢
        rw [show (Store.withStates (.jobsFile state)
          (state' :: rest)).readJobs = state'.jobs ++ [] from rfl,
          List.append_nil, settles_map_id hjobs]
        rwa [show (Store.jobsFile state).readJobs = state.jobs ++ []
          from rfl, List.append_nil] at hdistinct
      · intro job' hjob'
        have hmem : job' ∈ state'.jobs ++ [] := hjob'
        rw [List.append_nil] at hmem
        obtain ⟨job, hjob, hsettled⟩ := settles_mem hjobs hmem
        exact ⟨job, List.mem_append_left [] hjob, hsettled⟩
  | sessionArtifacts files =>
    obtain ⟨hkeys, hsessions, hids, hsettles⟩ := placed_zip h hplaced.2
    refine ⟨⟨?_, hsessions⟩, ?_, hsettles⟩
    · rw [hkeys]
      exact hplaced.1
    · unfold DistinctIds at hdistinct ⊢
      rwa [← hids] at hdistinct

end OneHarness.Cron
