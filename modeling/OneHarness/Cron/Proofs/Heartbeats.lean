/-
At most one live heartbeat for each session: a run of the store keeps to it
exactly if no heartbeat is created before its predecessor was last updated,
and no rebinding brings two live ones together (`single_heartbeat_iff`).

All other operations only settle jobs (`Settles`), so that the heartbeats
that are live after them were live before.
-/
import OneHarness.Cron.Proofs.Store
import OneHarness.Lib.Run

namespace OneHarness.Cron

open Lib LocalTime Session

-- ======== statement vocabulary

def SingleHeartbeats (store : Store) : Prop :=
  ∀ activeSessionId,
    (store.readJobs.filter (isLiveHeartbeat activeSessionId)).length ≤ 1

section
variable (zone : TimeZone) (dateParse : String → Option Instant)
  (resolve : String → String)

/-- The input makes a heartbeat that can be stored. -/
def Accepted (store : Store) (input : CreateAgentCronJobInput)
    (now : Instant) : Prop :=
  store.Registered input.sessionId ∧ trim input.prompt ≠ ""
    ∧ ∃ parsed stored,
      parseRecurring zone dateParse .heartbeatNotRecurring input.scheduleText
        now = .ok parsed
      ∧ toISOString parsed.2 = .ok stored

/-- The operation brings no second live heartbeat to a session: the one that a
new heartbeat takes the place of was not updated later, and of those that
are rebound together at most one is live. -/
def KeepsSingle (s : StoreState) : Operation → Prop
  | .createHeartbeat input now =>
    Accepted zone dateParse s.store input now →
      ∀ job ∈ s.store.readJobs,
        isLiveHeartbeat input.activeSessionId job = true →
          job.updatedAt.1 ≤ now.1
  | .rebindSessionJobs input =>
    s.store.Registered input.sessionId →
      (s.store.readJobs.filter fun job =>
        isRebindTarget resolve input job
          && isLiveHeartbeat job.activeSessionId job).length ≤ 1
  | _ => True

end

/-- The jobs are where they belong, with ids drawn one by one. -/
structure StoreState.Sound (uuid : Nat → String) (s : StoreState) : Prop where
  placed : s.store.Placed
  distinct : DistinctIds s.store.readJobs
  drawn : ∀ job ∈ s.store.readJobs, ∃ k < s.drawn, job.id = uuid k

variable {s : StoreState}

theorem StoreState.Sound.new_id {uuid : Nat → String}
    (h : s.Sound uuid) (huuid : Function.Injective uuid) :
    ∀ c ∈ s.store.readJobs, c.id ≠ uuid s.drawn := by
  intro c hc heq
  obtain ⟨k, hk, hck⟩ := h.drawn c hc
  rw [hck] at heq
  exact Nat.ne_of_lt hk (huuid heq)

-- ======== at most one job

theorem length_le_one_iff {l : List AgentCronJob} (h : l.Nodup) :
    l.length ≤ 1 ↔ ∀ job ∈ l, ∀ job' ∈ l, job = job' := by
  match l with
  | [] => exact iff_of_true (Nat.zero_le _) fun _ hjob => by cases hjob
  | [job] =>
    apply iff_of_true (Nat.le_refl _)
    intro j hj j' hj'
    rw [List.mem_singleton.1 hj, List.mem_singleton.1 hj']
  | job :: job' :: rest =>
    apply iff_of_false
    · show ¬ (rest.length + 1 + 1 ≤ 1)
      omega
    · intro hall
      have hsame := hall job (.head _) job' (.tail _ (.head _))
      rw [hsame] at h
      exact (List.nodup_cons.1 h).1 (.head _)

theorem length_filter_iff {jobs : List AgentCronJob} (h : DistinctIds jobs)
    {p : AgentCronJob → Bool} :
    (jobs.filter p).length ≤ 1 ↔ ∀ job ∈ jobs, p job = true →
      ∀ job' ∈ jobs, p job' = true → job = job' := by
  have hnodup : (jobs.filter p).Nodup := (List.Nodup.of_map _ h).filter p
  rw [length_le_one_iff hnodup]
  simp only [List.mem_filter, and_imp]

variable {store : Store}

theorem singleHeartbeats_iff (h : DistinctIds store.readJobs) :
    SingleHeartbeats store ↔ ∀ activeSessionId,
      ∀ job ∈ store.readJobs, isLiveHeartbeat activeSessionId job = true →
      ∀ job' ∈ store.readJobs, isLiveHeartbeat activeSessionId job' = true →
        job = job' :=
  forall_congr' fun _ => length_filter_iff h

variable {store' : Store}

theorem Settled.single (h : Settled store store')
    (hdistinct : DistinctIds store.readJobs) (hsingle : SingleHeartbeats store) :
    SingleHeartbeats store' := by
  rw [singleHeartbeats_iff h.distinct]
  intro activeSessionId job hjob hlive job' hjob' hlive'
  obtain ⟨old, hold, hsettles⟩ := h.settles job hjob
  obtain ⟨old', hold', hsettles'⟩ := h.settles job' hjob'
  have hsame : old = old' := (singleHeartbeats_iff hdistinct).1 hsingle
    activeSessionId old hold (hsettles.live _ hlive) old' hold'
    (hsettles'.live _ hlive')
  apply h.distinct.eq hjob hjob'
  rw [hsettles.id, hsettles'.id, hsame]

-- ======== a new heartbeat

variable {now : Instant} {job : AgentCronJob} {input : RebindInput}

section
variable {zone : TimeZone} {dateParse : String → Option Instant}
  {resolve : String → String} {uuid : Nat → String}

theorem createHeartbeat_ok_iff {input : CreateAgentCronJobInput} {id : String} :
    (∃ job, createHeartbeat zone dateParse input id now = .ok job)
      ↔ trim input.prompt ≠ "" ∧ ∃ parsed stored,
        parseRecurring zone dateParse .heartbeatNotRecurring input.scheduleText
          now = .ok parsed
        ∧ toISOString parsed.2 = .ok stored := by
  unfold createHeartbeat
  cases hparsed : parseRecurring zone dateParse .heartbeatNotRecurring
      input.scheduleText now with
  | error error =>
    apply iff_of_false
    · rintro ⟨job, h⟩
      cases h
    · rintro ⟨-, parsed, stored, h, -⟩
      cases h
  | ok parsed =>
    by_cases hprompt : trim input.prompt = ""
    · apply iff_of_false
      · rintro ⟨job, h⟩
        change (if trim input.prompt = "" then _ else _) = _ at h
        rw [if_pos hprompt] at h
        cases h
      · exact fun h => h.1 hprompt
    · show (∃ job, (if trim input.prompt = "" then _ else _) = _) ↔ _
      rw [if_neg hprompt]
      cases hstored : toISOString parsed.2 with
      | error error =>
        apply iff_of_false
        · rintro ⟨job, h⟩
          cases h
        · rintro ⟨-, parsed', stored, h, hstored'⟩
          cases h
          rw [hstored] at hstored'
          cases hstored'
      | ok stored =>
        exact iff_of_true ⟨_, rfl⟩ ⟨hprompt, parsed, stored, rfl, hstored⟩

theorem createHeartbeat_job {input : CreateAgentCronJobInput} {id : String}
    (h : createHeartbeat zone dateParse input id now = .ok job) :
    job.id = id ∧ job.updatedAt = now ∧ job.sessionId = input.sessionId
      ∧ ∀ a, isLiveHeartbeat a job = true ↔ input.activeSessionId = a := by
  unfold createHeartbeat at h
  cases hparsed : parseRecurring zone dateParse .heartbeatNotRecurring
      input.scheduleText now with
  | error error =>
    rw [hparsed] at h
    cases h
  | ok parsed =>
    rw [hparsed] at h
    change (if trim input.prompt = "" then _ else _) = _ at h
    by_cases hprompt : trim input.prompt = ""
    · rw [if_pos hprompt] at h
      cases h
    · rw [if_neg hprompt] at h
      cases hstored : toISOString parsed.2 with
      | error error =>
        rw [hstored] at h
        cases h
      | ok stored =>
        rw [hstored] at h
        rw [← Except.ok.inj h]
        refine ⟨rfl, rfl, rfl, fun a => ?_⟩
        rw [isLiveHeartbeat_iff]
        exact ⟨fun hlive => hlive.1, fun heq => ⟨heq, rfl, .inl rfl⟩⟩

/-- A job that is there, after a new heartbeat. -/
def cancelLive (activeSessionId : String) (now : Instant) (c : AgentCronJob) :
    AgentCronJob :=
  if isLiveHeartbeat activeSessionId c then
    { c with status := .cancelled, nextRunAt := none, updatedAt := now }
  else c

section
variable (activeSessionId : String)

theorem cancelHeartbeats_eq (now : Instant)
    (jobs : List AgentCronJob) :
    cancelHeartbeats activeSessionId now jobs
      = jobs.map (cancelLive activeSessionId now) := rfl

theorem settles_cancelLive (now : Instant)
    (c : AgentCronJob) : Settles c (cancelLive activeSessionId now c) := by
  unfold cancelLive
  split
  · refine Settles.of_status rfl rfl rfl rfl ?_
    rintro (hstatus | hstatus) <;> cases hstatus
  · exact Settles.refl c

theorem map_id_cancelLive (now : Instant)
    (jobs : List AgentCronJob) :
    (jobs.map (cancelLive activeSessionId now)).map (·.id)
      = jobs.map (·.id) := by
  rw [List.map_map]
  exact List.map_congr_left fun c _ => (settles_cancelLive _ now c).id

end

/-- The store after a new heartbeat: the jobs that were there, cancelled or
newer than it, and the heartbeat. -/
theorem written_setHeartbeat (hsound : s.Sound uuid)
    (huuid : Function.Injective uuid) {input : CreateAgentCronJobInput}
    (h : createHeartbeat zone dateParse input (uuid s.drawn) now = .ok job)
    (hwrite : s.store.writeJobs
      (cancelHeartbeats input.activeSessionId now s.store.readJobs ++ [job])
        = .ok store') :
    Written s.store
      (cancelHeartbeats input.activeSessionId now s.store.readJobs ++ [job])
      store' := by
  obtain ⟨hid, -, -, -⟩ := createHeartbeat_job h
  have hnew : ∀ c ∈ s.store.readJobs, c.id ≠ job.id := by
    rw [hid]
    exact hsound.new_id huuid
  rw [cancelHeartbeats_eq] at hwrite ⊢
  apply writeJobs_written hsound.placed hsound.distinct _ _ hwrite
  · unfold DistinctIds
    rw [List.map_append, map_id_cancelLive]
    refine List.nodup_append.2 ⟨hsound.distinct, List.nodup_singleton _, ?_⟩
    intro id hmem id' hmem'
    obtain ⟨c, hc, rfl⟩ := List.mem_map.1 hmem
    rw [List.mem_singleton.1 hmem']
    exact hnew c hc
  · intro n hn c hc hcn
    rcases List.mem_append.1 hn with hn | hn
    · obtain ⟨old, hold, rfl⟩ := List.mem_map.1 hn
      have hsettles := settles_cancelLive input.activeSessionId now old
      rw [hsound.distinct.eq hc hold (hcn.trans hsettles.id)]
      exact .inl hsettles.session
    · rw [List.mem_singleton.1 hn] at hcn
      exact absurd hcn (hnew c hc)

/-- A live job after a new heartbeat: the heartbeat, or one that was live
before and is not cancelled by it. -/
theorem live_setHeartbeat (hsound : s.Sound uuid)
    {input : CreateAgentCronJobInput}
    (hstale : ∀ c ∈ s.store.readJobs,
      isLiveHeartbeat input.activeSessionId c = true →
        c.updatedAt.1 ≤ now.1)
    (hwritten : Written s.store
      (cancelHeartbeats input.activeSessionId now s.store.readJobs ++ [job])
      store') {j : AgentCronJob} (hj : j ∈ store'.readJobs)
    {activeSessionId : String} (hlive : isLiveHeartbeat activeSessionId j = true) :
    j = job ∨ j ∈ s.store.readJobs
      ∧ isLiveHeartbeat input.activeSessionId j = false := by
  rcases (hwritten.mem j).1 hj with ⟨hmem, -⟩ | ⟨hmem, holder⟩
  · rcases List.mem_append.1 hmem with hmem | hmem
    · rw [cancelHeartbeats_eq] at hmem
      obtain ⟨c, hc, rfl⟩ := List.mem_map.1 hmem
      by_cases hclive : isLiveHeartbeat input.activeSessionId c = true
      · -- a cancelled job is not live for any session
        have hdead := isLiveHeartbeat_iff.1 hlive
        rw [cancelLive, if_pos hclive] at hdead
        rcases hdead.2.2 with hstatus | hstatus <;> cases hstatus
      · rw [cancelLive, if_neg hclive]
        exact .inr ⟨hc, Bool.not_eq_true _ ▸ hclive⟩
    · exact .inl (List.mem_singleton.1 hmem)
  · by_cases hjlive : isLiveHeartbeat input.activeSessionId j = true
    · have hlt := holder (cancelLive input.activeSessionId now j) (by
        rw [cancelHeartbeats_eq]
        exact List.mem_append_left _ (List.mem_map_of_mem hmem))
        (settles_cancelLive _ now j).id
      have hle := hstale j hmem hjlive
      rw [cancelLive, if_pos hjlive] at hlt
      dsimp only at hlt
      omega
    · exact .inr ⟨hmem, Bool.not_eq_true _ ▸ hjlive⟩

theorem single_setHeartbeat_iff (hsound : s.Sound uuid)
    (huuid : Function.Injective uuid) (hsingle : SingleHeartbeats s.store)
    {input : CreateAgentCronJobInput}
    (h : createHeartbeat zone dateParse input (uuid s.drawn) now = .ok job)
    (hwrite : s.store.writeJobs
      (cancelHeartbeats input.activeSessionId now s.store.readJobs ++ [job])
        = .ok store') :
    SingleHeartbeats store' ↔ ∀ c ∈ s.store.readJobs,
      isLiveHeartbeat input.activeSessionId c = true →
        c.updatedAt.1 ≤ now.1 := by
  have hwritten := written_setHeartbeat hsound huuid h hwrite
  obtain ⟨hid, hupdated, -, hjoblive⟩ := createHeartbeat_job h
  have hnew : ∀ c ∈ s.store.readJobs, c.id ≠ job.id := by
    rw [hid]
    exact hsound.new_id huuid
  rw [singleHeartbeats_iff hwritten.distinct]
  constructor
  · intro hall c hc hlive
    by_contra hlater
    -- the newer predecessor stays beside the new one
    have hcmem : c ∈ store'.readJobs := by
      refine (hwritten.mem c).2 (.inr ⟨hc, fun n hn hnid => ?_⟩)
      rcases List.mem_append.1 hn with hn | hn
      · rw [cancelHeartbeats_eq] at hn
        obtain ⟨old, hold, rfl⟩ := List.mem_map.1 hn
        have hsame := hsound.distinct.eq hold hc
          ((settles_cancelLive _ now old).id.symm.trans hnid)
        rw [hsame, cancelLive, if_pos hlive]
        dsimp only
        omega
      · rw [List.mem_singleton.1 hn] at hnid
        exact absurd hnid.symm (hnew c hc)
    have hjobmem : job ∈ store'.readJobs := by
      refine (hwritten.mem job).2 (.inl ⟨?_, fun c hc hcid => ?_⟩)
      · exact List.mem_append_right _ (List.mem_singleton_self job)
      · exact absurd hcid (hnew c hc)
    have hsame := hall _ c hcmem hlive job hjobmem ((hjoblive _).2 rfl)
    exact hnew c hc (congrArg AgentCronJob.id hsame)
  · intro hstale a j hj hlive j' hj' hlive'
    rcases live_setHeartbeat hsound hstale hwritten hj hlive with
      rfl | ⟨hmem, hdead⟩
    · rcases live_setHeartbeat hsound hstale hwritten hj' hlive' with
        rfl | ⟨hmem', hdead'⟩
      · rfl
      · rw [(hjoblive a).1 hlive, hlive'] at hdead'
        cases hdead'
    · rcases live_setHeartbeat hsound hstale hwritten hj' hlive' with
        rfl | ⟨hmem', hdead'⟩
      · rw [(hjoblive a).1 hlive', hlive] at hdead
        cases hdead
      · exact (singleHeartbeats_iff hsound.distinct).1 hsingle a j hmem hlive
          j' hmem' hlive'

-- ======== a rebinding

/-- A job that is there, after a rebinding. -/
def rebound (resolve : String → String) (input : RebindInput)
    (job : AgentCronJob) : AgentCronJob :=
  (rebindJob resolve input job).getD job

theorem rebound_other (h : isRebindTarget resolve input job = false) :
    rebound resolve input job = job
      ∧ job.activeSessionId ≠ input.activeSessionId := by
  unfold isRebindTarget at h
  rw [Bool.or_eq_false_iff, decide_eq_false_iff_not, decide_eq_false_iff_not]
    at h
  unfold rebound rebindJob
  rw [if_pos h]
  exact ⟨rfl, h.1⟩

/-- A target of the rebinding is of the live session afterwards. -/
theorem rebound_target (h : isRebindTarget resolve input job = true) :
    (rebound resolve input job).activeSessionId = input.activeSessionId := by
  unfold isRebindTarget at h
  rw [Bool.or_eq_true, decide_eq_true_iff, decide_eq_true_iff] at h
  unfold rebound rebindJob
  rw [if_neg (by
    rintro ⟨hactive, hfile⟩
    exact h.elim hactive hfile)]
  split
  · rename_i hsame
    exact hsame.1
  · rfl

theorem rebound_kept (resolve : String → String) (input : RebindInput)
    (job : AgentCronJob) :
    (rebound resolve input job).id = job.id
      ∧ (rebound resolve input job).source = job.source
      ∧ (rebound resolve input job).status = job.status
      ∧ (rebound resolve input job).updatedAt = job.updatedAt := by
  unfold rebound rebindJob
  split
  · exact ⟨rfl, rfl, rfl, rfl⟩
  · split
    · exact ⟨rfl, rfl, rfl, rfl⟩
    · exact ⟨rfl, rfl, rfl, rfl⟩

theorem live_rebound_target
    (h : isRebindTarget resolve input job = true) {activeSessionId : String} :
    isLiveHeartbeat activeSessionId (rebound resolve input job) = true
      ↔ input.activeSessionId = activeSessionId
        ∧ isLiveHeartbeat job.activeSessionId job = true := by
  obtain ⟨-, hsource, hstatus, -⟩ := rebound_kept resolve input job
  rw [isLiveHeartbeat_iff, isLiveHeartbeat_iff, rebound_target h, hsource,
    hstatus]
  constructor
  · rintro ⟨hactive, hheartbeat, hlive⟩
    exact ⟨hactive, rfl, hheartbeat, hlive⟩
  · rintro ⟨hactive, -, hheartbeat, hlive⟩
    exact ⟨hactive, hheartbeat, hlive⟩

/-- The live targets of a rebinding all are of one session afterwards. -/
theorem single_rebound_iff (hdistinct : DistinctIds store.readJobs)
    (hsingle : SingleHeartbeats store)
    (hdistinct' : DistinctIds store'.readJobs)
    (hmem : ∀ j, j ∈ store'.readJobs
      ↔ ∃ c ∈ store.readJobs, rebound resolve input c = j) :
    SingleHeartbeats store' ↔ (store.readJobs.filter fun job =>
      isRebindTarget resolve input job
        && isLiveHeartbeat job.activeSessionId job).length ≤ 1 := by
  rw [singleHeartbeats_iff hdistinct', length_filter_iff hdistinct]
  constructor
  · intro hall c hc hlive c' hc' hlive'
    rw [Bool.and_eq_true] at hlive hlive'
    have hsame := hall input.activeSessionId (rebound resolve input c)
      ((hmem _).2 ⟨c, hc, rfl⟩)
      ((live_rebound_target hlive.1).2 ⟨rfl, hlive.2⟩)
      (rebound resolve input c') ((hmem _).2 ⟨c', hc', rfl⟩)
      ((live_rebound_target hlive'.1).2 ⟨rfl, hlive'.2⟩)
    apply hdistinct.eq hc hc'
    rw [← (rebound_kept resolve input c).1, hsame]
    exact (rebound_kept resolve input c').1
  · intro htargets a j hj hlive j' hj' hlive'
    obtain ⟨c, hc, rfl⟩ := (hmem j).1 hj
    obtain ⟨c', hc', rfl⟩ := (hmem j').1 hj'
    cases htarget : isRebindTarget resolve input c with
    | true =>
      have hc_live := (live_rebound_target htarget).1 hlive
      cases htarget' : isRebindTarget resolve input c' with
      | true =>
        have hc_live' := (live_rebound_target htarget').1 hlive'
        have hsame := htargets c hc (by rw [htarget, hc_live.2]; rfl) c' hc'
          (by rw [htarget', hc_live'.2]; rfl)
        rw [hsame]
      | false =>
        obtain ⟨hsame, hother⟩ := rebound_other htarget'
        rw [hsame, isLiveHeartbeat_iff] at hlive'
        exact absurd (hlive'.1.trans hc_live.1.symm) hother
    | false =>
      obtain ⟨hsame, hother⟩ := rebound_other htarget
      rw [hsame] at hlive ⊢
      cases htarget' : isRebindTarget resolve input c' with
      | true =>
        have hc_live' := (live_rebound_target htarget').1 hlive'
        rw [isLiveHeartbeat_iff] at hlive
        exact absurd (hlive.1.trans hc_live'.1.symm) hother
      | false =>
        obtain ⟨hsame', -⟩ := rebound_other htarget'
        rw [hsame'] at hlive' ⊢
        exact (singleHeartbeats_iff hdistinct).1 hsingle a c hc hlive c' hc'
          hlive'

theorem registered_of_placed (hplaced : store.Placed) :
    ∀ job ∈ store.readJobs, store.Registered job.sessionId := by
  intro job hjob
  cases store with
  | jobsFile state => trivial
  | sessionArtifacts files =>
    obtain ⟨p, hp, hmem⟩ := mem_readJobs_artifacts.1 hjob
    show files.has job.sessionId = true
    rw [hplaced.2 p hp job hmem, JsMap.has_eq_true_iff]
    exact List.mem_map_of_mem hp

theorem session_rebound (resolve : String → String) (input : RebindInput)
    (job : AgentCronJob) :
    (rebound resolve input job).sessionId = job.sessionId
      ∨ (rebound resolve input job).sessionId = input.sessionId := by
  unfold rebound rebindJob
  split
  · exact .inl rfl
  · split
    · exact .inl rfl
    · exact .inr rfl

theorem session_of_rebindJob (h : rebindJob resolve input job ≠ none) :
    (rebound resolve input job).sessionId = input.sessionId := by
  unfold rebindJob at h
  unfold rebound rebindJob
  split
  · rename_i hother
    rw [if_pos hother] at h
    exact absurd rfl h
  · rename_i hother
    rw [if_neg hother] at h
    split
    · rename_i hsame
      rw [if_pos hsame] at h
      exact absurd rfl h
    · rfl

theorem fresh_rebound_iff {jobs : List AgentCronJob} (h : DistinctIds jobs)
    {j : AgentCronJob} :
    Fresh jobs (jobs.map (rebound resolve input)) j
      ↔ ∃ c ∈ jobs, rebound resolve input c = j := by
  constructor
  · rintro (⟨hmem, -⟩ | ⟨hmem, holder⟩)
    · exact List.mem_map.1 hmem
    · obtain ⟨hid, -, -, hupdated⟩ := rebound_kept resolve input j
      have hlt := holder (rebound resolve input j) (List.mem_map_of_mem hmem) hid
      rw [hupdated] at hlt
      omega
  · rintro ⟨c, hc, rfl⟩
    obtain ⟨hid, -, -, hupdated⟩ := rebound_kept resolve input c
    refine .inl ⟨List.mem_map_of_mem hc, fun c' hc' heq => ?_⟩
    rw [h.eq hc' hc (heq.trans hid), hupdated]

/-- The store after a rebinding: it is refused, or each job is rebound. -/
theorem rebind_cases (resolve : String → String)
    (hplaced : store.Placed) (hdistinct : DistinctIds store.readJobs)
    (input : RebindInput)
    (hstore' : store.edited (fun jobs => rebindSessionJobs resolve jobs input)
      = store') :
    (¬ store.Registered input.sessionId ∧ store' = store)
      ∨ (store.Registered input.sessionId ∨ store' = store)
        ∧ store'.Placed ∧ DistinctIds store'.readJobs
        ∧ ∀ j, j ∈ store'.readJobs
          ↔ ∃ c ∈ store.readJobs, rebound resolve input c = j := by
  have hresult : rebindSessionJobs resolve store.readJobs input
      = .ok ⟨if (store.readJobs.filterMap (rebindJob resolve input)).isEmpty
          then none else some (store.readJobs.map (rebound resolve input)),
        store.readJobs.filterMap (rebindJob resolve input)⟩ := rfl
  by_cases hempty :
      (store.readJobs.filterMap (rebindJob resolve input)).isEmpty = true
  · rw [if_pos hempty] at hresult
    right
    rw [edited_eq (fun jobs returned h => by
      rw [hresult] at h
      cases h)] at hstore'
    rw [← hstore']
    refine ⟨.inr rfl, hplaced, hdistinct, fun j => ?_⟩
    have hsame : ∀ c ∈ store.readJobs, rebound resolve input c = c := by
      intro c hc
      rw [List.isEmpty_iff, List.filterMap_eq_nil_iff] at hempty
      unfold rebound
      rw [hempty c hc]
      rfl
    constructor
    · intro hj
      exact ⟨j, hj, hsame j hj⟩
    · rintro ⟨c, hc, heq⟩
      rwa [← heq, hsame c hc]
  · rw [if_neg hempty] at hresult
    rcases edited_some (rebindSessionJobs resolve · input) hresult with ⟨written, hwrite, heq⟩ | ⟨hrefused, heq⟩
    · right
      rw [← hstore', heq]
      have hids : DistinctIds (store.readJobs.map (rebound resolve input)) := by
        unfold DistinctIds
        rw [List.map_map]
        rw [show store.readJobs.map
            (AgentCronJob.id ∘ rebound resolve input)
            = store.readJobs.map (·.id) from
          List.map_congr_left fun c _ => (rebound_kept resolve input c).1]
        exact hdistinct
      have hmoves : Moves store.readJobs
          (store.readJobs.map (rebound resolve input)) := by
        intro n hn c hc hid
        obtain ⟨old, hold, rfl⟩ := List.mem_map.1 hn
        obtain ⟨hkept, -, -, hupdated⟩ := rebound_kept resolve input old
        rw [hdistinct.eq hc hold (hid.trans hkept)]
        exact .inr hupdated.symm
      have hwritten := writeJobs_written hplaced hdistinct hids hmoves hwrite
      refine ⟨.inl ?_, hwritten.placed, hwritten.distinct, fun j =>
        (hwritten.mem j).trans (fresh_rebound_iff hdistinct)⟩
      -- one that is rebound goes to the session of the input
      rw [List.isEmpty_iff, List.filterMap_eq_nil_iff] at hempty
      simp only [not_forall] at hempty
      obtain ⟨c, hc, hsome⟩ := hempty
      have hall := writeJobs_ok_iff.1 ⟨written, hwrite⟩ _
        (List.mem_map_of_mem hc)
      rwa [session_of_rebindJob hsome] at hall
    · left
      refine ⟨fun hregistered => ?_, hstore'.symm.trans heq⟩
      have hall : ∀ job ∈ store.readJobs.map (rebound resolve input),
          store.Registered job.sessionId := by
        intro job hjob
        obtain ⟨old, hold, rfl⟩ := List.mem_map.1 hjob
        rcases session_rebound resolve input old with hsession | hsession
        · rw [hsession]
          exact registered_of_placed hplaced old hold
        · rwa [hsession]
      obtain ⟨written, hwrite⟩ := writeJobs_ok_iff.2 hall
      exact hrefused written hwrite

-- ======== the runs

theorem settled_register (hplaced : store.Placed)
    (hdistinct : DistinctIds store.readJobs) (sessionId : String) :
    Settled store (store.registerSessionArtifact sessionId) := by
  cases store with
  | jobsFile state => exact Settled.refl hplaced hdistinct
  | sessionArtifacts files =>
    simp only [Store.registerSessionArtifact]
    by_cases hhas : files.has sessionId = true
    · rw [if_pos hhas]
      exact Settled.refl hplaced hdistinct
    · rw [if_neg hhas]
      have hnew : sessionId ∉ files.keys := fun hmem =>
        hhas (JsMap.has_eq_true_iff.2 hmem)
      have hread : (Store.sessionArtifacts
          (files.set sessionId ⟨[], []⟩)).readJobs
            = (Store.sessionArtifacts files).readJobs := by
        rw [JsMap.set_of_not_mem _ hnew]
        show ((files ++ [_]).map Prod.snd).flatMap _ = _
        rw [List.map_append, List.flatMap_append]
        exact List.append_nil _
      refine ⟨⟨JsMap.nodup_keys_set hplaced.1 _ _, ?_⟩, ?_, ?_⟩
      · intro p hp job hjob
        rcases JsMap.mem_set hp with hp | rfl
        · exact hplaced.2 p hp job hjob
        · cases hjob
      · rw [hread]
        exact hdistinct
      · rw [hread]
        exact fun job hjob => ⟨job, hjob, Settles.refl job⟩

theorem StoreState.Sound.settled (h : s.Sound uuid)
    (hsettled : Settled s.store store) :
    StoreState.Sound uuid { s with store := store } := by
  refine ⟨hsettled.placed, hsettled.distinct, fun job' hjob' => ?_⟩
  obtain ⟨job, hjob, hsettles⟩ := hsettled.settles job' hjob'
  rw [hsettles.id]
  exact h.drawn job hjob

/-- The operations that settle jobs at most. -/
def Settling : Operation → Prop
  | .createHeartbeat _ _ => False
  | .rebindSessionJobs _ => False
  | _ => True

theorem step_settled (h : s.Sound uuid) {op : Operation} (hop : Settling op) :
    ∃ store, Settled s.store store
      ∧ step zone dateParse resolve uuid s op = { s with store := store } := by
  cases op with
  | registerSessionArtifact sessionId =>
    exact ⟨_, settled_register h.placed h.distinct sessionId, rfl⟩
  | createHeartbeat input now => cases hop
  | pauseHeartbeat activeSessionId now =>
    exact ⟨_, settled_edited h.placed h.distinct fun jobs returned =>
      settles_pauseHeartbeat h.distinct, rfl⟩
  | resumeHeartbeat activeSessionId now =>
    exact ⟨_, settled_edited h.placed h.distinct fun jobs returned =>
      settles_resumeHeartbeat h.distinct, rfl⟩
  | clearHeartbeat activeSessionId now =>
    exact ⟨_, settled_edited h.placed h.distinct fun jobs returned =>
      settles_clearHeartbeat h.distinct, rfl⟩
  | manageHeartbeat activeSessionId id action now =>
    exact ⟨_, settled_edited h.placed h.distinct fun jobs returned =>
      settles_manageHeartbeat, rfl⟩
  | rebindSessionJobs input => cases hop
  | cancel id now =>
    exact ⟨_, settled_edited h.placed h.distinct fun jobs returned =>
      settles_cancel, rfl⟩
  | claimDue dueAt claimedAt ids =>
    exact ⟨_, settled_withStates h.placed h.distinct
      (settledStates_claimDue 0 s.store.readStates), rfl⟩
  | recordDispatchResult dispatchId now outcome error =>
    exact ⟨_, settled_withStates h.placed h.distinct
      (settledStates_recordDispatchResult s.store.readStates), rfl⟩

/-- The store after a heartbeat is created: it is refused, or written. -/
theorem create_cases (resolve : String → String)
    (h : s.Sound uuid) (input : CreateAgentCronJobInput) (now : Instant) :
    ∃ store', step zone dateParse resolve uuid s (.createHeartbeat input now)
        = ⟨store', s.drawn + 1⟩
      ∧ ((¬ Accepted zone dateParse s.store input now ∧ store' = s.store)
        ∨ Accepted zone dateParse s.store input now ∧ ∃ job,
          createHeartbeat zone dateParse input (uuid s.drawn) now = .ok job
          ∧ s.store.writeJobs (cancelHeartbeats input.activeSessionId now
            s.store.readJobs ++ [job]) = .ok store') := by
  refine ⟨_, rfl, ?_⟩
  cases hjob : createHeartbeat zone dateParse input (uuid s.drawn) now with
  | error error =>
    refine .inl ⟨?_, ?_⟩
    · rintro ⟨-, haccepted⟩
      obtain ⟨job, hok⟩ := createHeartbeat_ok_iff.2 haccepted
      rw [hjob] at hok
      cases hok
    · apply edited_eq
      intro jobs returned hok
      unfold setHeartbeat at hok
      rw [hjob] at hok
      cases hok
  | ok job =>
    have hresult : setHeartbeat zone dateParse s.store.readJobs input
        (uuid s.drawn) now = .ok ⟨some (cancelHeartbeats
          input.activeSessionId now s.store.readJobs ++ [job]), job⟩ := by
      unfold setHeartbeat
      rw [hjob]
      rfl
    have hsession := (createHeartbeat_job hjob).2.2.1
    have haccepted := createHeartbeat_ok_iff.1 ⟨job, hjob⟩
    rcases edited_some (setHeartbeat zone dateParse · input (uuid s.drawn)
      now) hresult with ⟨written, hwrite, heq⟩ | ⟨hrefused, heq⟩
    · right
      have hregistered := writeJobs_ok_iff.1 ⟨written, hwrite⟩ job
        (List.mem_append_right _ (List.mem_singleton_self job))
      rw [hsession] at hregistered
      refine ⟨⟨hregistered, haccepted⟩, job, rfl, ?_⟩
      rw [hwrite, heq]
    · left
      refine ⟨?_, heq⟩
      rintro ⟨hregistered, -⟩
      have hall : ∀ j ∈ cancelHeartbeats input.activeSessionId now
          s.store.readJobs ++ [job], s.store.Registered j.sessionId := by
        intro j hj
        rcases List.mem_append.1 hj with hj | hj
        · rw [cancelHeartbeats_eq] at hj
          obtain ⟨c, hc, rfl⟩ := List.mem_map.1 hj
          rw [(settles_cancelLive _ now c).session]
          exact registered_of_placed h.placed c hc
        · rw [List.mem_singleton.1 hj, hsession]
          exact hregistered
      obtain ⟨written, hwrite⟩ := writeJobs_ok_iff.2 hall
      exact hrefused written hwrite

theorem step_rebind (input : RebindInput) :
    step zone dateParse resolve uuid s (.rebindSessionJobs input)
      = { s with store := s.store.edited fun jobs =>
            rebindSessionJobs resolve jobs input } := rfl

theorem not_settling {op : Operation} (h : ¬ Settling op) :
    (∃ input now, op = .createHeartbeat input now)
      ∨ ∃ input, op = .rebindSessionJobs input := by
  cases op with
  | createHeartbeat input now => exact .inl ⟨input, now, rfl⟩
  | rebindSessionJobs input => exact .inr ⟨input, rfl⟩
  | _ => exact absurd trivial h

theorem sound_step (huuid : Function.Injective uuid)
    (h : s.Sound uuid) (op : Operation) :
    (step zone dateParse resolve uuid s op).Sound uuid := by
  by_cases hop : Settling op
  · obtain ⟨store, hsettled, heq⟩ := step_settled h hop
    rw [heq]
    exact h.settled hsettled
  · rcases not_settling hop with ⟨input, now, rfl⟩ | ⟨input, rfl⟩
    · have hlater : ∀ job ∈ s.store.readJobs,
          ∃ k < s.drawn + 1, job.id = uuid k := by
        intro job hjob
        obtain ⟨k, hk, hid⟩ := h.drawn job hjob
        exact ⟨k, Nat.lt_succ_of_lt hk, hid⟩
      obtain ⟨store', hstep, hcases⟩ := create_cases resolve h input now
      rw [hstep]
      rcases hcases with ⟨-, heq⟩ | ⟨-, job, hjob, hwrite⟩
      · rw [heq]
        exact ⟨h.placed, h.distinct, hlater⟩
      · have hwritten := written_setHeartbeat h huuid hjob hwrite
        refine ⟨hwritten.placed, hwritten.distinct, fun j hj => ?_⟩
        rcases (hwritten.mem j).1 hj with ⟨hmem, -⟩ | ⟨hmem, -⟩
        · rcases List.mem_append.1 hmem with hmem | hmem
          · rw [cancelHeartbeats_eq] at hmem
            obtain ⟨c, hc, rfl⟩ := List.mem_map.1 hmem
            rw [(settles_cancelLive _ now c).id]
            exact hlater c hc
          · rw [List.mem_singleton.1 hmem, (createHeartbeat_job hjob).1]
            exact ⟨s.drawn, Nat.lt_succ_self _, rfl⟩
        · exact hlater j hmem
    · rcases rebind_cases resolve h.placed h.distinct input rfl with
        ⟨-, heq⟩ | ⟨-, hplaced, hdistinct, hmem⟩
      · rw [step_rebind, heq]
        exact h
      · refine ⟨hplaced, hdistinct, fun j hj => ?_⟩
        obtain ⟨c, hc, rfl⟩ := (hmem j).1 hj
        rw [(rebound_kept resolve input c).1]
        exact h.drawn c hc

theorem single_step_iff (huuid : Function.Injective uuid)
    (h : s.Sound uuid) (hsingle : SingleHeartbeats s.store) (op : Operation) :
    SingleHeartbeats (step zone dateParse resolve uuid s op).store
      ↔ KeepsSingle zone dateParse resolve s op := by
  by_cases hop : Settling op
  · obtain ⟨store, hsettled, heq⟩ := step_settled h hop
    rw [heq]
    apply iff_of_true (hsettled.single h.distinct hsingle)
    cases op with
    | createHeartbeat input now => cases hop
    | rebindSessionJobs input => cases hop
    | _ => trivial
  · rcases not_settling hop with ⟨input, now, rfl⟩ | ⟨input, rfl⟩
    · obtain ⟨store', hstep, hcases⟩ := create_cases resolve h input now
      rw [hstep]
      rcases hcases with ⟨hrefused, heq⟩ | ⟨haccepted, job, hjob, hwrite⟩
      · rw [heq]
        exact iff_of_true hsingle fun haccepted => absurd haccepted hrefused
      · rw [single_setHeartbeat_iff h huuid hsingle hjob hwrite]
        exact ⟨fun hstale _ => hstale, fun hkeeps => hkeeps haccepted⟩
    · rcases rebind_cases resolve h.placed h.distinct input rfl with
        ⟨hrefused, heq⟩ | ⟨hregistered, hplaced, hdistinct, hmem⟩
      · rw [step_rebind, heq]
        exact iff_of_true hsingle fun hregistered =>
          absurd hregistered hrefused
      · have hiff := single_rebound_iff h.distinct hsingle hdistinct hmem
        refine hiff.trans ⟨fun htargets _ => htargets, fun hkeeps => ?_⟩
        rcases hregistered with hregistered | heq
        · exact hkeeps hregistered
        · apply hiff.1
          rw [heq]
          exact hsingle

theorem sound_empty (sessionArtifactMode : Bool) :
    StoreState.Sound uuid ⟨Store.empty sessionArtifactMode, 0⟩ := by
  cases sessionArtifactMode with
  | false =>
    exact ⟨trivial, List.nodup_nil, fun job hjob => absurd hjob (by nofun)⟩
  | true =>
    refine ⟨⟨List.nodup_nil, ?_⟩, List.nodup_nil, ?_⟩
    · exact fun p hp => absurd hp List.not_mem_nil
    · exact fun job hjob => absurd hjob (by nofun)

end

/-- A run from an empty store has at most one live heartbeat for each session
in every state exactly if all of its operations keep to that. -/
theorem single_heartbeat_iff (zone : TimeZone)
    (dateParse : String → Option Instant) (resolve : String → String)
    {uuid : Nat → String} (huuid : Function.Injective uuid)
    (sessionArtifactMode : Bool) (operations : List Operation) :
    Run.Along (step zone dateParse resolve uuid)
        (fun s => SingleHeartbeats s.store)
        ⟨Store.empty sessionArtifactMode, 0⟩ operations
      ↔ Run.Guarded (step zone dateParse resolve uuid)
        (KeepsSingle zone dateParse resolve)
        ⟨Store.empty sessionArtifactMode, 0⟩ operations := by
  have hstep : ∀ (s : StoreState) op, s.Sound uuid →
      (step zone dateParse resolve uuid s op).Sound uuid :=
    fun s op h => sound_step huuid h op
  apply Run.along_iff_guarded hstep
    (fun s op h hsingle => single_step_iff huuid h hsingle op)
    (sound_empty sessionArtifactMode)
  intro activeSessionId
  cases sessionArtifactMode with
  | false => exact Nat.zero_le 1
  | true => exact Nat.zero_le 1

/-- What a heartbeat of the session with the name is made from. -/
def beatInput (name : String) : CreateAgentCronJobInput :=
  { leapInput "look around" "every 5m" with
    activeSessionId := "active-" ++ name
    sessionId := name
    sessionFile := "/sessions/" ++ name ++ ".jsonl" }

def letters (k : Nat) : String := String.ofList (List.replicate k 'a')

theorem letters_injective : Function.Injective letters := by
  intro k k' h
  unfold letters at h
  rw [String.ofList_inj] at h
  have hlength := congrArg List.length h
  rwa [List.length_replicate, List.length_replicate] at hlength

theorem single_heartbeat_replaced :
    Run.Along (step utc (fun _ => none) id letters)
      (fun s => SingleHeartbeats s.store) ⟨Store.empty false, 0⟩
      [.createHeartbeat (beatInput "one") leapEve,
        .pauseHeartbeat "active-one" leapDay,
        .createHeartbeat (beatInput "one") leapDay] := by
  rw [single_heartbeat_iff utc (fun _ => none) id letters_injective false]
  refine ⟨fun _ => ?_, trivial, fun _ => ?_, trivial⟩
  · decide +kernel
  · decide +kernel

/-- A session that is restored from the file of another one has the
heartbeats of both. -/
theorem two_heartbeats_rebound :
    ¬ Run.Along (step utc (fun _ => none) id letters)
      (fun s => SingleHeartbeats s.store) ⟨Store.empty false, 0⟩
      [.createHeartbeat (beatInput "one") leapEve,
        .createHeartbeat (beatInput "two") leapEve,
        .rebindSessionJobs
          ⟨"active-one", "two", "/sessions/two.jsonl", "/"⟩] := by
  intro h
  have hlength := h.last "active-one"
  revert hlength
  decide +kernel

end OneHarness.Cron
