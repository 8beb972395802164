/-
When the worker recovery journal keeps every session's last word.

# The file

is at every moment the lines of some records and an unfinished one
(`FileHolds`); a reader sees the last record of each session (`latestOf`).
A compaction writes the map of one instance in its place, and an append
adds one record.

# The run

An instance's map is what the file said when the instance was made, and
what it has written since. Nothing tells it of the records of others. So
the last words are kept exactly as long as every compaction starts from a
map that agrees with the file, and every suppressed record is what the
file has (`kept_along_iff`).
-/
import OneHarness.Daemon.Proofs.EventLog
import OneHarness.Daemon.WorkerRecoveryJournal
import OneHarness.Lib.Run

namespace OneHarness.Daemon.WorkerRecovery

open Lib EventLog

-- ======== the records

/-- A record that was written: what it was given and its time. -/
abbrev Written := RecordInput × String

def Written.json (r : Written) : Json := r.1.record r.2

def Written.session (r : Written) : String := r.1.activeSessionId

theorem sessionOf_json (r : Written) :
    sessionOf r.json = some (some r.session) := by
  obtain ⟨⟨activeSessionId, sessionId, sessionFile, busy, operation⟩,
    recordedAt⟩ := r
  have hversion : isNumber
      ((Written.json ⟨⟨activeSessionId, sessionId, sessionFile, busy,
        operation⟩, recordedAt⟩).get "version") 1 = true := by
    cases sessionFile with
    | none => exact isNumber_one
    | some file => exact isNumber_one
  cases sessionFile with
  | none =>
    show some (if isNumber _ 1 && true && true && true then _ else _) = _
    rw [hversion]
    rfl
  | some file =>
    show some (if isNumber _ 1 && true && true && true then _ else _) = _
    rw [hversion]
    rfl

/-- The last record of each session. -/
def latestOf (rs : List Written) : JsMap String Json :=
  rs.foldl (fun latest r => latest.set r.session r.json) []

theorem latestOf_concat (rs : List Written) (r : Written) :
    latestOf (rs ++ [r]) = (latestOf rs).set r.session r.json := by
  rw [latestOf, List.foldl_append]
  rfl

-- ======== the file

/-- The file is the lines of these records, and a line that is not ended. -/
def Lines (file : Option (List UInt8)) (rs : List Written) : Prop :=
  ∃ torn : List UInt8, 0x0a ∉ torn
    ∧ file.getD [] = payload (rs.map Written.json) ++ torn

theorem repair_payload (events : List Json) {torn : List UInt8}
    (h : (0x0a : UInt8) ∉ torn) : repair (payload events ++ torn) = payload events := by
  unfold repair
  by_cases htorn : torn = []
  · subst htorn
    rw [List.append_nil, if_pos]
    by_cases hnil : events = []
    · exact .inl (payload_eq_nil.2 hnil)
    · exact .inr (getLast?_payload hnil)
  · have hnot : ¬ (payload events ++ torn = []
        ∨ (payload events ++ torn).getLast? = some 0x0a) := by
      rintro (hnil | hlast)
      · exact htorn (List.append_eq_nil_iff.1 hnil).2
      · rw [List.getLast?_append_of_ne_nil _ htorn] at hlast
        exact h (List.mem_of_getLast? hlast)
    have hdrop : ∀ b ∈ torn.reverse, (b != 0x0a) = true := by
      intro b hb
      rw [bne_iff_ne]
      exact fun heq => h (heq ▸ List.mem_reverse.1 hb)
    rw [if_neg hnot, List.reverse_append, List.dropWhile_append_of_pos hdrop]
    by_cases hnil : events = []
    · rw [hnil]
      rfl
    · have hlast := getLast?_payload hnil
      rw [← List.head?_reverse] at hlast
      obtain ⟨rest, hrest⟩ := List.head?_eq_some_iff.1 hlast
      rw [hrest, List.dropWhile_cons_of_neg (by decide), ← hrest,
        List.reverse_reverse]

variable {file : Option (List UInt8)} {rs : List Written}

theorem Lines.repaired (h : Lines file rs) :
    ((readAndRepairRecoveryJournal file).1).getD []
      = payload (rs.map Written.json) := by
  obtain ⟨torn, htorn, hfile⟩ := h
  cases file with
  | none =>
    have hnil : payload (rs.map Written.json) ++ torn = [] := hfile.symm
    exact (List.append_eq_nil_iff.1 hnil).1.symm
  | some bytes =>
    have hbytes : bytes = payload (rs.map Written.json) ++ torn := hfile
    show repair bytes = _
    rw [hbytes, repair_payload _ htorn]

theorem Lines.of_payload (rs : List Written) :
    Lines (some (payload (rs.map Written.json))) rs :=
  ⟨[], List.not_mem_nil, (List.append_nil _).symm⟩

theorem Lines.repair
    (h : Lines file rs) : Lines (readAndRepairRecoveryJournal file).1 rs :=
  ⟨[], List.not_mem_nil, by rw [h.repaired, List.append_nil]⟩

theorem parseLines_json (latest : JsMap String Json) (rs : List Written) :
    parseLines latest ((rs.map Written.json).map Json.stringify ++ [[]])
      = some (rs.foldl (fun latest r => latest.set r.session r.json) latest) := by
  induction rs generalizing latest with
  | nil => rfl
  | cons r rs ih =>
    have hne : (Json.stringify r.json).isEmpty = false := by
      rw [Written.json, RecordInput.record, Json.stringify]
      rfl
    rw [List.map_cons, List.map_cons, List.cons_append, parseLines, hne,
      if_neg Bool.false_ne_true, Json.parse_stringify]
    dsimp only
    rw [sessionOf_json]
    exact ih _

/-- A reader sees the last record of each session. -/
theorem Lines.parseRecords
    (h : Lines file rs) : parseRecords file = some (latestOf rs) := by
  have hcontents : (readAndRepairRecoveryJournal file).2
      = Utf8.decode (payload (rs.map Written.json)) := by
    have hrepaired := h.repaired
    cases file with
    | none =>
      have hnil : [] = payload (rs.map Written.json) := hrepaired
      rw [← hnil, Utf8.decode_nil]
      rfl
    | some bytes =>
      have hbytes : WorkerRecovery.repair bytes
        = payload (rs.map Written.json) := hrepaired
      show Utf8.decode (WorkerRecovery.repair bytes) = _
      rw [hbytes]
  rw [WorkerRecovery.parseRecords, hcontents, splitOn_decode_payload,
    parseLines_json]
  rfl

-- ======== the appends

/-- An append adds its record if it has written all of the line. -/
theorem Lines.append (h : Lines file rs) (r : Written) (ended : AppendEnd) :
    Lines (some (append file r.json ended))
      (if World.AppendEnd.wrote ended r.json then rs ++ [r] else rs) := by
  have hadded : payload ((rs ++ [r]).map Written.json)
      = payload (rs.map Written.json) ++ payload [r.json] := by
    rw [List.map_append, payload_append]
    rfl
  unfold WorkerRecovery.append World.AppendEnd.wrote
  rw [h.repaired]
  cases ended with
  | done =>
    rw [if_pos rfl]
    exact ⟨[], List.not_mem_nil, by rw [hadded, List.append_nil]; rfl⟩
  | crashes written =>
    dsimp only
    by_cases hall : (payload [r.json]).length ≤ written
    · rw [if_pos (decide_eq_true hall), List.take_of_length_le hall]
      exact ⟨[], List.not_mem_nil, by rw [hadded, List.append_nil]; rfl⟩
    · have hnot : ¬ decide ((payload [r.json]).length ≤ written) = true :=
        fun h => hall (of_decide_eq_true h)
      rw [if_neg hnot]
      refine ⟨(payload [r.json]).take written, ?_, rfl⟩
      intro hmem
      rw [payload_singleton, List.length_append, List.length_singleton]
        at hall
      rw [payload_singleton, List.take_append_of_le_length (by omega)] at hmem
      exact newline_not_mem_encode r.json (List.mem_of_mem_take hmem)

-- ======== the maps

/-- The map holds written records, each under its session. -/
structure Recorded (latest : JsMap String Json) : Prop where
  nodup : latest.keys.Nodup
  written : ∀ p ∈ latest, ∃ r : Written, p = (r.session, r.json)

theorem Recorded.nil : Recorded [] := ⟨List.nodup_nil, nofun⟩

variable {latest : JsMap String Json}

theorem Recorded.set (h : Recorded latest)
    (r : Written) : Recorded (latest.set r.session r.json) := by
  refine ⟨JsMap.nodup_keys_set h.nodup _ _, ?_⟩
  intro p hp
  rcases JsMap.mem_set hp with hp | hp
  · exact h.written p hp
  · exact ⟨r, hp⟩

theorem recorded_latestOf (rs : List Written) : Recorded (latestOf rs) := by
  induction rs using List.reverseRecOn with
  | nil => exact Recorded.nil
  | append_singleton rs r ih =>
    rw [latestOf_concat]
    exact ih.set r

theorem Recorded.exists_list (h : Recorded latest) :
    ∃ rs : List Written, latest = rs.map fun r => (r.session, r.json) := by
  have hall := h.written
  clear h
  induction latest with
  | nil => exact ⟨[], rfl⟩
  | cons p latest ih =>
    obtain ⟨r, hr⟩ := hall p List.mem_cons_self
    obtain ⟨rs, hrs⟩ := ih fun q hq => hall q (List.mem_cons_of_mem _ hq)
    exact ⟨r :: rs, by rw [hr, hrs, List.map_cons]⟩

/-- A compaction makes the file say what the map says. -/
theorem lines_compacted (h : Recorded latest)
    (hne : latest ≠ []) : ∃ rs : List Written,
      Lines (some (Utf8.encode (compactText latest.values))) rs
        ∧ ∀ session, (latestOf rs).get session = latest.get session := by
  obtain ⟨rs, hrs⟩ := h.exists_list
  have hvalues : latest.values = rs.map Written.json := by
    rw [JsMap.values, hrs, List.map_map]
    rfl
  have hkeys : (rs.map Written.session).Nodup := by
    have hnodup := h.nodup
    rw [JsMap.keys, hrs, List.map_map] at hnodup
    exact hnodup
  refine ⟨rs, ?_, ?_⟩
  · have hlines : (rs.map Written.json).map Json.stringify ≠ [] := by
      intro hnil
      have hrsnil : rs = [] :=
        List.map_eq_nil_iff.1 (List.map_eq_nil_iff.1 hnil)
      rw [hrsnil] at hrs
      exact hne hrs
    have htext : Utf8.encode (compactText latest.values)
        = payload (rs.map Written.json) := by
      rw [compactText, hvalues, Text.intercalate_newline hlines, payload_eq]
    rw [htext]
    exact Lines.of_payload rs
  · intro session
    rw [latestOf, JsMap.get_foldl_set [] hkeys session, JsMap.get_nil,
      Option.or_none, hrs, JsMap.get, List.find?_map, Option.map_map]
    rfl

-- ======== the steps

variable {doing : Doing} {i : Nat}

namespace World

/-- The file is lines of records, and so is the map of every instance. -/
structure Inv (w : World) : Prop where
  file : ∃ rs, Lines w.file rs
  recorded : ∀ j ∈ w.instances, Recorded j.latest
  compacting : ∀ j ∈ w.instances, j.doing = .compacting → j.latest ≠ []

/-- Every session's last word is in the file, and no record was suppressed
that the file has not. -/
structure Kept (w : World) : Prop where
  last : ∀ session, w.readLatest.get session = w.accepted.get session
  honest : w.misled = false

/-- A suppressed record is what the file has; a map that replaces the file
agrees with it. -/
def Fits (w : World) : Event → Prop
  | .record i input _ _ => ∀ latest, w.instances[i]? = some ⟨latest, .idle⟩ →
      unchanged (latest.get input.activeSessionId) input = true →
        sameRecord (w.readLatest.get input.activeSessionId) input = true
  | .compact i ended => ended ≠ .crashes false →
      ∀ latest, w.instances[i]? = some ⟨latest, .compacting⟩ →
        ∀ session, latest.get session = w.readLatest.get session
  | _ => True

variable {w : World}

theorem readLatest_of_lines (h : Lines w.file rs) :
    w.readLatest = latestOf rs := by
  rw [readLatest, h.parseRecords]
  rfl

/-- A repair changes nothing for a reader. -/
theorem readLatest_repair (h : Lines file rs) :
    (parseRecords (readAndRepairRecoveryJournal file).1).getD []
      = latestOf rs := by
  rw [h.repair.parseRecords]
  rfl

/-- The world that an instance leaves when it has had the lock. -/
theorem Inv.put {accepted : JsMap String Json}
    (hw : Inv w) (i : Nat) (hfile : Lines file rs) (hlatest : Recorded latest)
    (hdoing : doing = .compacting → latest ≠ []) :
    Inv (World.put { w with file := file, accepted := accepted } i latest
      doing) := by
  refine ⟨⟨rs, hfile⟩, ?_, ?_⟩
  · intro j hj
    rcases List.mem_or_eq_of_mem_set hj with hj | hj
    · exact hw.recorded j hj
    · rw [hj]
      exact hlatest
  · intro j hj
    rcases List.mem_or_eq_of_mem_set hj with hj | hj
    · exact hw.compacting j hj
    · rw [hj]
      exact hdoing

theorem set_ne_nil (latest : JsMap String Json) (k : String) (v : Json) :
    latest.set k v ≠ [] := by
  intro hnil
  have hget := JsMap.get_set_self latest k v
  rw [hnil] at hget
  cases hget

/-- What a call of `record` that is not suppressed does to the file. -/
theorem record_written
    {input : RecordInput} {recordedAt : String} {ended : AppendEnd}
    (hchanged : unchanged (latest.get input.activeSessionId) input = false) :
    ∃ latest' doing',
      w.record i ⟨latest, doing⟩ input recordedAt ended
        = World.put { w with
            file := some (append w.file (input.record recordedAt) ended)
            accepted :=
              if AppendEnd.wrote ended (input.record recordedAt) then
                w.accepted.set input.activeSessionId (input.record recordedAt)
              else w.accepted } i latest' doing'
        ∧ (latest' = latest ∨ latest'
          = latest.set input.activeSessionId (input.record recordedAt))
        ∧ (doing' = .compacting → latest' ≠ []) := by
  unfold record
  dsimp only
  rw [hchanged, if_neg Bool.false_ne_true]
  cases ended with
  | crashes written => exact ⟨latest, .gone, rfl, .inl rfl, nofun⟩
  | done =>
    dsimp only
    split
    · exact ⟨_, .compacting, rfl, .inr rfl, fun _ => set_ne_nil _ _ _⟩
    · exact ⟨_, .idle, rfl, .inr rfl, nofun⟩

theorem inv_record (hw : Inv w) (hget : w.instances[i]? = some ⟨latest, doing⟩)
    (input : RecordInput) (recordedAt : String) (ended : AppendEnd) :
    Inv (w.record i ⟨latest, doing⟩ input recordedAt ended) := by
  cases hsup : unchanged (latest.get input.activeSessionId) input with
  | true =>
    unfold record
    rw [if_pos hsup]
    exact ⟨hw.file, hw.recorded, hw.compacting⟩
  | false =>
    obtain ⟨latest', doing', heq, hlatest', hdoing'⟩ :=
      @record_written latest doing i w input recordedAt ended hsup
    obtain ⟨rs, hrs⟩ := hw.file
    have hold := hw.recorded _ (List.mem_of_getElem? hget)
    rw [heq]
    apply hw.put i (hrs.append (input, recordedAt) ended) _ hdoing'
    cases hlatest' with
    | inl heq' =>
      rw [heq']
      exact hold
    | inr heq' =>
      rw [heq']
      exact hold.set (input, recordedAt)

/-- The file after the compaction of an instance. -/
theorem compact_lines (hw : Inv w)
    (hget : w.instances[i]? = some ⟨latest, .compacting⟩) {ended : ReplaceEnd}
    (hended : ended ≠ .crashes false) : ∃ rs : List Written,
      Lines (WorkerRecovery.compact w.file latest ended) rs
        ∧ ∀ session, (latestOf rs).get session = latest.get session := by
  have hmem := List.mem_of_getElem? hget
  have hfile : WorkerRecovery.compact w.file latest ended
      = some (Utf8.encode (compactText latest.values)) := by
    cases ended with
    | done => rfl
    | crashes replaced =>
      cases replaced with
      | true => rfl
      | false => exact absurd rfl hended
  rw [hfile]
  exact lines_compacted (hw.recorded _ hmem) (hw.compacting _ hmem rfl)

theorem inv_step (hw : Inv w) (event : Event) : Inv (w.step event) := by
  obtain ⟨rs, hrs⟩ := hw.file
  cases event with
  | «open» =>
    unfold step
    dsimp only
    rw [hrs.parseRecords]
    refine ⟨⟨rs, hrs.repair⟩, ?_, ?_⟩
    · intro j hj
      rcases List.mem_append.1 hj with hj | hj
      · exact hw.recorded j hj
      · rw [List.mem_singleton.1 hj]
        exact recorded_latestOf rs
    · intro j hj
      rcases List.mem_append.1 hj with hj | hj
      · exact hw.compacting j hj
      · rw [List.mem_singleton.1 hj]
        exact nofun
  | read => exact ⟨⟨rs, hrs.repair⟩, hw.recorded, hw.compacting⟩
  | record i input recordedAt ended =>
    unfold step
    dsimp only
    split
    · rename_i latest hget
      exact inv_record hw hget input recordedAt ended
    · exact hw
  | compact i ended =>
    unfold step
    dsimp only
    split
    · rename_i latest hget
      have hlatest := hw.recorded _ (List.mem_of_getElem? hget)
      cases ended with
      | done =>
        obtain ⟨rs', hrs', -⟩ := @compact_lines latest i w hw
          hget .done nofun
        exact hw.put i hrs' hlatest nofun
      | crashes replaced =>
        cases replaced with
        | true =>
          obtain ⟨rs', hrs', -⟩ := @compact_lines latest i w hw
            hget (.crashes true) nofun
          exact hw.put i hrs' hlatest nofun
        | false => exact hw.put i hrs.repair hlatest nofun
    · exact hw
  | crash i =>
    unfold step
    dsimp only
    split
    · rename_i latest doing hget
      have hlatest := hw.recorded _ (List.mem_of_getElem? hget)
      exact hw.put i hrs hlatest nofun
    · exact hw

/-- Nothing changes for a reader. -/
theorem Kept.mono (h : Kept w) {w' : World}
    (hread : w'.readLatest = w.readLatest)
    (haccepted : w'.accepted = w.accepted) (hmisled : w'.misled = w.misled) :
    Kept w' :=
  ⟨fun session => by rw [hread, haccepted]; exact h.last session,
    hmisled.trans h.honest⟩

theorem kept_record
    (hw : Inv w) (h : Kept w) (input : RecordInput) (recordedAt : String)
    (ended : AppendEnd) :
    Kept (w.record i ⟨latest, doing⟩ input recordedAt ended)
      ↔ (unchanged (latest.get input.activeSessionId) input = true →
        sameRecord (w.readLatest.get input.activeSessionId) input = true) := by
  cases hsup : unchanged (latest.get input.activeSessionId) input with
  | true =>
    unfold record
    rw [if_pos hsup]
    constructor
    · intro hkept _
      have hhonest := hkept.honest
      dsimp only at hhonest
      rw [h.honest, Bool.false_or, Bool.not_eq_false'] at hhonest
      exact hhonest
    · intro hsame
      refine ⟨h.last, ?_⟩
      dsimp only
      rw [hsame rfl, h.honest]
      rfl
  | false =>
    obtain ⟨latest', doing', heq, -, -⟩ :=
      @record_written latest doing i w input recordedAt ended hsup
    obtain ⟨rs, hrs⟩ := hw.file
    refine ⟨fun _ => nofun, fun _ => ?_⟩
    rw [heq]
    refine ⟨?_, h.honest⟩
    intro session
    have happend := hrs.append (input, recordedAt) ended
    have hlast := h.last session
    rw [readLatest_of_lines hrs] at hlast
    -- the file and the accepted records get the record, or neither does
    cases hwrote : AppendEnd.wrote ended (input.record recordedAt) with
    | true =>
      have hwrote' : AppendEnd.wrote ended
        (Written.json (input, recordedAt)) = true := hwrote
      rw [hwrote', if_pos rfl] at happend
      rw [readLatest_of_lines happend, latestOf_concat]
      show _ = JsMap.get (if true = true then
        w.accepted.set input.activeSessionId (input.record recordedAt)
        else w.accepted) session
      rw [if_pos rfl, JsMap.get_set, JsMap.get_set, hlast]
      rfl
    | false =>
      have hwrote' : AppendEnd.wrote ended
        (Written.json (input, recordedAt)) = false := hwrote
      rw [hwrote', if_neg Bool.false_ne_true] at happend
      rw [readLatest_of_lines happend]
      exact hlast

theorem kept_compact (hw : Inv w) (h : Kept w)
    (hget : w.instances[i]? = some ⟨latest, .compacting⟩) (ended : ReplaceEnd) :
    Kept (World.put { w with file := WorkerRecovery.compact w.file latest ended }
        i latest doing)
      ↔ (ended ≠ .crashes false →
        ∀ session, latest.get session = w.readLatest.get session) := by
  by_cases hended : ended = .crashes false
  · subst hended
    obtain ⟨rs, hrs⟩ := hw.file
    refine ⟨fun _ hne => absurd rfl hne, fun _ => ?_⟩
    refine h.mono ?_ rfl rfl
    rw [readLatest_of_lines hrs]
    exact readLatest_repair hrs
  · obtain ⟨rs, hrs, hlatest⟩ := compact_lines hw hget hended
    have hread : ∀ session, (World.put { w with
        file := WorkerRecovery.compact w.file latest ended } i latest
          doing).readLatest.get session = latest.get session := by
      intro session
      rw [readLatest_of_lines hrs]
      exact hlatest session
    constructor
    · intro hkept _ session
      rw [← hread session, hkept.last session]
      exact (h.last session).symm
    · intro hagrees
      refine ⟨?_, h.honest⟩
      intro session
      rw [hread session, hagrees hended session]
      exact h.last session

/-- A step keeps the last words exactly if it fits. -/
theorem kept_step_iff (hw : Inv w) (h : Kept w) (event : Event) :
    Kept (w.step event) ↔ w.Fits event := by
  obtain ⟨rs, hrs⟩ := hw.file
  have hrepair : (parseRecords (readAndRepairRecoveryJournal w.file).1).getD []
      = w.readLatest := by
    rw [readLatest_of_lines hrs]
    exact readLatest_repair hrs
  cases event with
  | «open» =>
    refine ⟨fun _ => trivial, fun _ => ?_⟩
    unfold step
    dsimp only
    rw [hrs.parseRecords]
    exact h.mono hrepair rfl rfl
  | read =>
    refine ⟨fun _ => trivial, fun _ => ?_⟩
    exact h.mono hrepair rfl rfl
  | record i input recordedAt ended =>
    unfold step Fits
    dsimp only
    split
    · rename_i latest hget
      rw [kept_record hw h]
      constructor
      · intro hsame latest' hget'
        have heq := Option.some.inj (hget.symm.trans hget')
        rw [← (Instance.mk.inj heq).1]
        exact hsame
      · intro hfits
        exact hfits latest hget
    · rename_i hnone
      refine ⟨fun _ latest hget => ?_, fun _ => h⟩
      exact absurd hget (hnone latest)
  | compact i ended =>
    unfold step Fits
    dsimp only
    split
    · rename_i latest hget
      rw [kept_compact hw h hget]
      constructor
      · intro hagrees hended latest' hget'
        have heq := Option.some.inj (hget.symm.trans hget')
        rw [← (Instance.mk.inj heq).1]
        exact hagrees hended
      · intro hfits hended
        exact hfits hended latest hget
    · rename_i hnone
      refine ⟨fun _ _ latest hget => ?_, fun _ => h⟩
      exact absurd hget (hnone latest)
  | crash i =>
    refine ⟨fun _ => trivial, fun _ => ?_⟩
    unfold step
    dsimp only
    split
    · exact h.mono rfl rfl rfl
    · exact h

-- ======== the run

theorem inv_init : Inv init :=
  ⟨⟨[], [], List.not_mem_nil, rfl⟩, nofun, nofun⟩

theorem kept_init : Kept init := ⟨fun _ => rfl, rfl⟩

/-- A run keeps the last words all along exactly if every suppressed record
is what the file has, and every compaction starts from a map that agrees
with the file. -/
theorem kept_along_iff (events : List Event) :
    Run.Along step Kept init events ↔ Run.Guarded step Fits init events :=
  @Run.along_iff_guarded World Event step Kept Fits Inv
    (fun _ event hw => inv_step hw event)
    (fun _ event hw h => kept_step_iff hw h event)
    init inv_init kept_init events

/-- Two instances, made before either writes. Each records that a session
of its own is idle, and compacts. -/
def twoIdleSessions : List Event :=
  [.open, .open,
    .record 0 ⟨"a", "s1", none, false, "idle"⟩ "t1" .done, .compact 0 .done,
    .record 1 ⟨"b", "s2", none, false, "idle"⟩ "t2" .done, .compact 1 .done]

/-- The compaction of the second forgets the session of the first. -/
theorem twoIdleSessions_not_kept :
    let w := twoIdleSessions.foldl step init
    ¬ Run.Along step Kept init twoIdleSessions
      ∧ (w.accepted.get "a").isSome = true
      ∧ (w.readLatest.get "a").isSome = false := by
  intro w
  have haccepted : (w.accepted.get "a").isSome = true := by decide +kernel
  have hread : (w.readLatest.get "a").isSome = false := by decide +kernel
  refine ⟨?_, haccepted, hread⟩
  intro halong
  rw [halong.last.last "a", haccepted] at hread
  cases hread

end World
end OneHarness.Daemon.WorkerRecovery
