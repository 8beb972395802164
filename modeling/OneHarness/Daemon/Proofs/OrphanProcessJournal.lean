/-
What a reader of the orphan process journal knows of each child.

# The torn line

The file is the lines of the completed records and a line that is not ended
(`Inv`). A reader skips that line, so all is well until something is written
behind it: nothing ever cuts it off, and the next record becomes the rest of
the torn line. Hence the condition on a step (`Apart`), that a record starts
on a line of its own.

# The last newline

A line that lacks its newline only is a record to the reader, although its
append has not completed. That is the other way a step may go wrong.
-/
import OneHarness.Daemon.OrphanProcessJournal
import OneHarness.Daemon.Proofs.TornAppends
import OneHarness.Lib.Json.Torn
import OneHarness.Lib.Run

namespace OneHarness.Daemon.OrphanProcessJournal

open Lib EventLog

-- ======== statement vocabulary

/-- What a reader should say of a child while its record is active. -/
def RecordInput.orphan (input : RecordInput) : ActiveOrphanProcess where
  pid := input.pid
  kernelPid := none
  processStartId := input.processStartId

namespace Journal

/-- The last record of a child by its owner whose append completed. -/
def lastOf (journal : Journal) (ownerPid pid : ℤ) : Option RecordInput :=
  ((journal.completed.filter fun input => input.ownerPid = ownerPid).filter
    fun input => input.pid = pid).getLast?

/-- A reader has, for each child of an owner, exactly what its last completed
record says; and so has a reaper. -/
structure Known (journal : Journal) : Prop where
  once : ∀ ownerPid,
    ((readActiveOrphanProcesses journal.file ownerPid).map
      ActiveOrphanProcess.pid).Nodup
  exact : ∀ ownerPid orphan,
    orphan ∈ readActiveOrphanProcesses journal.file ownerPid
      ↔ ∃ last, journal.lastOf ownerPid orphan.pid = some last
        ∧ last.active = true ∧ orphan = last.orphan
  missesNone : ∀ getProcessStartId win32 ownerPid pid last,
    journal.lastOf ownerPid pid = some last → last.active = true →
      shouldReapOrphanProcess getProcessStartId win32 last.orphan = true →
        last.orphan ∈ reaped getProcessStartId win32 journal.file ownerPid
  killsNoEnded : ∀ getProcessStartId win32 ownerPid, ∀ orphan ∈
    reaped getProcessStartId win32 journal.file ownerPid, ∀ last,
      journal.lastOf ownerPid orphan.pid = some last → last.active = true

/-- The last line of the file is not ended. -/
def Torn (journal : Journal) : Prop :=
  journal.file.getD [] ≠ [] ∧ (journal.file.getD []).getLast? ≠ some 0x0a

instance (journal : Journal) : Decidable journal.Torn := by
  unfold Torn
  infer_instance

end Journal

/-- The bytes that a call puts down, if its line has as many. -/
def Append.bytes (append : Append) : Nat :=
  match append.reach with
  | .unopened => 0
  | .written bytes => if append.input.pid ≤ 0 then 0 else bytes

/-- A record is not written behind a torn line, and does not lack its newline
only. -/
def Apart (journal : Journal) (append : Append) : Prop :=
  append.bytes = 0
    ∨ ¬ journal.Torn
      ∧ append.bytes + 1 ≠ (payload [append.input.record]).length

instance (journal : Journal) (append : Append) :
    Decidable (Apart journal append) := by
  unfold Apart
  infer_instance

-- ======== one record

variable {input : RecordInput} {ownerPid : ℤ}

theorem integer_ofInt (i : ℤ) :
    integer? (some (.num (Numeral.ofInt i))) = some i := by
  rw [integer?, Numeral.toRat_ofInt, if_pos (Rat.den_intCast i),
    Rat.num_intCast]

theorem isNumber_ofInt (i j : ℤ) :
    isNumber (some (.num (Numeral.ofInt i))) j = decide (i = j) := by
  rw [isNumber, Numeral.toRat_ofInt]
  exact decide_eq_decide.2 Rat.intCast_inj

theorem get_version :
    input.record.get "version" = some (.num (Numeral.ofNat 1)) := by
  unfold RecordInput.record
  cases input.processStartId with
  | none => rfl
  | some id => rfl

theorem get_pid :
    input.record.get "pid" = some (.num (Numeral.ofInt input.pid)) := by
  unfold RecordInput.record
  cases input.processStartId with
  | none => rfl
  | some id => rfl

theorem get_ownerPid :
    input.record.get "ownerPid"
      = some (.num (Numeral.ofInt input.ownerPid)) := by
  unfold RecordInput.record
  cases input.processStartId with
  | none => rfl
  | some id => rfl

theorem get_active : input.record.get "active" = some (.bool input.active) := by
  unfold RecordInput.record
  cases input.processStartId with
  | none => rfl
  | some id => rfl

theorem get_recordedAt :
    input.record.get "recordedAt" = some (.str input.recordedAt) := by
  unfold RecordInput.record
  cases input.processStartId with
  | none => rfl
  | some id => rfl

theorem get_kernelPid : input.record.get "kernelPid" = none := by
  unfold RecordInput.record
  cases input.processStartId with
  | none => rfl
  | some id => rfl

theorem get_processStartId :
    input.record.get "processStartId" = input.processStartId.map .str := by
  unfold RecordInput.record
  cases input.processStartId with
  | none => rfl
  | some id => rfl

/-- A reader takes the line of a record, if it is its owner's. -/
theorem recordOf_record (hpid : 0 < input.pid) :
    recordOf ownerPid (Json.stringify input.record)
      = if input.ownerPid = ownerPid then some (input.pid, input.record)
        else none := by
  rw [recordOf, Json.parse_stringify]
  dsimp only
  rw [get_pid, integer_ofInt]
  dsimp only
  rw [get_version, isNumber_one, get_ownerPid, isNumber_ofInt, get_active,
    get_recordedAt, decide_eq_true hpid]
  by_cases howner : input.ownerPid = ownerPid
  · rw [if_pos howner, decide_eq_true howner]
    rfl
  · rw [if_neg howner, decide_eq_false howner]
    rfl

theorem activeOrphan_record :
    activeOrphan input.record
      = if input.active = true then some input.orphan else none := by
  rw [activeOrphan, get_active, get_pid, get_kernelPid, get_processStartId,
    integer_ofInt]
  have hid : ((input.processStartId.map Json.str).isNone
      || (string? (input.processStartId.map .str)).isSome) = true := by
    cases input.processStartId with
    | none => rfl
    | some id => rfl
  have hstring : string? (input.processStartId.map .str)
      = input.processStartId := by
    cases input.processStartId with
    | none => rfl
    | some id => rfl
  rw [hid, hstring]
  cases input.active with
  | true => rfl
  | false => rfl

/-- A record cut short is no record. -/
theorem recordOf_torn {torn : List UInt8}
    (htorn : torn <+: Utf8.encode (Json.stringify input.record))
    (hpart : torn ≠ Utf8.encode (Json.stringify input.record)) :
    Json.parse (Utf8.decode torn) = none :=
  Json.parse_decode_torn htorn hpart

-- ======== the lines

theorem readLine_record {latest : JsMap ℤ Json} (hpid : 0 < input.pid) :
    readLine ownerPid latest (Json.stringify input.record)
      = if input.ownerPid = ownerPid then latest.set input.pid input.record
        else latest := by
  have hne : (Json.stringify input.record).isEmpty = false := by
    rw [RecordInput.record, Json.stringify]
    rfl
  rw [readLine, hne, if_neg Bool.false_ne_true, recordOf_record hpid]
  by_cases howner : input.ownerPid = ownerPid
  · rw [if_pos howner, if_pos howner]
  · rw [if_neg howner, if_neg howner]

theorem readLine_torn {latest : JsMap ℤ Json} {line : List Char}
    (h : Json.parse line = none) : readLine ownerPid latest line = latest := by
  rw [readLine, recordOf, h]
  exact ite_self _

/-- The last record of each child of an owner. -/
def latestOf (ownerPid : ℤ) (inputs : List RecordInput) : JsMap ℤ Json :=
  (inputs.filter fun input => input.ownerPid = ownerPid).foldl
    (fun latest input => latest.set input.pid input.record) []

theorem foldl_readLine {inputs : List RecordInput}
    (hpids : ∀ input ∈ inputs, 0 < input.pid) (latest : JsMap ℤ Json) :
    ((inputs.map RecordInput.record).map Json.stringify).foldl
        (readLine ownerPid) latest
      = (inputs.filter fun input => input.ownerPid = ownerPid).foldl
        (fun latest input => latest.set input.pid input.record) latest := by
  induction inputs generalizing latest with
  | nil => rfl
  | cons input inputs ih =>
    rw [List.map_cons, List.map_cons, List.foldl_cons,
      readLine_record (hpids input List.mem_cons_self),
      ih fun i hi => hpids i (List.mem_cons_of_mem _ hi)]
    by_cases howner : input.ownerPid = ownerPid
    · rw [if_pos howner, List.filter_cons, if_pos (decide_eq_true howner),
        List.foldl_cons]
    · rw [if_neg howner, List.filter_cons,
        if_neg (fun h => howner (of_decide_eq_true h))]

theorem nodup_latestOf (ownerPid : ℤ) (inputs : List RecordInput) :
    (latestOf ownerPid inputs).keys.Nodup := by
  unfold latestOf
  generalize inputs.filter (fun input => input.ownerPid = ownerPid) = own
  induction own using List.reverseRecOn with
  | nil => exact List.nodup_nil
  | append_singleton own input ih =>
    rw [List.foldl_append]
    exact JsMap.nodup_keys_set ih _ _

-- ======== the file

/-- The file is the lines of the completed records, and a line that is not
ended and says nothing. -/
structure Inv (journal : Journal) : Prop where
  file : ∃ torn, Holds journal.file
      (journal.completed.map RecordInput.record) torn
    ∧ Json.parse (Utf8.decode torn) = none
  pids : ∀ input ∈ journal.completed, 0 < input.pid

variable {journal : Journal}

/-- A reader makes its list from the last records. -/
theorem Inv.read (h : Inv journal) (ownerPid : ℤ) :
    readActiveOrphanProcesses journal.file ownerPid
      = (latestOf ownerPid journal.completed).values.filterMap
        activeOrphan := by
  obtain ⟨torn, hfile, htorn⟩ := h.file
  have hsplit := hfile.splitOn
  have hall : ((Utf8.decode (journal.file.getD [])).splitOn '\n').foldl
      (readLine ownerPid) [] = latestOf ownerPid journal.completed := by
    rw [hsplit, List.foldl_append, foldl_readLine h.pids, List.foldl_cons,
      readLine_torn htorn]
    rfl
  cases hbytes : journal.file with
  | none =>
    rw [hbytes, Option.getD_none, Utf8.decode_nil] at hall
    rw [readActiveOrphanProcesses, ← hall]
    rfl
  | some bytes =>
    rw [hbytes, Option.getD_some] at hall
    rw [readActiveOrphanProcesses, hall]

theorem get_latestOf (ownerPid pid : ℤ) :
    (latestOf ownerPid journal.completed).get pid
      = (journal.lastOf ownerPid pid).map RecordInput.record := by
  rw [latestOf, JsMap.get_foldl_set_last, JsMap.get_nil, Option.or_none]
  rfl

/-- Every value of the map is the last record of its child. -/
theorem mem_latestOf {pid : ℤ} {record : Json} :
    (pid, record) ∈ latestOf ownerPid journal.completed
      ↔ ∃ last, journal.lastOf ownerPid pid = some last
        ∧ last.record = record := by
  constructor
  · intro hmem
    have hget := JsMap.get_of_mem (nodup_latestOf ownerPid _) hmem
    rw [get_latestOf, Option.map_eq_some_iff] at hget
    exact hget
  · rintro ⟨last, hlast, rfl⟩
    apply JsMap.mem_of_get
    rw [get_latestOf, hlast]
    rfl

theorem Journal.pid_of_lastOf {pid : ℤ} {last : RecordInput}
    (h : journal.lastOf ownerPid pid = some last) : last.pid = pid := by
  have hmem := List.mem_of_getLast? h
  exact of_decide_eq_true (List.mem_filter.1 hmem).2

-- ======== what is known

theorem Inv.mem_read (h : Inv journal) (orphan : ActiveOrphanProcess) :
    orphan ∈ readActiveOrphanProcesses journal.file ownerPid
      ↔ ∃ last, journal.lastOf ownerPid orphan.pid = some last
        ∧ last.active = true ∧ orphan = last.orphan := by
  rw [h.read, List.mem_filterMap]
  constructor
  · rintro ⟨record, hrecord, horphan⟩
    obtain ⟨⟨pid, record⟩, hmem, rfl⟩ := List.mem_map.1 hrecord
    obtain ⟨last, hlast, rfl⟩ := mem_latestOf.1 hmem
    rw [activeOrphan_record] at horphan
    by_cases hactive : last.active = true
    · rw [if_pos hactive, Option.some.injEq] at horphan
      subst horphan
      refine ⟨last, ?_, hactive, rfl⟩
      show journal.lastOf ownerPid last.pid = some last
      rw [Journal.pid_of_lastOf hlast]
      exact hlast
    · rw [if_neg hactive] at horphan
      cases horphan
  · rintro ⟨last, hlast, hactive, rfl⟩
    refine ⟨last.record, ?_, ?_⟩
    · exact List.mem_map.2 ⟨(last.orphan.pid, last.record),
        mem_latestOf.2 ⟨last, hlast, rfl⟩, rfl⟩
    · rw [activeOrphan_record, if_pos hactive]

/-- Each child has one entry: its pid is the key of its record. -/
theorem Inv.nodup_read (h : Inv journal) (ownerPid : ℤ) :
    ((readActiveOrphanProcesses journal.file ownerPid).map
      ActiveOrphanProcess.pid).Nodup := by
  have hkeys := nodup_latestOf ownerPid journal.completed
  rw [h.read]
  have hpids : ∀ p ∈ latestOf ownerPid journal.completed, ∀ orphan,
      activeOrphan p.2 = some orphan → orphan.pid = p.1 := by
    rintro ⟨pid, record⟩ hmem orphan horphan
    obtain ⟨last, hlast, rfl⟩ := mem_latestOf.1 hmem
    rw [activeOrphan_record] at horphan
    by_cases hactive : last.active = true
    · rw [if_pos hactive, Option.some.injEq] at horphan
      subst horphan
      exact Journal.pid_of_lastOf hlast
    · rw [if_neg hactive] at horphan
      cases horphan
  generalize latestOf ownerPid journal.completed = latest at hkeys hpids ⊢
  have hsub : List.Sublist ((latest.values.filterMap activeOrphan).map
      ActiveOrphanProcess.pid) latest.keys := by
    clear hkeys
    induction latest with
    | nil => exact List.Sublist.refl _
    | cons p latest ih =>
      have hrest := ih fun q hq => hpids q (List.mem_cons_of_mem _ hq)
      rw [JsMap.values, JsMap.keys, List.map_cons, List.map_cons]
      cases horphan : activeOrphan p.2 with
      | none =>
        rw [List.filterMap_cons_none horphan]
        exact hrest.cons _
      | some orphan =>
        rw [List.filterMap_cons_some horphan, List.map_cons,
          hpids p List.mem_cons_self orphan horphan]
        exact hrest.cons_cons _
  exact hkeys.sublist hsub

theorem Inv.known (h : Inv journal) : journal.Known where
  once := h.nodup_read
  exact ownerPid orphan := h.mem_read orphan
  missesNone := by
    intro getProcessStartId win32 ownerPid pid last hlast hactive hreap
    have hpid := Journal.pid_of_lastOf hlast
    apply List.mem_filter.2
    refine ⟨(h.mem_read _).2 ⟨last, ?_, hactive, rfl⟩, hreap⟩
    show journal.lastOf ownerPid last.pid = some last
    rw [hpid]
    exact hlast
  killsNoEnded := by
    intro getProcessStartId win32 ownerPid orphan horphan last hlast
    have hread := (List.mem_filter.1 horphan).1
    obtain ⟨known, hknown, hactive, -⟩ := (h.mem_read _).1 hread
    rw [hknown, Option.some.injEq] at hlast
    exact hlast ▸ hactive

-- ======== the steps

theorem inv_init : Inv Journal.init := by
  refine ⟨⟨[], ⟨rfl, .null, List.nil_prefix⟩, ?_⟩, ?_⟩
  · rw [Utf8.decode_nil]
    rfl
  · exact fun _ h => absurd h List.not_mem_nil

/-- A call that puts nothing down completes nothing. -/
theorem Append.completes_eq_false {append : Append} (h : append.bytes = 0) :
    append.completes = false := by
  obtain ⟨input, reach⟩ := append
  cases reach with
  | unopened => rfl
  | written bytes =>
    unfold Append.completes
    rw [Append.bytes] at h
    dsimp only at h ⊢
    by_cases hpid : input.pid ≤ 0
    · rw [decide_eq_false (Int.not_lt.2 hpid), Bool.false_and]
    · rw [if_neg hpid] at h
      have hlong : ¬ (payload [input.record]).length ≤ bytes := by
        rw [payload_singleton, List.length_append, List.length_singleton]
        omega
      rw [decide_eq_false hlong, Bool.and_false]

/-- A call that completes has a child to record, and puts all bytes down. -/
theorem Append.of_completes (append : Append) (h : append.completes = true) :
    0 < append.input.pid
      ∧ (payload [append.input.record]).length ≤ append.bytes := by
  obtain ⟨input, reach⟩ := append
  unfold Append.completes Append.bytes at *
  dsimp only at h ⊢
  cases reach with
  | unopened => cases h
  | written bytes =>
    dsimp only at h ⊢
    rw [Bool.and_eq_true, decide_eq_true_eq, decide_eq_true_eq] at h
    rw [if_neg (Int.not_le.2 h.1)]
    exact h

/-- A call that does not complete leaves a byte out. -/
theorem Append.bytes_lt_of_not_completes (append : Append)
    (h : ¬ append.completes = true) :
    append.bytes < (payload [append.input.record]).length := by
  have hline : 0 < (payload [append.input.record]).length := by
    rw [payload_singleton, List.length_append, List.length_singleton]
    omega
  obtain ⟨input, reach⟩ := append
  unfold Append.completes Append.bytes at *
  dsimp only at h hline ⊢
  cases reach with
  | unopened => exact hline
  | written bytes =>
    dsimp only at h ⊢
    by_cases hpid : input.pid ≤ 0
    · rw [if_pos hpid]
      exact hline
    · rw [if_neg hpid]
      rw [decide_eq_true (Int.not_le.1 hpid), Bool.true_and,
        decide_eq_true_eq] at h
      omega

theorem getD_recordOrphanProcessState (file : Option (List UInt8))
    (append : Append) :
    (recordOrphanProcessState file append.input append.reach).getD []
      = file.getD []
        ++ (payload [append.input.record]).take append.bytes := by
  obtain ⟨input, reach⟩ := append
  unfold recordOrphanProcessState Append.bytes
  dsimp only
  cases reach with
  | unopened =>
    show (if input.pid ≤ 0 then file else file).getD [] = _
    rw [ite_self, List.take_zero, List.append_nil]
  | written bytes =>
    dsimp only
    by_cases hpid : input.pid ≤ 0
    · rw [if_pos hpid, if_pos hpid, List.take_zero, List.append_nil]
    · rw [if_neg hpid, if_neg hpid, Option.getD_some]

/-- Where the last line is ended, nothing is torn. -/
theorem torn_eq_nil {records : List Json} {torn : List UInt8}
    (hfile : Holds journal.file records torn) (h : ¬ journal.Torn) :
    torn = [] := by
  by_contra hne
  apply h
  rw [Journal.Torn, hfile.bytes]
  refine ⟨fun hnil => hne (List.append_eq_nil_iff.1 hnil).2, fun hlast => ?_⟩
  rw [List.getLast?_append_of_ne_nil _ hne] at hlast
  exact hfile.newline_not_mem (List.mem_of_getLast? hlast)

/-- One call, on a line of its own. -/
theorem inv_step (h : Inv journal) {append : Append}
    (happart : Apart journal append) : Inv (journal.step append) := by
  obtain ⟨torn, hfile, htorn⟩ := h.file
  have hbytes := getD_recordOrphanProcessState journal.file append
  rcases happart with hnone | ⟨hended, hnewline⟩
  · rw [hnone, List.take_zero, List.append_nil] at hbytes
    have hsame : (journal.step append).completed = journal.completed := by
      rw [Journal.step, Append.completes_eq_false hnone]
      rfl
    refine ⟨⟨torn, ⟨?_, hfile.start⟩, htorn⟩, ?_⟩
    · rw [hsame, ← hfile.bytes]
      exact hbytes
    · rw [hsame]
      exact h.pids
  · rw [hfile.bytes, torn_eq_nil hfile hended, List.append_nil] at hbytes
    by_cases hall : append.completes = true
    · have hadded : (journal.step append).completed
          = journal.completed ++ [append.input] := if_pos hall
      obtain ⟨hpid, hlong⟩ := append.of_completes hall
      rw [List.take_of_length_le hlong, ← payload_append] at hbytes
      refine ⟨⟨[], ⟨?_, .null, List.nil_prefix⟩, ?_⟩, ?_⟩
      · rw [hadded, List.map_append, List.append_nil]
        exact hbytes
      · rw [Utf8.decode_nil]
        rfl
      · rw [hadded]
        intro input hinput
        rcases List.mem_append.1 hinput with hinput | hinput
        · exact h.pids input hinput
        · rw [List.mem_singleton.1 hinput]
          exact hpid
    · have hsame : (journal.step append).completed = journal.completed :=
        if_neg hall
      have hshort := append.bytes_lt_of_not_completes hall
      rw [payload_singleton, List.length_append, List.length_singleton]
        at hnewline hshort
      have hcut : (payload [append.input.record]).take append.bytes
          = (Utf8.encode (Json.stringify append.input.record)).take
            append.bytes := by
        rw [payload_singleton, List.take_append_of_le_length (by omega)]
      rw [hcut] at hbytes
      refine ⟨⟨(Utf8.encode (Json.stringify append.input.record)).take
        append.bytes, ⟨?_, _, List.take_prefix _ _⟩, ?_⟩, ?_⟩
      · rw [hsame]
        exact hbytes
      · apply recordOf_torn (List.take_prefix _ _)
        intro heq
        have hlength := congrArg List.length heq
        rw [List.length_take] at hlength
        omega
      · rw [hsame]
        exact h.pids

-- ======== the runs

/-- While every record starts on a line of its own, a reader has what the
last completed records say. -/
theorem known_of_apart (appends : List Append)
    (h : Run.Guarded Journal.step Apart Journal.init appends) :
    Run.Along Journal.step Journal.Known Journal.init appends := by
  have hinv := @Run.along_of_kept Journal Append Journal.step Inv Apart
    (fun _ _ hinv happart => inv_step hinv happart) Journal.init inv_init
    appends h
  exact hinv.mono fun _ hinv => hinv.known

/-- Two children, the second recorded by another process, and the end of the
first. -/
def twoWriters : List Append :=
  [⟨⟨7, true, some (some "proc:1"), 1, none, "t1"⟩, .written 200⟩,
    ⟨⟨8, true, none, 2, some "proc:2", "t2"⟩, .written 200⟩,
    ⟨⟨7, false, none, 1, none, "t3"⟩, .written 200⟩]

theorem known_of_apart_twoWriters :
    Run.Guarded Journal.step Apart Journal.init twoWriters
      ∧ Run.Along Journal.step Journal.Known Journal.init twoWriters := by
  have hguarded : Run.Guarded Journal.step Apart Journal.init twoWriters :=
    ⟨by decide +kernel, by decide +kernel, by decide +kernel, trivial⟩
  exact ⟨hguarded, known_of_apart twoWriters hguarded⟩

/-- A process that dies in its line, and a child recorded by another. -/
def welded : List Append :=
  [⟨⟨7, true, some (some "proc:1"), 1, none, "t1"⟩, .written 1⟩,
    ⟨⟨8, true, none, 2, some "proc:2", "t2"⟩, .written 200⟩]

/-- The text of the file: the brace of the first record, and the second. -/
def weldedText : List Char :=
  '{' :: (Json.stringify
    (RecordInput.record ⟨8, true, none, 2, some "proc:2", "t2"⟩) ++ ['\n'])

theorem file_welded :
    (welded.foldl Journal.step Journal.init).file
      = some (Utf8.encode weldedText) := by
  decide +kernel

/-- A reader does not see the child. -/
theorem read_welded :
    readActiveOrphanProcesses (welded.foldl Journal.step Journal.init).file 2
      = [] := by
  rw [file_welded, readActiveOrphanProcesses, Utf8.decode_encode]
  decide +kernel

/-- The second record is complete, and its child is not known. -/
theorem not_known_welded :
    ¬ Run.Along Journal.step Journal.Known Journal.init welded := by
  intro h
  have hlast : (welded.foldl Journal.step Journal.init).lastOf 2 8
      = some ⟨8, true, none, 2, some "proc:2", "t2"⟩ := by
    rfl
  have hmem := (h.last.exact 2 ⟨8, none, some "proc:2"⟩).2
    ⟨_, hlast, rfl, rfl⟩
  rw [read_welded] at hmem
  exact absurd hmem List.not_mem_nil

end OneHarness.Daemon.OrphanProcessJournal
