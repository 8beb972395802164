/-
What an event log replays after appends that stopped half way.

# The file

At any time the file is the lines of some records and a torn line, the start
of a line whose append did not get through (`Holds`). A replay yields the
records and never reads the torn line (`Holds.replay`); an append cuts the
torn line off before it writes (`Holds.repair`).

# What stays

A write that stops leaves the lines it put down whole, and no others: they
are the first events of its payload (`take_payload`). They stay whether the
process ended there or the call threw (`run_replay`), so a later replay
returns events of an append that failed (`failed_append_replayed`).
-/
import OneHarness.Daemon.Proofs.EventLog

namespace OneHarness.Daemon.EventLog

open Lib Session

-- ======== statement vocabulary

/-- A reader that takes the lines of these events, to what `view` keeps of
each. -/
def Reads {ε τ : Type} (parse : String → Nat → Except ε (Option τ))
    (view : Json → Option τ) (events : List Json) : Prop :=
  ∀ event ∈ events, ∀ index, parse (lineOf event) index = .ok (view event)

/-- What a replay of records makes of a file: the bounds are all it can fail
for. -/
def replayed {ε τ : Type} (options : EventLogOptions) (view : Json → Option τ)
    (file : Option (List UInt8)) (records : List Json) :
    Except (EventLogError ε) (List τ) :=
  if exceeds options.maxBytes (file.getD []).length then
    .error (.tooManyBytes (options.maxBytes.getD 0) (file.getD []).length)
  else if exceeds options.maxRecords records.length then
    .error (.tooManyRecords (options.maxRecords.getD 0))
  else .ok (records.filterMap view)

/-- What an append leaves in the log: its events, or the first of them where
it stopped, with the records for a new file ahead of them. -/
structure Contributes (append : LogAppend) (attempt : Attempt) : Prop where
  batch : attempt.batch = append.events
    ∨ attempt.batch = append.onCreate ++ append.events
  leading : attempt.recorded <+: attempt.batch
  returned : attempt.ending = .returned → attempt.recorded = attempt.batch
  unwritten : attempt.written = 0 → attempt.recorded = []

/-- The file is the lines of these records, and the start of a line. -/
structure Holds (file : Option (List UInt8)) (records : List Json)
    (torn : List UInt8) : Prop where
  bytes : file.getD [] = payload records ++ torn
  start : ∃ event, torn <+: Utf8.encode (Json.stringify event)

-- ======== the lines

/-- The first bytes of some lines are the lines among them that are whole,
as many as there are newlines, and the start of one. -/
theorem take_payload (events : List Json) (n : Nat) :
    ∃ torn event, (payload events).take n
        = payload (events.take (((payload events).take n).count 0x0a)) ++ torn
      ∧ torn <+: Utf8.encode (Json.stringify event) := by
  induction events generalizing n with
  | nil => exact ⟨[], .null, by simp [payload], List.nil_prefix⟩
  | cons event events ih =>
    have hcons : payload (event :: events)
        = Utf8.encode (Json.stringify event) ++ 0x0a :: payload events := by
      rw [← List.singleton_append, payload_append, payload_singleton,
        List.append_assoc]
      rfl
    rw [hcons]
    by_cases hn : n ≤ (Utf8.encode (Json.stringify event)).length
    · -- the cut falls into the first line
      rw [List.take_append_of_le_length hn]
      have hcount : ((Utf8.encode (Json.stringify event)).take n).count 0x0a
          = 0 := by
        apply List.count_eq_zero.2
        exact fun hmem =>
          newline_not_mem_encode event (List.mem_of_mem_take hmem)
      rw [hcount, List.take_zero]
      exact ⟨_, event, rfl, List.take_prefix _ _⟩
    · obtain ⟨m, rfl⟩ : ∃ m, n
          = (Utf8.encode (Json.stringify event)).length + (m + 1) :=
        ⟨n - (Utf8.encode (Json.stringify event)).length - 1, by omega⟩
      obtain ⟨torn, other, htake, htorn⟩ := ih m
      refine ⟨torn, other, ?_, htorn⟩
      rw [List.take_length_add_append, List.take_succ_cons,
        List.count_append, List.count_cons_self,
        List.count_eq_zero.2 (newline_not_mem_encode event), Nat.zero_add,
        List.take_succ_cons]
      conv_lhs => rw [htake]
      rw [← List.singleton_append (x := event), payload_append,
        payload_singleton]
      simp only [List.append_assoc, List.singleton_append,
        List.cons_append, List.nil_append]

variable {attempt : Attempt}

/-- With all bytes down, all lines are. -/
theorem recorded_of_written
    (h : attempt.written = (payload attempt.batch).length) :
    attempt.recorded = attempt.batch := by
  rw [Attempt.recorded, h, List.take_length, count_payload, List.take_length]

-- ======== replaying

variable {torn : List Char} {endsWithNewline : Bool}
  {repaired : Option (List UInt8)}

variable (append : LogAppend)

section
variable {ε τ : Type} {options : EventLogOptions}
  {parse : String → Nat → Except ε (Option τ)} {view : Json → Option τ}

/-- A blank or torn last line says nothing. -/
theorem replayLines_last (index recordCount : Nat)
    (h : torn = [] ∨ endsWithNewline = false) :
    replayLines options parse endsWithNewline index recordCount [torn]
      = .ok [] := by
  rw [replayLines]
  by_cases hblank : trim (String.ofList torn) = ""
  · rw [if_pos hblank]
    rfl
  · rw [if_neg hblank]
    rcases h with rfl | hends
    · exact absurd rfl hblank
    · rw [hends]
      rfl

/-- The lines of records replay to what the reader makes of them, unless
they are too many. -/
theorem replayLines_lines {records : List Json}
    (hreads : Reads parse view records) (index recordCount : Nat)
    (h : torn = [] ∨ endsWithNewline = false) :
    replayLines options parse endsWithNewline index recordCount
        (records.map Json.stringify ++ [torn])
      = if records ≠ []
            ∧ exceeds options.maxRecords (recordCount + records.length) then
          .error (.tooManyRecords (options.maxRecords.getD 0))
        else .ok (records.filterMap view) := by
  induction records generalizing index recordCount with
  | nil =>
    rw [if_neg (fun hne => hne.1 rfl)]
    exact replayLines_last index recordCount h
  | cons event records ih =>
    have hline : trim (String.ofList (Json.stringify event))
        = lineOf event := trim_lineOf event
    have hmore : (records.map Json.stringify ++ [torn]).isEmpty = false := by
      cases records <;> rfl
    rw [List.map_cons, List.cons_append, replayLines, hline,
      if_neg (lineOf_ne_empty event), hmore, Bool.false_and,
      if_neg Bool.false_ne_true, hreads event List.mem_cons_self,
      ih fun e he => hreads e (List.mem_cons_of_mem _ he)]
    have hlen : recordCount + (event :: records).length
        = recordCount + 1 + records.length := by
      rw [List.length_cons]
      omega
    rw [hlen]
    by_cases hall : exceeds options.maxRecords
        (recordCount + 1 + records.length) = true
    · rw [if_pos (c := event :: records ≠ [] ∧ _)
        ⟨List.cons_ne_nil _ _, hall⟩]
      by_cases hnow : exceeds options.maxRecords (recordCount + 1) = true
      · rw [if_pos hnow]
      · have hne : records ≠ [] := by
          rintro rfl
          exact hnow hall
        rw [if_neg hnow, if_pos ⟨hne, hall⟩]
    · have hnow : ¬exceeds options.maxRecords (recordCount + 1) = true := by
        rw [Bool.not_eq_true] at hall ⊢
        exact exceeds_mono (by omega) hall
      rw [if_neg hnow, if_neg (fun hne => hall hne.2),
        if_neg (fun hne => hall hne.2)]
      cases hview : view event with
      | none => rw [List.filterMap_cons_none hview]; rfl
      | some x => rw [List.filterMap_cons_some hview]; rfl

-- ======== the file

variable {file : Option (List UInt8)} {records : List Json}
  {torn : List UInt8}

section
variable (h : Holds file records torn)
include h

theorem Holds.newline_not_mem : (0x0a : UInt8) ∉ torn := by
  obtain ⟨event, hevent⟩ := h.start
  exact fun hmem => newline_not_mem_encode event (hevent.subset hmem)

theorem Holds.newline_not_mem_decode : '\n' ∉ Utf8.decode torn := by
  obtain ⟨event, hevent⟩ := h.start
  obtain ⟨n, m, hdecode, -⟩ := Utf8.decode_prefix hevent
  rw [hdecode]
  intro hmem
  rcases List.mem_append.1 hmem with hmem | hmem
  · exact newline_not_mem_stringify event (List.mem_of_mem_take hmem)
  · exact absurd (List.eq_of_mem_replicate hmem) (by decide)

theorem Holds.decode :
    Utf8.decode (file.getD [])
      = Text.unlines (records.map Json.stringify) ++ Utf8.decode torn := by
  rw [h.bytes, payload_eq, Utf8.decode_encode_append]

theorem Holds.splitOn :
    (Utf8.decode (file.getD [])).splitOn '\n'
      = records.map Json.stringify ++ [Utf8.decode torn] := by
  have hlines : ∀ text ∈ records.map Json.stringify, '\n' ∉ text := by
    intro text htext
    obtain ⟨event, -, rfl⟩ := List.mem_map.1 htext
    exact newline_not_mem_stringify event
  rw [h.decode]
  exact Text.splitOn_unlines hlines h.newline_not_mem_decode

/-- The file ends with a newline only when nothing is torn. -/
theorem Holds.ends :
    Utf8.decode torn = []
      ∨ decide ((Utf8.decode (file.getD [])).getLast? = some '\n')
        = false := by
  by_cases htorn : Utf8.decode torn = []
  · exact .inl htorn
  · refine .inr (decide_eq_false fun hlast => ?_)
    rw [h.decode, List.getLast?_append_of_ne_nil _ htorn] at hlast
    exact h.newline_not_mem_decode (List.mem_of_getLast? hlast)

/-- The file replays to its records, within the bounds. -/
theorem Holds.replay (hreads : Reads parse view records) :
    replaySync options parse file = replayed options view file records := by
  cases file with
  | none =>
    have hnil : records = [] := by
      have hbytes := h.bytes
      rw [Option.getD_none] at hbytes
      exact payload_eq_nil.1 (List.append_eq_nil_iff.1 hbytes.symm).1
    rw [hnil, replayed, Option.getD_none, List.length_nil, List.length_nil,
      exceeds_zero, exceeds_zero]
    rfl
  | some bytes =>
    have hsplit := h.splitOn
    have hends := h.ends
    rw [Option.getD_some] at hsplit hends
    rw [replaySync, replayed, readAllSync, Option.getD_some]
    by_cases hbytes : exceeds options.maxBytes bytes.length = true
    · rw [if_pos hbytes, if_pos hbytes]
    · rw [if_neg hbytes, if_neg hbytes]
      dsimp only
      rw [hsplit, replayLines_lines hreads 0 0 hends, Nat.zero_add]
      cases records with
      | nil =>
        rw [if_neg (fun hne => hne.1 rfl), List.length_nil, exceeds_zero,
          if_neg Bool.false_ne_true]
      | cons event records =>
        by_cases hmany : exceeds options.maxRecords
            (event :: records).length = true
        · rw [if_pos ⟨List.cons_ne_nil _ _, hmany⟩, if_pos hmany]
        · rw [if_neg (fun hne => hmany hne.2), if_neg hmany]

end

-- ======== the repair

/-- A torn line goes, and nothing else. -/
theorem dropWhile_torn (h : (0x0a : UInt8) ∉ torn) :
    ((payload records ++ torn).reverse.dropWhile
      fun b => b != 0x0a).reverse = payload records := by
  have htorn : ∀ b ∈ torn.reverse, (b != 0x0a) = true := by
    intro b hb
    refine bne_iff_ne.2 ?_
    rintro rfl
    exact h (List.mem_reverse.1 hb)
  rw [List.reverse_append, List.dropWhile_append_of_pos htorn]
  cases records with
  | nil => rfl
  | cons event records =>
    have hlast := getLast?_payload (List.cons_ne_nil event records)
    obtain ⟨front, hfront⟩ := List.getLast?_eq_some_iff.1 hlast
    rw [hfront, List.reverse_concat, List.dropWhile_cons_of_neg (by decide),
      List.reverse_cons, List.reverse_reverse]

/-- An append writes behind the records, or does not touch the file. -/
theorem Holds.repairFile (h : Holds file records torn)
    (hrepair : EventLog.repairFile options file = .ok repaired) :
    repaired.getD [] = payload records := by
  cases file with
  | none =>
    cases hrepair
    have hbytes := h.bytes
    rw [Option.getD_none] at hbytes ⊢
    rw [(List.append_eq_nil_iff.1 hbytes.symm).1]
  | some bytes =>
    have hbytes := h.bytes
    rw [Option.getD_some] at hbytes
    rw [EventLog.repairFile, repairTailSync] at hrepair
    by_cases hempty : bytes = []
    · rw [if_pos hempty] at hrepair
      cases hrepair
      rw [Option.getD_some]
      rw [hempty] at hbytes ⊢
      rw [(List.append_eq_nil_iff.1 hbytes.symm).1]
    · rw [if_neg hempty, readAllSync] at hrepair
      by_cases hmany : exceeds options.maxBytes bytes.length = true
      · rw [if_pos hmany] at hrepair
        cases hrepair
      · rw [if_neg hmany] at hrepair
        dsimp only at hrepair
        by_cases hlast : bytes.getLast? = some 0x0a
        · -- the last line is whole: nothing is torn
          rw [if_pos hlast] at hrepair
          cases hrepair
          have htorn : torn = [] := by
            by_contra hne
            rw [hbytes, List.getLast?_append_of_ne_nil _ hne] at hlast
            exact h.newline_not_mem (List.mem_of_getLast? hlast)
          rw [Option.getD_some, hbytes, htorn, List.append_nil]
        · rw [if_neg hlast] at hrepair
          cases hrepair
          rw [Option.getD_some, hbytes, dropWhile_torn h.newline_not_mem]

-- ======== one append

/-- Behind the records, the first bytes of a payload are its first lines and
the start of one. -/
theorem Holds.written (bytes : List UInt8) (batch : List Json) (n : Nat)
    (h : bytes = payload records) :
    ∃ torn, Holds (some (bytes ++ (payload batch).take n))
      (records ++ batch.take (((payload batch).take n).count 0x0a)) torn := by
  obtain ⟨torn, event, htake, htorn⟩ := take_payload batch n
  refine ⟨torn, ?_, event, htorn⟩
  rw [Option.getD_some, h, payload_append, List.append_assoc]
  conv_lhs => rw [htake]

/-- Records and nothing torn, with nothing written. -/
theorem Holds.unwritten (h : Holds file records torn)
    (hfile : attempt.file = file) (hwritten : attempt.written = 0) :
    Holds attempt.file (records ++ attempt.recorded) torn := by
  rw [Attempt.recorded, hwritten, List.take_zero, List.count_nil,
    List.take_zero, List.append_nil, hfile]
  exact h

/-- The write of an append to a repaired file. -/
theorem Holds.write (batch : List Json)
    (h : repaired.getD [] = payload records) :
    ∃ torn, Holds (append.write repaired batch).file
      (records ++ (append.write repaired batch).recorded) torn := by
  have hclean : Holds repaired records [] :=
    ⟨by rw [h, List.append_nil], .null, List.nil_prefix⟩
  have hwhole : ∃ torn, Holds (some (repaired.getD [] ++ payload batch))
      (records ++ batch.take (((payload batch).take
        (payload batch).length).count 0x0a)) torn := by
    have hall := Holds.written (repaired.getD []) batch
      (payload batch).length h
    rwa [List.take_length] at hall ⊢
  obtain ⟨events, onCreate, stop, dies⟩ := append
  cases stop with
  | none => exact hwhole
  | some stop =>
    cases stop with
    | early => exact ⟨[], hclean.unwritten rfl rfl⟩
    | repaired => exact ⟨[], hclean.unwritten rfl rfl⟩
    | flush => exact hwhole
    | write written =>
      rw [LogAppend.write]
      dsimp only
      by_cases hshort :
          (dies || decide (written < (payload batch).length)) = true
      · rw [if_pos hshort]
        exact Holds.written (repaired.getD []) batch written h
      · rw [if_neg hshort]
        exact hwhole

/-- What an append has written is behind the records. -/
theorem Holds.attemptSync (h : Holds file records torn) (append : LogAppend) :
    ∃ torn, Holds (EventLog.attemptSync options file append).file
      (records ++ (EventLog.attemptSync options file append).recorded)
      torn := by
  rw [EventLog.attemptSync]
  by_cases hearly : append.stop = some .early
  · rw [if_pos hearly]
    exact ⟨torn, h.unwritten rfl rfl⟩
  · rw [if_neg hearly]
    cases hrepair : EventLog.repairFile options file with
    | error error => exact ⟨torn, h.unwritten rfl rfl⟩
    | ok repaired => exact Holds.write append _ (h.repairFile hrepair)

theorem LogAppend.batch_eq (file : Option (List UInt8)) :
    append.batch file = append.events
      ∨ append.batch file = append.onCreate ++ append.events := by
  rw [LogAppend.batch]
  by_cases hfile : file.isSome = true
  · exact .inl (if_pos hfile)
  · exact .inr (if_neg hfile)

/-- How an append ends that stops is not that it returns. -/
theorem LogAppend.stopped_ne : append.stopped ≠ .returned := by
  rw [LogAppend.stopped]
  cases append.dies with
  | true => exact fun h => nomatch h
  | false => exact fun h => nomatch h

theorem batch_attemptSync :
    (EventLog.attemptSync options file append).batch = append.batch file := by
  rw [EventLog.attemptSync]
  by_cases hearly : append.stop = some .early
  · rw [if_pos hearly]
  · rw [if_neg hearly]
    cases EventLog.repairFile options file with
    | error error => rfl
    | ok repaired =>
      dsimp only
      rw [LogAppend.write]
      obtain ⟨events, onCreate, stop, dies⟩ := append
      cases stop with
      | none => rfl
      | some stop =>
        cases stop with
        | early => rfl
        | repaired => rfl
        | flush => rfl
        | write written =>
          dsimp only
          split
          · rfl
          · rfl

/-- An append that returns has written its payload. -/
theorem LogAppend.written_of_returned
    (repaired : Option (List UInt8)) (batch : List Json)
    (h : (append.write repaired batch).ending = .returned) :
    (append.write repaired batch).written
      = (payload (append.write repaired batch).batch).length := by
  have hstopped := append.stopped_ne
  obtain ⟨events, onCreate, stop, dies⟩ := append
  cases stop with
  | none => rfl
  | some stop =>
    cases stop with
    | early => exact absurd h hstopped
    | repaired => exact absurd h hstopped
    | flush => exact absurd h hstopped
    | write written =>
      rw [LogAppend.write] at h ⊢
      dsimp only at h ⊢
      by_cases hshort :
          (dies || decide (written < (payload batch).length)) = true
      · rw [if_pos hshort] at h
        exact absurd h hstopped
      · rw [if_neg hshort]

theorem returned_attemptSync
    (h : (EventLog.attemptSync options file append).ending = .returned) :
    (EventLog.attemptSync options file append).written
      = (payload (EventLog.attemptSync options file append).batch).length := by
  rw [EventLog.attemptSync] at h ⊢
  by_cases hearly : append.stop = some .early
  · rw [if_pos hearly] at h
    exact absurd h append.stopped_ne
  · rw [if_neg hearly] at h ⊢
    cases hrepair : EventLog.repairFile options file with
    | error error =>
      rw [hrepair] at h
      cases h
    | ok repaired =>
      rw [hrepair] at h
      exact append.written_of_returned repaired _ h

theorem contributes_attemptSync :
    Contributes append (EventLog.attemptSync options file append) where
  batch := by
    rw [batch_attemptSync]
    exact append.batch_eq file
  leading := List.take_prefix _ _
  returned := fun h => recorded_of_written (returned_attemptSync append h)
  unwritten := by
    intro h
    rw [Attempt.recorded, h, List.take_zero, List.count_nil, List.take_zero]

/-- With no stop it is the append of the source. -/
theorem attemptSync_eq_appendSync (h : append.stop = none) :
    EventLog.attemptSync options file append
      = match appendSync (ε := Empty) options file append.events
          append.onCreate with
        | .error _ => ⟨.threw, file, append.batch file, 0⟩
        | .ok bytes => ⟨.returned, some bytes, append.batch file,
            (payload (append.batch file)).length⟩ := by
  have hearly : append.stop ≠ some .early := by
    rw [h]
    exact Option.some_ne_none _ |>.symm
  rw [EventLog.attemptSync, if_neg hearly]
  cases file with
  | none =>
    rw [appendSync]
    dsimp only [EventLog.repairFile]
    rw [LogAppend.write, h]
    rfl
  | some bytes =>
    rw [appendSync]
    dsimp only [EventLog.repairFile]
    cases repairTailSync (ε := Empty) options bytes with
    | error error => rfl
    | ok bytes =>
      dsimp only [Except.map]
      rw [LogAppend.write, h]
      rfl

-- ======== runs

section
variable (options : EventLogOptions)

section
variable (appends : List LogAppend)

theorem run_concat (append : LogAppend) :
    run options (appends ++ [append])
      = (run options appends).append options append := by
  rw [run, List.foldl_concat]
  rfl

/-- In every run the file holds what was recorded. -/
theorem holds_run :
    ∃ torn, Holds (run options appends).file (run options appends).records
      torn := by
  induction appends using List.reverseRecOn with
  | nil => exact ⟨[], rfl, .null, List.nil_prefix⟩
  | append_singleton appends append ih =>
    obtain ⟨torn, h⟩ := ih
    have hnext : ∃ torn', Holds
        (EventLog.attemptSync options (run options appends).file
          append).file
        ((run options appends).records
          ++ (EventLog.attemptSync options (run options appends).file
            append).recorded) torn' := h.attemptSync append
    obtain ⟨torn', h'⟩ := hnext
    refine ⟨torn', ?_⟩
    rw [run_concat]
    have hrecords : ((run options appends).append options append).records
        = (run options appends).records
          ++ (EventLog.attemptSync options (run options appends).file
            append).recorded := by
      simp only [History.records, History.append, List.flatMap_append,
        List.flatMap_singleton]
    rw [hrecords]
    exact h'

theorem contributes_run :
    List.Forall₂ Contributes appends (run options appends).attempts := by
  induction appends using List.reverseRecOn with
  | nil => exact .nil
  | append_singleton appends append ih =>
    rw [run_concat]
    exact List.rel_append ih
      (.cons (contributes_attemptSync append) .nil)

end

/-- What happened stays what happened. -/
theorem attempts_prefix (appends later : List LogAppend) :
    (run options appends).attempts
      <+: (run options (appends ++ later)).attempts := by
  induction later using List.reverseRecOn with
  | nil => exact ⟨[], by rw [List.append_nil, List.append_nil]⟩
  | append_singleton later append ih =>
    rw [← List.append_assoc, run_concat]
    exact ih.trans (List.prefix_append _ _)

end

/-- A reader of the events that were appended is one of the records. -/
theorem reads_records {appends : List LogAppend} {attempts : List Attempt}
    (h : List.Forall₂ Contributes appends attempts)
    (hreads : ∀ append ∈ appends,
      Reads parse view (append.onCreate ++ append.events)) :
    Reads parse view (attempts.flatMap Attempt.recorded) := by
  induction h with
  | nil => exact fun event hevent => absurd hevent List.not_mem_nil
  | cons hcontributes _ ih =>
    rename_i append attempt appends attempts _
    intro event hevent
    rw [List.flatMap_cons, List.mem_append] at hevent
    rcases hevent with hevent | hevent
    · have hbatch := hcontributes.leading.subset hevent
      apply hreads append List.mem_cons_self
      rcases hcontributes.batch with heq | heq
      · exact List.mem_append_right _ (heq ▸ hbatch)
      · exact heq ▸ hbatch
    · exact ih (fun a ha => hreads a (List.mem_cons_of_mem _ ha)) event
        hevent

/-- Whatever appends stopped wherever, a replay fails only for its bounds and
yields, in order, the whole lines each append put down: all its events when
it returned, the first of them when it did not, and none when it had written
nothing. -/
theorem run_replay (options : EventLogOptions) (appends : List LogAppend)
    (hreads : ∀ append ∈ appends,
      Reads parse view (append.onCreate ++ append.events)) :
    replaySync options parse (run options appends).file
        = replayed options view (run options appends).file
            ((run options appends).attempts.flatMap Attempt.recorded)
      ∧ List.Forall₂ Contributes appends (run options appends).attempts
      ∧ ∀ later, (run options appends).attempts
          <+: (run options (appends ++ later)).attempts := by
  have hcontributes := contributes_run options appends
  obtain ⟨torn, hholds⟩ := holds_run options appends
  refine ⟨?_, hcontributes, attempts_prefix options appends⟩
  exact hholds.replay (reads_records hcontributes hreads)

end

-- ======== a short write

/-- A reader of any value. -/
def readValue (line : String) (_ : Nat) : Except Unit (Option Json) :=
  match Json.parse line.toList with
  | some value => .ok (some value)
  | none => .error ()

theorem reads_readValue (events : List Json) : Reads readValue some events := by
  intro event _ index
  rw [readValue, lineOf, String.toList_ofList, Json.parse_stringify]

def unbounded : EventLogOptions where
  maxBytes := none
  maxRecords := none

/-- Two events, of which the write puts down the first and a part of the
second. -/
def shortAppend : LogAppend where
  events := [.bool true, .bool false]
  onCreate := []
  stop := some (.write 7)
  dies := false

theorem run_replay_short :
    replaySync unbounded readValue (run unbounded [shortAppend]).file
        = replayed unbounded some (run unbounded [shortAppend]).file
            ((run unbounded [shortAppend]).attempts.flatMap Attempt.recorded)
      ∧ List.Forall₂ Contributes [shortAppend]
          (run unbounded [shortAppend]).attempts
      ∧ ∀ later, (run unbounded [shortAppend]).attempts
          <+: (run unbounded ([shortAppend] ++ later)).attempts :=
  run_replay unbounded [shortAppend] fun _ _ => reads_readValue _

/-- The append throws, and its first event is replayed. -/
theorem failed_append_replayed :
    (run unbounded [shortAppend]).attempts.map Attempt.ending = [.threw]
      ∧ replaySync unbounded readValue (run unbounded [shortAppend]).file
        = .ok [.bool true] := by
  refine ⟨rfl, ?_⟩
  obtain ⟨torn, hholds⟩ := holds_run unbounded [shortAppend]
  rw [hholds.replay (reads_readValue _)]
  rfl

end OneHarness.Daemon.EventLog
