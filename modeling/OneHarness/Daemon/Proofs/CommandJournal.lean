/-
What a run of the command journal keeps, and where it does not.

# The file

A file of the journal is a list of lines, each a record or blank, and a
tail: the start of a record whose append did not get to its end
(`FileHolds`). Reading it yields what replaying the records yields
(`reload_holds`), and a rewrite is a file of the same kind.

# The run

Memory is the replay of the file's lines as long as no append starts
behind such a tail, and no append throws with its whole line written
(`CleanAppend`). Without that, the next record is welded to the tail,
and a restart forgets it (`welded_begin_is_new_again`).
-/
import OneHarness.Daemon.CommandJournal
import OneHarness.Lib.Json.Torn
import OneHarness.Lib.Text

namespace OneHarness.Daemon

open Lib CommandRecoveryJournal

-- ======== records replayed

/-- A line of the file: the members of a record, or nothing. -/
abbrev Line := Option (List (String × Json))

def lineText : Line → List Char
  | none => []
  | some ms => Json.stringify (.obj ms)

/-- The entries after one more line. -/
def replayLine (journal : CommandRecoveryJournal) :
    Line → CommandRecoveryJournal
  | none => journal
  | some ms => (journal.loadRecord (.obj ms)).getD journal

def replay (lines : List Line) : CommandRecoveryJournal :=
  lines.foldl replayLine empty

theorem loadRecord_obj (journal : CommandRecoveryJournal)
    (ms : List (String × Json)) :
    journal.loadRecord (.obj ms) = some (replayLine journal (some ms)) := by
  have h : (journal.loadRecord (.obj ms)).isSome = true := by
    unfold loadRecord
    dsimp only
    split
    · split
      · split <;> rfl
      · split
        · rfl
        · split <;> rfl
    · rfl
  obtain ⟨journal', h⟩ := Option.isSome_iff_exists.1 h
  rw [replayLine, h]
  rfl

theorem lineText_isEmpty (ms : List (String × Json)) :
    (lineText (some ms)).isEmpty = false := by
  rw [lineText, Json.stringify]
  rfl

theorem loadLines_lineText (journal : CommandRecoveryJournal)
    (lines : List Line) (rest : List (List Char)) :
    journal.loadLines (lines.map lineText ++ rest)
      = (lines.foldl replayLine journal).loadLines rest := by
  induction lines generalizing journal with
  | nil => rfl
  | cons line lines ih =>
    rw [List.map_cons, List.cons_append, loadLines]
    cases line with
    | none => exact ih journal
    | some ms =>
      rw [lineText_isEmpty, lineText, Json.parse_stringify]
      dsimp only
      rw [loadRecord_obj]
      exact ih _

theorem newline_not_mem_lineText (line : Line) : '\n' ∉ lineText line := by
  cases line with
  | none => exact List.not_mem_nil
  | some ms =>
    intro h
    have := Json.printable_stringify (.obj ms) '\n' h
    exact absurd this (by decide)

theorem newline_not_mem_map_lineText (lines : List Line) :
    ∀ text ∈ lines.map lineText, '\n' ∉ text := by
  intro text h
  obtain ⟨line, -, rfl⟩ := List.mem_map.1 h
  exact newline_not_mem_lineText line

-- ======== the file

/-- The file is these lines, and the start of a record. -/
structure FileHolds (file : Option (List UInt8)) (lines : List Line)
    (tail : List UInt8) : Prop where
  bytes : file.getD []
    = Utf8.encode (Text.unlines (lines.map lineText)) ++ tail
  torn : ∃ ms, tail <+: Utf8.encode (Json.stringify (.obj ms))

theorem FileHolds.none : FileHolds none [] [] where
  bytes := rfl
  torn := ⟨[], List.nil_prefix⟩

/-- A written file. -/
theorem FileHolds.written (lines : List Line) :
    FileHolds (some (Utf8.encode (Text.unlines (lines.map lineText)))) lines
      [] where
  bytes := (List.append_nil _).symm
  torn := ⟨[], List.nil_prefix⟩

section
variable {file : Option (List UInt8)} {lines : List Line} {tail : List UInt8}

section
variable (h : FileHolds file lines tail)
include h

theorem FileHolds.newline_not_mem_tail : '\n' ∉ Utf8.decode tail := by
  obtain ⟨ms, hms⟩ := h.torn
  obtain ⟨n, m, hdecode, -⟩ := Utf8.decode_prefix hms
  rw [hdecode]
  intro hmem
  rcases List.mem_append.1 hmem with hmem | hmem
  · exact newline_not_mem_lineText (some ms) (List.mem_of_mem_take hmem)
  · exact absurd (List.eq_of_mem_replicate hmem) (by decide)

theorem FileHolds.decode :
    Utf8.decode (file.getD [])
      = Text.unlines (lines.map lineText) ++ Utf8.decode tail := by
  rw [h.bytes, Utf8.decode_encode_append]

omit h in
theorem decode_eq_nil {bytes : List UInt8} (h : Utf8.decode bytes = []) :
    bytes = [] := by
  cases bytes with
  | nil => rfl
  | cons b bs =>
    rw [Utf8.decode_cons] at h
    cases h

/-- Its last line was cut off when there is a tail. -/
theorem FileHolds.unterminated_iff :
    unterminated (Utf8.decode (file.getD [])) = true ↔ tail ≠ [] := by
  rw [h.decode]
  by_cases htail : tail = []
  · subst htail
    rw [Utf8.decode_nil, List.append_nil]
    have hfalse : unterminated (Text.unlines (lines.map lineText)) = false := by
      unfold unterminated
      cases lines with
      | nil => rfl
      | cons line lines =>
        rw [List.map_cons, Text.getLast?_unlines (List.cons_ne_nil _ _)]
        simp
    rw [hfalse]
    simp
  · have hne : Utf8.decode tail ≠ [] := fun hnil => htail (decode_eq_nil hnil)
    have hlast : (Utf8.decode tail).getLast? ≠ some '\n' := fun heq =>
      h.newline_not_mem_tail (List.mem_of_getLast? heq)
    unfold unterminated
    rw [List.getLast?_append_of_ne_nil _ hne]
    simp [hlast, hne, htail]

/-- What is read are the lines, and the blank after the last newline. -/
theorem FileHolds.keptLines :
    keptLines (Utf8.decode (file.getD []))
      = lines.map lineText ++ (if tail = [] then [[]] else []) := by
  have hsplit : (Utf8.decode (file.getD [])).splitOn '\n'
      = lines.map lineText ++ [Utf8.decode tail] := by
    rw [h.decode]
    exact Text.splitOn_unlines (newline_not_mem_map_lineText lines)
      h.newline_not_mem_tail
  unfold CommandRecoveryJournal.keptLines
  rw [hsplit]
  by_cases htail : tail = []
  · have hno : ¬ unterminated (Utf8.decode (file.getD [])) = true := fun hu =>
      h.unterminated_iff.1 hu htail
    rw [if_neg hno, if_pos htail, htail, Utf8.decode_nil]
  · rw [if_pos (h.unterminated_iff.2 htail), if_neg htail,
      List.dropLast_concat, List.append_nil]

theorem FileHolds.loadLines_keptLines :
    empty.loadLines (CommandRecoveryJournal.keptLines
      (Utf8.decode (file.getD []))) = some (replay lines) := by
  rw [h.keptLines, loadLines_lineText]
  by_cases htail : tail = []
  · rw [if_pos htail]
    rfl
  · rw [if_neg htail]
    rfl

/-- Reading the file replays its records. -/
theorem reload_holds : reload file = some (replay lines) := by
  have hload := h.loadLines_keptLines
  cases file with
  | none =>
    have hbytes := h.bytes
    have hnil : Text.unlines (lines.map lineText) = [] := by
      have := congrArg Utf8.decode hbytes
      rw [Utf8.decode_encode_append, Option.getD_none, Utf8.decode_nil] at this
      exact (List.append_eq_nil_iff.1 this.symm).1
    cases lines with
    | nil => rfl
    | cons line lines => simp at hnil
  | some bytes => exact hload

omit h in
/-- Blank lines say nothing. -/
theorem foldl_replayLine_filter (journal : CommandRecoveryJournal)
    (lines : List Line) :
    (lines.filter Option.isSome).foldl replayLine journal
      = lines.foldl replayLine journal := by
  induction lines generalizing journal with
  | nil => rfl
  | cons line lines ih =>
    cases line with
    | none => exact ih journal
    | some ms => exact ih _

omit h in
theorem filter_map_lineText (lines : List Line) :
    (lines.map lineText).filter (fun text => !text.isEmpty)
      = (lines.filter Option.isSome).map lineText := by
  induction lines with
  | nil => rfl
  | cons line lines ih =>
    cases line with
    | none => exact ih
    | some ms =>
      rw [List.map_cons, List.filter_cons_of_pos
        (by rw [lineText_isEmpty]; rfl), ih]
      rfl

omit h in
/-- The text of some lines, or a blank one when there is none. -/
theorem exists_lines (lines : List Line) :
    ∃ lines' : List Line, ['\n'].intercalate (lines.map lineText) ++ ['\n']
        = Text.unlines (lines'.map lineText)
      ∧ ∀ journal, lines'.foldl replayLine journal
        = lines.foldl replayLine journal := by
  cases lines with
  | nil => exact ⟨[none], rfl, fun _ => rfl⟩
  | cons line lines =>
    exact ⟨line :: lines, Text.intercalate_newline (List.cons_ne_nil _ _),
      fun _ => rfl⟩

/-- The repair of a file with a tail. -/
theorem FileHolds.repaired (htail : tail ≠ []) :
    ∃ lines', FileHolds (some (Utf8.encode (repairedText
        (CommandRecoveryJournal.keptLines (Utf8.decode (file.getD []))))))
        lines' []
      ∧ replay lines' = replay lines := by
  rw [h.keptLines, if_neg htail, List.append_nil]
  cases hlines : lines with
  | nil => exact ⟨[], FileHolds.written [], rfl⟩
  | cons line rest =>
    rw [← hlines]
    have hpos : 0 < (lines.map lineText).length := by
      rw [hlines]
      exact Nat.zero_lt_succ _
    obtain ⟨lines', htext, hreplay⟩ :=
      exists_lines (lines.filter Option.isSome)
    refine ⟨lines', ?_, ?_⟩
    · rw [repairedText, if_pos hpos, filter_map_lineText, htext]
      exact FileHolds.written lines'
    · exact (hreplay empty).trans (foldl_replayLine_filter empty lines)

end

end

-- ======== the records

theorem loadRecord_received (journal : CommandRecoveryJournal)
    (key clientId commandId commandType recordedAt : String) :
    journal.loadRecord
        (receivedRecord key clientId commandId commandType recordedAt)
      = some ⟨journal.entries.set key
          ⟨receivedRecord key clientId commandId commandType recordedAt, none⟩,
        journal.recordCount + 1⟩ := by
  have hversion : isNumber
      ((receivedRecord key clientId commandId commandType recordedAt).get
        "version") 1 = true := isNumber_one
  unfold loadRecord
  rw [hversion]
  rfl

variable {key : String}

variable {entry : JournalEntry}

theorem loadRecord_result (journal : CommandRecoveryJournal)
    (hentry : journal.entries.get key = some entry)
    (response : DaemonResponse) (recordedAt : String) :
    journal.loadRecord (resultRecord key response recordedAt)
      = some ⟨journal.entries.set key { entry with response := some response },
        journal.recordCount + 1⟩ := by
  have hversion : isNumber
      ((resultRecord key response recordedAt).get "version") 1 = true :=
    isNumber_one
  have hresponse : response? (resultRecord key response recordedAt)
      = some response := by
    have hget : (resultRecord key response recordedAt).get "response"
        = some response.json := rfl
    unfold response?
    rw [hget]
    exact dif_pos response.isResponse
  have hkey : string? ((resultRecord key response recordedAt).get "key")
      = some key := rfl
  unfold loadRecord
  rw [hversion, hkey, hresponse]
  simp only [hentry]
  rfl

theorem loadRecord_acknowledged (journal : CommandRecoveryJournal)
    (key recordedAt : String) :
    journal.loadRecord (acknowledgedRecord key recordedAt)
      = some ⟨journal.entries.delete key, journal.recordCount + 1⟩ := by
  have hversion : isNumber
      ((acknowledgedRecord key recordedAt).get "version") 1 = true :=
    isNumber_one
  unfold loadRecord
  rw [hversion]
  rfl

-- ======== compaction

/-- The record is the receipt of that key. -/
structure ReceivedFor (key : String) (record : Json) : Prop where
  object : ∃ ms, record = .obj ms
  version : isNumber (record.get "version") 1 = true
  key : string? (record.get "key") = some key
  received : isString (record.get "type") "received" = true
  ids : ((string? (record.get "clientId")).isSome
    && (string? (record.get "commandId")).isSome
    && (string? (record.get "commandType")).isSome) = true

/-- Distinct keys, each with its receipt. -/
structure ValidEntries (entries : JsMap String JournalEntry) : Prop where
  nodup : entries.keys.Nodup
  received : ∀ p ∈ entries, ReceivedFor p.1 p.2.received

variable {entries : JsMap String JournalEntry}

theorem ValidEntries.set (h : ValidEntries entries)
    (hentry : ReceivedFor key entry.received) :
    ValidEntries (entries.set key entry) where
  nodup := JsMap.nodup_keys_set h.nodup key entry
  received := fun p hp => by
    rcases JsMap.mem_set hp with hp | rfl
    · exact h.received p hp
    · exact hentry

theorem ValidEntries.delete (h : ValidEntries entries) (key : String) :
    ValidEntries (entries.delete key) where
  nodup := JsMap.nodup_keys_delete h.nodup key
  received := fun p hp => h.received p (List.mem_filter.1 hp).1

variable {journal : CommandRecoveryJournal}

theorem valid_replayLine (h : ValidEntries journal.entries) (line : Line) :
    ValidEntries (replayLine journal line).entries := by
  cases line with
  | none => exact h
  | some ms =>
    have hsome := loadRecord_obj journal ms
    generalize replayLine journal (some ms) = journal' at hsome ⊢
    unfold loadRecord at hsome
    dsimp only at hsome
    split at hsome
    · next key hversion hkey =>
      split at hsome
      · next hreceived =>
        split at hsome
        · next hids =>
          cases hsome
          exact h.set ⟨⟨ms, rfl⟩, hversion, hkey, hreceived, hids⟩
        · cases hsome
          exact h
      · split at hsome
        · cases hsome
          exact h.delete key
        · split at hsome
          · next entry response hentry _ =>
            cases hsome
            exact h.set (h.received (key, entry) (JsMap.mem_of_get hentry))
          · cases hsome
            exact h
    · cases hsome
      exact h

theorem valid_replay (lines : List Line) :
    ValidEntries (replay lines).entries := by
  have h : ∀ journal, ValidEntries journal.entries →
      ValidEntries (lines.foldl replayLine journal).entries := by
    induction lines with
    | nil => exact fun _ h => h
    | cons line lines ih => exact fun _ h => ih _ (valid_replayLine h line)
  exact h empty ⟨List.nodup_nil, fun _ hp => absurd hp List.not_mem_nil⟩

variable {record : Json}

theorem loadRecord_receipt (journal : CommandRecoveryJournal)
    (h : ReceivedFor key record) :
    journal.loadRecord record
      = some ⟨journal.entries.set key ⟨record, none⟩,
        journal.recordCount + 1⟩ := by
  obtain ⟨ms, rfl⟩ := h.object
  unfold loadRecord
  simp only [h.version, h.key, h.received, h.ids, if_true]

theorem loadRecord_receipts (entries : JsMap String JournalEntry)
    (recordedAt : String) :
    ∀ acc : JsMap String JournalEntry, ValidEntries (acc ++ entries) →
      ∃ lines : List Line,
        (compactRecords entries recordedAt).map Json.stringify
            = lines.map lineText
          ∧ ∀ count, (lines.foldl replayLine ⟨acc, count⟩).entries
            = acc ++ entries := by
  induction entries with
  | nil => exact fun acc _ => ⟨[], rfl, fun _ => (List.append_nil acc).symm⟩
  | cons p entries ih =>
    intro acc h
    obtain ⟨key, received, response⟩ := p
    have hfront : acc ++ (key, ⟨received, response⟩) :: entries
        = (acc ++ [(key, ⟨received, response⟩)]) ++ entries := by
      rw [List.append_assoc, List.singleton_append]
    obtain ⟨lines, htexts, hreplay⟩ := ih _ (hfront ▸ h)
    have hreceipt : ReceivedFor key received := h.received _
      (List.mem_append_right _ List.mem_cons_self)
    obtain ⟨ms, hms⟩ := hreceipt.object
    have hnew : key ∉ JsMap.keys acc := by
      intro hmem
      have hnodup := h.nodup
      rw [JsMap.keys, List.map_append, List.nodup_append] at hnodup
      exact hnodup.2.2 key hmem key List.mem_cons_self rfl
    have hfirst : ∀ count, replayLine ⟨acc, count⟩ (some ms)
        = ⟨acc ++ [(key, ⟨received, none⟩)], count + 1⟩ := by
      intro count
      have hload := loadRecord_receipt ⟨acc, count⟩ hreceipt
      rw [JsMap.set_of_not_mem _ hnew] at hload
      rw [hms] at hload ⊢
      rw [loadRecord_obj] at hload
      exact Option.some.inj hload
    cases response with
    | none =>
      refine ⟨some ms :: lines, ?_, fun count => ?_⟩
      · show Json.stringify received
          :: (compactRecords entries recordedAt).map Json.stringify = _
        rw [htexts, hms]
        rfl
      · rw [List.foldl_cons, hfirst, hreplay, hfront]
    | some response =>
      have hget : JsMap.get (acc ++ [(key, ⟨received, none⟩)]) key
          = some (⟨received, none⟩ : JournalEntry) := by
        rw [← JsMap.set_of_not_mem _ hnew, JsMap.get_set_self]
      have hset : JsMap.set (acc ++ [(key, ⟨received, none⟩)]) key
          (⟨received, some response⟩ : JournalEntry)
          = acc ++ [(key, ⟨received, some response⟩)] := by
        rw [← JsMap.set_of_not_mem _ hnew, JsMap.set_set,
          JsMap.set_of_not_mem _ hnew]
      obtain ⟨ms', hms'⟩ : ∃ ms',
          resultRecord key response recordedAt = .obj ms' := ⟨_, rfl⟩
      have hsecond : ∀ count, replayLine
          ⟨acc ++ [(key, ⟨received, none⟩)], count⟩ (some ms')
          = ⟨acc ++ [(key, ⟨received, some response⟩)], count + 1⟩ := by
        intro count
        have hload := loadRecord_result
          ⟨acc ++ [(key, ⟨received, none⟩)], count⟩ hget response recordedAt
        dsimp only at hload
        rw [hset, hms', loadRecord_obj] at hload
        exact Option.some.inj hload
      refine ⟨some ms :: some ms' :: lines, ?_, fun count => ?_⟩
      · show Json.stringify received
          :: Json.stringify (resultRecord key response recordedAt)
          :: (compactRecords entries recordedAt).map Json.stringify = _
        rw [htexts, hms, hms']
        rfl
      · rw [List.foldl_cons, hfirst, List.foldl_cons, hsecond, hreplay, hfront]

/-- A compacted file holds the entries. -/
theorem compacted_holds (h : ValidEntries entries) (recordedAt : String) :
    ∃ lines, FileHolds (some (Utf8.encode
        (compactText (compactRecords entries recordedAt)))) lines []
      ∧ (replay lines).entries = entries := by
  obtain ⟨lines, htexts, hreplay⟩ := loadRecord_receipts entries recordedAt [] h
  obtain ⟨lines', htext, hsame⟩ := exists_lines lines
  refine ⟨lines', ?_, ?_⟩
  · rw [compactText, htexts, htext]
    exact FileHolds.written lines'
  · rw [replay, hsame]
    exact hreplay 0

-- ======== an append

/-- The file is empty or ends with a newline. -/
def Terminated (file : Option (List UInt8)) : Prop :=
  ∀ b, (file.getD []).getLast? = some b → b = 0x0a

theorem recordLine_obj (ms : List (String × Json)) :
    recordLine (.obj ms) = Utf8.encode (Json.stringify (.obj ms)) ++ [0x0a] := by
  rw [recordLine, Utf8.encode_append]
  rfl

section
variable {file : Option (List UInt8)} {lines : List Line} {tail : List UInt8}

theorem FileHolds.tail_eq_nil (h : FileHolds file lines tail)
    (hterm : Terminated file) : tail = [] := by
  by_contra hne
  obtain ⟨b, hb⟩ := Option.isSome_iff_exists.1 (List.getLast?_isSome.2 hne)
  have hlast : (file.getD []).getLast? = some b := by
    rw [h.bytes, List.getLast?_append_of_ne_nil _ hne, hb]
  have hb' := hterm b hlast
  obtain ⟨ms, hms⟩ := h.torn
  obtain ⟨c, hc, heq⟩ := Utf8.mem_encode
    (hms.subset (List.mem_of_getLast? hb)) (by rw [hb']; decide)
  have hprint := Json.printable_stringify (.obj ms) c hc
  rw [hb'] at heq
  have hten : (0x0a : UInt8).toNat = 10 := rfl
  omega

/-- Part of a record's line behind whole lines. -/
theorem FileHolds.appended_part (h : FileHolds file lines [])
    (ms : List (String × Json)) {n : Nat}
    (hn : n < (recordLine (.obj ms)).length) :
    FileHolds (some (file.getD [] ++ (recordLine (.obj ms)).take n)) lines
      ((recordLine (.obj ms)).take n) := by
  refine ⟨?_, ms, ?_⟩
  · rw [Option.getD_some, h.bytes, List.append_nil]
  · rw [recordLine_obj, List.length_append, List.length_singleton] at hn
    rw [recordLine_obj, List.take_append_of_le_length (by omega)]
    exact List.take_prefix _ _

/-- A record's line behind whole lines. -/
theorem FileHolds.appended (h : FileHolds file lines [])
    (ms : List (String × Json)) :
    FileHolds (some (file.getD [] ++ recordLine (.obj ms)))
      (lines ++ [some ms]) [] := by
  refine ⟨?_, [], List.nil_prefix⟩
  rw [Option.getD_some, h.bytes, List.append_nil, List.append_nil,
    List.map_append, Text.unlines_append, Utf8.encode_append, List.map_singleton,
    Text.unlines_cons, Text.unlines_nil]
  rfl

end

theorem replay_concat (lines : List Line) (ms : List (String × Json)) :
    replay (lines ++ [some ms]) = replayLine (replay lines) (some ms) := by
  rw [replay, List.foldl_append]
  rfl

-- ======== the runs

theorem key_injective {k k' : String × String}
    (h : createCommandIdempotencyKey k.1 k.2
      = createCommandIdempotencyKey k'.1 k'.2) : k = k' := by
  have hchars := String.ofList_injective h
  have hparse := congrArg Json.parse hchars
  rw [Json.parse_stringify, Json.parse_stringify] at hparse
  injection hparse with hparse
  injection hparse with hparse
  injection hparse with hfst hsnd
  injection hfst with hfst
  injection hsnd with hsnd
  injection hsnd with hsnd
  exact Prod.ext hfst hsnd

/-- The record that an event appends, and how the append ends. -/
def World.appends (w : World) : Event → Option (Json × AppendOutcome)
  | .restart _ => none
  | .begin clientId commandId commandType recordedAt outcome =>
    match w.journal with
    | some journal =>
      if (journal.lookup clientId commandId).isSome then none
      else
        some (receivedRecord (createCommandIdempotencyKey clientId commandId)
          clientId commandId commandType recordedAt, outcome)
    | none => none
  | .recordResult clientId commandId response recordedAt outcome _ _ =>
    match w.journal with
    | some journal =>
      let key := createCommandIdempotencyKey clientId commandId
      if journal.entries.has key then
        some (resultRecord key response recordedAt, outcome)
      else none
    | none => none
  | .acknowledge clientId commandId recordedAt outcome _ _ =>
    match w.journal with
    | some journal =>
      let key := createCommandIdempotencyKey clientId commandId
      if journal.entries.has key then
        some (acknowledgedRecord key recordedAt, outcome)
      else none
    | none => none

/-- No append starts behind a line that was cut off, and none throws with
its whole line written. -/
structure CleanAppend (w : World) (event : Event) : Prop where
  onLine : ∀ record outcome, w.appends event = some (record, outcome) →
    Terminated w.file
  cut : ∀ record written, w.appends event = some (record, .throws written) →
    written < (recordLine record).length

/-- What the runs reach whose appends are clean. -/
inductive Reachable : World → Prop where
  | init : Reachable .init
  | step {w : World} {event : Event} : Reachable w → CleanAppend w event →
      Reachable (w.step event).1

/-- The call returned. -/
def Result.completed : Result → Bool
  | .loaded | .began _ | .done => true
  | .threw | .crashed | .idle => false

/-- Memory is the replay of the file, and it has what was dispatched. -/
structure Remembers (w : World) (lines : List Line) (tail : List UInt8) :
    Prop where
  file : FileHolds w.file lines tail
  memory : ∀ journal, w.journal = some journal →
    journal.entries = (replay lines).entries
  dispatched : ∀ k ∈ w.dispatched,
    createCommandIdempotencyKey k.1 k.2 ∈ (replay lines).entries.keys

/-- What a call leaves behind. -/
structure Kept (w : World) (result : Result) : Prop where
  remembers : ∃ lines tail, Remembers w lines tail
  running : result.completed = true → ∃ journal, w.journal = some journal

variable {result : Result}

theorem Kept.of {w : World} {lines : List Line}
    {tail : List UInt8} (h : Remembers w lines tail)
    (hrun : result.completed = true → ∃ journal, w.journal = some journal) :
    Kept w result := ⟨⟨lines, tail, h⟩, hrun⟩

-- ======== loading

theorem kept_load {w : World} {lines : List Line} {tail : List UInt8}
    (h : Remembers w lines tail) (repair : ReplaceOutcome) :
    Kept (w.load repair).1 (w.load repair).2 := by
  obtain ⟨file, journal, dispatched⟩ := w
  obtain ⟨hfile, -, hdispatched⟩ := h
  dsimp only at hfile hdispatched
  cases file with
  | none =>
    have hempty : empty = replay lines := Option.some.inj (reload_holds hfile)
    refine ⟨⟨lines, tail, hfile, fun journal hjournal => ?_, hdispatched⟩,
      fun _ => ⟨_, rfl⟩⟩
    rw [← Option.some.inj hjournal, hempty]
  | some bytes =>
    have hload := hfile.loadLines_keptLines
    have hunterminated := hfile.unterminated_iff
    rw [Option.getD_some] at hload hunterminated
    -- a process that did not come up, with the file it leaves
    have hdown : ∀ {file lines' tail' result}, FileHolds file lines' tail' →
        replay lines' = replay lines → result = .threw ∨ result = .crashed →
        Kept ⟨file, none, dispatched⟩ result := by
      intro file lines' tail' result hfile' hreplay hresult
      refine Kept.of ⟨hfile', fun _ h => (nomatch h), ?_⟩ fun hdone => ?_
      · rw [hreplay]
        exact hdispatched
      · rcases hresult with rfl | rfl <;> cases hdone
    have hup : ∀ {file lines' tail'}, FileHolds file lines' tail' →
        replay lines' = replay lines →
        Kept ⟨file, some (replay lines), dispatched⟩ .loaded := by
      intro file lines' tail' hfile' hreplay
      refine ⟨⟨lines', tail', hfile', fun journal hjournal => ?_, ?_⟩,
        fun _ => ⟨_, rfl⟩⟩
      · rw [← Option.some.inj hjournal, hreplay]
      · rw [hreplay]
        exact hdispatched
    unfold World.load
    dsimp only
    rw [hload]
    by_cases htorn : unterminated (Utf8.decode bytes) = true
    · obtain ⟨lines', hrepaired, hreplay⟩ :=
        hfile.repaired (hunterminated.1 htorn)
      rw [if_pos htorn]
      cases repair with
      | done => exact hup hrepaired hreplay
      | throws => exact hdown hfile rfl (.inl rfl)
      | crashes replaced =>
        cases replaced with
        | false => exact hdown hfile rfl (.inr rfl)
        | true => exact hdown hrepaired hreplay (.inr rfl)
    · rw [if_neg htorn]
      exact hup hfile rfl

-- ======== the appends

variable {dispatched : List (String × String)}

section
variable {w : World} {lines : List Line} {ms : List (String × Json)}

section
variable (h : Remembers w lines [])
  (hdispatched : ∀ k ∈ dispatched, k ∈ w.dispatched)
include h hdispatched

/-- An append that throws leaves the start of its record. -/
theorem kept_threw {n : Nat} (hn : n < (recordLine (.obj ms)).length) :
    Kept ⟨some (w.file.getD [] ++ (recordLine (.obj ms)).take n), w.journal,
      dispatched⟩ .threw :=
  Kept.of ⟨h.file.appended_part ms hn, h.memory,
    fun k hk => h.dispatched k (hdispatched k hk)⟩ fun hdone => nomatch hdone

/-- An append at which the process dies leaves the start of its record or
all of it. -/
theorem kept_crashed
    (hafter : ∀ k ∈ dispatched, createCommandIdempotencyKey k.1 k.2
      ∈ (replayLine (replay lines) (some ms)).entries.keys) (n : Nat) :
    Kept ⟨some (w.file.getD [] ++ (recordLine (.obj ms)).take n), none,
      dispatched⟩ .crashed := by
  by_cases hn : n < (recordLine (.obj ms)).length
  · exact Kept.of ⟨h.file.appended_part ms hn, fun _ hj => (nomatch hj),
      fun k hk => h.dispatched k (hdispatched k hk)⟩ fun hdone => nomatch hdone
  · rw [List.take_of_length_le (Nat.le_of_not_lt hn)]
    refine Kept.of ⟨h.file.appended ms, fun _ hj => (nomatch hj), ?_⟩
      fun hdone => nomatch hdone
    rw [replay_concat]
    exact hafter

end

/-- An append that returns. -/
theorem remembers_appended (h : Remembers w lines [])
    (hafter : ∀ k ∈ dispatched, createCommandIdempotencyKey k.1 k.2
      ∈ (replayLine (replay lines) (some ms)).entries.keys)
    (journal : CommandRecoveryJournal)
    (hentries : journal.entries
      = (replayLine (replay lines) (some ms)).entries) :
    Remembers ⟨some (w.file.getD [] ++ recordLine (.obj ms)), some journal,
      dispatched⟩ (lines ++ [some ms]) [] := by
  refine ⟨h.file.appended ms, fun journal' hj => ?_, ?_⟩
  · rw [← Option.some.inj hj, hentries, replay_concat]
  · rw [replay_concat]
    exact hafter

end

theorem kept_compact {w : World} {lines : List Line} {tail : List UInt8}
    (h : Remembers w lines tail)
    (hjournal : w.journal = some journal) (recordedAt : String)
    (replace : ReplaceOutcome) :
    Kept (w.compact journal recordedAt replace).1
      (w.compact journal recordedAt replace).2 := by
  have hmemory := h.memory journal hjournal
  obtain ⟨lines', hcompacted, hreplay⟩ :=
    compacted_holds (hmemory ▸ valid_replay lines) recordedAt
  rw [hmemory] at hreplay
  have hdispatched : ∀ k ∈ w.dispatched, createCommandIdempotencyKey k.1 k.2
      ∈ (replay lines').entries.keys := by
    rw [hreplay]
    exact h.dispatched
  unfold World.compact
  dsimp only
  cases replace with
  | done =>
    refine Kept.of ⟨hcompacted, fun journal' hj => ?_, hdispatched⟩
      fun _ => ⟨_, rfl⟩
    rw [← Option.some.inj hj, hreplay]
    exact hmemory
  | throws =>
    refine ⟨⟨lines, tail, h.file, fun journal' hj => ?_, h.dispatched⟩,
      fun hdone => nomatch hdone⟩
    rw [← Option.some.inj hj]
    exact hmemory
  | crashes replaced =>
    cases replaced with
    | false =>
      exact Kept.of ⟨h.file, fun _ hj => (nomatch hj), h.dispatched⟩
        fun hdone => nomatch hdone
    | true =>
      exact Kept.of ⟨hcompacted, fun _ hj => (nomatch hj), hdispatched⟩
        fun hdone => nomatch hdone

-- ======== the calls

variable {outcome : AppendOutcome}

variable {event : Event}

theorem CleanAppend.tail_eq_nil {w : World}
    (hclean : CleanAppend w event) {lines : List Line} {tail : List UInt8}
    (h : Remembers w lines tail)
    (happends : w.appends event = some (record, outcome)) : tail = [] :=
  h.file.tail_eq_nil (hclean.onLine record outcome happends)

variable {clientId commandId : String}

theorem lookup_eq_none (h : journal.lookup clientId commandId = none) :
    createCommandIdempotencyKey clientId commandId
      ∉ journal.entries.keys := by
  unfold lookup at h
  split at h
  · cases h
  · cases h
  · next hget => exact JsMap.get_eq_none_iff.1 hget

variable {recordedAt : String}

theorem kept_begin {w : World}
    (hjournal : w.journal = some journal)
    {commandType : String}
    (hclean : CleanAppend w
      (.begin clientId commandId commandType recordedAt outcome))
    {lines : List Line} {tail : List UInt8} (h : Remembers w lines tail) :
    Kept (w.begin journal clientId commandId commandType recordedAt outcome).1
      (w.begin journal clientId commandId commandType recordedAt outcome).2 := by
  unfold World.begin
  cases hlookup : journal.lookup clientId commandId with
  | some existing => exact Kept.of h fun _ => ⟨journal, hjournal⟩
  | none =>
    dsimp only
    generalize hkey : createCommandIdempotencyKey clientId commandId = key
    have happends : w.appends
        (.begin clientId commandId commandType recordedAt outcome)
        = some (receivedRecord key clientId commandId commandType recordedAt,
          outcome) := by
      simp only [World.appends, hjournal, hlookup, hkey, Option.isSome_none,
        Bool.false_eq_true, if_false]
    have htail := hclean.tail_eq_nil h happends
    subst htail
    have hmemory := h.memory journal hjournal
    obtain ⟨ms, hms⟩ : ∃ ms, receivedRecord key clientId commandId commandType
        recordedAt = .obj ms := ⟨_, rfl⟩
    have hreplay : (replayLine (replay lines) (some ms)).entries
        = journal.entries.set key ⟨.obj ms, none⟩ := by
      have hload := loadRecord_received (replay lines) key clientId commandId
        commandType recordedAt
      rw [hms, loadRecord_obj] at hload
      rw [Option.some.inj hload, hmemory]
    have hkeys : ∀ k, k ∈ journal.entries.keys ∨ k = key →
        k ∈ (replayLine (replay lines) (some ms)).entries.keys := by
      intro k hk
      rw [hreplay, JsMap.keys_set]
      by_cases hmem : key ∈ journal.entries.keys
      · rw [if_pos hmem]
        rcases hk with hk | rfl
        · exact hk
        · exact hmem
      · rw [if_neg hmem]
        rcases hk with hk | rfl
        · exact List.mem_append_left _ hk
        · exact List.mem_append_right _ List.mem_cons_self
    have hafter : ∀ k ∈ w.dispatched, createCommandIdempotencyKey k.1 k.2
        ∈ (replayLine (replay lines) (some ms)).entries.keys := fun k hk =>
      hkeys _ (.inl (hmemory ▸ h.dispatched k hk))
    rw [hms]
    cases outcome with
    | done =>
      refine Kept.of (remembers_appended h (fun k hk => ?_) _ hreplay.symm)
        fun _ => ⟨_, rfl⟩
      rcases List.mem_append.1 hk with hk | hk
      · exact hafter k hk
      · rw [List.mem_singleton.1 hk]
        exact hkeys _ (.inr hkey)
    | throws n =>
      have hn := hclean.cut _ n happends
      rw [hms] at hn
      exact kept_threw h (fun _ hk => hk) hn
    | crashes n => exact kept_crashed h (fun _ hk => hk) hafter n

variable {compactedAt : String} {replace : ReplaceOutcome}

theorem kept_recordResult {w : World}
    (hjournal : w.journal = some journal)
    {response : DaemonResponse}
    (hclean : CleanAppend w (.recordResult clientId commandId response
      recordedAt outcome compactedAt replace))
    {lines : List Line} {tail : List UInt8} (h : Remembers w lines tail) :
    Kept (w.recordResult journal clientId commandId response recordedAt outcome
        compactedAt replace).1
      (w.recordResult journal clientId commandId response recordedAt outcome
        compactedAt replace).2 := by
  unfold World.recordResult
  dsimp only
  generalize hkey : createCommandIdempotencyKey clientId commandId = key
  cases hget : journal.entries.get key with
  | none => exact Kept.of h fun hdone => nomatch hdone
  | some entry =>
    have hhas : journal.entries.has key = true := by
      rw [JsMap.has, hget]
      rfl
    have happends : w.appends (.recordResult clientId commandId response
        recordedAt outcome compactedAt replace)
        = some (resultRecord key response recordedAt, outcome) := by
      simp only [World.appends, hjournal, hkey, hhas, if_true]
    have htail := hclean.tail_eq_nil h happends
    subst htail
    have hmemory := h.memory journal hjournal
    obtain ⟨ms, hms⟩ : ∃ ms, resultRecord key response recordedAt
        = .obj ms := ⟨_, rfl⟩
    have hreplay : (replayLine (replay lines) (some ms)).entries
        = journal.entries.set key
          { entry with response := some response } := by
      have hload := loadRecord_result (replay lines) (hmemory ▸ hget) response
        recordedAt
      rw [hms, loadRecord_obj] at hload
      rw [Option.some.inj hload, hmemory]
    have hafter : ∀ k ∈ w.dispatched, createCommandIdempotencyKey k.1 k.2
        ∈ (replayLine (replay lines) (some ms)).entries.keys := by
      intro k hk
      rw [hreplay, JsMap.keys_set, if_pos (JsMap.has_eq_true_iff.1 hhas),
        hmemory]
      exact h.dispatched k hk
    rw [hms]
    cases outcome with
    | done =>
      have happended := remembers_appended h hafter
        ⟨_, journal.recordCount + 1⟩ hreplay.symm
      dsimp only [append]
      split
      · exact kept_compact happended rfl compactedAt replace
      · exact Kept.of happended fun _ => ⟨_, rfl⟩
    | throws n =>
      have hn := hclean.cut _ n happends
      rw [hms] at hn
      exact kept_threw h (fun _ hk => hk) hn
    | crashes n => exact kept_crashed h (fun _ hk => hk) hafter n

theorem kept_acknowledge {w : World}
    (hjournal : w.journal = some journal)
    (hclean : CleanAppend w (.acknowledge clientId commandId recordedAt outcome
      compactedAt replace))
    {lines : List Line} {tail : List UInt8} (h : Remembers w lines tail) :
    Kept (w.acknowledge journal clientId commandId recordedAt outcome
        compactedAt replace).1
      (w.acknowledge journal clientId commandId recordedAt outcome
        compactedAt replace).2 := by
  unfold World.acknowledge
  dsimp only
  have hsub : ∀ k ∈ w.dispatched.filter fun k => k ≠ (clientId, commandId),
      k ∈ w.dispatched := fun k hk => (List.mem_filter.1 hk).1
  generalize hkey : createCommandIdempotencyKey clientId commandId = key
  by_cases hhas : journal.entries.has key = true
  · have hnot : ¬ (!journal.entries.has key) = true := by
      rw [hhas]
      decide
    rw [if_neg hnot]
    have happends : w.appends (.acknowledge clientId commandId recordedAt
        outcome compactedAt replace)
        = some (acknowledgedRecord key recordedAt, outcome) := by
      simp only [World.appends, hjournal, hkey, hhas, if_true]
    have htail := hclean.tail_eq_nil h happends
    subst htail
    have hmemory := h.memory journal hjournal
    obtain ⟨ms, hms⟩ : ∃ ms, acknowledgedRecord key recordedAt = .obj ms :=
      ⟨_, rfl⟩
    have hreplay : (replayLine (replay lines) (some ms)).entries
        = journal.entries.delete key := by
      have hload := loadRecord_acknowledged (replay lines) key recordedAt
      rw [hms, loadRecord_obj] at hload
      rw [Option.some.inj hload, hmemory]
    -- other commands have other keys
    have hafter : ∀ k ∈ w.dispatched.filter fun k => k ≠ (clientId, commandId),
        createCommandIdempotencyKey k.1 k.2
          ∈ (replayLine (replay lines) (some ms)).entries.keys := by
      intro k hk
      obtain ⟨hk, hne⟩ := List.mem_filter.1 hk
      have hne : k ≠ (clientId, commandId) := by simpa using hne
      have hmem := h.dispatched k hk
      rw [← hmemory] at hmem
      obtain ⟨p, hp, hpk⟩ := List.mem_map.1 hmem
      rw [hreplay]
      refine List.mem_map.2 ⟨p, List.mem_filter.2 ⟨hp, ?_⟩, hpk⟩
      have hother : p.1 ≠ key := fun heq =>
        hne (key_injective (hpk.symm.trans (heq.trans hkey.symm)))
      simpa using hother
    rw [hms]
    cases outcome with
    | done =>
      have happended := remembers_appended h hafter
        ⟨_, journal.recordCount + 1⟩ hreplay.symm
      dsimp only [append]
      split
      · exact kept_compact happended rfl compactedAt replace
      · exact Kept.of happended fun _ => ⟨_, rfl⟩
    | throws n =>
      have hn := hclean.cut _ n happends
      rw [hms] at hn
      exact kept_threw h hsub hn
    | crashes n => exact kept_crashed h hsub hafter n
  · rw [Bool.not_eq_true] at hhas
    have hnot : (!journal.entries.has key) = true := by
      rw [hhas]
      rfl
    rw [if_pos hnot]
    exact ⟨⟨lines, tail, h.file, h.memory,
      fun k hk => h.dispatched k (hsub k hk)⟩, fun _ => ⟨journal, hjournal⟩⟩

theorem kept_step {w : World} (hclean : CleanAppend w event)
    {lines : List Line} {tail : List UInt8} (h : Remembers w lines tail) :
    Kept (w.step event).1 (w.step event).2 := by
  cases event with
  | restart repair => exact kept_load h repair
  | begin clientId commandId commandType recordedAt outcome =>
    unfold World.step
    cases hjournal : w.journal with
    | none => exact Kept.of h fun hdone => nomatch hdone
    | some journal => exact kept_begin hjournal hclean h
  | recordResult clientId commandId response recordedAt outcome compactedAt
      replace =>
      unfold World.step
      cases hjournal : w.journal with
      | none => exact Kept.of h fun hdone => nomatch hdone
      | some journal => exact kept_recordResult hjournal hclean h
  | acknowledge clientId commandId recordedAt outcome compactedAt replace =>
    unfold World.step
    cases hjournal : w.journal with
    | none => exact Kept.of h fun hdone => nomatch hdone
    | some journal => exact kept_acknowledge hjournal hclean h

theorem remembers_reachable {w : World} (h : Reachable w) :
    ∃ lines tail, Remembers w lines tail := by
  induction h with
  | init =>
    exact ⟨[], [], FileHolds.none, fun _ hj => (nomatch hj),
      fun _ hk => absurd hk List.not_mem_nil⟩
  | step _ hclean ih =>
    obtain ⟨lines, tail, h⟩ := ih
    exact (kept_step hclean h).remembers

/-- With clean appends, no `begin` of a dispatched command is new before it
is acknowledged, and after every call that returned the file reads as
memory. -/
theorem dispatched_at_most_once {w : World} (h : Reachable w) {event : Event}
    (hclean : CleanAppend w event) :
    (∀ clientId commandId commandType recordedAt outcome,
        event = .begin clientId commandId commandType recordedAt outcome →
        (w.step event).2 = .began .new →
        (clientId, commandId) ∉ w.dispatched)
      ∧ ((w.step event).2.completed = true →
        ∃ journal reloaded, (w.step event).1.journal = some journal
          ∧ reload (w.step event).1.file = some reloaded
          ∧ reloaded.entries = journal.entries) := by
  obtain ⟨lines, tail, hrem⟩ := remembers_reachable h
  constructor
  · intro clientId commandId commandType recordedAt outcome hevent hnew hmem
    subst hevent
    unfold World.step at hnew
    cases hjournal : w.journal with
    | none =>
      rw [hjournal] at hnew
      cases hnew
    | some journal =>
      rw [hjournal] at hnew
      have hkey := hrem.dispatched _ hmem
      rw [← hrem.memory journal hjournal] at hkey
      dsimp only [World.begin] at hnew
      cases hlookup : journal.lookup clientId commandId with
      | none => exact lookup_eq_none hlookup hkey
      | some existing =>
        rw [hlookup] at hnew
        injection hnew with hnew
        subst hnew
        unfold lookup at hlookup
        split at hlookup <;> cases hlookup
  · intro hdone
    obtain ⟨⟨lines', tail', hrem'⟩, hrun⟩ := kept_step hclean hrem
    obtain ⟨journal, hjournal⟩ := hrun hdone
    exact ⟨journal, replay lines', hjournal, reload_holds hrem'.file,
      (hrem'.memory journal hjournal).symm⟩

theorem dispatched_at_most_once_first_begin :
    ∃ journal reloaded,
      ((World.init.step (.restart .done)).1.step
          (.begin "a" "1" "prompt" "t" .done)).1.journal = some journal
        ∧ reload ((World.init.step (.restart .done)).1.step
          (.begin "a" "1" "prompt" "t" .done)).1.file = some reloaded
        ∧ reloaded.entries = journal.entries := by
  refine (dispatched_at_most_once (.step .init ⟨fun _ _ h => ?_,
    fun _ _ h => ?_⟩) ⟨fun _ _ _ b h => ?_, fun _ _ h => ?_⟩).2 rfl
  · cases h
  · cases h
  · cases h
  · cases h

-- ======== the welded record

/-- The result is a new command. -/
def Result.isNew : Result → Bool
  | .began .new => true
  | _ => false

theorem Result.eq_new (h : result.isNew = true) : result = .began .new := by
  unfold isNew at h
  split at h
  · rfl
  · cases h

/-- One byte of a record is left by an append that throws, the next record
is welded to it, and the command it dispatched is new again after a
restart. -/
theorem welded_begin_is_new_again :
    ((World.init.run [.restart .done,
        .begin "a" "1" "prompt" "t" (.throws 1)]).step
        (.begin "b" "2" "prompt" "t" .done)).2 = .began .new
      ∧ ("b", "2") ∈ (World.init.run [.restart .done,
        .begin "a" "1" "prompt" "t" (.throws 1),
        .begin "b" "2" "prompt" "t" .done, .restart .done]).dispatched
      ∧ ((World.init.run [.restart .done,
        .begin "a" "1" "prompt" "t" (.throws 1),
        .begin "b" "2" "prompt" "t" .done, .restart .done]).step
        (.begin "b" "2" "prompt" "t" .done)).2 = .began .new :=
  ⟨Result.eq_new (by decide +kernel), by decide +kernel,
    Result.eq_new (by decide +kernel)⟩

end OneHarness.Daemon
