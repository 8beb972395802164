/-
The JSONL reader frames a stream by its bytes, however they arrive.

# The invariant

`Carries r cur`: the reader has seen `cur` of the line that is not ended
yet. While that is within the limit it keeps all of it, and has told
nothing of it; once it is longer it has told its beginning, and keeps
nothing. What a text adds is `cut` off it in the same way, so the chunks
fall out of the result (`readAll_records`).
-/
import OneHarness.Lib.Json.Numeral
import OneHarness.Lib.Json.RoundTrip
import OneHarness.Lib.Json.Torn
import OneHarness.Lib.Text
import OneHarness.Wire.Jsonl

namespace OneHarness.Wire.Jsonl

open Lib Utf16 JsonlLineReader

-- ======== the records

/-- The records of a text: those that a newline ends, and a last one that
is not empty. -/
def records (text : List Nat) : List (List Nat) :=
  (text.splitOn LF).dropLast
    ++ (text.splitOn LF).getLast?.toList.filter fun record => record ≠ []

/-- What is told of a record. -/
def outcome (maxLineLength : Option Nat) (record : List Nat) : LineEvent :=
  if exceeds maxLineLength record.length then
    .overflow (record.take (maxLineLength.getD 0))
  else .line (dropCR record)

/-- The lines that a text ends, begun with `cur`, and the line it leaves. -/
def cut (cur : List Nat) : List Nat → List (List Nat) × List Nat
  | [] => ([], cur)
  | u :: us =>
    if u = LF then (cur :: (cut [] us).1, (cut [] us).2)
    else cut (cur ++ [u]) us

theorem cut_newline (cur us : List Nat) :
    cut cur (LF :: us) = (cur :: (cut [] us).1, (cut [] us).2) := by
  rw [cut, if_pos rfl]

theorem cut_unit {u : Nat} (h : u ≠ LF) (cur us : List Nat) :
    cut cur (u :: us) = cut (cur ++ [u]) us := by
  rw [cut, if_neg h]

theorem cut_append (cur xs ys : List Nat) :
    cut cur (xs ++ ys) = ((cut cur xs).1 ++ (cut (cut cur xs).2 ys).1,
      (cut (cut cur xs).2 ys).2) := by
  induction xs generalizing cur with
  | nil => rfl
  | cons u us ih =>
    by_cases hu : u = LF
    · subst hu
      rw [List.cons_append, cut_newline, cut_newline, ih]
      rfl
    · rw [List.cons_append, cut_unit hu, cut_unit hu, ih]

theorem cut_of_not_mem (cur : List Nat) {us : List Nat} (h : LF ∉ us) :
    cut cur us = ([], cur ++ us) := by
  induction us generalizing cur with
  | nil => rw [cut, List.append_nil]
  | cons u us ih =>
    have hu : u ≠ LF := fun heq => h (heq ▸ List.mem_cons_self)
    rw [cut_unit hu, ih _ fun hmem => h (List.mem_cons_of_mem _ hmem),
      List.append_assoc, List.singleton_append]

variable {cur : List Nat}

theorem splitOn_cut (h : LF ∉ cur) (us : List Nat) :
    (cur ++ us).splitOn LF = (cut cur us).1 ++ [(cut cur us).2] := by
  induction us generalizing cur with
  | nil =>
    rw [List.append_nil, List.splitOn_eq_singleton h]
    rfl
  | cons u us ih =>
    by_cases hu : u = LF
    · subst hu
      have hrest := @ih [] List.not_mem_nil
      rw [List.nil_append] at hrest
      rw [List.splitOn_append_cons_self_of_not_mem h, hrest, cut_newline]
      rfl
    · have hcur : LF ∉ cur ++ [u] := by
        intro hmem
        rcases List.mem_append.1 hmem with hmem | hmem
        · exact h hmem
        · exact hu (List.mem_singleton.1 hmem).symm
      rw [cut_unit hu, ← ih hcur, List.append_assoc, List.singleton_append]

theorem records_cut (text : List Nat) :
    records text = (cut [] text).1
      ++ if (cut [] text).2 = [] then [] else [(cut [] text).2] := by
  have hsplit := @splitOn_cut [] List.not_mem_nil text
  rw [List.nil_append] at hsplit
  rw [records, hsplit, List.dropLast_concat, List.getLast?_concat,
    Option.toList_some]
  by_cases hlast : (cut [] text).2 = []
  · rw [if_pos hlast, hlast]
    rfl
  · rw [if_neg hlast, List.filter_cons_of_pos (by simpa using hlast),
      List.filter_nil]

-- ======== what has been told

variable {maxLineLength : Option Nat} {r : JsonlLineReader}

theorem exceeds_zero : exceeds maxLineLength 0 = false := by
  cases maxLineLength with
  | none => rfl
  | some max => exact decide_eq_false (Nat.not_lt_zero max)

/-- A longer line is too long as well. -/
theorem exceeds_mono {n m : Nat} (h : exceeds maxLineLength n = true)
    (hle : n ≤ m) : exceeds maxLineLength m = true := by
  cases maxLineLength with
  | none => exact h
  | some max =>
    have hlt : max < n := of_decide_eq_true h
    exact decide_eq_true (Nat.lt_of_lt_of_le hlt hle)

/-- A line that is too long has all that is told of it. -/
theorem take_of_exceeds
    (h : exceeds maxLineLength cur.length = true) (segment : List Nat) :
    (cur ++ segment).take (maxLineLength.getD 0)
      = cur.take (maxLineLength.getD 0) := by
  cases maxLineLength with
  | none => cases h
  | some max =>
    have hlt : max < cur.length := of_decide_eq_true h
    exact List.take_append_of_le_length (Nat.le_of_lt hlt)

variable (maxLineLength) in
/-- What has been told of a line that is not ended yet. -/
def told (cur : List Nat) : List LineEvent :=
  if exceeds maxLineLength cur.length then
    [.overflow (cur.take (maxLineLength.getD 0))]
  else []

theorem told_nil : told maxLineLength [] = [] := by
  rw [told, List.length_nil, exceeds_zero]
  rfl

theorem told_within (h : exceeds maxLineLength cur.length = false) :
    told maxLineLength cur = [] := by
  rw [told, h]
  rfl

theorem told_beyond (h : exceeds maxLineLength cur.length = true) :
    told maxLineLength cur
      = [.overflow (cur.take (maxLineLength.getD 0))] := by
  rw [told, if_pos h]

theorem outcome_beyond {record : List Nat}
    (h : exceeds maxLineLength record.length = true) :
    [outcome maxLineLength record] = told maxLineLength record := by
  rw [told_beyond h, outcome, if_pos h]

theorem outcome_within {record : List Nat}
    (h : exceeds maxLineLength record.length = false) :
    outcome maxLineLength record = .line (dropCR record) := by
  rw [outcome, h]
  rfl

-- ======== the invariant

variable (maxLineLength) in
/-- The reader has seen `cur` of the line that is not ended yet. -/
structure Carries (r : JsonlLineReader) (cur : List Nat) : Prop where
  discarding : r.discardingOverflow = exceeds maxLineLength cur.length
  within : r.discardingOverflow = false →
    r.pending.flatten = cur ∧ r.pendingLength = cur.length
      ∧ (r.pending = [] ↔ cur = [])
  beyond : r.discardingOverflow = true →
    r.pending = [] ∧ r.pendingLength = 0

/-- With nothing kept and nothing discarded, a line begins. -/
theorem carries_nil (hpending : r.pending = []) (hlength : r.pendingLength = 0)
    (hdiscard : r.discardingOverflow = false) : Carries maxLineLength r [] where
  discarding := by rw [hdiscard, List.length_nil, exceeds_zero]
  within _ := by
    rw [hpending, hlength]
    exact ⟨rfl, rfl, fun _ => rfl, fun _ => rfl⟩
  beyond h := by
    rw [hdiscard] at h
    cases h

theorem carries_init : Carries maxLineLength init [] :=
  carries_nil rfl rfl rfl

-- ======== what each piece does

theorem appendPending_empty {segment : List Nat} (h : segment = []) :
    appendPending maxLineLength r segment = (r, []) := by
  rw [appendPending, h]
  simp

section
variable (h : Carries maxLineLength r cur)
include h

theorem appendPending_spec (segment : List Nat) :
    Carries maxLineLength (appendPending maxLineLength r segment).1
        (cur ++ segment)
      ∧ told maxLineLength cur ++ (appendPending maxLineLength r segment).2
        = told maxLineLength (cur ++ segment) := by
  by_cases hempty : segment = []
  · rw [appendPending_empty hempty, hempty, List.append_nil, List.append_nil]
    exact ⟨h, rfl⟩
  have hlen : ¬ segment.length = 0 := fun h0 =>
    hempty (List.length_eq_zero_iff.1 h0)
  cases hdiscard : r.discardingOverflow with
  | true =>
    have hcur : exceeds maxLineLength cur.length = true :=
      h.discarding.symm.trans hdiscard
    have hall : exceeds maxLineLength (cur ++ segment).length = true :=
      exceeds_mono hcur (by rw [List.length_append]; omega)
    have hsame : appendPending maxLineLength r segment = (r, []) := by
      rw [appendPending, hdiscard]
      rfl
    rw [hsame, List.append_nil, told_beyond hcur, told_beyond hall,
      take_of_exceeds hcur]
    refine ⟨⟨hdiscard.trans hall.symm, ?_, h.beyond⟩, rfl⟩
    intro hfalse
    rw [hdiscard] at hfalse
    cases hfalse
  | false =>
    have hcur : exceeds maxLineLength cur.length = false :=
      h.discarding.symm.trans hdiscard
    obtain ⟨hflat, hplen, hnil⟩ := h.within hdiscard
    have hstart : ¬ (r.discardingOverflow || decide (segment.length = 0))
        = true := by
      rw [hdiscard, Bool.false_or, decide_eq_true_eq]
      exact hlen
    have hsum : r.pendingLength + segment.length
        = (cur ++ segment).length := by
      rw [hplen, List.length_append]
    rw [told_within hcur, List.nil_append]
    unfold appendPending
    rw [if_neg hstart, hsum]
    by_cases hover : exceeds maxLineLength (cur ++ segment).length = true
    · rw [if_pos hover, told_beyond hover]
      refine ⟨⟨hover.symm, nofun, fun _ => ⟨rfl, rfl⟩⟩, ?_⟩
      dsimp only
      -- the beginning of the line is what was kept and what still fits
      have htake : (cur ++ segment).take (maxLineLength.getD 0)
          = cur ++ segment.take (maxLineLength.getD 0 - cur.length) := by
        rw [List.take_append, List.take_of_length_le]
        cases maxLineLength with
        | none => cases hover
        | some max =>
          exact Nat.not_lt.1 (of_decide_eq_false hcur)
      rw [htake, hplen]
      by_cases hremaining : 0 < maxLineLength.getD 0 - cur.length
      · rw [if_pos hremaining, List.flatten_append, hflat,
          List.flatten_singleton]
      · have hzero : maxLineLength.getD 0 - cur.length = 0 := by omega
        rw [if_neg hremaining, hflat, hzero, List.take_zero, List.append_nil]
    · have hfit : exceeds maxLineLength (cur ++ segment).length = false :=
        Bool.eq_false_iff.2 hover
      rw [if_neg hover, told_within hfit]
      refine ⟨⟨hdiscard.trans hfit.symm, fun _ => ⟨?_, rfl, ?_⟩, ?_⟩, rfl⟩
      · show (r.pending ++ [segment]).flatten = cur ++ segment
        rw [List.flatten_append, hflat, List.flatten_singleton]
      · constructor
        · intro hp
          cases (List.append_eq_nil_iff.1 hp).2
        · intro hp
          exact absurd (List.append_eq_nil_iff.1 hp).2 hempty
      · intro htrue
        have hfalse : r.discardingOverflow = true := htrue
        rw [hdiscard] at hfalse
        cases hfalse

/-- A newline ends the line: what is told by then is its outcome. -/
theorem emitFrom_spec (segment : List Nat) :
    Carries maxLineLength (emitFrom maxLineLength r segment).1 []
      ∧ told maxLineLength cur ++ (emitFrom maxLineLength r segment).2
        = [outcome maxLineLength (cur ++ segment)] := by
  obtain ⟨happ, htold⟩ := appendPending_spec h segment
  unfold emitFrom
  cases hdiscard : r.discardingOverflow with
  | true =>
    have hcur : exceeds maxLineLength cur.length = true :=
      h.discarding.symm.trans hdiscard
    have hall : exceeds maxLineLength (cur ++ segment).length = true :=
      exceeds_mono hcur (by rw [List.length_append]; omega)
    rw [if_pos rfl]
    refine ⟨carries_nil rfl rfl rfl, ?_⟩
    rw [List.append_nil, outcome_beyond hall, told_beyond hcur,
      told_beyond hall, take_of_exceeds hcur]
  | false =>
    rw [if_neg Bool.false_ne_true]
    dsimp only
    cases hnow : (appendPending maxLineLength r segment).1.discardingOverflow
    with
    | true =>
      have hall : exceeds maxLineLength (cur ++ segment).length = true :=
        happ.discarding.symm.trans hnow
      rw [if_pos rfl]
      refine ⟨?_, htold.trans (outcome_beyond hall).symm⟩
      exact carries_nil (happ.beyond hnow).1 (happ.beyond hnow).2 rfl
    | false =>
      have hall : exceeds maxLineLength (cur ++ segment).length = false :=
        happ.discarding.symm.trans hnow
      rw [if_neg Bool.false_ne_true]
      refine ⟨carries_nil rfl rfl hnow, ?_⟩
      dsimp only
      rw [← List.append_assoc, htold, told_within hall, List.nil_append,
        outcome_within hall, (happ.within hnow).1]

/-- A text ends the lines that are cut off it. -/
theorem scan_spec (segment text : List Nat) :
    Carries maxLineLength (scan maxLineLength r segment text).1
        (cut (cur ++ segment) text).2
      ∧ told maxLineLength cur ++ (scan maxLineLength r segment text).2
        = (cut (cur ++ segment) text).1.map (outcome maxLineLength)
          ++ told maxLineLength (cut (cur ++ segment) text).2 := by
  induction text generalizing r cur segment with
  | nil =>
    rw [scan, cut, List.map_nil, List.nil_append]
    by_cases hempty : segment.length = 0
    · rw [if_pos hempty, List.length_eq_zero_iff.1 hempty, List.append_nil,
        List.append_nil]
      exact ⟨h, rfl⟩
    · rw [if_neg hempty]
      exact appendPending_spec h segment
  | cons u us ih =>
    by_cases hu : u = LF
    · subst hu
      obtain ⟨hnext, hline⟩ := emitFrom_spec h segment
      obtain ⟨hrest, hmore⟩ := ih hnext []
      rw [told_nil, List.nil_append, List.append_nil] at hmore
      rw [List.append_nil] at hrest
      rw [scan, if_pos rfl, cut_newline, List.map_cons]
      dsimp only
      refine ⟨hrest, ?_⟩
      rw [← List.append_assoc, hline, hmore]
      rfl
    · rw [scan, if_neg hu, cut_unit hu, List.append_assoc]
      exact ih h (segment ++ [u])

theorem onData_spec (bytes : List UInt8) :
    Carries maxLineLength (onData maxLineLength r (.buffer bytes)).1
        (cut cur (encode (Utf8.feed r.decoder bytes).2)).2
      ∧ told maxLineLength cur
          ++ (onData maxLineLength r (.buffer bytes)).2
        = (cut cur (encode (Utf8.feed r.decoder bytes).2)).1.map
            (outcome maxLineLength)
          ++ told maxLineLength
            (cut cur (encode (Utf8.feed r.decoder bytes).2)).2 := by
  have hdec : Carries maxLineLength
      { r with decoder := (Utf8.feed r.decoder bytes).1 } cur :=
    ⟨h.discarding, h.within, h.beyond⟩
  have hscan := scan_spec hdec [] (encode (Utf8.feed r.decoder bytes).2)
  rw [List.append_nil] at hscan
  exact hscan

end

-- ======== the whole stream

theorem appendPending_decoder (segment : List Nat) :
    (appendPending maxLineLength r segment).1.decoder = r.decoder := by
  unfold appendPending
  split
  · rfl
  · split
    · rfl
    · rfl

theorem emitFrom_decoder (segment : List Nat) :
    (emitFrom maxLineLength r segment).1.decoder = r.decoder := by
  unfold emitFrom
  split
  · rfl
  · dsimp only
    split
    · exact appendPending_decoder segment
    · exact appendPending_decoder segment

theorem scan_decoder (segment text : List Nat) :
    (scan maxLineLength r segment text).1.decoder = r.decoder := by
  induction text generalizing r segment with
  | nil =>
    rw [scan]
    split
    · rfl
    · exact appendPending_decoder segment
  | cons u us ih =>
    rw [scan]
    split
    · exact (ih []).trans (emitFrom_decoder segment)
    · exact ih (segment ++ [u])

theorem onData_decoder (bytes : List UInt8) :
    (onData maxLineLength r (.buffer bytes)).1.decoder
      = (Utf8.feed r.decoder bytes).1 := scan_decoder [] _

/-- Chunk after chunk is all of them at once. -/
theorem onChunks_spec (h : Carries maxLineLength r cur)
    (chunks : List (List UInt8)) :
    (onChunks maxLineLength r (chunks.map .buffer)).1.decoder
        = (Utf8.feed r.decoder chunks.flatten).1
      ∧ Carries maxLineLength
        (onChunks maxLineLength r (chunks.map .buffer)).1
        (cut cur (encode (Utf8.feed r.decoder chunks.flatten).2)).2
      ∧ told maxLineLength cur
          ++ (onChunks maxLineLength r (chunks.map .buffer)).2
        = (cut cur (encode (Utf8.feed r.decoder chunks.flatten).2)).1.map
            (outcome maxLineLength)
          ++ told maxLineLength
            (cut cur (encode (Utf8.feed r.decoder chunks.flatten).2)).2 := by
  induction chunks generalizing r cur with
  | nil => exact ⟨rfl, h, List.append_nil _⟩
  | cons bytes chunks ih =>
    obtain ⟨hnext, htold⟩ := onData_spec h bytes
    obtain ⟨hdec, hcarries, hmore⟩ := ih hnext
    rw [onData_decoder] at hdec hcarries hmore
    rw [List.map_cons, onChunks, List.flatten_cons, Utf8.feed_append]
    dsimp only
    rw [encode_append, cut_append]
    refine ⟨hdec, hcarries, ?_⟩
    rw [← List.append_assoc, htold, List.append_assoc, hmore, List.map_append,
      List.append_assoc]

theorem flush_newline (s : Utf8.Pending) : LF ∉ encode (Utf8.flush s) := by
  unfold Utf8.flush
  by_cases h : s.needed = 0
  · rw [if_pos h]
    exact List.not_mem_nil
  · rw [if_neg h]
    decide

/-- At the end the line that is left is told, unless it is empty. -/
theorem onEnd_spec (h : Carries maxLineLength r cur) :
    told maxLineLength cur ++ (onEnd maxLineLength r).2
      = if cur ++ encode (Utf8.flush r.decoder) = [] then []
        else [outcome maxLineLength (cur ++ encode (Utf8.flush r.decoder))] := by
  generalize htail : encode (Utf8.flush r.decoder) = tail
  have happend : (if 0 < tail.length then appendPending maxLineLength r tail
      else (r, [])) = appendPending maxLineLength r tail := by
    by_cases hpos : 0 < tail.length
    · rw [if_pos hpos]
    · have hnil : tail = [] := List.length_eq_zero_iff.1 (by omega)
      rw [if_neg hpos, appendPending_empty hnil]
  obtain ⟨happ, htold⟩ := appendPending_spec h tail
  rw [onEnd, htail, happend]
  dsimp only
  cases hnow : (appendPending maxLineLength r tail).1.discardingOverflow with
  | true =>
    have hall : exceeds maxLineLength (cur ++ tail).length = true :=
      happ.discarding.symm.trans hnow
    have hne : ¬ cur ++ tail = [] := by
      intro hnil
      rw [hnil, List.length_nil, exceeds_zero] at hall
      cases hall
    rw [Bool.not_true, Bool.false_and, if_neg Bool.false_ne_true, htold,
      if_neg hne, outcome_beyond hall]
  | false =>
    have hall : exceeds maxLineLength (cur ++ tail).length = false :=
      happ.discarding.symm.trans hnow
    obtain ⟨hflat, -, hnil⟩ := happ.within hnow
    simp only [Bool.not_false, Bool.true_and, decide_eq_true_eq]
    by_cases hempty : cur ++ tail = []
    · rw [if_pos hempty, hnil.2 hempty, List.length_nil,
        if_neg (Nat.lt_irrefl 0), htold, told_within hall]
    · have hpos : 0 < (appendPending maxLineLength r tail).1.pending.length :=
        List.length_pos_iff.2 fun hp => hempty (hnil.1 hp)
      rw [if_neg hempty, if_pos hpos, ← List.append_assoc, htold,
        told_within hall, List.nil_append, outcome_within hall, hflat]

/-- A stream is told record by record, however it is cut into chunks. -/
theorem readAll_records (chunks : List (List UInt8)) :
    readAll maxLineLength (chunks.map .buffer)
      = (records (encode (Utf8.decode chunks.flatten))).map
          (outcome maxLineLength) := by
  obtain ⟨hdec, hcarries, htold⟩ :=
    onChunks_spec (@carries_init maxLineLength) chunks
  have hend := onEnd_spec hcarries
  have hstart : init.decoder = .start := rfl
  rw [told_nil, List.nil_append] at htold
  have hdecode : encode (Utf8.decode chunks.flatten)
      = encode (Utf8.feed .start chunks.flatten).2
        ++ encode (Utf8.flush (Utf8.feed .start chunks.flatten).1) := by
    rw [← encode_append, ← Utf8.rest_start]
    rfl
  rw [readAll]
  dsimp only
  rw [htold, List.append_assoc, hend, hdec, hstart, hdecode, records_cut,
    cut_append, cut_of_not_mem _ (flush_newline _)]
  dsimp only
  rw [List.append_nil, List.map_append, apply_ite (List.map _)]
  rfl

-- ======== serialized values

/-- The line of a value has no control character. -/
theorem stringify_units (value : Json) {u : Nat} (hu : u < 32) :
    u ∉ encode value.stringify := by
  intro hmem
  obtain ⟨c, hc, heq⟩ := mem_encode (by omega) hmem
  have hprintable := Json.printable_stringify value c hc
  omega

/-- A stream of serialized values has their lines for records. -/
theorem records_serialized (values : List Json) :
    records (encode (values.flatMap serializeJsonLine))
      = values.map fun value => encode value.stringify := by
  have hcut : cut [] (encode (values.flatMap serializeJsonLine))
      = (values.map fun value => encode value.stringify, []) := by
    induction values with
    | nil => rfl
    | cons value values ih =>
      have hline : encode ((value :: values).flatMap serializeJsonLine)
          = encode value.stringify
            ++ LF :: encode (values.flatMap serializeJsonLine) := by
        rw [List.flatMap_cons, serializeJsonLine, List.append_assoc,
          encode_append]
        rfl
      rw [hline, cut_append, cut_of_not_mem _ (stringify_units value _),
        List.nil_append]
      · dsimp only
        rw [cut_newline, ih]
        rfl
      · decide
  rw [records_cut, hcut]
  exact List.append_nil _

theorem dropCR_stringify (value : Json) :
    dropCR (encode value.stringify) = encode value.stringify := by
  rw [dropCR, if_neg]
  intro hlast
  exact stringify_units value (by decide) (List.mem_of_getLast? hlast)

theorem parsed_stringify (value : Json) :
    (LineEvent.line (encode value.stringify)).parsed = some value := by
  rw [LineEvent.parsed, decode_encode, Option.bind_some, Json.parse_stringify]

/-- A stream is told record by record, however it is cut into chunks: the
lines that are within the limit, and of each longer one its beginning. Of
serialized values within the limit the lines give the values back. -/
theorem frames_any_chunking (maxLineLength : Option Nat)
    (chunks : List (List UInt8)) :
    readAll maxLineLength (chunks.map .buffer)
        = (records (encode (Utf8.decode chunks.flatten))).map
          (outcome maxLineLength)
      ∧ ∀ values : List Json,
        chunks.flatten = Utf8.encode (values.flatMap serializeJsonLine) →
        (∀ value ∈ values, exceeds maxLineLength
          (encode value.stringify).length = false) →
        (readAll maxLineLength (chunks.map .buffer)).map LineEvent.parsed
          = values.map some := by
  refine ⟨readAll_records chunks, ?_⟩
  intro values hstream hwithin
  rw [readAll_records, hstream, Utf8.decode_encode, records_serialized,
    List.map_map, List.map_map]
  apply List.map_congr_left
  intro value hvalue
  show (outcome maxLineLength (encode value.stringify)).parsed = some value
  rw [outcome_within (hwithin value hvalue), dropCR_stringify,
    parsed_stringify]

/-- Two values, cut inside a character, and a limit that they keep. -/
theorem frames_two_values :
    (readAll (some 4) [.buffer [0x22, 0xC3], .buffer [0xA9, 0x22, 0x0A, 0x31],
        .buffer [0x0A]]).map LineEvent.parsed
      = [some (.str "é"), some (.num (Numeral.ofNat 1))] := by
  have h := (frames_any_chunking (some 4)
    [[0x22, 0xC3], [0xA9, 0x22, 0x0A, 0x31], [0x0A]]).2
    [.str "é", .num (Numeral.ofNat 1)] (by decide +kernel)
    (by decide +kernel)
  exact h

-- ======== the memory

/-- Chunks of either kind leave a reader that has seen a beginning. -/
theorem onChunks_carries (h : Carries maxLineLength r cur)
    (chunks : List Chunk) :
    ∃ cur, Carries maxLineLength (onChunks maxLineLength r chunks).1 cur := by
  induction chunks generalizing r cur with
  | nil => exact ⟨cur, h⟩
  | cons chunk chunks ih =>
    cases chunk with
    | string text => exact ih (scan_spec h [] text).1
    | buffer bytes => exact ih (onData_spec h bytes).1

/-- Of a line that does not end, no more is kept than the limit, and it is
counted. -/
theorem pending_bounded (maxLineLength : Nat) (chunks : List Chunk) :
    let r := (onChunks (some maxLineLength) init chunks).1
    r.pendingLength = r.pending.flatten.length
      ∧ r.pendingLength ≤ maxLineLength := by
  obtain ⟨cur, h⟩ := onChunks_carries carries_init chunks
  dsimp only
  cases hdiscard : (onChunks (some maxLineLength) init chunks).1.discardingOverflow
    with
  | true =>
    rw [(h.beyond hdiscard).1, (h.beyond hdiscard).2]
    exact ⟨rfl, Nat.zero_le _⟩
  | false =>
    obtain ⟨hpending, hlength, -⟩ := h.within hdiscard
    rw [hpending, hlength]
    have hshort := h.discarding.symm.trans hdiscard
    exact ⟨rfl, Nat.le_of_not_lt (of_decide_eq_false hshort)⟩

end OneHarness.Wire.Jsonl
