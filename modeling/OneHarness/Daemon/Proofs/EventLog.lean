/-
What an event log makes of a file that holds the lines of records.

A record is written as a JSON object, `encode`. A file of such records,
each on its line, replays to the records as long as it is within the
bounds and `parse` takes every one of them (`replaySync_payload`), and not
otherwise (`replaySync_fails`); an append adds its lines at the end, unless
the file is already too large (`appendSync_payload`).
-/
import OneHarness.Daemon.EventLog
import OneHarness.Lib.Json.RoundTrip
import OneHarness.Lib.Json.Torn
import OneHarness.Lib.Text
import OneHarness.Session.Proofs.Trim

namespace OneHarness.Daemon.EventLog

open Lib Session

-- ======== the text

section
variable (events : List Json)

theorem payload_eq :
    payload events = Utf8.encode (Text.unlines (events.map Json.stringify)) := by
  rw [payload, Text.unlines, List.flatMap_map]
  rfl

theorem payload_append (xs ys : List Json) :
    payload (xs ++ ys) = payload xs ++ payload ys := by
  rw [payload, List.flatMap_append, Utf8.encode_append]
  rfl

theorem payload_singleton (e : Json) :
    payload [e] = Utf8.encode (Json.stringify e) ++ [0x0a] := by
  rw [payload, List.flatMap_singleton, serializeLine, Utf8.encode_append]
  rfl

theorem newline_not_mem_stringify (j : Json) : '\n' ∉ Json.stringify j := by
  intro h
  exact absurd (Json.printable_stringify j '\n' h) (by decide)

theorem decode_payload :
    Utf8.decode (payload events)
      = Text.unlines (events.map Json.stringify) := by
  rw [payload_eq, Utf8.decode_encode]

theorem payload_eq_nil {events : List Json} :
    payload events = [] ↔ events = [] := by
  constructor
  · intro h
    cases events with
    | nil => rfl
    | cons e es =>
      have hdecode := decode_payload (e :: es)
      rw [h, Utf8.decode_nil, List.map_cons, Text.unlines_cons] at hdecode
      cases hsplit : Json.stringify e with
      | nil => rw [hsplit] at hdecode; cases hdecode
      | cons c cs => rw [hsplit] at hdecode; cases hdecode
  · intro h
    rw [h]
    rfl

theorem splitOn_decode_payload :
    (Utf8.decode (payload events)).splitOn '\n'
      = events.map Json.stringify ++ [[]] := by
  have hlines : ∀ line ∈ events.map Json.stringify, '\n' ∉ line := by
    intro line h
    obtain ⟨j, -, rfl⟩ := List.mem_map.1 h
    exact newline_not_mem_stringify j
  have hsplit := @Text.splitOn_unlines _ [] hlines List.not_mem_nil
  rwa [List.append_nil, ← decode_payload] at hsplit

theorem getLast?_payload {events : List Json} (h : events ≠ []) :
    (payload events).getLast? = some 0x0a := by
  obtain rfl | ⟨init, e, rfl⟩ := List.eq_nil_or_concat' events
  · exact absurd rfl h
  · rw [payload_append, payload_singleton, ← List.append_assoc,
      List.getLast?_append]
    rfl

theorem getLast?_decode_payload {events : List Json} (h : events ≠ []) :
    (Utf8.decode (payload events)).getLast? = some '\n' := by
  rw [decode_payload]
  apply Text.getLast?_unlines
  intro hnil
  exact h (List.map_eq_nil_iff.1 hnil)

theorem newline_not_mem_encode (event : Json) :
    (0x0a : UInt8) ∉ Utf8.encode (Json.stringify event) := by
  intro hmem
  obtain ⟨c, hc, heq⟩ := Utf8.mem_encode hmem (by decide)
  have hnewline : c = '\n' := Char.toNat_inj.1 heq
  exact newline_not_mem_stringify event (hnewline ▸ hc)

/-- Every line has one newline. -/
theorem count_payload : (payload events).count 0x0a = events.length := by
  induction events with
  | nil => rfl
  | cons e es ih =>
    have hline := newline_not_mem_encode e
    rw [← List.singleton_append, payload_append, List.count_append, ih,
      payload_singleton, List.count_append, List.count_eq_zero.2 hline,
      List.singleton_append, List.length_cons, Nat.add_comm]
    rfl

end

-- ======== a line trimmed

/-- The line of an event, as a replay hands it to its `parse`. -/
def lineOf (event : Json) : String := String.ofList (Json.stringify event)

theorem trim_lineOf (event : Json) : trim (lineOf event) = lineOf event :=
  trim_stringify event

theorem lineOf_ne_empty (event : Json) : lineOf event ≠ "" :=
  ofList_stringify_ne_empty event

-- ======== replaying

section
variable {ε τ : Type} (encode : τ → List (String × Json))
  {options : EventLogOptions} {parse : String → Nat → Except ε (Option τ)}

/-- The line of a record. -/
def line (r : τ) : String := String.ofList (Json.stringify (.obj (encode r)))

/-- The records as events. -/
def events (rs : List τ) : List Json := rs.map fun r => .obj (encode r)

variable {encode}

/-- A file of lines starts with the line of its first record. -/
theorem replayLines_cons (index recordCount : Nat) (r : τ) (rs : List τ) :
    replayLines options parse true index recordCount
        ((events encode (r :: rs)).map Json.stringify ++ [[]])
      = if exceeds options.maxRecords (recordCount + 1) then
          .error (.tooManyRecords (options.maxRecords.getD 0))
        else
          match parse (line encode r) index with
          | .error error => .error (.rejected error)
          | .ok event =>
            match replayLines options parse true (index + 1)
                (recordCount + 1)
                ((events encode rs).map Json.stringify ++ [[]]) with
            | .error error => .error error
            | .ok tail => .ok (event.toList ++ tail) := by
  have hline : trim (String.ofList (Json.stringify (.obj (encode r))))
      = lineOf (.obj (encode r)) := trim_lineOf _
  rw [events, List.map_cons, List.map_cons, List.cons_append, replayLines,
    hline, if_neg (lineOf_ne_empty _), Bool.not_true, Bool.and_false,
    if_neg Bool.false_ne_true]
  rfl

theorem exceeds_zero (bound : Option Nat) : exceeds bound 0 = false := by
  cases bound with
  | none => rfl
  | some bound => exact decide_eq_false (Nat.not_lt_zero bound)

theorem exceeds_mono {bound : Option Nat} {n m : Nat} (h : n ≤ m)
    (hm : exceeds bound m = false) : exceeds bound n = false := by
  cases bound with
  | none => rfl
  | some bound =>
    have hle : ¬bound < m := of_decide_eq_false hm
    exact decide_eq_false (by omega)

theorem replayLines_records {rs : List τ}
    (hparse : ∀ r ∈ rs, ∀ index, parse (line encode r) index = .ok (some r))
    (index recordCount : Nat)
    (hbound : exceeds options.maxRecords (recordCount + rs.length) = false) :
    replayLines options parse true index recordCount
      ((events encode rs).map Json.stringify ++ [[]]) = .ok rs := by
  induction rs generalizing index recordCount with
  | nil => rfl
  | cons r rs ih =>
    rw [List.length_cons] at hbound
    have hnow : exceeds options.maxRecords (recordCount + 1) = false := by
      apply exceeds_mono _ hbound
      omega
    have htail := ih (fun r hr => hparse r (List.mem_cons_of_mem _ hr))
      (index + 1) (recordCount + 1) (by rw [← hbound]; congr 1; omega)
    rw [replayLines_cons, if_neg (by rw [hnow]; exact Bool.false_ne_true),
      hparse r List.mem_cons_self]
    dsimp only
    rw [htail]
    rfl

theorem replayLines_fails {rs : List τ} (index recordCount : Nat)
    (h : (∃ r ∈ rs, ∀ index, ∃ error,
        parse (line encode r) index = .error error)
      ∨ rs ≠ [] ∧ exceeds options.maxRecords (recordCount + rs.length) = true) :
    ∃ error, replayLines options parse true index recordCount
      ((events encode rs).map Json.stringify ++ [[]]) = .error error := by
  induction rs generalizing index recordCount with
  | nil =>
    rcases h with ⟨r, hr, -⟩ | ⟨hne, -⟩
    · cases hr
    · exact absurd rfl hne
  | cons r rs ih =>
    rw [replayLines_cons]
    by_cases hnow : exceeds options.maxRecords (recordCount + 1) = true
    · rw [if_pos hnow]
      exact ⟨_, rfl⟩
    · rw [if_neg hnow]
      cases hline : parse (line encode r) index with
      | error error => exact ⟨_, rfl⟩
      | ok event =>
        have hrest : ∃ error, replayLines options parse true (index + 1)
            (recordCount + 1)
            ((events encode rs).map Json.stringify ++ [[]])
              = .error error := by
          apply ih
          rcases h with ⟨r', hr', hbad⟩ | ⟨-, hbound⟩
          · rcases List.mem_cons.1 hr' with rfl | hr'
            · obtain ⟨error, herror⟩ := hbad index
              rw [herror] at hline
              cases hline
            · exact .inl ⟨r', hr', hbad⟩
          · refine .inr ⟨?_, ?_⟩
            · intro hnil
              rw [hnil] at hbound
              exact hnow hbound
            · rw [← hbound, List.length_cons]
              congr 1
              omega
        obtain ⟨error, hrest⟩ := hrest
        dsimp only
        rw [hrest]
        exact ⟨_, rfl⟩

/-- The file of the records replays to them, within the bounds. -/
theorem replaySync_payload {rs : List τ}
    (hparse : ∀ r ∈ rs, ∀ index, parse (line encode r) index = .ok (some r))
    (hbytes : exceeds options.maxBytes (payload (events encode rs)).length
      = false)
    (hrecords : exceeds options.maxRecords rs.length = false) :
    replaySync options parse (some (payload (events encode rs))) = .ok rs := by
  have hread : readAllSync (ε := ε) options (payload (events encode rs))
      = .ok (payload (events encode rs)) := by
    rw [readAllSync, hbytes, if_neg Bool.false_ne_true]
  rw [replaySync, hread]
  dsimp only
  rw [splitOn_decode_payload]
  cases rs with
  | nil => rfl
  | cons r rs =>
    have hevents : events encode (r :: rs) ≠ [] := List.cons_ne_nil _ _
    rw [getLast?_decode_payload hevents, decide_eq_true rfl]
    apply replayLines_records hparse
    rwa [Nat.zero_add]

/-- Outside of the bounds, or with a line that `parse` rejects, the file of
the records does not replay. -/
theorem replaySync_fails {rs : List τ}
    (h : exceeds options.maxBytes (payload (events encode rs)).length = true
      ∨ (∃ r ∈ rs, ∀ index, ∃ error,
        parse (line encode r) index = .error error)
      ∨ rs ≠ [] ∧ exceeds options.maxRecords rs.length = true) :
    ∃ error, replaySync options parse (some (payload (events encode rs)))
      = .error error := by
  rw [replaySync, readAllSync]
  by_cases hbytes :
      exceeds options.maxBytes (payload (events encode rs)).length = true
  · rw [if_pos hbytes]
    exact ⟨_, rfl⟩
  · rw [if_neg hbytes]
    have hlines := h.resolve_left hbytes
    have hne : rs ≠ [] := by
      rintro rfl
      rcases hlines with ⟨r, hr, -⟩ | ⟨hne, -⟩
      · cases hr
      · exact hne rfl
    have hevents : events encode rs ≠ [] := by
      rw [events, ne_eq, List.map_eq_nil_iff]
      exact hne
    dsimp only
    rw [getLast?_decode_payload hevents, splitOn_decode_payload,
      decide_eq_true rfl]
    apply replayLines_fails
    rwa [Nat.zero_add]

-- ======== appending

/-- Lines are added to a file of lines as long as it is not too large. -/
theorem appendSync_payload (old new onCreate : List Json) :
    appendSync (ε := ε) options (some (payload old)) new onCreate
      = if old ≠ [] ∧ exceeds options.maxBytes (payload old).length = true then
          .error (.tooManyBytes (options.maxBytes.getD 0) (payload old).length)
        else .ok (payload (old ++ new)) := by
  rw [appendSync, repairTailSync, readAllSync]
  by_cases hold : old = []
  · rw [if_pos (payload_eq_nil.2 hold), if_neg (fun h => h.1 hold),
      payload_append]
  · rw [if_neg fun h => hold (payload_eq_nil.1 h)]
    by_cases hbytes : exceeds options.maxBytes (payload old).length = true
    · rw [if_pos hbytes, if_pos ⟨hold, hbytes⟩]
    · rw [if_neg hbytes, if_neg (fun h => hbytes h.2)]
      dsimp only
      rw [getLast?_payload hold, if_pos rfl, payload_append]

end
end OneHarness.Daemon.EventLog
