/-
Crash repair: what is left of a file of lines that was cut at some byte
and filled up with zeros.

A crash leaves a prefix of the file, possibly followed by zero bytes.
`survivors` are the entries whose whole line is in the prefix, and, when
nothing was filled in, the entry whose line lacks only its newline.

# The two halves

The scan keeps a complete line of an entry and drops a torn or filled one
(`step_text`, `parseLine_torn`), because a proper prefix of an object's
text is never JSON, not even with replacement characters or zeros behind
it, and neither is a whole one with zeros behind it. The bounded probe
never misses the damage: whatever is left behind the last newline ends in
a byte that is no newline (`tailLooksDamaged_of_rest`).

So a damaged file is rewritten as the lines of its survivors
(`repair_cut`). A file that is whole is left alone: `Records` says what
that is, one more line keeps it so (`Records.append`), and it is read as
its entries (`Records.load`).
-/
import OneHarness.Session.Proofs.Store

namespace OneHarness.Session

open Lib Lib.Lines

-- ======== torn lines

theorem decode_zeros (m : Nat) :
    Utf8.decode (List.replicate m 0) = List.replicate m '\x00' := by
  induction m with
  | zero => exact Utf8.decode_nil
  | succ m ih =>
    rw [List.replicate_succ, Utf8.decode_ascii (by decide), ih,
      List.replicate_succ]
    rfl

theorem decode_append_zeros (q : List UInt8) (m : Nat) :
    Utf8.decode (q ++ List.replicate m 0)
      = Utf8.decode q ++ List.replicate m '\x00' := by
  cases m with
  | zero => simp
  | succ m =>
    rw [List.replicate_succ, Utf8.decode_append (by decide),
      ← List.replicate_succ, decode_zeros]

/-- Part of a line is not JSON, whatever zeros follow it. -/
theorem parseLine_torn {f : FileEntry} {q : List UInt8} (m : Nat)
    (hq : q <+: entryText f) (hne : q ≠ []) (hpart : q ≠ entryText f) :
    parseLine (q ++ List.replicate m 0) = none := by
  obtain ⟨ms, hms⟩ := toJson_eq_obj f
  obtain ⟨n, j, hdec, hcut⟩ := Utf8.decode_prefix hq
  have hj : j < (Json.stringify (toJson f)).length := by
    rcases hcut with ⟨heq, -⟩ | hlt
    · by_contra hle
      rw [List.take_of_length_le (by omega)] at heq
      exact hpart heq
    · exact hlt
  have hj0 : j ≠ 0 := by
    rintro rfl
    -- the first byte is the brace
    obtain ⟨bs, hbs⟩ := entryText_eq_cons f
    obtain ⟨b, q', rfl⟩ := List.exists_cons_of_ne_nil hne
    rw [hbs] at hq
    obtain rfl := (List.cons_prefix_cons.1 hq).1
    rw [Utf8.decode_ascii (by decide), List.take_zero, List.nil_append] at hdec
    cases n with
    | zero => cases hdec
    | succ n =>
      rw [List.replicate_succ, List.cons.injEq] at hdec
      exact absurd hdec.1 (by decide)
  rw [parseLine, decode_append_zeros, hdec, List.append_assoc, hms]
  rw [hms] at hj
  refine Json.parse_torn_obj (List.take_prefix _ _) ?_ ?_ ?_
  · intro hnil
    rw [List.take_eq_nil_iff] at hnil
    rcases hnil with h | h
    · exact hj0 h
    · rw [h] at hj
      simp at hj
  · intro heq
    have hlen := congrArg List.length heq
    rw [List.length_take] at hlen
    omega
  · intro c hc
    rcases List.mem_append.1 hc with hc | hc
    · rw [List.eq_of_mem_replicate hc]
      decide
    · rw [List.eq_of_mem_replicate hc]
      decide

variable {m : Nat}

/-- A whole line with zeros where its newline should be is not JSON. -/
theorem parseLine_filled (f : FileEntry) (hm : m ≠ 0) :
    parseLine (entryText f ++ List.replicate m 0) = none := by
  obtain ⟨n, rfl⟩ := Nat.exists_eq_succ_of_ne_zero hm
  rw [parseLine, decode_append_zeros, decode_entryText]
  refine Json.parse_trailing _ ?_ ?_
  · exact Json.Stops.cons (by decide)
  · rw [Nat.succ_eq_add_one, List.replicate_succ]
    simp [Json.skipWs, Json.isWs]

-- ======== the scan

theorem dropWhile_zero_entryText (f : FileEntry) (bs : List UInt8) :
    (entryText f ++ bs).dropWhile (· == 0) = entryText f ++ bs := by
  obtain ⟨t, h⟩ := entryText_eq_cons f
  rw [h]
  rfl

/-- The scan keeps the line of an entry. -/
theorem step_text (s : RepairScan) (f : FileEntry) (last : Bool) :
    s.step (entryText f) true last
      = { s with keptLines := s.keptLines ++ [entryText f] } := by
  have hdrop := dropWhile_zero_entryText f []
  rw [List.append_nil] at hdrop
  unfold RepairScan.step
  simp only [hdrop, parsesAsJson_entryText]
  simp

theorem run_cons (rest : List UInt8) (s : RepairScan) (l : List UInt8)
    (ls : List (List UInt8)) :
    RepairScan.run rest s (l :: ls)
      = RepairScan.run rest
        (s.step l true (ls.isEmpty && rest.isEmpty)) ls := rfl

theorem run_texts (rest : List UInt8) (fs : List FileEntry) (s : RepairScan) :
    RepairScan.run rest s (fs.map entryText)
      = RepairScan.run rest
        { s with keptLines := s.keptLines ++ fs.map entryText } [] := by
  induction fs generalizing s with
  | nil => simp
  | cons f fs ih =>
    rw [List.map_cons, run_cons, step_text, ih]
    simp

variable {rest : List UInt8}

/-- The scan of a file of lines and a remainder. -/
theorem scanDamage_lines (fs : List FileEntry) (hrest : newline ∉ rest) :
    scanDamage (linesOf fs ++ rest)
      = RepairScan.run rest
        { RepairScan.init with keptLines := fs.map entryText } [] := by
  rw [scanDamage, linesOf,
    splitLines_join_rest (fun l hl => newline_not_mem_of_mem_map hl) hrest,
    run_texts]
  rfl

theorem repairedText_texts (fs : List FileEntry) :
    repairedText (fs.map entryText) = linesOf fs := by
  cases fs with
  | nil => rfl
  | cons f fs =>
    have henc : ((f :: fs).map entryText).map
        (fun l => Utf8.encode (Utf8.decode l)) = (f :: fs).map entryText := by
      rw [List.map_map]
      refine List.map_congr_left fun g _ => ?_
      rw [Function.comp_apply, decode_entryText]
      rfl
    have hne : ((f :: fs).map entryText).isEmpty = false := rfl
    rw [repairedText, hne, henc]
    simp only [Bool.false_eq_true, if_false]
    exact intercalate_newline _ (by simp)

-- ======== the probe

variable {file : List UInt8}

/-- A file that does not end in a newline looks damaged. -/
theorem tailLooksDamaged_of_getLast (hne : file ≠ [])
    (hlast : file.getLast? ≠ some newline) : tailLooksDamaged file = true := by
  have hlen : file.length ≠ 0 := by simpa using hne
  have hwin : (file.drop (file.length
      - min file.length repairSuspicionWindowBytes)).getLast?
        = file.getLast? := by
    rw [List.getLast?_drop, if_neg]
    unfold repairSuspicionWindowBytes
    omega
  unfold tailLooksDamaged
  simp only [if_neg hlen, hwin]
  split
  · rfl
  · simp

theorem tailLooksDamaged_of_rest (xs : List UInt8)
    (hne : rest ≠ []) (hrest : newline ∉ rest) :
    tailLooksDamaged (xs ++ rest) = true := by
  refine tailLooksDamaged_of_getLast (by simp [hne]) ?_
  rw [List.getLast?_append_of_ne_nil _ hne]
  intro h
  exact hrest (List.mem_of_getLast? h)

-- ======== the repair

variable {disk : Disk} {path : String}

/-- The file is whole: terminated lines that are JSON or blank at the
end, none led by a zero byte, and `ds` are the entries they hold. -/
structure Records (file : List UInt8) (ds : List FileEntry) : Prop where
  exists_lines : ∃ ls, file = joinLines ls ∧ (∀ l ∈ ls, newline ∉ l)
    ∧ (∀ l ∈ ls, l.head? ≠ some 0)
    ∧ (∀ l, ls.getLast? = some l → l = [] ∨ parsesAsJson l = true)
    ∧ (ls.filterMap parseLine).mapM ofJson = some ds

theorem head?_entryText (f : FileEntry) : (entryText f).head? ≠ some 0 := by
  obtain ⟨bs, h⟩ := entryText_eq_cons f
  rw [h, List.head?_cons]
  decide

/-- Lines written from entries are whole. -/
theorem Records.lines (fs : List FileEntry) : Records (linesOf fs) fs := by
  refine ⟨fs.map entryText, rfl, fun l hl => newline_not_mem_of_mem_map hl,
    fun l hl => ?_, fun l hl => ?_, ?_⟩
  · obtain ⟨f, -, rfl⟩ := List.mem_map.1 hl
    exact head?_entryText f
  · obtain ⟨f, -, rfl⟩ := List.mem_map.1 (List.mem_of_getLast? hl)
    exact Or.inr (parsesAsJson_entryText f)
  · rw [parseLine_texts, mapM_ofJson_map_toJson]

variable {ds : List FileEntry}

/-- One more line is one more entry. -/
theorem Records.append (h : Records file ds) (f : FileEntry) :
    Records (file ++ entryLine f) (ds ++ [f]) := by
  obtain ⟨ls, rfl, hnl, hzero, -, hds⟩ := h
  refine ⟨ls ++ [entryText f], ?_, ?_, ?_, ?_, ?_⟩
  · rw [joinLines_append, joinLines_cons, joinLines_nil, entryLine]
  · intro l hl
    rcases List.mem_append.1 hl with hl | hl
    · exact hnl l hl
    · rw [List.mem_singleton.1 hl]
      exact newline_not_mem_entryText f
  · intro l hl
    rcases List.mem_append.1 hl with hl | hl
    · exact hzero l hl
    · rw [List.mem_singleton.1 hl]
      exact head?_entryText f
  · intro l hl
    rw [List.getLast?_concat] at hl
    cases hl
    exact Or.inr (parsesAsJson_entryText f)
  · have hf : ofJson (toJson f) = some f := JsonCodec.ofJson_toJson f
    rw [List.filterMap_append, List.mapM_append, hds, List.filterMap_cons,
      parseLine_entryText, List.filterMap_nil, List.mapM_cons, hf]
    rfl

/-- A whole file is loaded as its entries. -/
theorem Records.load (h : Records file ds) (hfile : disk path = some file) :
    loadEntriesFromFile disk path = some (finalizeLoadedEntries ds) := by
  obtain ⟨ls, rfl, hnl, -, -, hds⟩ := h
  rw [loadEntriesFromFile, hfile]
  simp only [parseEntriesFromBuffer, pieces_join hnl, hds, Option.map_some]

theorem dropWhile_zero {l : List UInt8} (h : l.head? ≠ some 0) :
    l.dropWhile (· == 0) = l := by
  cases l with
  | nil => rfl
  | cons b l =>
    have hb : b ≠ 0 := fun heq => h (by rw [heq]; rfl)
    rw [List.dropWhile_cons_of_neg (by simpa using hb)]

/-- The scan keeps every line of a whole file. -/
theorem run_clean (ls : List (List UInt8)) (s : RepairScan)
    (hs : s.dirty = false) (hzero : ∀ l ∈ ls, l.head? ≠ some 0)
    (hlast : ∀ l, ls.getLast? = some l → l = [] ∨ parsesAsJson l = true) :
    (RepairScan.run [] s ls).dirty = false := by
  induction ls generalizing s with
  | nil => exact hs
  | cons l ls ih =>
    rw [run_cons]
    refine ih _ ?_ (fun x hx => hzero x (List.mem_cons_of_mem _ hx)) ?_
    · have hdrop := dropWhile_zero (hzero l List.mem_cons_self)
      have hok : (ls.isEmpty && !l.isEmpty && !parsesAsJson l) = false := by
        cases ls with
        | cons x ls => rfl
        | nil =>
          rcases hlast l rfl with rfl | hp
          · rfl
          · rw [hp]
            simp
      unfold RepairScan.step
      simp only [hdrop, lt_irrefl, if_false, Bool.not_true,
        Bool.false_eq_true, List.isEmpty_nil, Bool.and_true, hok]
      exact hs
    · intro x hx
      refine hlast x ?_
      cases ls with
      | nil => cases hx
      | cons y ls => rwa [List.getLast?_cons_cons]

/-- A whole file is left alone. -/
theorem Records.repair (h : Records file ds) (hfile : disk path = some file) :
    repairJsonlDamage disk path = disk := by
  obtain ⟨ls, rfl, hnl, hzero, hlast, -⟩ := h
  have hscan : (scanDamage (joinLines ls)).dirty = false := by
    have hsplit := splitLines_join_nil hnl
    rw [scanDamage, hsplit]
    exact run_clean ls .init rfl hzero hlast
  unfold repairJsonlDamage
  rw [hfile]
  simp only [hscan]
  split
  · rfl
  · rfl

variable {fs : List FileEntry}

/-- A file of lines is left alone. -/
theorem repair_lines (h : disk path = some (linesOf fs)) :
    repairJsonlDamage disk path = disk :=
  (Records.lines fs).repair h

/-- A file with something behind its last newline becomes the lines of
what the scan keeps. -/
theorem repair_rest {gs : List FileEntry}
    (hne : rest ≠ []) (hrest : newline ∉ rest)
    (hkept : ∀ s : RepairScan,
      (s.step rest false true).dirty = true
        ∧ (s.step rest false true).keptLines
          = s.keptLines ++ gs.map entryText)
    (h : disk path = some (linesOf fs ++ rest)) :
    repairJsonlDamage disk path = disk.write path (linesOf (fs ++ gs)) := by
  have hrun : RepairScan.run rest
      { RepairScan.init with keptLines := fs.map entryText } []
      = RepairScan.step
        { RepairScan.init with keptLines := fs.map entryText } rest false
        true := by
    rw [RepairScan.run, if_neg (by simpa using hne)]
  obtain ⟨hdirty, hlines⟩ := hkept
    { RepairScan.init with keptLines := fs.map entryText }
  unfold repairJsonlDamage
  rw [h]
  simp only [scanDamage_lines fs hrest, hrun, hdirty, hlines,
    tailLooksDamaged_of_rest _ hne hrest, ← List.map_append,
    repairedText_texts, Bool.not_true, Bool.false_eq_true, if_false]

-- ======== the survivors

/-- The entries that survive a crash which leaves `k` bytes of the file
and `m` zeros: those whose line is within the `k` bytes, and without
zeros also one that lacks only its newline. -/
def survivors (m : Nat) : Nat → List FileEntry → List FileEntry
  | _, [] => []
  | k, f :: fs =>
    if (entryLine f).length ≤ k then
      f :: survivors m (k - (entryLine f).length) fs
    else if m = 0 ∧ k = (entryText f).length then [f]
    else []

/-- A cut file: whole lines, and part of the text of the next entry. -/
theorem cut_lines (fs : List FileEntry) (m k : Nat) :
    ∃ gs q, (linesOf fs).take k = linesOf gs ++ q
      ∧ ((q = [] ∧ survivors m k fs = gs)
        ∨ ∃ f, q <+: entryText f ∧ q ≠ []
          ∧ survivors m k fs
            = gs ++ if m = 0 ∧ q = entryText f then [f] else []) := by
  induction fs generalizing k with
  | nil => exact ⟨[], [], by simp, Or.inl ⟨rfl, rfl⟩⟩
  | cons f fs ih =>
    have hline : linesOf (f :: fs) = entryLine f ++ linesOf fs := by
      rw [← List.singleton_append, linesOf_append, linesOf_singleton]
    have hlen : (entryLine f).length = (entryText f).length + 1 := by
      rw [entryLine, List.length_append, List.length_singleton]
    by_cases hk : (entryLine f).length ≤ k
    · obtain ⟨gs, q, htake, hsurv⟩ := ih (k - (entryLine f).length)
      refine ⟨f :: gs, q, ?_, ?_⟩
      · rw [hline, List.take_append, List.take_of_length_le hk, htake,
          ← List.append_assoc, ← linesOf_singleton f, ← linesOf_append]
        rfl
      · rw [survivors, if_pos hk]
        rcases hsurv with ⟨hq, hs⟩ | ⟨g, hg, hne, hs⟩
        · exact Or.inl ⟨hq, by rw [hs]⟩
        · exact Or.inr ⟨g, hg, hne, by rw [hs, List.cons_append]⟩
    · have htake : (linesOf (f :: fs)).take k = (entryText f).take k := by
        rw [hline, entryLine, List.append_assoc,
          List.take_append_of_le_length (by omega)]
      refine ⟨[], (entryText f).take k, by rw [htake]; rfl, ?_⟩
      rw [survivors, if_neg hk]
      by_cases hk0 : k = 0
      · refine Or.inl ⟨by rw [hk0, List.take_zero], ?_⟩
        rw [if_neg]
        rintro ⟨-, hlen'⟩
        exact entryText_ne_nil f (List.length_eq_zero_iff.1 (by omega))
      · refine Or.inr ⟨f, List.take_prefix _ _, ?_, ?_⟩
        · rw [ne_eq, List.take_eq_nil_iff]
          rintro (h | h)
          · exact hk0 h
          · exact entryText_ne_nil f h
        · have hiff : (entryText f).take k = entryText f
              ↔ k = (entryText f).length := by
            constructor
            · intro heq
              have := congrArg List.length heq
              rw [List.length_take] at this
              omega
            · rintro rfl
              exact List.take_length
          rw [List.nil_append]
          by_cases hwhole : m = 0 ∧ k = (entryText f).length
          · rw [if_pos hwhole, if_pos ⟨hwhole.1, hiff.2 hwhole.2⟩]
          · rw [if_neg hwhole, if_neg fun h => hwhole ⟨h.1, hiff.1 h.2⟩]

/-- What the scan does with the torn end of a cut file. -/
theorem step_torn {f : FileEntry} {q : List UInt8} (m : Nat)
    (hq : q <+: entryText f) (hne : q ≠ []) (s : RepairScan) :
    (s.step (q ++ List.replicate m 0) false true).dirty = true
      ∧ (s.step (q ++ List.replicate m 0) false true).keptLines
        = s.keptLines
          ++ (if m = 0 ∧ q = entryText f then [f] else []).map entryText := by
  have hdrop : (q ++ List.replicate m 0).dropWhile (· == 0)
      = q ++ List.replicate m 0 := by
    obtain ⟨b, q', rfl⟩ := List.exists_cons_of_ne_nil hne
    obtain ⟨bs, hbs⟩ := entryText_eq_cons f
    rw [hbs] at hq
    obtain rfl := (List.cons_prefix_cons.1 hq).1
    rfl
  have hempty : (q ++ List.replicate m 0).isEmpty = false := by
    simp [hne]
  by_cases hwhole : m = 0 ∧ q = entryText f
  · obtain ⟨rfl, rfl⟩ := hwhole
    rw [List.replicate_zero, List.append_nil] at hdrop hempty ⊢
    have hp := parsesAsJson_entryText f
    unfold RepairScan.step
    simp only [hdrop, hempty, hp]
    simp
  · have hp : parsesAsJson (q ++ List.replicate m 0) = false := by
      have hnone : parseLine (q ++ List.replicate m 0) = none := by
        by_cases hpart : q = entryText f
        · subst hpart
          exact parseLine_filled f fun hm => hwhole ⟨hm, rfl⟩
        · exact parseLine_torn m hq hne hpart
      rw [parsesAsJson, hnone]
      rfl
    unfold RepairScan.step
    simp only [hdrop, hempty, hp, if_neg hwhole]
    simp

/-- The zeros behind the last newline are dropped. -/
theorem step_zeros (hm : m ≠ 0) (s : RepairScan) :
    (s.step (List.replicate m 0) false true).dirty = true
      ∧ (s.step (List.replicate m 0) false true).keptLines
        = s.keptLines := by
  have hdrop : (List.replicate m (0 : UInt8)).dropWhile (· == 0) = [] := by
    rw [List.dropWhile_eq_nil_iff]
    intro b hb
    rw [List.eq_of_mem_replicate hb]
    rfl
  unfold RepairScan.step
  rw [hdrop]
  simp [Nat.pos_of_ne_zero hm]

/-- After the repair the file is the lines of the survivors. -/
theorem repair_cut {k : Nat}
    (h : disk path = some ((linesOf fs).take k ++ List.replicate m 0)) :
    repairJsonlDamage disk path path = some (linesOf (survivors m k fs))
      ∧ ∀ p, p ≠ path → repairJsonlDamage disk path p = disk p := by
  have hzero : newline ∉ List.replicate m (0 : UInt8) := by
    intro hm
    exact absurd (List.eq_of_mem_replicate hm) (by decide)
  obtain ⟨gs, q, htake, ⟨rfl, hsurv⟩ | ⟨f, hq, hne, hsurv⟩⟩ :=
    cut_lines fs m k
  · rw [htake, List.append_nil] at h
    rw [hsurv]
    by_cases hm : m = 0
    · subst hm
      rw [List.replicate_zero, List.append_nil] at h
      rw [repair_lines h]
      exact ⟨h, fun _ _ => rfl⟩
    · have hrep : repairJsonlDamage disk path
          = disk.write path (linesOf (gs ++ [])) :=
        repair_rest (by simpa using hm) hzero
          (fun s => by simpa using step_zeros hm s) h
      rw [hrep, List.append_nil]
      exact ⟨Disk.write_self _ _ _, fun p hp => Disk.write_ne _ _ hp⟩
  · rw [htake, List.append_assoc] at h
    have hrest : newline ∉ q ++ List.replicate m 0 := by
      intro hmem
      rcases List.mem_append.1 hmem with hmem | hmem
      · exact newline_not_mem_entryText f (hq.subset hmem)
      · exact hzero hmem
    have hrep := repair_rest (by simp [hne]) hrest (step_torn m hq hne) h
    rw [hrep, hsurv]
    exact ⟨Disk.write_self _ _ _, fun p hp => Disk.write_ne _ _ hp⟩

end OneHarness.Session
