/-
What the chunked decoder makes of a stream of encoded frames.

# Chain

The decoder is its unread bytes: `slice` and `consume` are `take` and
`drop` on them (`slice_eq`, `consume_spec`), so that the loop of `push`
is the loop of an incremental reader over one buffer (`takeFrames_drain`).
An encoded frame is what that reader calls a writing (`codes_encoded`),
and the pieces lemma of the library does the rest.
-/
import OneHarness.Lib.Incremental
import OneHarness.Lib.Json.RoundTrip
import OneHarness.Wire.PrivateFraming
import Mathlib.Tactic.Linarith

namespace OneHarness.Wire

open Lib Lib.Incremental

variable {decoder : PrivateFrameDecoder} {frame : PrivateFrame} {value : Nat}
  {bytes : List UInt8}

variable {buffer rest : List UInt8} {name : String} {maximum : Nat}
  {frames : List PrivateFrame} {buffers : List (List UInt8)}

namespace PrivateFrameDecoder

-- ======== the unread bytes

/-- The bytes received and not consumed. -/
def unread (decoder : PrivateFrameDecoder) : List UInt8 :=
  decoder.usable.flatten

/-- The cursor stands on the first unread byte. -/
structure Valid (decoder : PrivateFrameDecoder) : Prop where
  unreadBytes : decoder.unreadBytes = decoder.unread.length
  head_le : decoder.head ≤ decoder.pending.length
  offset_lt : ∀ chunk rest,
    decoder.pending.drop decoder.head = chunk :: rest →
      decoder.offset < chunk.length
  offset_nil : decoder.pending.drop decoder.head = [] → decoder.offset = 0

theorem valid_new : Valid new where
  unreadBytes := rfl
  head_le := Nat.le_refl _
  offset_lt := fun _ _ h => nomatch h
  offset_nil := fun _ => rfl

/-- The cursor may be read as a drop on the joined chunks. -/
theorem unread_eq (decoder : PrivateFrameDecoder)
    (h : ∀ chunk rest, decoder.pending.drop decoder.head = chunk :: rest →
      decoder.offset ≤ chunk.length) :
    decoder.unread
      = (decoder.pending.drop decoder.head).flatten.drop decoder.offset := by
  unfold unread usable
  cases hdrop : decoder.pending.drop decoder.head with
  | nil => simp
  | cons chunk rest =>
    have hle := h chunk rest hdrop
    simp only [List.flatten_cons]
    rw [List.drop_append_of_le_length hle]

theorem Valid.unread_eq (h : Valid decoder) :
    decoder.unread
      = (decoder.pending.drop decoder.head).flatten.drop decoder.offset :=
  decoder.unread_eq fun chunk rest hc => Nat.le_of_lt (h.offset_lt chunk rest hc)

-- ======== slices

theorem flatten_parts (start endExclusive : Nat) (chunks : List (List UInt8)) :
    ∀ position, (parts start endExclusive position chunks).flatten
      = (chunks.flatten.take (endExclusive - position)).drop
          (start - position) := by
  induction chunks with
  | nil => intro position; simp [parts]
  | cons chunk rest ih =>
    intro position
    unfold parts
    by_cases hpos : position < endExclusive
    · rw [if_pos hpos]
      have hmin : (chunk.take (min endExclusive (position + chunk.length)
          - position)) = chunk.take (endExclusive - position) := by
        by_cases hle : endExclusive ≤ position + chunk.length
        · rw [Nat.min_eq_left hle]
        · rw [Nat.min_eq_right (by omega), Nat.add_sub_cancel_left,
            List.take_length, List.take_of_length_le (by omega)]
      have hmax : max start position - position = start - position := by
        omega
      have hrest : ((rest.flatten.take
            (endExclusive - (position + chunk.length))).drop
            (start - (position + chunk.length)))
          = (rest.flatten.take
            (endExclusive - position - chunk.length)).drop
            (start - position - (chunk.take
              (endExclusive - position)).length) := by
        rw [List.length_take, Nat.sub_add_eq, Nat.sub_add_eq]
        by_cases hle : endExclusive - position ≤ chunk.length
        · have hzero : endExclusive - position - chunk.length = 0 := by omega
          rw [hzero, List.take_zero, List.drop_nil, List.drop_nil]
        · rw [Nat.min_eq_right (by omega)]
      simp only [hmin, hmax, List.flatten_cons, List.take_append,
        List.drop_append]
      by_cases hstart : start < position + chunk.length
      · rw [if_pos hstart, List.flatten_cons, ih, hrest]
      · have hnil : (chunk.take (endExclusive - position)).drop
            (start - position) = [] := by
          apply List.drop_eq_nil_of_le
          rw [List.length_take]
          omega
        rw [if_neg hstart, ih, hrest, hnil, List.nil_append]
    · have hzero : endExclusive - position = 0 := by omega
      rw [if_neg hpos, hzero, List.take_zero, List.drop_nil, List.flatten_nil]

theorem slice_eq (decoder : PrivateFrameDecoder) {start endExclusive : Nat}
    (hend : endExclusive ≤ decoder.unread.length) :
    decoder.slice start endExclusive
      = (decoder.unread.take endExclusive).drop start := by
  have hflat := flatten_parts start endExclusive decoder.usable 0
  rw [Nat.sub_zero, Nat.sub_zero] at hflat
  have hlen : (parts start endExclusive 0 decoder.usable).flatten.length
      = endExclusive - start := by
    rw [hflat, List.length_drop, List.length_take]
    exact congrArg (· - start) (Nat.min_eq_left hend)
  unfold slice
  split
  · next part hparts =>
    rw [hparts, List.flatten_singleton] at hflat
    exact hflat
  · unfold concat
    rw [hlen, Nat.sub_self, List.replicate_zero, List.append_nil, ← hlen,
      List.take_length]
    exact hflat

-- ======== consuming

/-- Where the cursor stops: past every chunk that was used up. -/
theorem skipSpent_spec (chunks : List (List UInt8)) :
    ∀ head offset, offset ≤ chunks.flatten.length →
      ∃ n, n ≤ chunks.length
        ∧ (skipSpent chunks head offset).1 = head + n
        ∧ (chunks.drop n).flatten.drop (skipSpent chunks head offset).2
          = chunks.flatten.drop offset
        ∧ (∀ chunk rest, chunks.drop n = chunk :: rest →
          (skipSpent chunks head offset).2 < chunk.length)
        ∧ (chunks.drop n = [] → (skipSpent chunks head offset).2 = 0) := by
  induction chunks with
  | nil =>
    intro head offset hle
    refine ⟨0, Nat.le_refl _, rfl, rfl, fun _ _ h => (nomatch h), fun _ => ?_⟩
    simpa [skipSpent] using hle
  | cons chunk rest ih =>
    intro head offset hle
    unfold skipSpent
    by_cases hspent : chunk.length ≤ offset
    · rw [if_pos hspent]
      have hle' : offset - chunk.length ≤ rest.flatten.length := by
        rw [List.flatten_cons, List.length_append] at hle
        omega
      obtain ⟨n, hn, hhead, hdrop, hlt, hnil⟩ :=
        ih (head + 1) (offset - chunk.length) hle'
      refine ⟨n + 1, Nat.succ_le_succ hn, ?_, ?_, hlt, hnil⟩
      · rw [hhead]
        omega
      · rw [List.drop_succ_cons, hdrop, List.flatten_cons, List.drop_append,
          List.drop_eq_nil_of_le hspent, List.nil_append]
    · rw [if_neg hspent]
      refine ⟨0, Nat.zero_le _, rfl, rfl, fun c r h => ?_, fun h => ?_⟩
      · cases h
        exact Nat.lt_of_not_le hspent
      · cases h

theorem consume_spec (h : Valid decoder)
    {count : Nat} (hle : count ≤ decoder.unread.length) :
    Valid (decoder.consume count)
      ∧ (decoder.consume count).unread = decoder.unread.drop count := by
  have hunread := h.unread_eq
  have hoff : decoder.offset + count
      ≤ (decoder.pending.drop decoder.head).flatten.length := by
    rw [hunread, List.length_drop] at hle
    cases hdrop : decoder.pending.drop decoder.head with
    | nil =>
      rw [hdrop, h.offset_nil hdrop] at hle
      rw [h.offset_nil hdrop]
      simpa using hle
    | cons chunk rest =>
      have hlt := h.offset_lt chunk rest hdrop
      rw [hdrop, List.flatten_cons, List.length_append] at hle
      rw [List.flatten_cons, List.length_append]
      omega
  obtain ⟨n, hn, hhead, hdrop, hlt, hnil⟩ := skipSpent_spec
    (decoder.pending.drop decoder.head) decoder.head (decoder.offset + count)
    hoff
  rw [List.drop_drop] at hdrop hlt hnil
  rw [List.length_drop] at hn
  have hgoal : (decoder.pending.drop decoder.head).flatten.drop
      (decoder.offset + count) = decoder.unread.drop count := by
    rw [hunread, List.drop_drop]
  rw [hgoal] at hdrop
  have hbytes : decoder.unreadBytes - count
      = (decoder.unread.drop count).length := by
    rw [List.length_drop, h.unreadBytes]
  have hle := h.head_le
  unfold consume
  generalize hskip : skipSpent (decoder.pending.drop decoder.head) decoder.head
    (decoder.offset + count) = skipped at hhead hdrop hlt hnil
  obtain ⟨head, offset⟩ := skipped
  dsimp only at hhead hdrop hlt hnil ⊢
  rw [← hhead] at hdrop hlt hnil
  by_cases hall : head = decoder.pending.length
  · -- fully drained
    rw [if_pos hall]
    have hempty : decoder.unread.drop count = [] := by
      rw [← hdrop, hall, List.drop_length, List.flatten_nil, List.drop_nil]
    rw [hempty] at hbytes ⊢
    exact ⟨⟨hbytes, Nat.le_refl _, fun _ _ h => (nomatch h), fun _ => rfl⟩, rfl⟩
  · rw [if_neg hall]
    by_cases hsplice : pendingCompactionMinHead ≤ head
        ∧ decoder.pending.length ≤ head * 2
    · rw [if_pos hsplice]
      have hu : (⟨decoder.pending.drop head, decoder.unreadBytes - count, 0,
          offset⟩ : PrivateFrameDecoder).unread
          = decoder.unread.drop count := by
        rw [PrivateFrameDecoder.unread_eq _ fun c r hc =>
          Nat.le_of_lt (hlt c r hc)]
        exact hdrop
      refine ⟨⟨?_, Nat.zero_le _, hlt, hnil⟩, hu⟩
      rw [hu]
      exact hbytes
    · rw [if_neg hsplice]
      have hu : (⟨decoder.pending, decoder.unreadBytes - count, head,
          offset⟩ : PrivateFrameDecoder).unread
          = decoder.unread.drop count := by
        rw [PrivateFrameDecoder.unread_eq _ fun c r hc =>
          Nat.le_of_lt (hlt c r hc)]
        exact hdrop
      refine ⟨⟨?_, ?_, hlt, hnil⟩, hu⟩
      · rw [hu]
        exact hbytes
      · show head ≤ decoder.pending.length
        omega

theorem keep_spec (h : Valid decoder) (chunk : List UInt8) :
    Valid (decoder.keep chunk)
      ∧ (decoder.keep chunk).unread = decoder.unread ++ chunk := by
  unfold keep
  by_cases hpos : 0 < chunk.length
  · rw [if_pos hpos]
    have hdrop : (decoder.pending ++ [chunk]).drop decoder.head
        = decoder.pending.drop decoder.head ++ [chunk] :=
      List.drop_append_of_le_length h.head_le
    have hlt : ∀ c rest, (decoder.pending ++ [chunk]).drop decoder.head
        = c :: rest → decoder.offset < c.length := by
      intro c rest hc
      rw [hdrop] at hc
      cases hold : decoder.pending.drop decoder.head with
      | nil =>
        rw [hold] at hc
        cases hc
        rw [h.offset_nil hold]
        exact hpos
      | cons c' rest' =>
        rw [hold] at hc
        cases hc
        exact h.offset_lt _ _ hold
    have hu : (⟨decoder.pending ++ [chunk],
        decoder.unreadBytes + chunk.length, decoder.head, decoder.offset⟩ :
        PrivateFrameDecoder).unread = decoder.unread ++ chunk := by
      have hjoin := PrivateFrameDecoder.unread_eq ⟨decoder.pending ++ [chunk],
        decoder.unreadBytes + chunk.length, decoder.head, decoder.offset⟩
        fun c r hc => Nat.le_of_lt (hlt c r hc)
      refine hjoin.trans ?_
      dsimp only
      rw [hdrop, List.flatten_append, List.flatten_singleton, h.unread_eq]
      apply List.drop_append_of_le_length
      cases hold : decoder.pending.drop decoder.head with
      | nil =>
        rw [h.offset_nil hold]
        exact Nat.zero_le _
      | cons c rest =>
        have := h.offset_lt c rest hold
        rw [List.flatten_cons, List.length_append]
        omega
    refine ⟨⟨?_, ?_, hlt, fun hnil => ?_⟩, hu⟩
    · rw [hu, List.length_append, ← h.unreadBytes]
    · have := h.head_le
      show decoder.head ≤ (decoder.pending ++ [chunk]).length
      rw [List.length_append]
      omega
    · rw [hdrop] at hnil
      exact absurd hnil (List.append_ne_nil_of_right_ne_nil _ (List.cons_ne_nil _ _))
  · have hnil : chunk = [] := List.length_eq_zero_iff.1 (by omega)
    subst hnil
    rw [if_neg hpos, List.append_nil]
    exact ⟨h, rfl⟩

-- ======== the loop

variable (validateHeader : Json → Bool) (limits : PrivateFrameLimits)

/-- `nextFrame` over one buffer. -/
def readFrame : Next UInt8 PrivateFrame FrameError := fun buffer => do
  if buffer.length < framePrefixBytes then .ok none
  else
    let lengths := buffer.take framePrefixBytes
    let headerLength := readUInt32BE lengths 0
    let payloadLength := readUInt32BE lengths 4
    assertFrameLength "header length" headerLength limits.maxHeaderBytes
    assertFrameLength "payload length" payloadLength limits.maxPayloadBytes
    if headerLength = 0 then .error .emptyHeader
    else
      let frameLength := framePrefixBytes + headerLength + payloadLength
      if buffer.length < frameLength then .ok none
      else
        let payloadStart := framePrefixBytes + headerLength
        match Json.parse (Utf8.decode
            ((buffer.take payloadStart).drop framePrefixBytes)) with
        | none => .error .invalidHeaderJson
        | some decoded =>
          if !isObjectHeader decoded || !validateHeader decoded then
            .error .invalidRoutingHeader
          else
            .ok (some (⟨decoded,
              (buffer.take frameLength).drop payloadStart⟩, frameLength))

theorem nextFrame_eq (h : Valid decoder) :
    decoder.nextFrame validateHeader limits
      = readFrame validateHeader limits decoder.unread := by
  unfold nextFrame readFrame
  rw [h.unreadBytes]
  by_cases hshort : decoder.unread.length < framePrefixBytes
  · rw [if_pos hshort, if_pos hshort]
  · rw [if_neg hshort, if_neg hshort]
    have hlengths : decoder.slice 0 framePrefixBytes
        = decoder.unread.take framePrefixBytes :=
      slice_eq decoder (Nat.le_of_not_lt hshort)
    rw [hlengths]
    dsimp only
    cases assertFrameLength "header length"
        (readUInt32BE (decoder.unread.take framePrefixBytes) 0)
        limits.maxHeaderBytes with
    | error e => rfl
    | ok _ =>
      cases assertFrameLength "payload length"
          (readUInt32BE (decoder.unread.take framePrefixBytes) 4)
          limits.maxPayloadBytes with
      | error e => rfl
      | ok _ =>
        show (if _ then _ else _) = (if _ then _ else _)
        generalize readUInt32BE (decoder.unread.take framePrefixBytes) 0
          = headerLength
        generalize readUInt32BE (decoder.unread.take framePrefixBytes) 4
          = payloadLength
        by_cases hzero : headerLength = 0
        · rw [if_pos hzero, if_pos hzero]
        · rw [if_neg hzero, if_neg hzero]
          by_cases hmore : decoder.unread.length
              < framePrefixBytes + headerLength + payloadLength
          · rw [if_pos hmore, if_pos hmore]
          · have hpayload : decoder.slice (framePrefixBytes + headerLength)
                (framePrefixBytes + headerLength + payloadLength)
                = (decoder.unread.take (framePrefixBytes + headerLength
                  + payloadLength)).drop (framePrefixBytes + headerLength) :=
              slice_eq decoder (by omega)
            have hheader : decoder.slice framePrefixBytes
                (framePrefixBytes + headerLength)
                = (decoder.unread.take (framePrefixBytes + headerLength)).drop
                  framePrefixBytes := slice_eq decoder (by omega)
            rw [if_neg hmore, if_neg hmore, hheader]
            cases Json.parse (Utf8.decode ((decoder.unread.take
                (framePrefixBytes + headerLength)).drop
                framePrefixBytes)) with
            | none => rfl
            | some decoded =>
              show (if _ then _ else _) = (if _ then _ else _)
              rw [hpayload]

/-- A frame with a routing header and a payload within the limit. -/
structure Accepted (frame : PrivateFrame) : Prop where
  object : isObjectHeader frame.header = true
  valid : validateHeader frame.header = true
  payload : frame.payload.length ≤ limits.maxPayloadBytes

/-- The longest frame. -/
def maxFrameBytes : Nat :=
  framePrefixBytes + limits.maxHeaderBytes + limits.maxPayloadBytes

theorem assertFrameLength_ok
    (h : assertFrameLength name value maximum = .ok ()) :
    value ≤ maxSafeInteger ∧ value ≤ maximum := by
  unfold assertFrameLength at h
  split at h
  · assumption
  · cases h

/-- A frame that was read lies in the buffer; a buffer without one is short. -/
theorem readFrame_spec {item : Option (PrivateFrame × Nat)}
    (h : readFrame validateHeader limits buffer = .ok item) :
    match item with
    | none => buffer.length < maxFrameBytes limits
    | some (frame, n) => 0 < n ∧ n ≤ buffer.length
      ∧ Accepted validateHeader limits frame := by
  unfold readFrame at h
  by_cases hshort : buffer.length < framePrefixBytes
  · rw [if_pos hshort] at h
    cases h
    exact Nat.lt_of_lt_of_le hshort (by rw [maxFrameBytes]; omega)
  · rw [if_neg hshort] at h
    dsimp only at h
    generalize readUInt32BE _ 0 = headerLength at h
    generalize readUInt32BE _ 4 = payloadLength at h
    cases hheader : assertFrameLength "header length" headerLength
        limits.maxHeaderBytes with
    | error e => rw [hheader] at h; cases h
    | ok _ =>
      cases hpayload : assertFrameLength "payload length" payloadLength
          limits.maxPayloadBytes with
      | error e => rw [hheader, hpayload] at h; cases h
      | ok _ =>
        rw [hheader, hpayload] at h
        have hheader := (assertFrameLength_ok hheader).2
        have hpayload := (assertFrameLength_ok hpayload).2
        dsimp only [bind, Except.bind] at h
        split at h
        · cases h
        · split at h
          · cases h
            dsimp only
            rw [maxFrameBytes]
            omega
          · next hmore =>
            split at h
            · cases h
            · split at h
              · cases h
              · next hvalid =>
                cases h
                rw [Bool.or_eq_true, not_or, Bool.not_eq_true',
                  Bool.not_eq_true', Bool.not_eq_false, Bool.not_eq_false]
                  at hvalid
                refine ⟨?_, by omega, hvalid.1, hvalid.2, ?_⟩
                · unfold framePrefixBytes
                  omega
                · rw [List.length_drop, List.length_take]
                  omega

/-- The loop of `push` is the loop of the reader over the unread bytes. -/
theorem takeFrames_drain (turns : Nat)
    (h : Valid decoder) (frames later : List PrivateFrame)
    (rest : List UInt8)
    (hdrain : drain (readFrame validateHeader limits) turns decoder.unread
      = .ok (later, rest)) :
    ∃ decoder', takeFrames validateHeader limits turns decoder frames
        = (.ok (frames ++ later), decoder')
      ∧ Valid decoder' ∧ decoder'.unread = rest := by
  induction turns generalizing decoder frames later with
  | zero =>
    cases hdrain
    exact ⟨decoder, by rw [takeFrames, List.append_nil], h, rfl⟩
  | succ turns ih =>
    rw [drain] at hdrain
    rw [takeFrames, nextFrame_eq validateHeader limits h]
    cases hnext : readFrame validateHeader limits decoder.unread with
    | error e =>
      rw [hnext] at hdrain
      cases hdrain
    | ok item =>
      rw [hnext] at hdrain
      cases item with
      | none =>
        cases hdrain
        exact ⟨decoder, by rw [List.append_nil], h, rfl⟩
      | some item =>
        obtain ⟨frame, n⟩ := item
        obtain ⟨hvalid, hunread⟩ := consume_spec h
          (readFrame_spec validateHeader limits hnext).2.1
        dsimp only at hdrain ⊢
        rw [← hunread] at hdrain
        cases hlater : drain (readFrame validateHeader limits) turns
            (decoder.consume n).unread with
        | error e =>
          rw [hlater] at hdrain
          cases hdrain
        | ok p =>
          rw [hlater] at hdrain
          cases hdrain
          obtain ⟨decoder', htake, hvalid', hrest⟩ :=
            ih hvalid (frames ++ [frame]) p.1 hlater
          refine ⟨decoder', ?_, hvalid', hrest⟩
          rw [htake, List.append_assoc]
          rfl

-- ======== encoded frames

theorem readUInt32BE_write
    (h : writeUInt32BE value = .ok bytes) (front rest : List UInt8) :
    bytes.length = 4
      ∧ readUInt32BE (front ++ (bytes ++ rest)) front.length = value := by
  unfold writeUInt32BE at h
  by_cases hlt : value < 2 ^ 32
  · rw [if_pos hlt] at h
    injection h with h
    subst h
    refine ⟨rfl, ?_⟩
    have hbyte : ∀ i, (front ++ ([UInt8.ofNat (value / 2 ^ 24),
          UInt8.ofNat (value / 2 ^ 16), UInt8.ofNat (value / 2 ^ 8),
          UInt8.ofNat value] ++ rest)).getD (front.length + i) 0
        = ([UInt8.ofNat (value / 2 ^ 24), UInt8.ofNat (value / 2 ^ 16),
          UInt8.ofNat (value / 2 ^ 8), UInt8.ofNat value] ++ rest).getD i 0 := by
      intro i
      simp only [List.getD_eq_getElem?_getD]
      rw [List.getElem?_append_right (Nat.le_add_right _ _),
        Nat.add_sub_cancel_left]
    unfold readUInt32BE
    simp only [hbyte]
    simp only [List.cons_append, List.getD_cons_zero, List.getD_cons_succ,
      UInt8.toNat_ofNat']
    omega
  · rw [if_neg hlt] at h
    cases h

/-- What an encoded frame is made of. -/
structure Layout (frame : PrivateFrame) (bytes : List UInt8) : Prop where
  header : (Utf8.encode frame.header.stringify).length ≤ limits.maxHeaderBytes
  headerSafe : (Utf8.encode frame.header.stringify).length ≤ maxSafeInteger
  headerNonempty : (Utf8.encode frame.header.stringify).length ≠ 0
  payload : frame.payload.length ≤ limits.maxPayloadBytes
  payloadSafe : frame.payload.length ≤ maxSafeInteger
  bytes : ∃ headerLength payloadLength,
    writeUInt32BE (Utf8.encode frame.header.stringify).length
        = .ok headerLength
      ∧ writeUInt32BE frame.payload.length = .ok payloadLength
      ∧ bytes = headerLength ++ (payloadLength
        ++ (Utf8.encode frame.header.stringify ++ frame.payload))

theorem assertFrameLength_of_le
    (hsafe : value ≤ maxSafeInteger) (hle : value ≤ maximum) :
    assertFrameLength name value maximum = .ok () := if_pos ⟨hsafe, hle⟩

theorem layout_encoded (h : encodePrivateFrame limits frame = .ok bytes) :
    Layout limits frame bytes := by
  unfold encodePrivateFrame at h
  dsimp only at h
  cases hheader : assertFrameLength "header length"
      (Utf8.encode frame.header.stringify).length limits.maxHeaderBytes with
  | error e =>
    rw [hheader] at h
    cases h
  | ok _ =>
    cases hpayload : assertFrameLength "payload length"
        frame.payload.length limits.maxPayloadBytes with
    | error e =>
      rw [hheader, hpayload] at h
      cases h
    | ok _ =>
      rw [hheader, hpayload] at h
      dsimp only [bind, Except.bind] at h
      by_cases hzero : (Utf8.encode frame.header.stringify).length = 0
      · rw [if_pos hzero] at h
        cases h
      · rw [if_neg hzero] at h
        cases hhl : writeUInt32BE
            (Utf8.encode frame.header.stringify).length with
        | error e =>
          rw [hhl] at h
          cases h
        | ok headerLength =>
          cases hpl : writeUInt32BE frame.payload.length with
          | error e =>
            rw [hhl, hpl] at h
            cases h
          | ok payloadLength =>
            rw [hhl, hpl] at h
            injection h with h
            obtain ⟨hsafe, hle⟩ := assertFrameLength_ok hheader
            obtain ⟨hsafe', hle'⟩ := assertFrameLength_ok hpayload
            refine ⟨hle, hsafe, hzero, hle', hsafe', headerLength,
              payloadLength, hhl, hpl, ?_⟩
            rw [← h, List.append_assoc, List.append_assoc]

variable {limits}

theorem Layout.length (h : Layout limits frame bytes) :
    bytes.length = framePrefixBytes
      + (Utf8.encode frame.header.stringify).length
      + frame.payload.length := by
  obtain ⟨hl, pl, hhl, hpl, hbytes⟩ := h.bytes
  have hlen := (readUInt32BE_write hhl [] []).1
  have plen := (readUInt32BE_write hpl [] []).1
  rw [hbytes]
  simp only [List.length_append, hlen, plen, framePrefixBytes]
  omega

/-- With the lengths of an encoded frame at its front, a buffer holds the
frame or part of it. -/
theorem readFrame_lengths
    (h : Layout limits frame bytes) (hlen : framePrefixBytes ≤ buffer.length)
    (hfront : buffer.take framePrefixBytes = bytes.take framePrefixBytes) :
    readFrame validateHeader limits buffer
      = (if buffer.length < bytes.length then .ok none
        else
          match Json.parse (Utf8.decode ((buffer.take (framePrefixBytes
              + (Utf8.encode frame.header.stringify).length)).drop
              framePrefixBytes)) with
          | none => .error .invalidHeaderJson
          | some decoded =>
            if !isObjectHeader decoded || !validateHeader decoded then
              .error .invalidRoutingHeader
            else
              .ok (some (⟨decoded, (buffer.take bytes.length).drop
                (framePrefixBytes
                  + (Utf8.encode frame.header.stringify).length)⟩,
                bytes.length))) := by
  obtain ⟨hl, pl, hhl, hpl, hbytes⟩ := h.bytes
  have hlen₄ := (readUInt32BE_write hhl [] []).1
  have plen₄ := (readUInt32BE_write hpl [] []).1
  have hlengths : buffer.take framePrefixBytes = hl ++ (pl ++ []) := by
    have hpre : hl ++ (pl ++ (Utf8.encode frame.header.stringify
        ++ frame.payload)) = (hl ++ pl)
        ++ (Utf8.encode frame.header.stringify ++ frame.payload) := by
      rw [List.append_assoc]
    have height : framePrefixBytes = (hl ++ pl).length := by
      rw [List.length_append, hlen₄, plen₄]
      rfl
    rw [hfront, hbytes, hpre, height, List.take_left, List.append_nil]
  have hread₀ : readUInt32BE (buffer.take framePrefixBytes) 0
      = (Utf8.encode frame.header.stringify).length := by
    rw [hlengths]
    exact (readUInt32BE_write hhl [] (pl ++ [])).2
  have hread₄ : readUInt32BE (buffer.take framePrefixBytes) 4
      = frame.payload.length := by
    rw [hlengths, ← hlen₄]
    exact (readUInt32BE_write hpl hl []).2
  unfold readFrame
  rw [if_neg (Nat.not_lt.2 hlen)]
  dsimp only
  rw [hread₀, hread₄, assertFrameLength_of_le h.headerSafe h.header,
    assertFrameLength_of_le h.payloadSafe h.payload]
  dsimp only [bind, Except.bind]
  rw [if_neg h.headerNonempty, ← h.length]

/-- An encoded frame with a routing header is a writing of it. -/
theorem codes_encoded (hobject : isObjectHeader frame.header = true)
    (hvalid : validateHeader frame.header = true)
    (hencoded : encodePrivateFrame limits frame = .ok bytes) :
    Codes (readFrame validateHeader limits) bytes frame := by
  have h := layout_encoded limits hencoded
  have hlen := h.length
  refine ⟨fun hnil => ?_, fun r => ?_, fun p hp hne => ?_⟩
  · rw [hnil] at hlen
    simp [framePrefixBytes] at hlen
    omega
  · rw [readFrame_lengths validateHeader h
      (by rw [List.length_append]; omega)
      (List.take_append_of_le_length (by omega)),
      if_neg (by rw [List.length_append]; omega)]
    obtain ⟨hl, pl, hhl, hpl, hbytes⟩ := h.bytes
    have height : framePrefixBytes = (hl ++ pl).length := by
      rw [List.length_append, (readUInt32BE_write hhl [] []).1,
        (readUInt32BE_write hpl [] []).1]
      rfl
    have hassoc : bytes = (hl ++ pl)
        ++ (Utf8.encode frame.header.stringify ++ frame.payload) := by
      rw [hbytes, List.append_assoc]
    have hheader : ((bytes ++ r).take (framePrefixBytes
        + (Utf8.encode frame.header.stringify).length)).drop framePrefixBytes
        = Utf8.encode frame.header.stringify := by
      rw [List.drop_take, Nat.add_sub_cancel_left, hassoc, height,
        List.append_assoc, List.drop_left, List.append_assoc, List.take_left]
    have hpayload : ((bytes ++ r).take bytes.length).drop (framePrefixBytes
        + (Utf8.encode frame.header.stringify).length) = frame.payload := by
      rw [List.take_left, hassoc, height, ← List.drop_drop, List.drop_left,
        List.drop_left]
    rw [hheader, hpayload, Utf8.decode_encode, Json.parse_stringify]
    dsimp only
    rw [hobject, hvalid]
    rfl
  · have hlt : p.length < bytes.length := by
      apply Nat.lt_of_le_of_ne hp.length_le
      intro heq
      exact hne (hp.eq_of_length heq)
    by_cases hshort : p.length < framePrefixBytes
    · unfold readFrame
      rw [if_pos hshort]
    · have hfront : p.take framePrefixBytes = bytes.take framePrefixBytes := by
        obtain ⟨t, rfl⟩ := hp
        exact (List.take_append_of_le_length (Nat.le_of_not_lt hshort)).symm
      rw [readFrame_lengths validateHeader h (Nat.le_of_not_lt hshort) hfront,
        if_pos hlt]

-- ======== the stream

section
variable (hcodes : List.Forall₂ (Codes (readFrame validateHeader limits)) buffers frames)
include hcodes

theorem push_reads (h : Valid decoder)
    {arrived chunk : List UInt8} {k : Nat}
    (hreads : Reads buffers arrived k decoder.unread)
    (hstream : arrived ++ chunk ++ rest = buffers.flatten) :
    ∃ j decoder', decoder.push validateHeader limits chunk
        = (.ok ((frames.drop k).take j), decoder')
      ∧ Valid decoder' ∧ Reads buffers (arrived ++ chunk) (k + j)
        decoder'.unread := by
  obtain ⟨hkeep, hunread⟩ := keep_spec h chunk
  have hfuel : (decoder.unread ++ chunk).length
      ≤ (decoder.keep chunk).unreadBytes := by
    rw [hkeep.unreadBytes, hunread]
  obtain ⟨j, buffer, hreads', hdrain⟩ := hreads.piece hcodes rfl hstream hfuel
  rw [← hunread] at hdrain
  obtain ⟨decoder', htake, hvalid, hleft⟩ := takeFrames_drain validateHeader
    limits _ hkeep [] _ _ hdrain
  refine ⟨j, decoder', htake, hvalid, ?_⟩
  rw [hleft]
  exact hreads'

theorem pushAll_reads (chunks : List (List UInt8)) :
    ∀ {decoder : PrivateFrameDecoder} {arrived : List UInt8} {k : Nat},
      Valid decoder → Reads buffers arrived k decoder.unread →
      arrived ++ chunks.flatten ++ rest = buffers.flatten →
      ∃ j decoder', decoder.pushAll validateHeader limits chunks
          = (.ok ((frames.drop k).take j), decoder')
        ∧ Valid decoder' ∧ Reads buffers (arrived ++ chunks.flatten) (k + j)
          decoder'.unread := by
  induction chunks with
  | nil =>
    intro decoder arrived k h hreads _
    refine ⟨0, decoder, rfl, h, ?_⟩
    rw [List.flatten_nil, List.append_nil]
    exact hreads
  | cons chunk chunks ih =>
    intro decoder arrived k h hreads hstream
    rw [List.flatten_cons, ← List.append_assoc] at hstream
    obtain ⟨i, decoder', hpush, hvalid, hreads'⟩ :=
      push_reads validateHeader hcodes h hreads
        ((List.append_assoc ..).symm.trans hstream)
    obtain ⟨j, decoder'', hall, hvalid', hreads''⟩ :=
      ih hvalid hreads' hstream
    refine ⟨i + j, decoder'', ?_, hvalid', ?_⟩
    · unfold pushAll
      rw [hpush]
      dsimp only
      rw [hall, List.take_add, List.drop_drop]
      rfl
    · rw [List.flatten_cons, ← List.append_assoc, ← Nat.add_assoc]
      exact hreads''

end

/-- Decoding undoes encoding, however the bytes are cut: with
`chunks.flatten` of the stream there, the frames delivered are those
wholly contained in it, the remaining bytes are buffered, and the end of
the stream is accepted when there are none. -/
theorem decodes_any_chunking {frames : List PrivateFrame}
    {buffers chunks : List (List UInt8)} {rest : List UInt8}
    (hheaders : ∀ frame ∈ frames, isObjectHeader frame.header = true
      ∧ validateHeader frame.header = true)
    (hencoded : List.Forall₂
      (fun frame bytes => encodePrivateFrame limits frame = .ok bytes) frames
      buffers)
    (hstream : chunks.flatten ++ rest = buffers.flatten) :
    ∃ k decoder,
      new.pushAll validateHeader limits chunks
          = (.ok (frames.take k), decoder)
        ∧ k ≤ frames.length
        ∧ (buffers.take k).flatten.length ≤ chunks.flatten.length
        ∧ (k < frames.length →
          chunks.flatten.length < (buffers.take (k + 1)).flatten.length)
        ∧ (rest = [] → k = frames.length)
        ∧ decoder.bufferedBytes + (buffers.take k).flatten.length
          = chunks.flatten.length
        ∧ (decoder.finish = .ok () ↔ decoder.bufferedBytes = 0) := by
  have hlength := hencoded.length_eq
  have hcodes : List.Forall₂ (Codes (readFrame validateHeader limits)) buffers
      frames := by
    rw [List.forall₂_iff_get]
    refine ⟨hlength.symm, fun i h₁ h₂ => ?_⟩
    have hheader := hheaders _ (List.get_mem frames ⟨i, h₂⟩)
    exact codes_encoded validateHeader hheader.1 hheader.2
      ((List.forall₂_iff_get.1 hencoded).2 i h₂ h₁)
  have hnil : Reads buffers [] 0 new.unread := by
    apply Reads.nil
    intro bytes hbytes
    obtain ⟨i, hi, rfl⟩ := List.getElem_of_mem hbytes
    exact ((List.forall₂_iff_get.1 hcodes).2 i hi (hlength ▸ hi)).nonempty
  obtain ⟨k, decoder, hall, hvalid, hreads⟩ :=
    pushAll_reads validateHeader hcodes chunks valid_new hnil hstream
  rw [Nat.zero_add] at hreads
  rw [List.nil_append] at hreads
  have harrived := hreads.items
  refine ⟨k, decoder, hall, hlength ▸ harrived.le_length,
    harrived.le_arrived, fun hk => harrived.maximal (hlength ▸ hk),
    fun hrest => ?_, ?_, ?_⟩
  · rw [hrest, List.append_nil] at hstream
    rw [hstream] at harrived
    exact harrived.all.trans hlength.symm
  · show decoder.unreadBytes + _ = _
    rw [hvalid.unreadBytes]
    exact hreads.length_left
  · show decoder.finish = .ok () ↔ decoder.unreadBytes = 0
    unfold finish
    by_cases hzero : decoder.unreadBytes = 0
    · simp [hzero]
    · simp [hzero]

theorem decodes_any_chunking_cut_prefix :
    ∃ decoder, new.pushAll (fun _ => true) defaultPrivateFrameLimits
        [[0, 0, 0, 2, 0], [], [0, 0, 1, 123, 125, 7]]
      = (.ok [⟨.obj [], [7]⟩], decoder) ∧ decoder.finish = .ok () := by
  obtain ⟨k, decoder, hall, -, -, -, hk, hbytes, hfinish⟩ :=
    @decodes_any_chunking (fun _ => true) defaultPrivateFrameLimits
      [⟨.obj [], [7]⟩] [[0, 0, 0, 2, 0, 0, 0, 1, 123, 125, 7]]
      [[0, 0, 0, 2, 0], [], [0, 0, 1, 123, 125, 7]] []
      (fun frame hframe => by
        rw [List.mem_singleton.1 hframe]
        exact ⟨rfl, rfl⟩)
      (.cons rfl .nil) rfl
  have hk : k = 1 := hk rfl
  subst hk
  refine ⟨decoder, hall, hfinish.2 ?_⟩
  simpa using hbytes

-- ======== any bytes

variable {frames : List PrivateFrame} {decoder' : PrivateFrameDecoder}

/-- Only whole frames leave the buffer, and it is left without one. -/
theorem takeFrames_bounded {turns : Nat} {before : List PrivateFrame}
    (h : Valid decoder) (hturns : decoder.unreadBytes ≤ turns)
    (hbefore : ∀ frame ∈ before, Accepted validateHeader limits frame)
    (htake : takeFrames validateHeader limits turns decoder before
      = (.ok frames, decoder')) :
    Valid decoder' ∧ decoder'.unreadBytes < maxFrameBytes limits
      ∧ ∀ frame ∈ frames, Accepted validateHeader limits frame := by
  induction turns generalizing decoder before with
  | zero =>
    cases htake
    refine ⟨h, Nat.lt_of_le_of_lt hturns ?_, hbefore⟩
    rw [maxFrameBytes, framePrefixBytes]
    omega
  | succ turns ih =>
    rw [takeFrames, nextFrame_eq validateHeader limits h] at htake
    cases hnext : readFrame validateHeader limits decoder.unread with
    | error e => rw [hnext] at htake; cases htake
    | ok item =>
      rw [hnext] at htake
      have hspec := readFrame_spec validateHeader limits hnext
      cases item with
      | none =>
        cases htake
        exact ⟨h, h.unreadBytes ▸ hspec, hbefore⟩
      | some item =>
        obtain ⟨hpos, hle, haccepted⟩ := hspec
        obtain ⟨hvalid, hunread⟩ := consume_spec h hle
        refine ih hvalid ?_ (fun frame hframe => ?_) htake
        · rw [hvalid.unreadBytes, hunread, List.length_drop, ← h.unreadBytes]
          omega
        · rcases List.mem_append.1 hframe with hold | hnew
          · exact hbefore frame hold
          · exact List.mem_singleton.1 hnew ▸ haccepted

theorem pushAll_bounded {chunks : List (List UInt8)} (h : Valid decoder)
    (hbound : decoder.unreadBytes < maxFrameBytes limits)
    (hpush : decoder.pushAll validateHeader limits chunks
      = (.ok frames, decoder')) :
    decoder'.unreadBytes < maxFrameBytes limits
      ∧ ∀ frame ∈ frames, Accepted validateHeader limits frame := by
  induction chunks generalizing decoder frames with
  | nil =>
    cases hpush
    exact ⟨hbound, nofun⟩
  | cons chunk chunks ih =>
    unfold pushAll at hpush
    split at hpush
    · cases hpush
    · next first next hfirst =>
      obtain ⟨hvalid, hshort, haccepted⟩ := takeFrames_bounded validateHeader
        (keep_spec h chunk).1 (Nat.le_refl _)
        (fun _ hnil => absurd hnil List.not_mem_nil) hfirst
      dsimp only at hpush
      cases hlater : next.pushAll validateHeader limits chunks with
      | mk result last =>
        rw [hlater] at hpush
        cases result with
        | error e => cases hpush
        | ok later =>
          cases hpush
          obtain ⟨hlast, hlaterAll⟩ := ih hvalid hshort hlater
          refine ⟨hlast, fun frame hframe => ?_⟩
          exact (List.mem_append.1 hframe).elim (haccepted frame)
            (hlaterAll frame)

/-- Whatever arrives, frames delivered are well-formed, and less than the longest
frame is kept. -/
theorem accepts_bounded (chunks : List (List UInt8)) :
    match new.pushAll validateHeader limits chunks with
    | (.error _, _) => True
    | (.ok frames, decoder) =>
      decoder.bufferedBytes < maxFrameBytes limits
        ∧ ∀ frame ∈ frames, Accepted validateHeader limits frame := by
  split
  · trivial
  · next hpush =>
    refine pushAll_bounded validateHeader valid_new ?_ hpush
    rw [maxFrameBytes, framePrefixBytes]
    exact Nat.zero_lt_of_ne_zero (by omega)

end PrivateFrameDecoder
end OneHarness.Wire
