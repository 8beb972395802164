/-
What the pump of a captured stream sends.

The user's bytes are cut at the tokens. All that was cut off at a token the
pump has found is sent, decoded as a whole; of the bytes after it a part, and
what is not sent is still to come (`Sent`). While a token is in the pipe the
drain that wrote it waits, so its watch is set when the token is read, whole
or in parts: of the data a tail that may be the start of the token is held
back, and the bytes before the token are a shorter part than that leaves.
-/
import OneHarness.Lib.Run
import OneHarness.Rlm.Pump

namespace OneHarness.Rlm

open Lib Lib.Run

-- ======== statement vocabulary

/-- What is written and not sent, tokens included. -/
def Capture.unread (c : Capture) : Bytes := c.pump.buf ++ c.chunk ++ c.pipe

/-- The events are the decoding of the user's bytes up to where the rest is
still unread, and a drain that has seen its token finds all sent. -/
structure Faithful (c : Capture) : Prop where
  events : ∃ shipped held token,
    (c.closed ++ [c.current])[c.completed]? = some (shipped ++ held)
      ∧ c.pump.sent.flatten
        = (c.closed.take c.completed).flatMap Utf8.decode
          ++ (Utf8.feed .start shipped).2
      ∧ c.unread = held
        ++ if c.completed = c.closed.length then [] else token ++ c.current
  drained : c.drain = some .seen → c.completed = c.closed.length

/-- No drain is cut short between its token and the finding of it. -/
def Patient (c : Capture) : Event → Prop
  | .interrupt => c.drain ≠ some .written
  | _ => True

/-- What an event writes for the user. -/
def Event.written : Event → Bytes
  | .write data => data
  | _ => []

/-- The ids of the tokens are hex digits, and not among the user's bytes. -/
def FreshId (user : Bytes) : Event → Prop
  | .drain id => 0xff ∉ id ∧ ¬mark id <:+: user
  | _ => True

def FreshIds (events : List Event) : Prop :=
  ∀ e ∈ events, FreshId (events.flatMap Event.written) e

-- ======== the token

/-- Between other bytes the token is found where it is. -/
theorem first_token {id before : Bytes} (hid : 0xff ∉ mark id)
    (hbefore : ¬mark id <:+: before) (after : Bytes) :
    Search.First (drainToken id) (before ++ drainToken id ++ after)
      before.length := by
  refine ⟨by simp, ?_⟩
  intro j hj hpre
  obtain ⟨rest, hrest⟩ := hpre
  have hsplit : before = before.take j ++ before.drop j :=
    (List.take_append_drop j before).symm
  have hdrop : (before ++ drainToken id ++ after).drop j
      = before.drop j ++ (drainToken id ++ after) := by
    rw [List.append_assoc, List.drop_append_of_le_length (by omega)]
  rw [hdrop, drainToken] at hrest
  simp only [List.cons_append, List.append_assoc] at hrest
  obtain ⟨b, tail, hcons⟩ : ∃ b tail, before.drop j = b :: tail :=
    List.exists_cons_of_ne_nil (by
      intro hnil
      have := List.drop_eq_nil_iff.1 hnil
      omega)
  rw [hcons, List.cons_append, List.cons.injEq] at hrest
  -- the bytes between end before the next `0xff`, so in what is before
  have hmiddle : mark id <+: tail := by
    have hle : mark id <+: tail ++ 0xff :: (mark id ++ 0xff :: after) :=
      ⟨_, hrest.2⟩
    rcases List.prefix_or_prefix_of_prefix hle (List.prefix_append tail _)
      with h | h
    · exact h
    · obtain ⟨more, hmore⟩ := h
      cases more with
      | nil =>
        exact ⟨[], by rw [List.append_nil, ← hmore, List.append_nil]⟩
      | cons x more =>
        rw [← hmore, List.append_assoc] at hrest
        have hx := List.append_cancel_left hrest.2
        simp only [List.cons_append, List.cons.injEq] at hx
        exact absurd (by rw [← hmore, hx.1]; simp) hid
  apply hbefore
  rw [hsplit, hcons]
  obtain ⟨more, rfl⟩ := hmiddle
  exact ⟨before.take j ++ [b], more, by simp⟩

theorem not_token {id data : Bytes} (h : ¬mark id <:+: data) :
    Search.indexOf (drainToken id) data = none := by
  rw [Search.indexOf_eq_none (by simp [drainToken])]
  intro i hpre
  apply h
  have hmark : mark id <:+: drainToken id := ⟨[0xff], [0xff], by simp [drainToken]⟩
  exact hmark.trans (hpre.isInfix.trans (List.drop_suffix i data).isInfix)

-- ======== what is held back

theorem hold_le (token data : Bytes) (k : Nat) : Pump.hold token data k ≤ k := by
  induction k with
  | zero => simp [Pump.hold]
  | succ k ih =>
    unfold Pump.hold
    split
    · omega
    · omega

theorem le_hold {token data : Bytes} {j k : Nat} (hjk : j ≤ k)
    (h : token.take j <:+ data) : j ≤ Pump.hold token data k := by
  induction k with
  | zero => simpa [Pump.hold] using hjk
  | succ k ih =>
    unfold Pump.hold
    by_cases heq : j = k + 1
    · subst heq
      simp [h]
    · have hle := ih (by omega)
      split
      · omega
      · exact hle

-- ======== what is sent

/-- The pump has sent these and, of the next, what is shipped. -/
structure Sent (p : Pump) (watch : Option Bytes) (done : List Bytes)
    (shipped : Bytes) : Prop where
  watch : p.watch = watch
  decoder : p.decoder = (Utf8.feed .start shipped).1
  sent : p.sent.flatten
    = done.flatMap Utf8.decode ++ (Utf8.feed .start shipped).2

variable {p : Pump} {watch : Option Bytes} {done : List Bytes}
  {shipped held data chunk token : Bytes}

theorem send_eq (p : Pump) (text : List Char) :
    (p.send text).watch = p.watch ∧ (p.send text).decoder = p.decoder
      ∧ (p.send text).sent.flatten = p.sent.flatten ++ text := by
  unfold Pump.send
  by_cases h : text = []
  · simp [h]
  · simp [h]

theorem Sent.emit (h : Sent p watch done shipped) (data : Bytes) :
    Sent (p.emit data) watch done (shipped ++ data) := by
  unfold Pump.emit
  by_cases hd : data = []
  · simpa [hd] using h
  · obtain ⟨hwatch, hdecoder, hsent⟩ := send_eq
      { p with decoder := (Utf8.feed p.decoder data).1 }
      (Utf8.feed p.decoder data).2
    rw [if_neg hd]
    refine ⟨hwatch.trans h.watch, ?_, ?_⟩
    · rw [hdecoder, Utf8.feed_append, h.decoder]
    · rw [hsent, Utf8.feed_append, ← List.append_assoc, ← h.sent, h.decoder]

theorem Sent.finishDecode (h : Sent p watch done shipped) :
    Sent p.finishDecode watch (done ++ [shipped]) [] := by
  have hdecode : Utf8.decode shipped = (Utf8.feed .start shipped).2
      ++ Utf8.flush (Utf8.feed .start shipped).1 :=
    (Utf8.rest_start shipped).symm
  obtain ⟨hwatch, hdecoder, hsent⟩ := send_eq { p with decoder := .start }
    (Utf8.flush p.decoder)
  refine ⟨hwatch.trans h.watch, hdecoder, ?_⟩
  rw [Pump.finishDecode, hsent, h.decoder]
  simp [h.sent, hdecode, Utf8.feed]

-- ======== feeding

/-- How much of the data is sent: all but a tail that may start a token. -/
structure Cut (watch : Option Bytes) (data : Bytes) (kept : Nat) : Prop where
  le : kept ≤ data.length
  held : ∀ token, watch = some token → ∀ j < token.length, j ≤ data.length →
    token.take j <:+ data → kept + j ≤ data.length

theorem cut_hold (token data : Bytes) :
    Cut (some token) data (data.length
      - Pump.hold token data (min data.length (token.length - 1))) := by
  have hle := hold_le token data (min data.length (token.length - 1))
  refine ⟨Nat.sub_le _ _, ?_⟩
  intro token' heq j hj hjd hsuffix
  obtain rfl := Option.some.inj heq
  have := le_hold (k := min data.length (token.length - 1)) (by omega) hsuffix
  omega

theorem emit_buf (p : Pump) (data : Bytes) : (p.emit data).buf = p.buf := by
  unfold Pump.emit Pump.send
  by_cases hd : data = []
  · simp [hd]
  · by_cases ht : (Utf8.feed p.decoder data).2 = []
    · simp [hd, ht]
    · simp [hd, ht]

/-- With no token in the data a part of it is sent. -/
theorem feed_none (hs : Sent p watch done shipped)
    (hdata : p.buf ++ chunk = data)
    (h : ∀ token, watch = some token → Search.indexOf token data = none) :
    ∃ kept, Cut watch data kept
      ∧ Sent (p.feed chunk).1 watch done (shipped ++ data.take kept)
      ∧ (p.feed chunk).1.buf = data.drop kept ∧ (p.feed chunk).2 = false := by
  obtain ⟨w, buf, decoder, sent⟩ := p
  obtain rfl : w = watch := hs.watch
  have hs' : Sent ⟨w, [], decoder, sent⟩ w done shipped :=
    ⟨rfl, hs.decoder, hs.sent⟩
  dsimp only at hdata
  unfold Pump.feed
  dsimp only
  rw [hdata]
  cases w with
  | none =>
    refine ⟨data.length, ⟨Nat.le_refl _, fun _ heq => (nomatch heq)⟩, ?_, ?_,
      rfl⟩
    · rw [List.take_length]
      exact hs'.emit data
    · rw [List.drop_length]
      exact emit_buf _ data
  | some token =>
    have htake : Pump.takeTokens token data.length ⟨some token, [], decoder,
        sent⟩ data = (⟨some token, [], decoder, sent⟩, data, false) := by
      cases data with
      | nil => rfl
      | cons b data => simp [Pump.takeTokens, h token rfl]
    have hsent := hs'.emit (data.take (data.length
      - Pump.hold token data (min data.length (token.length - 1))))
    dsimp only
    rw [htake]
    exact ⟨_, cut_hold token data, ⟨hsent.watch, hsent.decoder, hsent.sent⟩,
      rfl, rfl⟩

/-- With a token in the data all before it is sent and finished. -/
theorem feed_some {more : Bytes} (hs : Sent p (some token) done shipped)
    (htoken : token ≠ []) (hdata : p.buf ++ chunk = held ++ token ++ more)
    (h : Search.indexOf token (held ++ token ++ more) = some held.length)
    (hmore : Search.indexOf token more = none) :
    ∃ kept, Cut (some token) more kept
      ∧ Sent (p.feed chunk).1 (some token) (done ++ [shipped ++ held])
        (more.take kept)
      ∧ (p.feed chunk).1.buf = more.drop kept ∧ (p.feed chunk).2 = true := by
  obtain ⟨w, buf, decoder, sent⟩ := p
  obtain rfl : w = some token := hs.watch
  have hs' : Sent ⟨some token, [], decoder, sent⟩ (some token) done shipped :=
    ⟨rfl, hs.decoder, hs.sent⟩
  have htake : Pump.takeTokens token (held ++ token ++ more).length
      ⟨some token, [], decoder, sent⟩ (held ++ token ++ more)
      = (((⟨some token, [], decoder, sent⟩ : Pump).emit held).finishDecode, more,
        true) := by
    have hdrop : (held ++ token ++ more).drop (held.length + token.length)
        = more := by
      rw [← List.length_append, List.drop_left]
    have hheld : (held ++ token ++ more).take held.length = held := by
      rw [List.append_assoc, List.take_left]
    have hrest : ∀ n q, Pump.takeTokens token n q more = (q, more, false) := by
      intro n q
      cases n with
      | zero => rfl
      | succ n => simp [Pump.takeTokens, hmore]
    cases hn : (held ++ token ++ more).length with
    | zero =>
      rw [List.length_eq_zero_iff] at hn
      simp [htoken] at hn
    | succ n =>
      rw [Pump.takeTokens, h]
      dsimp only
      rw [hdrop, hheld, hrest]
  have hsent := ((hs'.emit held).finishDecode).emit (more.take (more.length
    - Pump.hold token more (min more.length (token.length - 1))))
  dsimp only at hdata
  unfold Pump.feed
  dsimp only
  rw [hdata, htake]
  exact ⟨_, cut_hold token more, ⟨hsent.watch, hsent.decoder, hsent.sent⟩, rfl,
    rfl⟩

-- ======== the capture

/-- No token is on its way: what is unread is the end of what the user wrote
since the last. -/
structure Plain (c : Capture) (shipped held : Bytes) : Prop where
  drain : c.drain ≠ some .written
  completed : c.completed = c.closed.length
  current : c.current = shipped ++ held
  unread : c.unread = held

/-- The token of the drain that waits is on its way. -/
structure Pending (c : Capture) (token shipped held : Bytes) : Prop where
  drain : c.drain = some .written
  watch : c.pump.watch = some token
  closed : ∃ done, c.closed = done ++ [shipped ++ held]
    ∧ c.completed = done.length
  unread : c.unread = held ++ token ++ c.current

/-- What every patient step keeps. -/
structure Inv (user : Bytes) (c : Capture) : Prop where
  watched : c.drain.isSome = c.pump.watch.isSome
  fresh : ∀ token, c.pump.watch = some token → ∃ id, token = drainToken id
    ∧ 0xff ∉ mark id ∧ ¬mark id <:+: user
  within : c.closed.flatten ++ c.current <+: user
  sent : ∃ shipped held,
    Sent c.pump c.pump.watch (c.closed.take c.completed) shipped
      ∧ (Plain c shipped held ∨ ∃ token, Pending c token shipped held)

variable {user : Bytes} {c : Capture}

theorem mark_not_mem {id : Bytes} (h : 0xff ∉ id) : 0xff ∉ mark id := by
  have hstart : (0xff : UInt8) ∉ Utf8.encode "<drain:".toList := by decide
  have hend : (0xff : UInt8) ∉ Utf8.encode ">".toList := by decide
  simp only [mark, List.mem_append, not_or]
  exact ⟨⟨hstart, h⟩, hend⟩

theorem Inv.faithful (h : Inv user c) : Faithful c := by
  obtain ⟨shipped, held, hsent, hshape⟩ := h.sent
  rcases hshape with hp | ⟨token, hp⟩
  · refine ⟨⟨shipped, held, [], ?_, hsent.sent, ?_⟩, fun _ => hp.completed⟩
    · rw [hp.completed, ← hp.current]
      simp
    · simp [hp.completed, hp.unread]
  · obtain ⟨done, hclosed, hcompleted⟩ := hp.closed
    refine ⟨⟨shipped, held, token, ?_, hsent.sent, ?_⟩, ?_⟩
    · simp [hclosed, hcompleted]
    · simp [hclosed, hcompleted, hp.unread]
    · intro hdrain
      rw [hp.drain] at hdrain
      cases hdrain

/-- Data and the pipe behind it are what is unread. -/
theorem drop_unread {pipe unread : Bytes} {kept : Nat}
    (h : data ++ pipe = unread) (hkept : kept ≤ data.length) :
    data.take kept = unread.take kept
      ∧ data.drop kept ++ pipe = unread.drop kept := by
  subst h
  rw [List.take_append_of_le_length hkept, List.drop_append_of_le_length hkept]
  exact ⟨rfl, rfl⟩

section
variable (h : Inv user c)
  (hsent : Sent c.pump c.pump.watch (c.closed.take c.completed) shipped)
include h hsent

/-- A feed with no token on its way. -/
theorem Inv.feed_plain (hp : Plain c shipped held) (hchunk : c.chunk ≠ []) :
    Inv user (c.step .feed) := by
  have hunread : c.pump.buf ++ c.chunk ++ c.pipe = held := hp.unread
  have hheld : held <:+: user := by
    obtain ⟨after, hafter⟩ := h.within
    exact ⟨c.closed.flatten ++ shipped, after, by rw [← hafter, hp.current]; simp⟩
  have hnone : ∀ token, c.pump.watch = some token →
      Search.indexOf token (c.pump.buf ++ c.chunk) = none := by
    intro token hw
    obtain ⟨id, rfl, -, hid⟩ := h.fresh token hw
    apply not_token
    intro hmiddle
    exact hid ((hmiddle.trans ⟨[], c.pipe, by simpa using hunread⟩).trans hheld)
  obtain ⟨kept, hcut, hs, hbuf, hfalse⟩ := feed_none hsent rfl hnone
  obtain ⟨htake, hdrop⟩ := drop_unread hunread hcut.le
  simp only [Capture.step, if_neg hchunk, hfalse, Bool.false_eq_true, if_false]
  refine ⟨by rw [hs.watch]; exact h.watched, by rw [hs.watch]; exact h.fresh,
    h.within, _, held.drop kept, hs.watch.symm ▸ hs, .inl ⟨hp.drain,
      hp.completed, ?_, ?_⟩⟩
  · rw [hp.current, htake, List.append_assoc, List.take_append_drop]
  · simp only [Capture.unread, hbuf, List.append_nil]
    exact hdrop

/-- A feed with the token on its way. -/
theorem Inv.feed_pending
    (hp : Pending c token shipped held) (hchunk : c.chunk ≠ []) :
    Inv user (c.step .feed) := by
  have hunread : c.pump.buf ++ c.chunk ++ c.pipe = held ++ token ++ c.current :=
    hp.unread
  obtain ⟨done, hclosed, hcompleted⟩ := hp.closed
  obtain ⟨after, hafter⟩ := h.within
  obtain ⟨id, rfl, hmark, hid⟩ := h.fresh token hp.watch
  have htoken : drainToken id ≠ [] := by simp [drainToken]
  have hheld : ¬mark id <:+: held := by
    intro hmiddle
    exact hid (hmiddle.trans ⟨done.flatten ++ shipped, c.current ++ after, by
      rw [← hafter, hclosed]
      simp⟩)
  have hfirst := first_token hmark hheld c.current
  rw [hp.watch] at hsent
  by_cases hlen : (held ++ drainToken id).length
      ≤ (c.pump.buf ++ c.chunk).length
  · -- the whole token is in the data
    obtain ⟨more, hdata⟩ : held ++ drainToken id <+: c.pump.buf ++ c.chunk :=
      List.prefix_of_prefix_length_le ⟨c.current, rfl⟩ ⟨c.pipe, hunread⟩ hlen
    rw [← hdata, List.append_assoc] at hunread
    have hcurrent : more ++ c.pipe = c.current :=
      List.append_cancel_left hunread
    have hnone : Search.indexOf (drainToken id) more = none := by
      apply not_token
      intro hmiddle
      exact hid (hmiddle.trans ⟨c.closed.flatten, c.pipe ++ after, by
        rw [← hafter, ← hcurrent]
        simp⟩)
    have hfind : Search.indexOf (drainToken id) (held ++ drainToken id ++ more)
        = some held.length :=
      (Search.indexOf_eq_some htoken).2 (first_token hmark hheld more)
    obtain ⟨kept, hcut, hs, hbuf, htrue⟩ :=
      feed_some hsent htoken hdata.symm hfind hnone
    obtain ⟨htake, hdrop⟩ := drop_unread hcurrent hcut.le
    have hdone : c.closed.take c.completed ++ [shipped ++ held] = c.closed := by
      simp [hclosed, hcompleted]
    have hlength : c.completed + 1 = c.closed.length := by
      simp [hclosed, hcompleted]
    simp only [Capture.step, if_neg hchunk, htrue, if_true]
    refine ⟨by simp [hs.watch, hp.drain], by rw [hs.watch, ← hp.watch]
                                             exact h.fresh,
      h.within, more.take kept, c.current.drop kept, ?_, .inl
        ⟨by simp [hp.drain], hlength, ?_, ?_⟩⟩
    · rw [hs.watch, hlength, List.take_length]
      rw [hdone] at hs
      exact hs
    · rw [htake, List.take_append_drop]
    · simp only [Capture.unread, hbuf, List.append_nil]
      exact hdrop
  · -- only a part of it, which is held back
    have hnone : Search.indexOf (drainToken id) (c.pump.buf ++ c.chunk)
        = none := by
      cases hfind : Search.indexOf (drainToken id) (c.pump.buf ++ c.chunk) with
      | none => rfl
      | some i =>
        have happend := (Search.indexOf_eq_some htoken).1
          (Search.indexOf_append htoken hfind c.pipe)
        rw [hunread] at happend
        have hle := Search.length_of_indexOf htoken hfind
        rw [happend.unique hfirst] at hle
        rw [List.length_append] at hlen
        omega
    obtain ⟨kept, hcut, hs, hbuf, hfalse⟩ := feed_none hsent rfl
      (fun token heq => Option.some.inj heq ▸ hnone)
    have hkept : kept ≤ held.length := by
      by_cases hshort : (c.pump.buf ++ c.chunk).length ≤ held.length
      · exact Nat.le_trans hcut.le hshort
      · rw [List.length_append] at hlen
        have hpart : c.pump.buf ++ c.chunk = held ++ (drainToken id).take
            ((c.pump.buf ++ c.chunk).length - held.length) := by
          have htake := congrArg
            (List.take (c.pump.buf ++ c.chunk).length) hunread
          rw [List.take_left, List.append_assoc, List.take_append,
            List.take_of_length_le (by omega),
            List.take_append_of_le_length (by omega)] at htake
          exact htake
        have := hcut.held _ rfl ((c.pump.buf ++ c.chunk).length - held.length)
          (by omega) (by omega) ⟨held, hpart.symm⟩
        omega
    obtain ⟨htake, hdrop⟩ := drop_unread hunread hcut.le
    rw [List.append_assoc, List.take_append_of_le_length hkept] at htake
    rw [List.append_assoc, List.drop_append_of_le_length hkept] at hdrop
    simp only [Capture.step, if_neg hchunk, hfalse, Bool.false_eq_true, if_false]
    refine ⟨by simp [hs.watch, hp.drain], by rw [hs.watch, ← hp.watch]
                                             exact h.fresh,
      h.within, _, held.drop kept, hs.watch.symm ▸ hs, .inr ⟨drainToken id,
        hp.drain, hs.watch, ⟨done, ?_, hcompleted⟩, ?_⟩⟩
    · rw [htake, List.append_assoc, List.take_append_drop]
      exact hclosed
    · simp only [Capture.unread, hbuf, List.append_nil]
      rw [hdrop, List.append_assoc]

end

/-- What any other sequence of bytes and watch leaves of what is sent. -/
theorem Sent.congr {q : Pump} {watch' : Option Bytes}
    (h : Sent p watch done shipped) (hwatch : q.watch = watch')
    (hdecoder : q.decoder = p.decoder) (hsent : q.sent = p.sent) :
    Sent q watch' done shipped :=
  ⟨hwatch, hdecoder.trans h.decoder, hsent ▸ h.sent⟩

theorem Inv.unwatch (h : Inv user c) (hdrain : c.drain ≠ some .written) :
    Inv user c.unwatch := by
  obtain ⟨shipped, held, hsent, hp | ⟨token, hp⟩⟩ := h.sent
  · exact ⟨rfl, fun _ heq => (nomatch heq), h.within, shipped, held,
      hsent.congr rfl rfl rfl, .inl ⟨fun heq => (nomatch heq), hp.completed,
        hp.current, hp.unread⟩⟩
  · exact absurd hp.drain hdrain

theorem Inv.step (h : Inv user c) {e : Event} (hpatient : Patient c e)
    (hfresh : FreshId user e)
    (hwithin : c.closed.flatten ++ c.current ++ e.written <+: user) :
    Inv user (c.step e) := by
  obtain ⟨shipped, held, hsent, hshape⟩ := h.sent
  cases e with
  | write data =>
    rw [Event.written, List.append_assoc] at hwithin
    refine ⟨h.watched, h.fresh, hwithin, shipped, ?_⟩
    rcases hshape with hp | ⟨token, hp⟩
    · refine ⟨held ++ data, hsent, .inl ⟨hp.drain, hp.completed, ?_, ?_⟩⟩
      · simp [Capture.step, hp.current]
      · simp [Capture.step, Capture.unread, ← hp.unread]
    · refine ⟨held, hsent, .inr ⟨token, hp.drain, hp.watch, hp.closed, ?_⟩⟩
      have hunread : c.pump.buf ++ c.chunk ++ c.pipe
          = held ++ token ++ c.current := hp.unread
      simp only [Capture.step, Capture.unread, ← List.append_assoc] at hunread ⊢
      rw [hunread]
  | drain id =>
    by_cases hnone : c.drain = none
    · simp only [Capture.step, if_pos hnone]
      rcases hshape with hp | ⟨token, hp⟩
      · refine ⟨rfl, ?_, h.within, shipped, held, hsent.congr rfl rfl rfl,
          .inl ⟨by simp, hp.completed, hp.current, hp.unread⟩⟩
        intro token heq
        exact ⟨id, (Option.some.inj heq).symm, mark_not_mem hfresh.1, hfresh.2⟩
      · rw [hp.drain] at hnone
        cases hnone
    · simpa [Capture.step, hnone] using h
  | token =>
    by_cases hwatching : c.drain = some .watching
    · simp only [Capture.step, if_pos hwatching]
      rcases hshape with hp | ⟨token, hp⟩
      · obtain ⟨token, hw⟩ : ∃ token, c.pump.watch = some token := by
          rw [← Option.isSome_iff_exists, ← h.watched, hwatching]
          rfl
        refine ⟨by simp [hw], h.fresh, by simpa using h.within, shipped, held,
          ?_, .inr ⟨token, rfl, hw, ⟨c.closed, by rw [hp.current],
            hp.completed⟩, ?_⟩⟩
        · rw [hp.completed, List.take_length] at hsent
          simpa [hp.completed] using hsent
        · have hunread := hp.unread
          simp only [Capture.unread, hw, Option.getD_some, List.append_nil]
            at hunread ⊢
          rw [← List.append_assoc, hunread]
      · rw [hp.drain] at hwatching
        cases hwatching
    · simpa [Capture.step, hwatching] using h
  | read n =>
    by_cases hchunk : c.chunk = []
    · simp only [Capture.step, if_pos hchunk]
      have hsame : ∀ c' : Capture, c' = { c with
          chunk := c.pipe.take n, pipe := c.pipe.drop n } →
          c'.unread = c.unread := by
        intro c' heq
        rw [heq]
        simp [Capture.unread, hchunk]
      refine ⟨h.watched, h.fresh, h.within, shipped, held, hsent, ?_⟩
      rcases hshape with hp | ⟨token, hp⟩
      · exact .inl ⟨hp.drain, hp.completed, hp.current,
          (hsame _ rfl).trans hp.unread⟩
      · exact .inr ⟨token, hp.drain, hp.watch, hp.closed,
          (hsame _ rfl).trans hp.unread⟩
    · simpa [Capture.step, hchunk] using h
  | feed =>
    by_cases hchunk : c.chunk = []
    · simpa [Capture.step, hchunk] using h
    · rcases hshape with hp | ⟨token, hp⟩
      · exact h.feed_plain hsent hp hchunk
      · exact h.feed_pending hsent hp hchunk
  | finish =>
    by_cases hseen : c.drain = some .seen
    · simp only [Capture.step, if_pos hseen]
      exact h.unwatch (by simp [hseen])
    · simpa [Capture.step, hseen] using h
  | interrupt => exact h.unwatch hpatient

/-- What the user has written. -/
theorem written_step (c : Capture) (e : Event) :
    (c.step e).closed.flatten ++ (c.step e).current
      = c.closed.flatten ++ c.current ++ e.written := by
  unfold Capture.step
  cases e with
  | write data => simp [Event.written]
  | interrupt => simp [Event.written, Capture.unwatch]
  | drain id | token | read n | feed | finish =>
    dsimp only
    split
    · simp [Event.written, Capture.unwatch]
    · simp [Event.written]

/-- Nothing is lost and no token is sent while no drain is cut short between
its token and the finding of it. -/
theorem faithful_along {events : List Event} (hfresh : FreshIds events)
    (hpatient : Guarded Capture.step Patient {} events) :
    Along Capture.step Faithful {} events := by
  have hall : ∀ (es : List Event) (c : Capture) (user : Bytes), Inv user c →
      c.closed.flatten ++ c.current ++ es.flatMap Event.written = user →
      (∀ e ∈ es, FreshId user e) → Guarded Capture.step Patient c es →
      Along Capture.step Faithful c es := by
    intro es
    induction es with
    | nil => exact fun c user h _ _ _ => h.faithful
    | cons e es ih =>
      intro c user h huser hf hg
      rw [List.flatMap_cons, ← List.append_assoc] at huser
      have hnext := h.step hg.1 (hf e List.mem_cons_self)
        ⟨es.flatMap Event.written, huser⟩
      refine ⟨h.faithful, ih _ user hnext ?_ (fun x hx => hf x
        (List.mem_cons_of_mem e hx)) hg.2⟩
      rw [written_step, huser]
  apply hall events {} _ ?_ rfl hfresh hpatient
  exact ⟨rfl, fun _ heq => (nomatch heq), ⟨_, rfl⟩, [], [], ⟨rfl, rfl, rfl⟩,
    .inl ⟨fun heq => (nomatch heq), rfl, rfl, rfl⟩⟩

/-- Two digits for the uuid. -/
def twoDigits : Bytes := [0x30, 0x31]

/-- A byte of the user's and a drain, whose token comes in two reads. -/
theorem faithful_drained :
    Along Capture.step Faithful {} [.write [0x68], .drain twoDigits, .token,
      .read 4, .feed, .read 64, .feed, .finish] := by
  apply faithful_along
  · intro e he
    simp only [List.mem_cons, List.not_mem_nil, or_false] at he
    rcases he with rfl | rfl | rfl | rfl | rfl | rfl | rfl | rfl
    case inr.inl =>
      have hno : ¬mark twoDigits <:+: [0x68] := by decide
      exact ⟨by decide, hno⟩
    all_goals trivial
  · exact ⟨trivial, trivial, trivial, trivial, trivial, trivial, trivial,
      trivial, trivial⟩

/-- A drain that is cut short behind its token: the token is sent. -/
theorem not_faithful_interrupted :
    ¬Along Capture.step Faithful {} [.drain twoDigits, .token, .interrupt,
      .read 64, .feed] := by
  intro h
  obtain ⟨shipped, held, token, hsegment, hsent, -⟩ := h.last.events
  have hnil : shipped ++ held = [] := (Option.some.inj hsegment).symm
  rw [(List.append_eq_nil_iff.1 hnil).1] at hsent
  revert hsent
  decide +kernel

end OneHarness.Rlm
