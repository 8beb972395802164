/-
When an abort of one caller is kept from the others.

A startup counts the calls that wait for it and were not aborted
(`Sound.waiters`), so it is aborted when the last of them is. It stays where
a later call finds it until its failure has been noticed and cleared, and
that call is then told of an abort that was not its own: nothing asks whether
the startup that is found was aborted. As long as no call finds one that was,
all is well.
-/
import OneHarness.Kernel.Startup
import OneHarness.Lib.Conserved
import OneHarness.Lib.Run

namespace OneHarness.Kernel.Startup

open Lib

-- ======== statement vocabulary

/-- The signal of a call is aborted. -/
def Manager.cancelled (m : Manager) (call : Call) : Bool :=
  call.signal.any (· ∈ m.abortedSignals)

/-- No call is rejected for another's abort, one that is aborted is settled,
and a startup is aborted only if all the calls that wait for it are. -/
structure Shared (m : Manager) : Prop where
  own : ∀ call ∈ m.calls, call.result = some .aborted
    ∨ call.result = some (.ofStartup .aborted) → m.cancelled call = true
  atOnce : ∀ call ∈ m.calls, m.cancelled call = true →
    call.result.isSome = true
  whole : ∀ (k : Nat) (startup : Startup), m.startups[k]? = some startup →
    startup.aborted = true → ∀ call ∈ m.calls, call.startup = some k →
    m.cancelled call = true

/-- A call that is not aborted already finds no startup that is. -/
def Fits (m : Manager) : Event → Prop
  | .call signal => signal.any (· ∈ m.abortedSignals) = false →
      ∀ (k : Nat) (startup : Startup), m.startPromise = some k →
        m.startups[k]? = some startup → startup.aborted = false
  | _ => True

-- ======== the invariant

/-- It waits for the startup, and counts. -/
def waitsFor (k : Nat) (call : Call) : Bool :=
  call.startup = some k && call.counted

structure Sound (m : Manager) : Prop where
  memo : m.inFlightStart = m.startPromise
    ∧ ∀ k, m.startPromise = some k → k < m.startups.length
  waiters : ∀ (k : Nat) (startup : Startup), m.startups[k]? = some startup →
    startup.waiters = m.calls.countP (waitsFor k)
  aborted : ∀ (k : Nat) (startup : Startup), m.startups[k]? = some startup →
    startup.aborted = true → startup.waiters = 0
  outcome : ∀ (k : Nat) (startup : Startup), m.startups[k]? = some startup →
    startup.outcome = some .aborted → startup.aborted = true
  known : ∀ call ∈ m.calls, ∀ k, call.startup = some k →
    k < m.startups.length
  counted : ∀ call ∈ m.calls, call.counted = false → m.cancelled call = true
  listening : ∀ call ∈ m.calls, call.listening = true → call.counted = true
  own : ∀ call ∈ m.calls, call.result = some .aborted →
    m.cancelled call = true
  told : ∀ call ∈ m.calls, call.result = some (.ofStartup .aborted) →
    ∃ (k : Nat) (startup : Startup), call.startup = some k
      ∧ m.startups[k]? = some startup ∧ startup.aborted = true

variable {m : Manager} {id : Nat}

theorem sound_start : Sound .start := by
  constructor <;> simp [Manager.start]

/-- Nobody waits for a startup that nobody found yet. -/
theorem Sound.unfound (h : Sound m) {k : Nat} (hk : m.startups.length ≤ k) :
    m.calls.countP (waitsFor k) = 0 := by
  rw [List.countP_eq_zero]
  intro call hcall hwaits
  simp only [waitsFor, Bool.and_eq_true, decide_eq_true_eq] at hwaits
  have := h.known call hcall k hwaits.1
  omega

theorem Sound.attach (h : Sound m) {k : Nat} {startup : Startup}
    (hk : m.startPromise = some k) (hget : m.startups[k]? = some startup)
    (hlive : startup.aborted = false) (signal : Option Nat) :
    Sound (m.attachStartWaiter k signal) := by
  have hmemo := h.memo
  unfold Manager.attachStartWaiter
  rw [if_neg (by simp [hmemo.1, hk])]
  refine ⟨?_, ?_, ?_, ?_, ?_, ?_, ?_, ?_, ?_⟩
  · simpa using hmemo
  · have := h.waiters
    grind [waitsFor]
  · have := h.aborted
    grind [waitsFor]
  · have := h.outcome
    grind
  · have := h.known
    grind
  · have := h.counted
    grind [Manager.cancelled]
  · have := h.listening
    grind
  · have := h.own
    grind [Manager.cancelled]
  · have := h.told
    grind

/-- The startups after a call has left. -/
theorem getElem?_detach (m : Manager) (call : Call) (k : Nat) :
    (m.detach call)[k]? = (m.startups[k]?).map fun startup =>
      if call.listening = true ∧ call.startup = some k then startup.leave
      else startup := by
  unfold Manager.detach
  cases call.startup with
  | none => simp
  | some i =>
    by_cases hl : call.listening = true
    · simp only [hl, if_true, true_and, List.getElem?_modify,
        Option.some.injEq]
      rfl
    · simp [hl]

theorem length_detach (m : Manager) (call : Call) :
    (m.detach call).length = m.startups.length := by
  unfold Manager.detach
  grind

theorem Sound.onAbort (h : Sound m) {call : Call}
    (hcall : m.calls[id]? = some call) (hcancelled : m.cancelled call = true) :
    Sound (m.onAbort id) := by
  have hmem := List.mem_of_getElem? hcall
  have hcount := fun k : Nat => countP_set_add hcall { call with
    counted := call.counted && !call.listening
    listening := false
    result := call.result.or (some .aborted) } (waitsFor k)
  have hlistening := h.listening
  have hdetached := getElem?_detach m call
  have hlength := length_detach m call
  unfold Manager.onAbort
  simp only [hcall]
  generalize m.detach call = startups at *
  refine ⟨?_, ?_, ?_, ?_, ?_, ?_, ?_, ?_, ?_⟩
  · simpa [hlength] using h.memo
  · have := h.waiters
    intro k startup hk
    rw [hdetached] at hk
    grind [waitsFor, Startup.leave]
  · intro k startup hk
    rw [hdetached] at hk
    obtain ⟨was, hwas, rfl⟩ := Option.map_eq_some_iff.1 hk
    have hwaiters := h.waiters k was hwas
    have haborted := h.aborted k was hwas
    split
    · next hl =>
        have hone : waitsFor k call = true := by
          simp [waitsFor, hl, hlistening call hmem hl.1]
        have hpos : 0 < m.calls.countP (waitsFor k) :=
          List.countP_pos_iff.2 ⟨call, hmem, hone⟩
        simp only [Startup.leave, Bool.or_eq_true, decide_eq_true_eq]
        intro hleft
        rcases hleft with hleft | hleft
        · have := haborted hleft
          omega
        · exact hleft
    · exact haborted
  · have := h.outcome
    intro k startup hk
    rw [hdetached] at hk
    grind [Startup.leave]
  · have := h.known
    grind
  · have := h.counted
    simp only [Manager.cancelled] at *
    grind
  · grind
  · have := h.own
    simp only [Manager.cancelled] at *
    grind
  · have htold := h.told
    intro c hc hresult
    have hold : ∃ c' ∈ m.calls, c'.startup = c.startup
        ∧ c'.result = some (.ofStartup .aborted) := by
      rcases List.mem_or_eq_of_mem_set hc with hc | rfl
      · exact ⟨c, hc, rfl, hresult⟩
      · refine ⟨call, hmem, rfl, ?_⟩
        cases hr : call.result <;> simp_all
    obtain ⟨c', hc', hstartup, hresult'⟩ := hold
    obtain ⟨k, startup, hk, hget, haborted⟩ := htold c' hc' hresult'
    have hnew := hdetached k
    rw [hget] at hnew
    refine ⟨k, _, hstartup.symm.trans hk, hnew, ?_⟩
    split <;> simp [Startup.leave, haborted]

-- ======== the abort

theorem onAbort_signals (m : Manager) (id : Nat) :
    (m.onAbort id).abortedSignals = m.abortedSignals
      ∧ ∀ i : Nat, ((m.onAbort id).calls[i]?).map (·.signal)
        = (m.calls[i]?).map (·.signal) := by
  unfold Manager.onAbort
  grind

/-- The call of that number is settled, if there is one. -/
def Settled (m : Manager) (i : Nat) : Prop :=
  ∀ call, m.calls[i]? = some call → call.result.isSome = true

theorem settled_onAbort (m : Manager) (id : Nat) :
    Settled (m.onAbort id) id := by
  unfold Settled Manager.onAbort
  grind

theorem Settled.onAbort {i : Nat} (h : Settled m i) (id : Nat) :
    Settled (m.onAbort id) i := by
  unfold Settled Manager.onAbort at *
  grind

theorem settled_foldl (ids : List Nat) {i : Nat}
    (h : i ∈ ids ∨ Settled m i) : Settled (ids.foldl Manager.onAbort m) i := by
  induction ids generalizing m with
  | nil => simpa using h
  | cons id ids ih =>
    apply ih
    rcases h with h | h
    · rcases List.mem_cons.1 h with rfl | h
      · exact .inr (settled_onAbort m i)
      · exact .inl h
    · exact .inr (h.onAbort id)

theorem Sound.foldl_onAbort (ids : List Nat) (h : Sound m)
    (hids : ∀ id ∈ ids, ∃ signal ∈ m.abortedSignals,
      (m.calls[id]?).map (·.signal) = some (some signal)) :
    Sound (ids.foldl Manager.onAbort m)
      ∧ (ids.foldl Manager.onAbort m).abortedSignals = m.abortedSignals
      ∧ ∀ i : Nat, ((ids.foldl Manager.onAbort m).calls[i]?).map (·.signal)
        = (m.calls[i]?).map (·.signal) := by
  induction ids generalizing m with
  | nil => exact ⟨h, rfl, fun _ => rfl⟩
  | cons id ids ih =>
    obtain ⟨hsignals, hcalls⟩ := onAbort_signals m id
    obtain ⟨signal, hsignal, hcall⟩ := hids id List.mem_cons_self
    obtain ⟨call, hget, hcall⟩ := Option.map_eq_some_iff.1 hcall
    have hcancelled : m.cancelled call = true := by
      simp [Manager.cancelled, hcall, hsignal]
    have hrest := ih (h.onAbort hget hcancelled) fun i hi => by
      rw [hsignals, hcalls]
      exact hids i (List.mem_cons_of_mem _ hi)
    rw [hsignals] at hrest
    exact ⟨hrest.1, hrest.2.1, fun i => (hrest.2.2 i).trans (hcalls i)⟩

/-- A call that is aborted is settled. -/
def AtOnce (m : Manager) : Prop :=
  ∀ call ∈ m.calls, m.cancelled call = true → call.result.isSome = true

section
variable (h : Sound m)
include h

theorem Sound.abort (honce : AtOnce m) (signal : Nat) :
    Sound (m.abort signal) ∧ AtOnce (m.abort signal) := by
  have hmark : Sound { m with abortedSignals := signal :: m.abortedSignals } := by
    have hmore : ∀ call : Call, m.cancelled call = true →
        ({ m with abortedSignals := signal :: m.abortedSignals } :
          Manager).cancelled call = true := by
      intro call
      unfold Manager.cancelled
      cases call.signal with
      | none => simp
      | some signal' =>
        intro hmem
        simp_all
    exact ⟨h.memo, h.waiters, h.aborted, h.outcome, h.known,
      fun call hcall hc => hmore call (h.counted call hcall hc), h.listening,
      fun call hcall hr => hmore call (h.own call hcall hr), h.told⟩
  unfold Manager.abort
  generalize hids : ((List.range m.calls.length).filter fun id =>
    (m.calls[id]?).any (·.signal = some signal)) = ids
  have hmem : ∀ i, i ∈ ids ↔
      (m.calls[i]?).map (·.signal) = some (some signal) := by
    intro i
    subst hids
    grind
  obtain ⟨hsound, hsignals, hcalls⟩ := hmark.foldl_onAbort ids
    fun i hi => ⟨signal, List.mem_cons_self, (hmem i).1 hi⟩
  refine ⟨hsound, fun call hcall hcancelled => ?_⟩
  obtain ⟨i, hi⟩ := List.getElem?_of_mem hcall
  have hwas := hcalls i
  rw [hi] at hwas
  obtain ⟨was, hget, hsame⟩ := Option.map_eq_some_iff.1 hwas.symm
  apply settled_foldl ids _ call hi
  by_cases hthis : call.signal = some signal
  · exact .inl ((hmem i).2 (by simpa [hthis] using hwas.symm))
  · right
    intro c hc
    obtain rfl := Option.some.inj (hget.symm.trans hc)
    apply honce was (List.mem_of_getElem? hget)
    rw [Manager.cancelled, hsignals] at hcancelled
    rw [Manager.cancelled, hsame]
    cases hs : call.signal with
    | none => simp [hs] at hcancelled
    | some signal' =>
      rw [hs] at hcancelled hthis
      have hne : signal' ≠ signal := by simpa using hthis
      simpa [hs, hne] using hcancelled

-- ======== the other events

theorem Sound.call {signal : Option Nat}
    (hfits : Fits m (.call signal)) : Sound (m.call signal) := by
  unfold Manager.call
  split
  · next haborted =>
      have hwaiters := h.waiters
      have hknown := h.known
      have hcounted := h.counted
      have hlistening := h.listening
      have hown := h.own
      have htold := h.told
      refine ⟨h.memo, ?_, h.aborted, h.outcome, ?_, ?_, ?_, ?_, ?_⟩
      · grind [waitsFor]
      · grind
      · grind [Manager.cancelled]
      · grind
      · grind [Manager.cancelled]
      · grind
  · next hlive =>
      split
      · next k hk =>
          have hget := List.getElem?_eq_getElem (h.memo.2 k hk)
          exact h.attach hk hget (hfits (by simpa using hlive) k _ hk hget) signal
      · next hnone =>
          have hnew : Sound { m with
              startups := m.startups ++ [⟨false, 0, none, false⟩]
              startPromise := some m.startups.length
              inFlightStart := some m.startups.length } := by
            have hwaiters := h.waiters
            have hunfound := h.unfound (Nat.le_refl m.startups.length)
            have haborted := h.aborted
            have houtcome := h.outcome
            have hknown := h.known
            have htold := h.told
            refine ⟨by simp, ?_, ?_, ?_, ?_, h.counted, h.listening, h.own, ?_⟩
            · grind
            · grind
            · grind
            · grind
            · grind
          have hget : (m.startups ++ [⟨false, 0, none, false⟩])[
              m.startups.length]? = some ⟨false, 0, none, false⟩ := by simp
          exact hnew.attach rfl hget rfl signal

theorem Sound.ended (id : Nat) (outcome : Outcome) :
    Sound (m.ended id outcome) := by
  unfold Manager.ended
  split
  · next startup hget =>
      split
      · next hif =>
          have hmemo := h.memo
          have hwaiters := h.waiters
          have haborted := h.aborted
          have houtcome := h.outcome
          have hknown := h.known
          have htold := h.told
          refine ⟨by simpa using hmemo, ?_, ?_, ?_, ?_, h.counted, h.listening,
            h.own, ?_⟩
          · grind
          · grind
          · grind
          · grind
          · grind
      · exact h
  · exact h

theorem Sound.settle (id : Nat) : Sound (m.settle id) := by
  have hmemo := h.memo
  have hwaiters := h.waiters
  have haborted := h.aborted
  have houtcome := h.outcome
  have hknown := h.known
  have htold := h.told
  unfold Manager.settle
  split
  · next startup hget =>
      split
      · dsimp only
        split
        · refine ⟨by simpa using hmemo, ?_, ?_, ?_, ?_, h.counted, h.listening,
            h.own, ?_⟩
          · grind
          · grind
          · grind
          · grind
          · grind
        · refine ⟨?_, ?_, ?_, ?_, ?_, h.counted, h.listening, h.own, ?_⟩
          · grind
          · grind
          · grind
          · grind
          · grind
          · grind
      · exact h
  · exact h

/-- Another result for a call, and perhaps no listener. -/
theorem Sound.setCall {call call' : Call}
    (hcall : m.calls[id]? = some call)
    (hsame : call'.startup = call.startup ∧ call'.signal = call.signal
      ∧ call'.counted = call.counted)
    (hlistening : call'.listening = true → call.listening = true)
    (hown : call'.result = some .aborted → call.result = some .aborted)
    (htold : call'.result = some (.ofStartup .aborted) →
      ∃ (k : Nat) (startup : Startup), call.startup = some k
        ∧ m.startups[k]? = some startup ∧ startup.aborted = true) :
    Sound { m with calls := m.calls.set id call' } := by
  have hcount := fun k : Nat => countP_set_add hcall call' (waitsFor k)
  have hmem := List.mem_of_getElem? hcall
  have hwaiters := h.waiters
  have hknown := h.known
  have hcounted := h.counted
  have hlistening' := h.listening
  have hown' := h.own
  have htold' := h.told
  simp only [Manager.cancelled] at *
  refine ⟨h.memo, ?_, h.aborted, h.outcome, ?_, ?_, ?_, ?_, ?_⟩
  · grind [waitsFor]
  · grind
  · grind [Manager.cancelled]
  · grind
  · grind [Manager.cancelled]
  · grind

theorem Sound.deliver (id : Nat) : Sound (m.deliver id) := by
  unfold Manager.deliver
  split
  · next call hcall =>
      split
      · next startup hstartup =>
          split
          · obtain ⟨k, hk, hget⟩ := Option.bind_eq_some_iff.1 hstartup
            refine h.setCall hcall ⟨rfl, rfl, rfl⟩ (fun hl => hl) ?_ ?_
            · dsimp only
              cases call.result <;> simp
            · intro hresult
              dsimp only at hresult
              cases hr : call.result with
              | none =>
                have houtcome : startup.outcome = some .aborted := by
                  simpa [hr] using hresult
                exact ⟨k, startup, hk, hget, h.outcome k startup hget houtcome⟩
              | some r =>
                rw [hr] at hresult
                exact h.told call (List.mem_of_getElem? hcall)
                  (hr.trans hresult)
          · exact h
      · exact h
  · exact h

theorem Sound.unlisten (id : Nat) : Sound (m.unlisten id) := by
  unfold Manager.unlisten
  split
  · next call hcall =>
      split
      · exact h.setCall hcall ⟨rfl, rfl, rfl⟩ (by simp) (fun hr => hr)
          (h.told call (List.mem_of_getElem? hcall))
      · exact h
  · exact h

omit h in
theorem atOnce_call (honce : AtOnce m) (signal : Option Nat) :
    AtOnce (m.call signal) := by
  have hnew : ∀ k (m' : Manager), m'.calls = m.calls →
      m'.abortedSignals = m.abortedSignals →
      signal.any (· ∈ m.abortedSignals) = false →
      AtOnce (m'.attachStartWaiter k signal) := by
    intro k m' hcalls hsignals hlive
    unfold AtOnce Manager.cancelled Manager.attachStartWaiter at *
    split
    · simp only [hcalls, hsignals]
      grind
    · simp only [hcalls, hsignals]
      grind
  unfold Manager.call
  split
  · unfold AtOnce Manager.cancelled at *
    grind
  · next hlive =>
      split
      · exact hnew _ m rfl rfl (by simpa using hlive)
      · exact hnew _ _ rfl rfl (by simpa using hlive)

omit h in
/-- A step of the startup or of a promise unsettles nothing. -/
theorem atOnce_step (honce : AtOnce m) (e : Event)
    (habort : ∀ signal, e ≠ .abort signal) : AtOnce (m.step e) := by
  cases e with
  | abort signal => exact absurd rfl (habort signal)
  | call signal => exact atOnce_call honce signal
  | ended id outcome =>
    simp only [Manager.step, Manager.ended]
    split
    · split <;> exact honce
    · exact honce
  | settle id =>
    simp only [Manager.step, Manager.settle]
    split
    · split
      · split <;> exact honce
      · exact honce
    · exact honce
  | deliver id =>
    simp only [Manager.step, Manager.deliver]
    split
    · split
      · split
        · unfold AtOnce Manager.cancelled at *
          grind
        · exact honce
      · exact honce
    · exact honce
  | unlisten id =>
    simp only [Manager.step, Manager.unlisten]
    split
    · split
      · unfold AtOnce Manager.cancelled at *
        grind
      · exact honce
    · exact honce

-- ======== the runs

theorem Sound.step (honce : AtOnce m) {e : Event}
    (hfits : Fits m e) : Sound (m.step e) ∧ AtOnce (m.step e) := by
  cases e with
  | call signal => exact ⟨h.call hfits, atOnce_call honce signal⟩
  | abort signal => exact h.abort honce signal
  | ended id outcome =>
    exact ⟨h.ended id outcome, atOnce_step honce _ (by simp)⟩
  | settle id => exact ⟨h.settle id, atOnce_step honce _ (by simp)⟩
  | deliver id => exact ⟨h.deliver id, atOnce_step honce _ (by simp)⟩
  | unlisten id => exact ⟨h.unlisten id, atOnce_step honce _ (by simp)⟩

/-- Nobody who waits for a startup that was aborted is not. -/
theorem Sound.shared (honce : AtOnce m) : Shared m := by
  have hwhole : ∀ (k : Nat) (startup : Startup), m.startups[k]? = some startup →
      startup.aborted = true → ∀ call ∈ m.calls, call.startup = some k →
      m.cancelled call = true := by
    intro k startup hget haborted call hcall hk
    have hzero := h.waiters k startup hget
    rw [h.aborted k startup hget haborted, eq_comm, Int.natCast_eq_zero,
      List.countP_eq_zero] at hzero
    apply h.counted call hcall
    simpa [waitsFor, hk] using hzero call hcall
  refine ⟨fun call hcall hresult => ?_, honce, hwhole⟩
  rcases hresult with hresult | hresult
  · exact h.own call hcall hresult
  · obtain ⟨k, startup, hk, hget, haborted⟩ := h.told call hcall hresult
    exact hwhole k startup hget haborted call hcall hk

end

/-- As long as no call finds a startup that was aborted, an abort of one
caller is kept from the others. -/
theorem shared_along (events : List Event)
    (hfits : Run.Guarded Manager.step Fits .start events) :
    Run.Along Manager.step Shared .start events := by
  have hboth := Run.along_of_kept
    (P := fun m : Manager => Sound m ∧ AtOnce m)
    (fun m e hm he => hm.1.step hm.2 he)
    ⟨sound_start, fun call hcall => nomatch hcall⟩ hfits
  exact hboth.mono fun m hm => hm.1.shared hm.2

/-- Two callers, of whom one goes away, and then the other. -/
theorem shared_along_two : Run.Along Manager.step Shared .start
    [.call (some 0), .call (some 1), .abort 0, .abort 1, .ended 0 .aborted,
      .settle 0, .call none] := by
  apply shared_along
  refine ⟨?_, ?_, trivial, trivial, trivial, trivial, ?_, trivial⟩
  · intro _ k startup hk
    cases hk
  · intro _ k startup hk hget
    cases hk
    cases hget
    rfl
  · intro _ k startup hk
    cases hk

/-- The only caller goes away, and another comes before the startup has
noticed. -/
theorem not_shared_late : ¬Run.Along Manager.step Shared .start
    [.call (some 0), .abort 0, .call none, .ended 0 .aborted, .settle 0,
      .deliver 1] := by
  intro halong
  have hown := halong.last.own ⟨none, some 0, true, false,
    some (.ofStartup .aborted)⟩ (by decide) (.inr rfl)
  cases hown

end OneHarness.Kernel.Startup
