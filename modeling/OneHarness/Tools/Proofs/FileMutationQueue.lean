/-
When the changes to one file are kept apart, along any run of the calls.

# The queue of a key

A call waits for the last call of its key that was not settled when it was
made, and that one for the one before it: a call that goes on has only
settled calls of its key before it (`Queue.before_ready`). The map holds the
last call of a key that is not settled.

# The files

So functions are kept apart and in order by their keys. A key is found when
a call is made, and the file may be led to by another key then, or come to
be later: a path to a file that does not exist keeps its links. What is
needed is that calls that can meet at a file have the same key (`Keyed`),
which only a call or a change of the file system can spoil.
-/
import OneHarness.Tools.FileMutationQueue
import OneHarness.Lib.Run

namespace OneHarness.Tools.FileMutationQueue

open Lib

variable {φ : Type}

-- ======== statement vocabulary

/-- It is the call of that number. -/
abbrev World.At (w : World φ) (i : Nat) (call : Call φ) : Prop :=
  w.calls[i]? = some call

/-- The files a call may change: those its path has led to while its function
ran, or, before that, the one it leads to now. -/
def World.files (w : World φ) (call : Call φ) : List φ :=
  if call.phase = .queued then [w.fs.denotes call.filePath] else call.seen

/-- They have a file in common. -/
def Meet (files files' : List φ) : Prop := ∃ file ∈ files, file ∈ files'

/-- Functions that change one file are not in flight together and are started
in the order of their calls, and nothing is left of calls that are settled. -/
structure Exclusive (w : World φ) : Prop where
  apart : ∀ i j c d, w.At i c → w.At j d →
    c.phase = .running → d.phase = .running → i ≠ j →
    ¬Meet (w.files c) (w.files d)
  ordered : w.started.Pairwise fun i j => ∀ c d, w.At i c → w.At j d →
    Meet (w.files c) (w.files d) → i < j
  cleaned : (∀ i c, w.At i c → c.phase.isSettled = true) →
    w.fileMutationQueues = []

/-- The first call is not settled, and the second is not either or was made
or started later. -/
def World.Rivals (w : World φ) (i j : Nat) : Prop :=
  ∃ c d, w.At i c ∧ w.At j d ∧ i ≠ j ∧ c.phase.isSettled = false
    ∧ (d.phase.isSettled = false ∨ i < j ∨ [i, j].Sublist w.started)

/-- Calls that can still meet at a file have the same key. -/
def Keyed (w : World φ) : Prop :=
  ∀ i j c d, w.At i c → w.At j d → w.Rivals i j →
    Meet (w.files c) (w.files d) → c.key = d.key

/-- The event does not lead two keys to one file: a call has the key of every
call it may meet, and so have those that a change of the file system brings
together. -/
def Fits (w : World φ) : Event φ → Prop
  | .call filePath =>
    ∀ i c, w.At i c → c.phase.isSettled = false →
      Meet (w.files c) [w.fs.denotes filePath] →
      c.key = getMutationQueueKey w.fs filePath
  | .change fs => Keyed (w.change fs)
  | _ => True

variable {w : World φ} {i : Nat} {c d : Call φ}

theorem World.At.unique (hc : w.At i c) (hd : w.At i d) : c = d :=
  Option.some.inj (hc.symm.trans hd)

-- ======== what a step does

/-- What a step does to a call. -/
structure Call.Advances (w : World φ) (c c' : Call φ) : Prop where
  key : c'.key = c.key
  currentQueue : c'.currentQueue = c.currentQueue
  settled : c.phase.isSettled = true → c'.phase.isSettled = true
  chained : c'.chained = true →
    c.chained = true ∨ (w.ready c = true ∧ c.phase.isSettled = true)
  begun : c'.phase ≠ .queued → c.phase ≠ .queued ∨ w.ready c = true

/-- What it does to the calls there are. -/
structure Advances (w w' : World φ) (f : Nat → Call φ → Call φ) :
    Prop where
  calls : ∀ i, w'.calls[i]? = (w.calls[i]?).map (f i)
  each : ∀ i c, w.At i c → Call.Advances w c (f i c)

variable {w' : World φ} {f : Nat → Call φ → Call φ}

/-- A call of the state after it, and the call it was. -/
theorem Advances.was (h : Advances w w' f) (hd : w'.At i d) :
    ∃ c, w.At i c ∧ d = f i c := by
  rw [World.At, h.calls] at hd
  obtain ⟨c, hc, rfl⟩ := Option.map_eq_some_iff.1 hd
  exact ⟨c, hc, rfl⟩

theorem Advances.is (h : Advances w w' f)
    (hc : w.At i c) : w'.At i (f i c) := by
  rw [World.At, h.calls, hc]
  rfl

-- ======== the queue of a key

/-- The calls of a key go on one after the other. -/
structure Queue (w : World φ) : Prop where
  found : ∀ i c q, w.At i c → c.currentQueue = some q →
    ∃ d, w.At q d ∧ d.key = c.key
  earlier : ∀ i j c d, w.At i c → w.At j d → j < i →
    d.key = c.key → d.phase.isSettled = true
      ∨ ∃ q, c.currentQueue = some q ∧ j ≤ q
  chained : ∀ q j c d, w.At q c → w.At j d →
    c.chained = true → j ≤ q → d.key = c.key → d.phase.isSettled = true
  begun : ∀ i j c d, w.At i c → w.At j d →
    c.phase ≠ .queued → j < i → d.key = c.key → d.phase.isSettled = true

/-- The map holds the last call of a key, unless it is settled. -/
structure Kept (w : World φ) : Prop where
  last : ∀ key q, w.fileMutationQueues.get key = some q →
    ∃ c, w.At q c ∧ c.key = key ∧ c.phase.isSettled = false
      ∧ ∀ i d, w.At i d → d.key = key → i ≤ q
  unsettled : ∀ i c, w.At i c → c.phase.isSettled = false →
    w.fileMutationQueues.get c.key ≠ none

/-- Before a call that goes on, the calls of its key are settled. -/
theorem Queue.before_ready (h : Queue w) {j : Nat}
    (hc : w.At i c) (hd : w.At j d)
    (hready : w.ready c = true) (hij : j < i) (hkey : d.key = c.key) :
    d.phase.isSettled = true := by
  rcases h.earlier i j c d hc hd hij hkey with hsettled | ⟨q, hq, hjq⟩
  · exact hsettled
  · obtain ⟨e, he, hekey⟩ := h.found i c q hc hq
    rw [World.ready, hq] at hready
    dsimp only at hready
    rw [he] at hready
    exact h.chained q j e d he hd hready hjq (hkey.trans hekey.symm)

theorem Queue.advance (h : Queue w) (hadv : Advances w w' f) : Queue w' := by
  refine ⟨?_, ?_, ?_, ?_⟩
  · intro i c' q hc' hq
    obtain ⟨c, hc, rfl⟩ := hadv.was hc'
    rw [(hadv.each i c hc).currentQueue] at hq
    obtain ⟨d, hd, hkey⟩ := h.found i c q hc hq
    refine ⟨f q d, hadv.is hd, ?_⟩
    rw [(hadv.each q d hd).key, (hadv.each i c hc).key, hkey]
  · intro i j c' d' hc' hd' hij hkey
    obtain ⟨c, hc, rfl⟩ := hadv.was hc'
    obtain ⟨d, hd, rfl⟩ := hadv.was hd'
    rw [(hadv.each j d hd).key, (hadv.each i c hc).key] at hkey
    rcases h.earlier i j c d hc hd hij hkey with hsettled | ⟨q, hq, hjq⟩
    · exact .inl ((hadv.each j d hd).settled hsettled)
    · exact .inr ⟨q, (hadv.each i c hc).currentQueue.trans hq, hjq⟩
  · intro q j c' d' hc' hd' hchained hjq hkey
    obtain ⟨c, hc, rfl⟩ := hadv.was hc'
    obtain ⟨d, hd, rfl⟩ := hadv.was hd'
    rw [(hadv.each j d hd).key, (hadv.each q c hc).key] at hkey
    apply (hadv.each j d hd).settled
    rcases (hadv.each q c hc).chained hchained with
      hold | ⟨hready, hsettled⟩
    · exact h.chained q j c d hc hd hold hjq hkey
    · by_cases heq : j = q
      · subst heq
        exact World.At.unique hc hd ▸ hsettled
      · exact h.before_ready hc hd hready (by omega) hkey
  · intro i j c' d' hc' hd' hbegun hij hkey
    obtain ⟨c, hc, rfl⟩ := hadv.was hc'
    obtain ⟨d, hd, rfl⟩ := hadv.was hd'
    rw [(hadv.each j d hd).key, (hadv.each i c hc).key] at hkey
    apply (hadv.each j d hd).settled
    rcases (hadv.each i c hc).begun hbegun with hold | hready
    · exact h.begun i j c d hc hd hold hij hkey
    · exact h.before_ready hc hd hready hij hkey

theorem Kept.advance (h : Kept w) (hadv : Advances w w' f)
    (hmap : w'.fileMutationQueues = w.fileMutationQueues)
    (hsame : ∀ i c, w.At i c →
      (f i c).phase.isSettled = c.phase.isSettled) : Kept w' := by
  refine ⟨fun key q hq => ?_, fun i c' hc' hopen => ?_⟩
  · rw [hmap] at hq
    obtain ⟨c, hc, hkey, hopen, hlast⟩ := h.last key q hq
    refine ⟨f q c, hadv.is hc, (hadv.each q c hc).key.trans hkey,
      (hsame q c hc).trans hopen, fun i d' hd' hdkey => ?_⟩
    obtain ⟨d, hd, rfl⟩ := hadv.was hd'
    exact hlast i d hd ((hadv.each i d hd).key.symm.trans hdkey)
  · obtain ⟨c, hc, rfl⟩ := hadv.was hc'
    rw [hmap, (hadv.each i c hc).key]
    exact h.unsettled i c hc ((hsame i c hc).symm.trans hopen)

/-- The calls that were started, in an order that is the order of the calls
of each key. -/
structure Begun (w : World φ) : Prop where
  started : ∀ i, i ∈ w.started ↔ ∃ c, w.At i c ∧ c.phase ≠ .queued
  inOrder : w.started.Pairwise fun i j => ∀ c d, w.At i c → w.At j d →
    c.key = d.key → i < j

theorem Begun.advance (h : Begun w) (hadv : Advances w w' f)
    (hstarted : w'.started = w.started)
    (hsame : ∀ i c, w.At i c →
      ((f i c).phase = .queued ↔ c.phase = .queued)) : Begun w' := by
  refine ⟨fun i => ?_, ?_⟩
  · rw [hstarted, h.started]
    constructor
    · rintro ⟨c, hc, hbegun⟩
      exact ⟨f i c, hadv.is hc, fun hq => hbegun ((hsame i c hc).1 hq)⟩
    · rintro ⟨c', hc', hbegun⟩
      obtain ⟨c, hc, rfl⟩ := hadv.was hc'
      exact ⟨c, hc, fun hq => hbegun ((hsame i c hc).2 hq)⟩
  · rw [hstarted]
    refine h.inOrder.imp fun {i j} hij c' d' hc' hd' hkey => ?_
    obtain ⟨c, hc, rfl⟩ := hadv.was hc'
    obtain ⟨d, hd, rfl⟩ := hadv.was hd'
    rw [(hadv.each i c hc).key, (hadv.each j d hd).key] at hkey
    exact hij c d hc hd hkey

/-- What holds of a world whatever happens. -/
structure Sound (w : World φ) : Prop where
  queue : Queue w
  kept : Kept w
  begun : Begun w

theorem Sound.advance (h : Sound w) (hadv : Advances w w' f)
    (hmap : w'.fileMutationQueues = w.fileMutationQueues)
    (hstarted : w'.started = w.started)
    (hsettled : ∀ i c, w.At i c →
      (f i c).phase.isSettled = c.phase.isSettled)
    (hqueued : ∀ i c, w.At i c →
      ((f i c).phase = .queued ↔ c.phase = .queued)) : Sound w' :=
  ⟨h.queue.advance hadv, h.kept.advance hadv hmap hsettled,
    h.begun.advance hadv hstarted hqueued⟩

-- ======== the single steps

/-- One call is another, the rest are as they were. -/
def replaced (id : Nat) (call : Call φ) (i : Nat) (c : Call φ) : Call φ :=
  if i = id then call else c

theorem replaced_self (id : Nat) (call c : Call φ) :
    replaced id call id c = call := if_pos rfl

variable {id : Nat}

theorem replaced_ne (h : i ≠ id) (call c : Call φ) :
    replaced id call i c = c := if_neg h

theorem advances_replaced {call call' : Call φ}
    (hcall : w.At id call) (hcalls : w'.calls = w.calls.set id call')
    (hadv : call.Advances w call') : Advances w w' (replaced id call') := by
  refine ⟨fun i => ?_, fun i c hc => ?_⟩
  · rw [hcalls, List.getElem?_set]
    by_cases hi : id = i
    · subst hi
      have hlt := (List.getElem?_eq_some_iff.1 hcall).1
      rw [if_pos rfl, if_pos hlt, hcall, Option.map_some, replaced_self]
    · rw [if_neg hi]
      cases w.calls[i]? with
      | none => rfl
      | some c => rw [Option.map_some, replaced_ne fun h => hi h.symm]
  · by_cases hi : i = id
    · subst hi
      rw [replaced_self, World.At.unique hc hcall]
      exact hadv
    · rw [replaced_ne hi]
      exact ⟨rfl, rfl, fun hs => hs, .inl, .inl⟩

theorem chain_cases (w : World φ) (id : Nat) :
    w.chain id = w ∨ ∃ call, w.At id call
      ∧ w.chain id
        = { w with calls := w.calls.set id { call with chained := true } }
      ∧ Advances w (w.chain id)
        (replaced id { call with chained := true }) := by
  rw [World.chain]
  cases hcall : w.calls[id]? with
  | none => exact .inl rfl
  | some call =>
    dsimp only
    by_cases h : w.ready call = true ∧ call.phase.isSettled = true
    · rw [if_pos h]
      exact .inr ⟨call, hcall, rfl, advances_replaced hcall rfl
        ⟨rfl, rfl, fun hs => hs, fun _ => .inr h, .inl⟩⟩
    · rw [if_neg h]
      exact .inl rfl

theorem run_cases (w : World φ) (id : Nat) :
    w.run id = w ∨ ∃ call, w.At id call ∧ call.phase = .queued
      ∧ w.run id
        = { w with
            calls := w.calls.set id { call with
              phase := .running
              seen := [w.fs.denotes call.filePath] }
            started := w.started ++ [id] }
      ∧ Advances w (w.run id) (replaced id { call with
          phase := .running
          seen := [w.fs.denotes call.filePath] }) := by
  rw [World.run]
  cases hcall : w.calls[id]? with
  | none => exact .inl rfl
  | some call =>
    dsimp only
    by_cases h : w.ready call = true ∧ call.phase = .queued
    · rw [if_pos h]
      refine .inr ⟨call, hcall, h.2, rfl, advances_replaced hcall rfl
        ⟨rfl, rfl, fun hs => ?_, .inl, fun _ => .inr h.1⟩⟩
      rw [h.2] at hs
      cases hs
    · rw [if_neg h]
      exact .inl rfl

theorem settle_cases (w : World φ) (id : Nat) (threw : Bool) :
    w.settle id threw = w ∨ ∃ call, w.At id call ∧ call.phase = .running
      ∧ w.settle id threw
        = { w with
            calls := w.calls.set id { call with phase := .settled threw }
            fileMutationQueues :=
              if w.fileMutationQueues.get call.key = some id then
                w.fileMutationQueues.delete call.key
              else w.fileMutationQueues }
      ∧ Advances w (w.settle id threw)
        (replaced id { call with phase := .settled threw }) := by
  rw [World.settle]
  cases hcall : w.calls[id]? with
  | none => exact .inl rfl
  | some call =>
    dsimp only
    by_cases h : call.phase = .running
    · rw [if_pos h]
      refine .inr ⟨call, hcall, h, rfl, advances_replaced hcall rfl
        ⟨rfl, rfl, fun _ => rfl, .inl, fun _ => .inl ?_⟩⟩
      rw [h]
      exact Phase.noConfusion
    · rw [if_neg h]
      exact .inl rfl

/-- What all calls share that are left alone, a replaced one has too. -/
theorem replaced_same {α : Type}
    {call call' : Call φ} (hcall : w.At id call) (g : Call φ → α)
    (hg : g call' = g call) (hc : w.At i c) :
    g (replaced id call' i c) = g c := by
  by_cases hi : i = id
  · subst hi
    rw [replaced_self, World.At.unique hc hcall]
    exact hg
  · rw [replaced_ne hi]

variable {fs : FileSystem φ}

theorem Call.after_of_running (h : c.phase = .running) :
    c.after fs = { c with seen := c.seen ++ [fs.denotes c.filePath] } :=
  if_pos h

theorem Call.after_of_not_running
    (h : c.phase ≠ .running) : c.after fs = c := if_neg h

/-- A change of the file system shows in what a call has seen only. -/
theorem Call.after_same (fs : FileSystem φ) (c : Call φ) :
    ∃ seen, c.after fs = { c with seen := seen } := by
  by_cases h : c.phase = .running
  · exact ⟨_, after_of_running h⟩
  · exact ⟨c.seen, after_of_not_running h⟩

theorem change_advances (w : World φ) (fs : FileSystem φ) :
    Advances w (w.change fs) fun _ c => c.after fs := by
  refine ⟨fun i => List.getElem?_map, fun i c _ => ?_⟩
  obtain ⟨seen, heq⟩ := c.after_same fs
  rw [heq]
  exact ⟨rfl, rfl, fun hs => hs, .inl, .inl⟩

-- ------------------------------------------------------------- they are sound

theorem Sound.chain (h : Sound w) (id : Nat) : Sound (w.chain id) := by
  rcases chain_cases w id with heq | ⟨call, hcall, heq, hadv⟩
  · rw [heq]
    exact h
  · refine h.advance hadv (by rw [heq]) (by rw [heq]) (fun i c hc => ?_)
      (fun i c hc => ?_)
    · refine replaced_same hcall (fun c => c.phase.isSettled) ?_ hc
      rfl
    · refine iff_of_eq (replaced_same hcall (fun c => c.phase = .queued) ?_ hc)
      rfl

theorem Sound.change (h : Sound w) (fs : FileSystem φ) :
    Sound (w.change fs) := by
  refine h.advance (change_advances w fs) rfl rfl (fun i c _ => ?_)
    (fun i c _ => ?_)
  · obtain ⟨seen, heq⟩ := c.after_same fs
    rw [heq]
  · obtain ⟨seen, heq⟩ := c.after_same fs
    rw [heq]

theorem Sound.run (h : Sound w) (id : Nat) : Sound (w.run id) := by
  rcases run_cases w id with heq | ⟨call, hcall, hqueued, heq, hadv⟩
  · rw [heq]
    exact h
  · have hstarted : (w.run id).started = w.started ++ [id] := by rw [heq]
    refine ⟨h.queue.advance hadv,
      h.kept.advance hadv (by rw [heq]) fun i c hc => ?_, ?_, ?_⟩
    · refine replaced_same hcall (fun c => c.phase.isSettled) ?_ hc
      dsimp only
      rw [hqueued]
      rfl
    · intro i
      rw [hstarted, List.mem_append, h.begun.started, List.mem_singleton]
      constructor
      · rintro (⟨c, hc, hbegun⟩ | rfl)
        · refine ⟨_, hadv.is hc, fun hq => hbegun ?_⟩
          by_cases hi : i = id
          · subst hi
            rw [replaced_self] at hq
            cases hq
          · rwa [replaced_ne hi] at hq
        · refine ⟨_, hadv.is hcall, fun hq => ?_⟩
          rw [replaced_self] at hq
          cases hq
      · rintro ⟨c', hc', hbegun⟩
        obtain ⟨c, hc, rfl⟩ := hadv.was hc'
        by_cases hi : i = id
        · exact .inr hi
        · rw [replaced_ne hi] at hbegun
          exact .inl ⟨c, hc, hbegun⟩
    · -- a later call of its key would not have been started before it
      rw [hstarted]
      refine List.pairwise_append.2 ⟨?_, List.pairwise_singleton _ _, ?_⟩
      · refine h.begun.inOrder.imp fun {i j} hij c' d' hc' hd' hkey => ?_
        obtain ⟨c, hc, rfl⟩ := hadv.was hc'
        obtain ⟨d, hd, rfl⟩ := hadv.was hd'
        rw [(hadv.each i c hc).key, (hadv.each j d hd).key] at hkey
        exact hij c d hc hd hkey
      · intro i hi j hj c' d' hc' hd' hkey
        obtain rfl := List.mem_singleton.1 hj
        obtain ⟨c, hc, hbegun⟩ := (h.begun.started i).1 hi
        obtain ⟨c₁, hc₁, rfl⟩ := hadv.was hc'
        obtain rfl := World.At.unique hc hc₁
        obtain ⟨d, hd, rfl⟩ := hadv.was hd'
        obtain rfl := World.At.unique hd hcall
        rw [(hadv.each i c hc).key, (hadv.each j d hd).key] at hkey
        by_contra hle
        by_cases hij : i = j
        · subst hij
          rw [World.At.unique hc hd] at hbegun
          exact hbegun hqueued
        · have hsettled := h.queue.begun i j c d hc hd hbegun (by omega)
            hkey.symm
          rw [hqueued] at hsettled
          cases hsettled

theorem Sound.settle (h : Sound w) (id : Nat) (threw : Bool) :
    Sound (w.settle id threw) := by
  rcases settle_cases w id threw with
    heq | ⟨call, hcall, hrunning, heq, hadv⟩
  · rw [heq]
    exact h
  · have hbegun : call.phase ≠ .queued := by
      rw [hrunning]
      exact Phase.noConfusion
    refine ⟨h.queue.advance hadv,
      ⟨fun key q hq => ?_, fun i c' hc' hopen => ?_⟩,
      h.begun.advance hadv (by rw [heq]) fun i c hc => ?_⟩
    · -- what the map still holds is another call
      have hkept : w.fileMutationQueues.get key = some q ∧ q ≠ id := by
        rw [heq] at hq
        dsimp only at hq
        by_cases hown : w.fileMutationQueues.get call.key = some id
        · rw [if_pos hown, JsMap.get_delete] at hq
          by_cases hkey : call.key = key
          · rw [if_pos hkey] at hq
            cases hq
          · rw [if_neg hkey] at hq
            refine ⟨hq, ?_⟩
            rintro rfl
            obtain ⟨c, hc, hckey, -⟩ := h.kept.last key q hq
            rw [World.At.unique hc hcall] at hckey
            exact hkey hckey
        · rw [if_neg hown] at hq
          refine ⟨hq, ?_⟩
          rintro rfl
          obtain ⟨c, hc, hckey, -⟩ := h.kept.last key q hq
          rw [World.At.unique hc hcall] at hckey
          exact hown (hckey ▸ hq)
      obtain ⟨c, hc, hkey, hopen, hlast⟩ := h.kept.last key q hkept.1
      refine ⟨_, hadv.is hc, ?_, ?_, fun i d' hd' hdkey => ?_⟩
      · rw [replaced_ne hkept.2]
        exact hkey
      · rw [replaced_ne hkept.2]
        exact hopen
      · obtain ⟨d, hd, rfl⟩ := hadv.was hd'
        exact hlast i d hd ((hadv.each i d hd).key.symm.trans hdkey)
    · obtain ⟨c, hc, rfl⟩ := hadv.was hc'
      by_cases hi : i = id
      · subst hi
        rw [replaced_self] at hopen
        cases hopen
      · rw [replaced_ne hi] at hopen ⊢
        have hget := h.kept.unsettled i c hc hopen
        rw [heq]
        dsimp only
        by_cases hown : w.fileMutationQueues.get call.key = some id
        · rw [if_pos hown, JsMap.get_delete]
          by_cases hkey : call.key = c.key
          · -- it would be behind the call that is kept for its key
            exfalso
            obtain ⟨_, -, -, -, hlast⟩ := h.kept.last call.key id hown
            have hle := hlast i c hc hkey.symm
            have hsettled := h.queue.begun id i call c hcall hc hbegun
              (by omega) hkey.symm
            rw [hsettled] at hopen
            cases hopen
          · rw [if_neg hkey]
            exact hget
        · rw [if_neg hown]
          exact hget
    · by_cases hi : i = id
      · subst hi
        rw [replaced_self, World.At.unique hc hcall, hrunning]
        exact iff_of_false Phase.noConfusion Phase.noConfusion
      · rw [replaced_ne hi]

/-- The call that is made. -/
def newCall (w : World φ) (filePath : FilePath) : Call φ :=
  ⟨filePath, getMutationQueueKey w.fs filePath,
    w.fileMutationQueues.get (getMutationQueueKey w.fs filePath), .queued,
    false, []⟩

theorem at_call (w : World φ) (filePath : FilePath) (i : Nat) (d : Call φ) :
    (w.withFileMutationQueue filePath).At i d
      ↔ w.At i d ∨ (i = w.calls.length ∧ d = newCall w filePath) := by
  change (w.calls ++ [newCall w filePath])[i]? = some d ↔ _
  by_cases hlt : i < w.calls.length
  · rw [List.getElem?_append_left hlt]
    exact (or_iff_left fun h => Nat.ne_of_lt hlt h.1).symm
  · have hnone : ¬w.At i d := fun hd =>
      hlt (List.getElem?_eq_some_iff.1 hd).1
    rw [or_iff_right hnone]
    constructor
    · intro hd
      have hlen := (List.getElem?_eq_some_iff.1 hd).1
      rw [List.length_append, List.length_singleton] at hlen
      obtain rfl : i = w.calls.length := by omega
      rw [List.getElem?_concat_length] at hd
      exact ⟨rfl, (Option.some.inj hd).symm⟩
    · rintro ⟨rfl, rfl⟩
      exact List.getElem?_concat_length

theorem World.At.lt (h : w.At i c) :
    i < w.calls.length := (List.getElem?_eq_some_iff.1 h).1

theorem Sound.call (h : Sound w) (filePath : FilePath) :
    Sound (w.withFileMutationQueue filePath) := by
  have hold : ∀ {i c}, w.At i c →
      (w.withFileMutationQueue filePath).At i c :=
    fun hc => (at_call w filePath _ _).2 (.inl hc)
  have hnew := (at_call w filePath _ _).2 (.inr ⟨rfl, rfl⟩)
  -- an earlier call is an old one
  have hbefore : ∀ {i j d}, (w.withFileMutationQueue filePath).At j d →
      j < i → i ≤ w.calls.length → w.At j d := by
    intro i j d hd hji hi
    rcases (at_call w filePath _ _).1 hd with hd | ⟨rfl, -⟩
    · exact hd
    · omega
  refine ⟨⟨?_, ?_, ?_, ?_⟩, ⟨?_, ?_⟩, ⟨?_, ?_⟩⟩
  · intro i c q hc hq
    rcases (at_call w filePath _ _).1 hc with hc | ⟨rfl, rfl⟩
    · obtain ⟨d, hd, hkey⟩ := h.queue.found i c q hc hq
      exact ⟨d, hold hd, hkey⟩
    · obtain ⟨d, hd, hkey, -⟩ := h.kept.last _ q hq
      exact ⟨d, hold hd, hkey⟩
  · intro i j c d hc hd hji hkey
    rcases (at_call w filePath _ _).1 hc with hc | ⟨rfl, rfl⟩
    · have hd := hbefore hd hji (Nat.le_of_lt (World.At.lt hc))
      exact h.queue.earlier i j c d hc hd hji hkey
    · have hd := hbefore hd hji (Nat.le_refl _)
      cases hsettled : d.phase.isSettled with
      | true => exact .inl rfl
      | false =>
        have hget := h.kept.unsettled j d hd hsettled
        obtain ⟨q, hq⟩ := Option.ne_none_iff_exists'.1 hget
        obtain ⟨_, -, -, -, hlast⟩ := h.kept.last d.key q hq
        rw [hkey] at hq
        exact .inr ⟨q, hq, hlast j d hd rfl⟩
  · intro q j c d hc hd hchained hjq hkey
    rcases (at_call w filePath _ _).1 hc with hc | ⟨rfl, rfl⟩
    · have hd := hbefore hd (Nat.lt_succ_of_le hjq) (World.At.lt hc)
      exact h.queue.chained q j c d hc hd hchained hjq hkey
    · cases hchained
  · intro i j c d hc hd hbegun hji hkey
    rcases (at_call w filePath _ _).1 hc with hc | ⟨rfl, rfl⟩
    · have hd := hbefore hd hji (Nat.le_of_lt (World.At.lt hc))
      exact h.queue.begun i j c d hc hd hbegun hji hkey
    · exact absurd rfl hbegun
  · intro key q hq
    rw [World.withFileMutationQueue] at hq
    dsimp only at hq
    rw [JsMap.get_set] at hq
    by_cases hkey : getMutationQueueKey w.fs filePath = key
    · rw [if_pos hkey] at hq
      obtain rfl := Option.some.inj hq
      refine ⟨_, hnew, hkey, rfl, fun i d hd _ => ?_⟩
      rcases (at_call w filePath _ _).1 hd with hd | ⟨rfl, -⟩
      · exact Nat.le_of_lt (World.At.lt hd)
      · exact Nat.le_refl _
    · rw [if_neg hkey] at hq
      obtain ⟨c, hc, hckey, hopen, hlast⟩ := h.kept.last key q hq
      refine ⟨c, hold hc, hckey, hopen, fun i d hd hdkey => ?_⟩
      rcases (at_call w filePath _ _).1 hd with hd | ⟨rfl, rfl⟩
      · exact hlast i d hd hdkey
      · exact absurd hdkey hkey
  · intro i c hc hopen
    rw [World.withFileMutationQueue]
    dsimp only
    rw [JsMap.get_set]
    by_cases hkey : getMutationQueueKey w.fs filePath = c.key
    · rw [if_pos hkey]
      exact Option.some_ne_none _
    · rw [if_neg hkey]
      rcases (at_call w filePath _ _).1 hc with hc | ⟨rfl, rfl⟩
      · exact h.kept.unsettled i c hc hopen
      · exact absurd rfl hkey
  · intro i
    refine (h.begun.started i).trans ⟨?_, ?_⟩
    · rintro ⟨c, hc, hbegun⟩
      exact ⟨c, hold hc, hbegun⟩
    · rintro ⟨c, hc, hbegun⟩
      rcases (at_call w filePath _ _).1 hc with hc | ⟨rfl, rfl⟩
      · exact ⟨c, hc, hbegun⟩
      · exact absurd rfl hbegun
  · refine h.begun.inOrder.imp_of_mem fun {i j} hi hj hij c d hc hd => ?_
    obtain ⟨c', hc', -⟩ := (h.begun.started i).1 hi
    obtain ⟨d', hd', -⟩ := (h.begun.started j).1 hj
    rw [World.At.unique hc (hold hc'), World.At.unique hd (hold hd')]
    exact hij c' d' hc' hd'

theorem Sound.step (h : Sound w) (e : Event φ) : Sound (w.step e) := by
  cases e with
  | call filePath => exact h.call filePath
  | chain id => exact h.chain id
  | run id => exact h.run id
  | settle id threw => exact h.settle id threw
  | change fs => exact h.change fs

theorem sound_start (fs : FileSystem φ) : Sound (World.start fs) := by
  have hnone : ∀ {i : Nat} {c : Call φ}, ¬(World.start fs).At i c :=
    fun hc => Nat.not_lt_zero _ (World.At.lt hc)
  refine ⟨⟨?_, ?_, ?_, ?_⟩, ⟨?_, ?_⟩, ⟨?_, List.Pairwise.nil⟩⟩
  · exact fun i c q hc => absurd hc hnone
  · exact fun i j c d hc => absurd hc hnone
  · exact fun q j c d hc => absurd hc hnone
  · exact fun i j c d hc => absurd hc hnone
  · exact fun key q hq => absurd hq (Option.some_ne_none q).symm
  · exact fun i c hc => absurd hc hnone
  · refine fun i => iff_of_false List.not_mem_nil ?_
    rintro ⟨c, hc, -⟩
    exact hnone hc

-- ======== kept apart

/-- What holds as long as the events fit. -/
structure Safe (w : World φ) : Prop where
  keyed : Keyed w
  ordered : w.started.Pairwise fun i j => ∀ c d, w.At i c → w.At j d →
    Meet (w.files c) (w.files d) → i < j

theorem Meet.symm {files files' : List φ} (h : Meet files files') :
    Meet files' files := by
  obtain ⟨file, hfile, hfile'⟩ := h
  exact ⟨file, hfile', hfile⟩

section
variable (h : Safe w)
include h

theorem Safe.exclusive (hsound : Sound w) : Exclusive w := by
  -- of two that are in flight the later one has waited for the other
  have hlater : ∀ i j c d, w.At i c → w.At j d → c.phase = .running →
      d.phase = .running → i < j → ¬Meet (w.files c) (w.files d) := by
    intro i j c d hc hd hci hdj hij hmeet
    have hopen : c.phase.isSettled = false := by rw [hci]; rfl
    have hopen' : d.phase.isSettled = false := by rw [hdj]; rfl
    have hkey := h.keyed i j c d hc hd
      ⟨c, d, hc, hd, Nat.ne_of_lt hij, hopen, .inl hopen'⟩ hmeet
    have hbegun : d.phase ≠ .queued := by
      rw [hdj]
      exact Phase.noConfusion
    rw [hsound.queue.begun j i d c hd hc hbegun hij hkey] at hopen
    cases hopen
  refine ⟨fun i j c d hc hd hci hdj hne hmeet => ?_, h.ordered, fun hall => ?_⟩
  · by_cases hij : i < j
    · exact hlater i j c d hc hd hci hdj hij hmeet
    · exact hlater j i d c hd hc hdj hci (by omega) hmeet.symm
  · cases hmap : w.fileMutationQueues with
    | nil => rfl
    | cons p m =>
      have hget : w.fileMutationQueues.get p.1 = some p.2 := by
        rw [hmap, JsMap.get_cons, if_pos rfl]
      obtain ⟨c, hc, -, hopen, -⟩ := hsound.kept.last p.1 p.2 hget
      rw [hall p.2 c hc] at hopen
      cases hopen

/-- A step that changes no call's files, and starts none. -/
theorem Safe.advance (hadv : Advances w w' f)
    (hfiles : ∀ i c, w.At i c → w'.files (f i c) = w.files c)
    (hopen : ∀ i c, w.At i c → (f i c).phase.isSettled = false →
      c.phase.isSettled = false)
    (hstarted : w'.started = w.started) : Safe w' := by
  refine ⟨fun i j c' d' hc' hd' hrivals hmeet => ?_, ?_⟩
  · obtain ⟨c, hc, rfl⟩ := hadv.was hc'
    obtain ⟨d, hd, rfl⟩ := hadv.was hd'
    rw [hfiles i c hc, hfiles j d hd] at hmeet
    rw [(hadv.each i c hc).key, (hadv.each j d hd).key]
    refine h.keyed i j c d hc hd ?_ hmeet
    obtain ⟨c₁, d₁, hc₁, hd₁, hne, hci, hdj⟩ := hrivals
    obtain rfl := World.At.unique hc' hc₁
    obtain rfl := World.At.unique hd' hd₁
    rw [hstarted] at hdj
    exact ⟨c, d, hc, hd, hne, hopen i c hc hci, hdj.imp_left (hopen j d hd)⟩
  · rw [hstarted]
    refine h.ordered.imp fun {i j} hij c' d' hc' hd' hmeet => ?_
    obtain ⟨c, hc, rfl⟩ := hadv.was hc'
    obtain ⟨d, hd, rfl⟩ := hadv.was hd'
    rw [hfiles i c hc, hfiles j d hd] at hmeet
    exact hij c d hc hd hmeet

theorem Safe.chain (id : Nat) : Safe (w.chain id) := by
  rcases chain_cases w id with heq | ⟨call, hcall, heq, hadv⟩
  · rw [heq]
    exact h
  · have hfiles : (w.chain id).files = w.files := by
      rw [heq]
      rfl
    refine h.advance hadv (fun i c hc => ?_) (fun i c hc => ?_) (by rw [heq])
    · rw [hfiles]
      refine replaced_same hcall w.files ?_ hc
      rfl
    · rw [replaced_same hcall (fun c => c.phase.isSettled) ?_ hc]
      · exact fun hs => hs
      · rfl

theorem Safe.settle (id : Nat) (threw : Bool) :
    Safe (w.settle id threw) := by
  rcases settle_cases w id threw with
    heq | ⟨call, hcall, hrunning, heq, hadv⟩
  · rw [heq]
    exact h
  · have hfiles : (w.settle id threw).files = w.files := by
      rw [heq]
      rfl
    refine h.advance hadv (fun i c hc => ?_) (fun i c hc hopen => ?_)
      (by rw [heq])
    · rw [hfiles]
      refine replaced_same hcall w.files ?_ hc
      rw [World.files, World.files, hrunning, if_neg Phase.noConfusion,
        if_neg Phase.noConfusion]
    · by_cases hi : i = id
      · subst hi
        rw [replaced_self] at hopen
        cases hopen
      · rwa [replaced_ne hi] at hopen

omit h in
theorem sublist_concat {l : List Nat} {j x : Nat}
    (h : [i, j].Sublist (l ++ [x])) :
    [i, j].Sublist l ∨ (i ∈ l ∧ j = x) := by
  rcases List.sublist_append_iff.1 h with ⟨l₁, l₂, heq, h₁, h₂⟩
  rcases List.sublist_singleton.1 h₂ with rfl | rfl
  · rw [List.append_nil] at heq
    exact .inl (heq ▸ h₁)
  · have heq' : [i] ++ [j] = l₁ ++ [x] := heq
    obtain ⟨rfl, hj⟩ := List.append_inj' heq' rfl
    exact .inr ⟨h₁.subset List.mem_cons_self, (List.cons.inj hj).1⟩

/-- A function is started: it changes the file its path leads to. -/
theorem Safe.run (hsound : Sound w) (id : Nat) :
    Safe (w.run id) := by
  have hsound' := hsound.run id
  rcases run_cases w id with heq | ⟨call, hcall, hqueued, heq, hadv⟩
  · rw [heq]
    exact h
  · have hstarted : (w.run id).started = w.started ++ [id] := by rw [heq]
    have hfiles : (w.run id).files = w.files := by
      rw [heq]
      rfl
    have hsame : ∀ i c, w.At i c → w.files (replaced id { call with
        phase := .running
        seen := [w.fs.denotes call.filePath] } i c) = w.files c := by
      intro i c hc
      refine replaced_same hcall w.files ?_ hc
      rw [World.files, World.files, hqueued, if_pos rfl,
        if_neg Phase.noConfusion]
    have hopen : ∀ i c, w.At i c → (replaced id { call with
        phase := .running
        seen := [w.fs.denotes call.filePath] } i c).phase.isSettled
          = c.phase.isSettled := by
      intro i c hc
      refine replaced_same hcall (fun c => c.phase.isSettled) ?_ hc
      dsimp only
      rw [hqueued]
      rfl
    refine ⟨fun i j c' d' hc' hd' hrivals hmeet => ?_, ?_⟩
    · obtain ⟨c, hc, rfl⟩ := hadv.was hc'
      obtain ⟨d, hd, rfl⟩ := hadv.was hd'
      rw [hfiles, hsame i c hc, hsame j d hd] at hmeet
      rw [(hadv.each i c hc).key, (hadv.each j d hd).key]
      refine h.keyed i j c d hc hd ?_ hmeet
      obtain ⟨c₁, d₁, hc₁, hd₁, hne, hci, hdj⟩ := hrivals
      obtain rfl := World.At.unique hc' hc₁
      obtain rfl := World.At.unique hd' hd₁
      rw [hopen i c hc] at hci
      rw [hopen j d hd, hstarted] at hdj
      refine ⟨c, d, hc, hd, hne, hci, ?_⟩
      rcases hdj with hdj | hij | hsub
      · exact .inl hdj
      · exact .inr (.inl hij)
      · rcases sublist_concat hsub with hsub | ⟨-, rfl⟩
        · exact .inr (.inr hsub)
        · rw [World.At.unique hd hcall, hqueued]
          exact .inl rfl
    · rw [hstarted]
      refine List.pairwise_append.2 ⟨?_, List.pairwise_singleton _ _, ?_⟩
      · refine h.ordered.imp fun {i j} hij c' d' hc' hd' hmeet => ?_
        obtain ⟨c, hc, rfl⟩ := hadv.was hc'
        obtain ⟨d, hd, rfl⟩ := hadv.was hd'
        rw [hfiles, hsame i c hc, hsame j d hd] at hmeet
        exact hij c d hc hd hmeet
      · intro i hi j hj c' d' hc' hd' hmeet
        obtain rfl := List.mem_singleton.1 hj
        have hinOrder := hsound'.begun.inOrder
        rw [hstarted] at hinOrder
        have hkeyed := (List.pairwise_append.1 hinOrder).2.2 i hi j
          List.mem_cons_self c' d' hc' hd'
        obtain ⟨c, hc, rfl⟩ := hadv.was hc'
        obtain ⟨d, hd, rfl⟩ := hadv.was hd'
        rw [hfiles, hsame i c hc, hsame j d hd] at hmeet
        rw [(hadv.each i c hc).key, (hadv.each j d hd).key] at hkeyed
        by_contra hle
        by_cases hij : j = i
        · subst hij
          obtain ⟨e, he, hbegun⟩ := (hsound.begun.started j).1 hi
          rw [World.At.unique he hcall] at hbegun
          exact hbegun hqueued
        · have hdopen : d.phase.isSettled = false := by
            rw [World.At.unique hd hcall, hqueued]
            rfl
          have hkey := h.keyed j i d c hd hc
            ⟨d, c, hd, hc, hij, hdopen, .inr (.inl (by omega))⟩ hmeet.symm
          exact hle (hkeyed hkey.symm)

theorem Safe.call (hsound : Sound w)
    {filePath : FilePath} (hfits : Fits w (.call filePath)) :
    Safe (w.withFileMutationQueue filePath) := by
  have hfiles : (w.withFileMutationQueue filePath).files = w.files := rfl
  have hnew : w.files (newCall w filePath) = [w.fs.denotes filePath] :=
    if_pos rfl
  have hstarted : ∀ i ∈ w.started, ∃ c, w.At i c := by
    intro i hi
    obtain ⟨c, hc, -⟩ := (hsound.begun.started i).1 hi
    exact ⟨c, hc⟩
  refine ⟨fun i j c d hc hd hrivals hmeet => ?_, ?_⟩
  · rw [hfiles] at hmeet
    obtain ⟨c₁, d₁, hc₁, hd₁, hne, hci, hdj⟩ := hrivals
    obtain rfl := World.At.unique hc hc₁
    obtain rfl := World.At.unique hd hd₁
    rcases (at_call w filePath _ _).1 hc with hc | ⟨rfl, rfl⟩
    · rcases (at_call w filePath _ _).1 hd with hd | ⟨rfl, rfl⟩
      · exact h.keyed i j c d hc hd ⟨c, d, hc, hd, hne, hci, hdj⟩ hmeet
      · exact hfits i c hc hci (hnew ▸ hmeet)
    · rcases (at_call w filePath _ _).1 hd with hd | ⟨rfl, rfl⟩
      · have hopen : d.phase.isSettled = false := by
          rcases hdj with hdj | hlt | hsub
          · exact hdj
          · have hlt' := World.At.lt hd
            omega
          · obtain ⟨e, he⟩ := hstarted _ (hsub.subset List.mem_cons_self)
            exact absurd (World.At.lt he) (Nat.lt_irrefl _)
        exact (hfits j d hd hopen (hnew ▸ hmeet.symm)).symm
      · exact absurd rfl hne
  · refine h.ordered.imp_of_mem fun {i j} hi hj hij c d hc hd hmeet => ?_
    obtain ⟨c', hc'⟩ := hstarted i hi
    obtain ⟨d', hd'⟩ := hstarted j hj
    have hold : ∀ {i c}, w.At i c →
        (w.withFileMutationQueue filePath).At i c :=
      fun hc => (at_call w filePath _ _).2 (.inl hc)
    obtain rfl := World.At.unique hc (hold hc')
    obtain rfl := World.At.unique hd (hold hd')
    exact hij c d hc' hd' hmeet

omit h in
theorem files_change (fs : FileSystem φ) (h : c.phase.isSettled = true) :
    (w.change fs).files (c.after fs) = w.files c := by
  have hqueued : c.phase ≠ .queued := by
    intro hq
    rw [hq] at h
    cases h
  have hrunning : c.phase ≠ .running := by
    intro hr
    rw [hr] at h
    cases h
  rw [Call.after_of_not_running hrunning, World.files, World.files,
    if_neg hqueued, if_neg hqueued]

theorem Safe.change (hsound : Sound w)
    (hfits : Fits w (.change fs)) :
    Safe (w.change fs) := by
  refine ⟨hfits, List.pairwise_iff_forall_sublist.2 fun {i j} hsub => ?_⟩
  intro c' d' hc' hd' hmeet
  have hinOrder := List.pairwise_iff_forall_sublist.1
    (hsound.change fs).begun.inOrder hsub c' d' hc' hd'
  have hne : i ≠ j := by
    rintro rfl
    rw [World.At.unique hc' hd'] at hinOrder
    exact Nat.lt_irrefl _ (hinOrder rfl)
  cases hci : c'.phase.isSettled with
  | false =>
    apply hinOrder
    exact hfits i j c' d' hc' hd'
      ⟨c', d', hc', hd', hne, hci, .inr (.inr hsub)⟩ hmeet
  | true =>
    cases hdj : d'.phase.isSettled with
    | false =>
      by_contra hle
      have hkey := hfits j i d' c' hd' hc'
        ⟨d', c', hd', hc', hne.symm, hdj, .inr (.inl (by omega))⟩
        hmeet.symm
      exact hle (hinOrder hkey.symm)
    | true =>
      obtain ⟨c, hc, rfl⟩ := (change_advances w fs).was hc'
      obtain ⟨d, hd, rfl⟩ := (change_advances w fs).was hd'
      have hphase : ∀ c : Call φ, (c.after fs).phase = c.phase := by
        intro c
        obtain ⟨seen, heq⟩ := c.after_same fs
        rw [heq]
      rw [hphase] at hci hdj
      rw [files_change fs hci, files_change fs hdj] at hmeet
      exact List.pairwise_iff_forall_sublist.1 h.ordered hsub c d hc hd
        hmeet

theorem Safe.step (hsound : Sound w) {e : Event φ}
    (hfits : Fits w e) : Safe (w.step e) := by
  cases e with
  | call filePath => exact h.call hsound hfits
  | chain id => exact h.chain id
  | run id => exact h.run hsound id
  | settle id threw => exact h.settle id threw
  | change fs => exact h.change hsound hfits

end

-- ======== the runs

/-- As long as no two keys are led to one file, the changes to a file are kept
apart and in order. -/
theorem exclusive_along (fs : FileSystem φ) (events : List (Event φ))
    (hfits : Run.Guarded World.step Fits (World.start fs) events) :
    Run.Along World.step Exclusive (World.start fs) events := by
  have hsafe : Safe (World.start fs) := by
    refine ⟨fun i j c d hc => ?_, List.Pairwise.nil⟩
    exact absurd (World.At.lt hc) (Nat.not_lt_zero _)
  have hboth := Run.along_of_kept (P := fun w : World φ => Sound w ∧ Safe w)
    (fun w e hw he => ⟨hw.1.step e, hw.2.step hw.1 he⟩)
    ⟨sound_start fs, hsafe⟩ hfits
  exact hboth.mono fun w hw => hw.2.exclusive hw.1

-- ======== two examples

/-- A disk with a directory `real`, and a link `alias` to it; of the two
names a file has, `realpath` gives the first, once the file is there. -/
def linked (exist : List String) : FileSystem Path where
  cwd := []
  realpath := fun path =>
    let place := path.map fun name => if name = "alias" then "real" else name
    if place.getLast?.any (· ∈ exist) then some place else none
  denotes := fun filePath =>
    filePath.segments.map fun name => if name = "alias" then "real" else name

/-- A file that is there already may be named either way. -/
theorem exclusive_along_existing :
    Run.Along World.step Exclusive (World.start (linked ["notes"]))
      [.call ⟨true, ["alias", "notes"]⟩, .run 0,
        .call ⟨true, ["real", "notes"]⟩, .run 1, .settle 0 true, .chain 0,
        .run 1] := by
  apply exclusive_along
  refine ⟨fun i c hc => ?_, trivial, fun i c hc => ?_, trivial, trivial,
    trivial, trivial, trivial⟩
  · exact absurd (World.At.lt hc) (Nat.not_lt_zero _)
  · intro _ _
    have hlt : i < 1 := World.At.lt hc
    obtain rfl : i = 0 := by omega
    rw [← Option.some.inj hc]
    decide

/-- A file that is not there yet is changed by two functions at a time. -/
theorem not_exclusive_new :
    ¬Run.Along World.step Exclusive (World.start (linked []))
      [.call ⟨true, ["real", "notes"]⟩,
        .call ⟨true, ["alias", "notes"]⟩, .run 0, .run 1] := by
  intro halong
  have hlast := halong.last.apart 0 1 _ _ rfl rfl rfl rfl (by decide)
  exact hlast ⟨["real", "notes"], by decide, by decide⟩

end OneHarness.Tools.FileMutationQueue
