/-
Every waiter of a snapshot transcript is settled at most once, with what it
waits for, and waits only while nothing has happened that settles it
(`transcript_reaches`).

The invariant has two parts. `Core` is about the bookkeeping: the map leads
from an index to the one array that holds the promises that wait for it, an
array never stands in the map empty or under two indexes, and a listener is
registered exactly for the promises that wait with a signal. It is kept by
settling a group of promises that leave the map together (`Core.settle`), by
a listener that is called (`Core.withdraw`) and by a new promise
(`Core.enlist`, `Core.answer`). The rest (`Inv`) is what the promises that
wait say of the cache.
-/
import OneHarness.Daemon.Proofs.SnapshotChunks
import OneHarness.Lib.Run
import Mathlib.Data.List.Induction
import Mathlib.Data.List.Nodup

namespace OneHarness.Daemon.Snapshot

open Lib

variable {w w' : World} {ids : List Nat} {settlement : Settlement}
  {id index a : Nat} {waiter : Waiter} {reason : String} {signal : Option Nat}

variable (options : CacheOptions)

namespace World

-- ======== statement vocabulary

/-- The promise waits. -/
def Pending (w : World) (id : Nat) (waiter : Waiter) : Prop :=
  w.waiters[id]? = some waiter ∧ id ∉ w.settled.map Prod.fst

/-- What a settlement says of the cache. -/
def Fits (w : World) (waiter : Waiter) : Settlement → Prop
  | .resolved (some bytes) => w.appended[waiter.index]? = some bytes
  | .resolved none => w.completed = true ∧ w.appended.length ≤ waiter.index
  | .rejected reason =>
    w.failure = some reason
      ∨ ∃ signal, waiter.signal = some signal
        ∧ w.aborted.get signal = some reason

/-- Promises are settled once, as they should be, and those that wait have
nothing to be settled by. -/
structure Settles (w : World) : Prop where
  once : (w.settled.map Prod.fst).Nodup
  fits : ∀ id settlement, (id, settlement) ∈ w.settled →
    ∃ waiter, w.waiters[id]? = some waiter ∧ w.Fits waiter settlement
  waits : ∀ id waiter, w.Pending id waiter →
    w.appended.length ≤ waiter.index ∧ w.completed = false
      ∧ w.failure = none ∧ w.disposed = false
      ∧ ∀ signal, waiter.signal = some signal → w.aborted.get signal = none

-- ======== settling

theorem settleAll_eq (w : World) (ids : List Nat) (settlement : Settlement) :
    w.settleAll ids settlement
      = { w with
          listeners := w.listeners.filter (· ∉ ids)
          settled := w.settled ++ ids.map fun id => (id, settlement) } := by
  induction ids generalizing w with
  | nil =>
    have hall : w.listeners.filter (· ∉ ([] : List Nat)) = w.listeners :=
      List.filter_eq_self.2 fun _ _ => by simp
    rw [settleAll, List.foldl_nil, hall, List.map_nil, List.append_nil]
  | cons id ids ih =>
    have hstep : w.settleAll (id :: ids) settlement
        = (w.settle id settlement).settleAll ids settlement := rfl
    have hfilter : (w.listeners.filter (· ≠ id)).filter (· ∉ ids)
        = w.listeners.filter (· ∉ id :: ids) := by
      rw [List.filter_filter]
      refine List.filter_congr fun x _ => ?_
      by_cases hx : x = id
      · simp [hx]
      · simp [hx]
    rw [hstep, ih, settle]
    dsimp only
    rw [hfilter, List.append_assoc]
    rfl

theorem array_congr (h : w'.arrays = w.arrays) (a : Nat) :
    w'.array a = w.array a := by
  rw [array, array, h]

/-- The promises that wait after a group was settled. -/
theorem pending_settled (hwaiters : w'.waiters = w.waiters)
    (hsettled : w'.settled = w.settled ++ ids.map fun id => (id, settlement))
    :
    w'.Pending id waiter ↔ w.Pending id waiter ∧ id ∉ ids := by
  have hmap : (ids.map fun id => (id, settlement)).map Prod.fst = ids := by
    rw [List.map_map]
    exact List.map_id _
  rw [Pending, Pending, hwaiters, hsettled, List.map_append, hmap,
    List.mem_append, not_or, and_assoc]

theorem Fits.mono (happ : w.appended <+: w'.appended)
    (hcomp : w.completed = true →
      w'.completed = true ∧ w'.appended = w.appended)
    (hfail : ∀ e, w.failure = some e → w'.failure = some e)
    (hab : ∀ s r, w.aborted.get s = some r → w'.aborted.get s = some r)
    (h : w.Fits waiter settlement) : w'.Fits waiter settlement := by
  cases settlement with
  | resolved chunk =>
    cases chunk with
    | some bytes =>
      obtain ⟨more, hmore⟩ := happ
      obtain ⟨hlt, -⟩ := List.getElem?_eq_some_iff.1 h
      change w'.appended[waiter.index]? = some bytes
      rw [← hmore, List.getElem?_append_left hlt]
      exact h
    | none =>
      obtain ⟨hdone, hsame⟩ := hcomp h.1
      exact ⟨hdone, hsame ▸ h.2⟩
  | rejected reason =>
    rcases h with h | ⟨signal, hsignal, h⟩
    · exact .inl (hfail _ h)
    · exact .inr ⟨signal, hsignal, hab _ _ h⟩

-- ======== the bookkeeping

/-- The map, the arrays, the listeners and the settlements agree. -/
structure Core (w : World) : Prop where
  once : (w.settled.map Prod.fst).Nodup
  fits : ∀ id settlement, (id, settlement) ∈ w.settled →
    ∃ waiter, w.waiters[id]? = some waiter ∧ w.Fits waiter settlement
  keys : w.chunkWaiters.keys.Nodup
  values : w.chunkWaiters.values.Nodup
  filed : ∀ index a, (index, a) ∈ w.chunkWaiters →
    w.array a ≠ [] ∧ (w.array a).Nodup
      ∧ ∀ id ∈ w.array a, ∃ signal, w.Pending id ⟨index, signal, some a⟩
  held : ∀ id waiter, w.Pending id waiter →
    ∃ a, waiter.array = some a ∧ (waiter.index, a) ∈ w.chunkWaiters
      ∧ id ∈ w.array a
  listeners : w.listeners.Nodup
  listening : ∀ id, id ∈ w.listeners
    ↔ ∃ waiter, w.Pending id waiter ∧ waiter.signal.isSome

/-- Only what settlements say of the cache depends on the rest of it. -/
theorem Core.congr (h : w.Core)
    (hwaiters : w'.waiters = w.waiters) (hsettled : w'.settled = w.settled)
    (hmap : w'.chunkWaiters = w.chunkWaiters) (harrays : w'.arrays = w.arrays)
    (hlisteners : w'.listeners = w.listeners)
    (hfits : ∀ waiter settlement, w.Fits waiter settlement →
      w'.Fits waiter settlement) : w'.Core := by
  have hpending : ∀ id waiter, w'.Pending id waiter ↔ w.Pending id waiter := by
    intro id waiter
    rw [Pending, Pending, hwaiters, hsettled]
  refine ⟨hsettled ▸ h.once, ?_, hmap ▸ h.keys, hmap ▸ h.values, ?_, ?_,
    hlisteners ▸ h.listeners, ?_⟩
  · intro id settlement hmem
    obtain ⟨waiter, hwaiter, hfit⟩ := h.fits id settlement (hsettled ▸ hmem)
    exact ⟨waiter, hwaiters ▸ hwaiter, hfits _ _ hfit⟩
  · intro index a hmem
    obtain ⟨hne, hnd, hall⟩ := h.filed index a (hmap ▸ hmem)
    rw [array_congr harrays]
    refine ⟨hne, hnd, fun id hid => ?_⟩
    obtain ⟨signal, hp⟩ := hall id hid
    exact ⟨signal, (hpending _ _).2 hp⟩
  · intro id waiter hp
    obtain ⟨a, ha, hmem, hid⟩ := h.held id waiter ((hpending _ _).1 hp)
    exact ⟨a, ha, hmap ▸ hmem, (array_congr harrays a) ▸ hid⟩
  · intro id
    rw [hlisteners, h.listening]
    exact exists_congr fun waiter => and_congr_left' (hpending _ _).symm

/-- One index has one array, and one array one index. -/
theorem Core.same_array (h : w.Core) {b : Nat}
    (ha : (index, a) ∈ w.chunkWaiters) (hb : (index, b) ∈ w.chunkWaiters) :
    a = b := by
  have hget := JsMap.get_of_mem h.keys ha
  rw [JsMap.get_of_mem h.keys hb] at hget
  exact (Option.some.inj hget).symm

theorem Core.same_index (h : w.Core) {i j : Nat}
    (hi : (i, a) ∈ w.chunkWaiters) (hj : (j, a) ∈ w.chunkWaiters) : i = j :=
  congrArg Prod.fst (List.inj_on_of_nodup_map h.values hi hj rfl)

/-- A group of promises is settled, and the map is another. -/
def retire (w : World) (ids : List Nat) (settlement : Settlement)
    (chunkWaiters : JsMap Nat Nat) : World :=
  { w with
    listeners := w.listeners.filter (· ∉ ids)
    settled := w.settled ++ ids.map fun id => (id, settlement)
    chunkWaiters := chunkWaiters }

theorem pending_retire {chunkWaiters : JsMap Nat Nat} :
    (w.retire ids settlement chunkWaiters).Pending id waiter
      ↔ w.Pending id waiter ∧ id ∉ ids := by
  have hwaiters : (w.retire ids settlement chunkWaiters).waiters
      = w.waiters := rfl
  have hsettled : (w.retire ids settlement chunkWaiters).settled
      = w.settled ++ ids.map fun id => (id, settlement) := rfl
  exact pending_settled hwaiters hsettled

/-- A group of promises is settled, and with it their indexes leave the
map. -/
theorem Core.settle (h : w.Core)
    (hids : ids.Nodup)
    (hall : ∀ id ∈ ids, ∃ waiter, w.Pending id waiter
      ∧ w.Fits waiter settlement)
    {chunkWaiters : JsMap Nat Nat}
    (hsub : chunkWaiters.Sublist w.chunkWaiters)
    (hout : ∀ index a, (index, a) ∈ chunkWaiters →
      ∀ id ∈ w.array a, id ∉ ids)
    (hin : ∀ index a, (index, a) ∈ w.chunkWaiters →
      (∃ id ∈ w.array a, id ∉ ids) → (index, a) ∈ chunkWaiters) :
    (w.retire ids settlement chunkWaiters).Core := by
  have hmap : (ids.map fun id => (id, settlement)).map Prod.fst = ids := by
    rw [List.map_map]
    exact List.map_id _
  refine ⟨?_, ?_, h.keys.sublist (hsub.map _), h.values.sublist (hsub.map _),
    ?_, ?_, h.listeners.filter _, ?_⟩
  · rw [retire, List.map_append, hmap]
    refine List.nodup_append.2 ⟨h.once, hids, fun x hx y hy heq => ?_⟩
    obtain ⟨waiter, hp, -⟩ := hall y hy
    exact hp.2 (heq ▸ hx)
  · intro id settlement' hmem
    rcases List.mem_append.1 hmem with hmem | hmem
    · exact h.fits id settlement' hmem
    · obtain ⟨id', hid', heq⟩ := List.mem_map.1 hmem
      cases heq
      obtain ⟨waiter, hp, hfit⟩ := hall id hid'
      exact ⟨waiter, hp.1, hfit⟩
  · intro index a hmem
    obtain ⟨hne, hnd, hfiled⟩ := h.filed index a (hsub.subset hmem)
    refine ⟨hne, hnd, fun id hid => ?_⟩
    obtain ⟨signal, hp⟩ := hfiled id hid
    exact ⟨signal, pending_retire.2 ⟨hp, hout index a hmem id hid⟩⟩
  · intro id waiter hp
    obtain ⟨hp, hid⟩ := pending_retire.1 hp
    obtain ⟨a, ha, hmem, harray⟩ := h.held id waiter hp
    exact ⟨a, ha, hin _ _ hmem ⟨id, harray, hid⟩, harray⟩
  · intro id
    rw [retire, List.mem_filter, decide_eq_true_iff, h.listening]
    constructor
    · rintro ⟨⟨waiter, hp, hsignal⟩, hid⟩
      exact ⟨waiter, pending_retire.2 ⟨hp, hid⟩, hsignal⟩
    · rintro ⟨waiter, hp, hsignal⟩
      obtain ⟨hp, hid⟩ := pending_retire.1 hp
      exact ⟨⟨waiter, hp, hsignal⟩, hid⟩

-- ======== one abort

theorem spliceOut_eq (h : id ∈ ids) : spliceOut ids id = ids.erase id := by
  rw [spliceOut, List.erase_eq_eraseIdx]
  cases hidx : ids.idxOf? id with
  | none => exact absurd h (List.idxOf?_eq_none_iff.1 hidx)
  | some i => rfl

theorem getD_modify (arrays : List (List Nat)) (a b : Nat)
    (f : List Nat → List Nat) (ha : a < arrays.length) :
    ((arrays.modify a f)[b]?).getD []
      = if b = a then f ((arrays[a]?).getD []) else (arrays[b]?).getD [] := by
  rw [List.getElem?_modify]
  by_cases hb : b = a
  · subst hb
    rw [if_pos rfl, List.getElem?_eq_getElem ha]
    exact if_pos rfl
  · rw [if_neg hb]
    have hab : ¬a = b := fun h => hb h.symm
    cases arrays[b]? with
    | none => rfl
    | some l => exact if_neg hab

theorem getD_concat (arrays : List (List Nat)) (l : List Nat) (b : Nat) :
    ((arrays ++ [l])[b]?).getD []
      = if b = arrays.length then (arrays[arrays.length]?).getD [] ++ l
        else (arrays[b]?).getD [] := by
  by_cases hb : b = arrays.length
  · subst hb
    rw [if_pos rfl, List.getElem?_concat_length,
      List.getElem?_eq_none (Nat.le_refl _)]
    rfl
  · rw [if_neg hb]
    by_cases hlt : b < arrays.length
    · rw [List.getElem?_append_left hlt]
    · have hlong : (arrays ++ [l]).length ≤ b := by
        rw [List.length_append, List.length_singleton]
        omega
      rw [List.getElem?_eq_none hlong,
        List.getElem?_eq_none (Nat.le_of_not_lt hlt)]

/-- The cache after a waiter was called off: its array is without it. -/
def withdraw (w : World) (id index a : Nat) (reason : String) : World :=
  { w with
    arrays := w.arrays.modify a (spliceOut · id)
    chunkWaiters :=
      if spliceOut (w.array a) id = [] then w.chunkWaiters.delete index
      else w.chunkWaiters
    listeners := w.listeners.filter (· ≠ id)
    settled := w.settled ++ [(id, .rejected reason)] }

theorem length_of_filed (h : w.Core)
    (hmem : (index, a) ∈ w.chunkWaiters) : a < w.arrays.length := by
  by_contra hle
  apply (h.filed index a hmem).1
  rw [array, List.getElem?_eq_none (Nat.le_of_not_lt hle)]
  rfl

theorem array_withdraw (ha : a < w.arrays.length) (b : Nat) :
    (w.withdraw id index a reason).array b
      = if b = a then spliceOut (w.array a) id else w.array b :=
  getD_modify w.arrays a b (spliceOut · id) ha

theorem onAbort_eq (ha : a < w.arrays.length) :
    { w with listeners := w.listeners.filter (· ≠ id) }.onAbort id waiter a
        reason
      = w.withdraw id waiter.index a reason := by
  have harray : array { w with
      listeners := w.listeners.filter (· ≠ id)
      arrays := w.arrays.modify a (spliceOut · id) } a
      = spliceOut (w.array a) id :=
    (getD_modify w.arrays a a (spliceOut · id) ha).trans (if_pos rfl)
  rw [onAbort, withdraw]
  dsimp only
  rw [harray]
  by_cases hnil : spliceOut (w.array a) id = []
  · rw [if_pos hnil, if_pos hnil]
  · rw [if_neg hnil, if_neg hnil]

theorem pending_withdraw {x : Nat} :
    (w.withdraw id index a reason).Pending x waiter
      ↔ w.Pending x waiter ∧ x ≠ id := by
  rw [Pending, Pending, withdraw, List.map_append, List.mem_append, not_or,
    and_assoc]
  exact and_congr_right' (and_congr_right' (not_congr List.mem_singleton))

/-- A waiter that is called off leaves the others as they were. -/
theorem Core.withdraw (h : w.Core) {signal : Nat}
    (hp : w.Pending id ⟨index, some signal, some a⟩)
    (hreason : w.aborted.get signal = some reason) :
    (w.withdraw id index a reason).Core := by
  obtain ⟨a', ha', hmem, hid⟩ := h.held id _ hp
  obtain rfl : a = a' := Option.some.inj ha'
  have hlt := length_of_filed h hmem
  obtain ⟨hne, hnd, hfiled⟩ := h.filed index a hmem
  have hsplice := spliceOut_eq hid
  have hsub : ∀ p, p ∈ (w.withdraw id index a reason).chunkWaiters →
      p ∈ w.chunkWaiters := by
    intro p hpmem
    rw [World.withdraw] at hpmem
    dsimp only at hpmem
    by_cases hnil : spliceOut (w.array a) id = []
    · rw [if_pos hnil] at hpmem
      exact List.mem_of_mem_filter hpmem
    · rw [if_neg hnil] at hpmem
      exact hpmem
  have hlist : (w.withdraw id index a reason).chunkWaiters.Sublist
      w.chunkWaiters := by
    rw [World.withdraw]
    dsimp only
    by_cases hnil : spliceOut (w.array a) id = []
    · rw [if_pos hnil]
      exact List.filter_sublist
    · rw [if_neg hnil]
  refine ⟨?_, ?_, h.keys.sublist (hlist.map _), h.values.sublist (hlist.map _),
    ?_, ?_, h.listeners.filter _, ?_⟩
  · rw [World.withdraw, List.map_append]
    refine List.nodup_append.2 ⟨h.once, List.nodup_singleton _, ?_⟩
    intro x hx y hy heq
    obtain rfl : y = id := List.mem_singleton.1 hy
    exact hp.2 (heq ▸ hx)
  · intro x settlement hx
    rcases List.mem_append.1 hx with hx | hx
    · exact h.fits x settlement hx
    · cases List.mem_singleton.1 hx
      exact ⟨_, hp.1, .inr ⟨signal, rfl, hreason⟩⟩
  · intro i b hib
    have hib' := hsub _ hib
    rw [array_withdraw hlt]
    by_cases hb : b = a
    · subst hb
      obtain rfl := h.same_index hib' hmem
      rw [if_pos rfl, hsplice]
      refine ⟨fun hnil => ?_, hnd.erase _, fun x hx => ?_⟩
      · rw [World.withdraw] at hib
        dsimp only at hib
        rw [hsplice, if_pos hnil] at hib
        have hkey := (JsMap.mem_keys_delete.1 (List.mem_map_of_mem hib)).2
        exact hkey rfl
      · obtain ⟨hxid, hx⟩ := hnd.mem_erase_iff.1 hx
        obtain ⟨s, hs⟩ := hfiled x hx
        exact ⟨s, pending_withdraw.2 ⟨hs, hxid⟩⟩
    · rw [if_neg hb]
      obtain ⟨hne', hnd', hfiled'⟩ := h.filed i b hib'
      refine ⟨hne', hnd', fun x hx => ?_⟩
      obtain ⟨s, hs⟩ := hfiled' x hx
      refine ⟨s, pending_withdraw.2 ⟨hs, ?_⟩⟩
      rintro rfl
      have hsame := hs.1.symm.trans hp.1
      rw [Option.some.injEq, Waiter.mk.injEq] at hsame
      exact hb (Option.some.inj hsame.2.2)
  · intro x waiter hx
    obtain ⟨hx, hxid⟩ := pending_withdraw.1 hx
    obtain ⟨b, hb, hbmem, hxb⟩ := h.held x waiter hx
    by_cases hba : b = a
    · subst hba
      have hindex := h.same_index hbmem hmem
      have hxe : x ∈ spliceOut (w.array b) id := by
        rw [hsplice]
        exact hnd.mem_erase_iff.2 ⟨hxid, hxb⟩
      refine ⟨b, hb, ?_, by rwa [array_withdraw hlt, if_pos rfl]⟩
      rw [World.withdraw]
      dsimp only
      rw [if_neg (List.ne_nil_of_mem hxe)]
      exact hbmem
    · refine ⟨b, hb, ?_, by rwa [array_withdraw hlt, if_neg hba]⟩
      rw [World.withdraw]
      dsimp only
      by_cases hnil : spliceOut (w.array a) id = []
      · rw [if_pos hnil]
        refine List.mem_filter.2 ⟨hbmem, decide_eq_true fun hkey => hba ?_⟩
        change waiter.index = index at hkey
        rw [hkey] at hbmem
        exact h.same_array hbmem hmem
      · rw [if_neg hnil]
        exact hbmem
  · intro x
    rw [World.withdraw, List.mem_filter, decide_eq_true_iff, h.listening]
    constructor
    · rintro ⟨⟨waiter, hx, hsignal⟩, hxid⟩
      exact ⟨waiter, pending_withdraw.2 ⟨hx, hxid⟩, hsignal⟩
    · rintro ⟨waiter, hx, hsignal⟩
      obtain ⟨hx, hxid⟩ := pending_withdraw.1 hx
      exact ⟨⟨waiter, hx, hsignal⟩, hxid⟩

/-- Nothing changed but who waits and who was settled. -/
structure SameStore (w w' : World) : Prop where
  waiters : w'.waiters = w.waiters
  chunks : w'.chunks = w.chunks
  files : w'.files = w.files
  appended : w'.appended = w.appended
  completed : w'.completed = w.completed
  failure : w'.failure = w.failure
  disposed : w'.disposed = w.disposed
  aborted : w'.aborted = w.aborted

theorem SameStore.refl (w : World) : SameStore w w :=
  ⟨rfl, rfl, rfl, rfl, rfl, rfl, rfl, rfl⟩

theorem SameStore.trans {u v : World} (h : SameStore u v)
    (h' : SameStore v w) : SameStore u w :=
  ⟨h'.waiters.trans h.waiters, h'.chunks.trans h.chunks,
    h'.files.trans h.files, h'.appended.trans h.appended,
    h'.completed.trans h.completed, h'.failure.trans h.failure,
    h'.disposed.trans h.disposed, h'.aborted.trans h.aborted⟩

theorem Pending.unique {waiter' : Waiter}
    (h : w.Pending id waiter) (h' : w.Pending id waiter') :
    waiter = waiter' := Option.some.inj (h.1.symm.trans h'.1)

/-- What a listener does when it is called: it takes its own promise out, and
nothing else. -/
theorem dispatch_spec (h : w.Core) {signal : Nat}
    (hreason : w.aborted.get signal = some reason)
    (id : Nat) :
    (w.dispatch signal reason id).Core
      ∧ SameStore w (w.dispatch signal reason id)
      ∧ ∀ x waiter, (w.dispatch signal reason id).Pending x waiter
        ↔ w.Pending x waiter ∧ ¬(x = id ∧ waiter.signal = some signal) := by
  have hsame : (∀ waiter, w.Pending id waiter →
      waiter.signal ≠ some signal) →
      w.Core ∧ SameStore w w ∧ ∀ x waiter, w.Pending x waiter
        ↔ w.Pending x waiter ∧ ¬(x = id ∧ waiter.signal = some signal) := by
    intro hother
    refine ⟨h, .refl w, fun x waiter => ?_⟩
    refine (and_iff_left_of_imp fun hp heq => ?_).symm
    obtain ⟨rfl, hsignal⟩ := heq
    exact hother waiter hp hsignal
  rw [World.dispatch]
  by_cases hid : id ∈ w.listeners
  · rw [if_pos hid]
    obtain ⟨⟨index, signal', array⟩, hp, hsome⟩ := (h.listening id).1 hid
    obtain ⟨s, rfl⟩ := Option.isSome_iff_exists.1 hsome
    obtain ⟨a, rfl, hmem, -⟩ := h.held id _ hp
    rw [hp.1]
    dsimp only
    by_cases hs : s = signal
    · subst hs
      rw [if_pos rfl, onAbort_eq (length_of_filed h hmem)]
      refine ⟨h.withdraw hp hreason, ⟨rfl, rfl, rfl, rfl, rfl, rfl, rfl, rfl⟩,
        fun x waiter => ?_⟩
      rw [pending_withdraw]
      refine and_congr_right fun hx => not_congr ⟨fun heq => ?_, And.left⟩
      subst heq
      exact ⟨rfl, (hx.unique hp) ▸ rfl⟩
    · rw [if_neg hs]
      refine hsame fun waiter hp' heq => hs ?_
      rw [hp'.unique hp] at heq
      exact Option.some.inj heq
  · rw [if_neg hid]
    refine hsame fun waiter hp heq => hid ?_
    exact (h.listening id).2 ⟨waiter, hp, by rw [heq]; rfl⟩

/-- What all of them do. -/
theorem foldl_dispatch {signal : Nat} (ids : List Nat)
    (h : w.Core)
    (hreason : w.aborted.get signal = some reason) :
    (ids.foldl (dispatch signal reason) w).Core
      ∧ SameStore w (ids.foldl (dispatch signal reason) w)
      ∧ ∀ x waiter, (ids.foldl (dispatch signal reason) w).Pending x waiter
        ↔ w.Pending x waiter ∧ ¬(x ∈ ids ∧ waiter.signal = some signal) := by
  induction ids generalizing w with
  | nil =>
    refine ⟨h, .refl w, fun x waiter => ?_⟩
    exact (and_iff_left fun hx => List.not_mem_nil hx.1).symm
  | cons id ids ih =>
    obtain ⟨hcore, hstore, hpending⟩ := dispatch_spec h hreason id
    obtain ⟨hcore', hstore', hpending'⟩ :=
      ih hcore (hstore.aborted ▸ hreason)
    refine ⟨hcore', hstore.trans hstore', fun x waiter => ?_⟩
    rw [List.foldl_cons, hpending', hpending, and_assoc, ← not_or,
      ← or_and_right, List.mem_cons]

-- ======== a new promise

theorem Pending.lt (h : w.Pending id waiter) : id < w.waiters.length :=
  (List.getElem?_eq_some_iff.1 h.1).1

/-- Only promises there are were settled. -/
theorem Core.lt_of_settled (h : w.Core)
    (hid : id ∈ w.settled.map Prod.fst) : id < w.waiters.length := by
  obtain ⟨p, hp, rfl⟩ := List.mem_map.1 hid
  obtain ⟨waiter, hget, -⟩ := h.fits p.1 p.2 hp
  exact (List.getElem?_eq_some_iff.1 hget).1

/-- A promise that is settled at once changes nothing for the others. -/
theorem Core.answer (h : w.Core)
    (hfits : w.Fits ⟨index, signal, none⟩ settlement) :
    (w.answer index signal settlement).Core
      ∧ ∀ id waiter, (w.answer index signal settlement).Pending id waiter
        ↔ w.Pending id waiter := by
  have hsettled : (w.answer index signal settlement).settled.map Prod.fst
      = w.settled.map Prod.fst ++ [w.waiters.length] := List.map_append
  have hpending : ∀ id waiter,
      (w.answer index signal settlement).Pending id waiter
        ↔ w.Pending id waiter := by
    intro id waiter
    rw [Pending, hsettled, List.mem_append, not_or, List.mem_singleton,
      World.answer]
    dsimp only
    constructor
    · rintro ⟨hget, hout, hne⟩
      refine ⟨?_, hout⟩
      by_cases hlt : id < w.waiters.length
      · rwa [List.getElem?_append_left hlt] at hget
      · have hlen := (List.getElem?_eq_some_iff.1 hget).1
        rw [List.length_append, List.length_singleton] at hlen
        omega
    · rintro ⟨hget, hout⟩
      have hlt := (List.getElem?_eq_some_iff.1 hget).1
      exact ⟨by rwa [List.getElem?_append_left hlt], hout, by omega⟩
  refine ⟨⟨?_, ?_, h.keys, h.values, ?_, ?_, h.listeners, ?_⟩, hpending⟩
  · rw [hsettled]
    refine List.nodup_append.2 ⟨h.once, List.nodup_singleton _, ?_⟩
    intro x hx y hy heq
    have hlt := h.lt_of_settled hx
    rw [List.mem_singleton.1 hy] at heq
    omega
  · intro id settlement' hmem
    rw [World.answer]
    dsimp only
    rcases List.mem_append.1 hmem with hmem | hmem
    · obtain ⟨waiter, hget, hfit⟩ := h.fits id settlement' hmem
      have hlt := (List.getElem?_eq_some_iff.1 hget).1
      exact ⟨waiter, by rwa [List.getElem?_append_left hlt], hfit⟩
    · cases List.mem_singleton.1 hmem
      exact ⟨_, List.getElem?_concat_length, hfits⟩
  · intro i a hmem
    obtain ⟨hne, hnd, hall⟩ := h.filed i a hmem
    refine ⟨hne, hnd, fun id hid => ?_⟩
    obtain ⟨s, hp⟩ := hall id hid
    exact ⟨s, (hpending _ _).2 hp⟩
  · intro id waiter hp
    exact h.held id waiter ((hpending _ _).1 hp)
  · intro id
    refine (h.listening id).trans (exists_congr fun waiter => ?_)
    exact and_congr_left' (hpending _ _).symm

theorem mem_set_pair {m : JsMap Nat Nat}
    (h : m.get index = some a ∨ m.get index = none) {p : Nat × Nat} :
    p ∈ m.set index a ↔ p ∈ m ∨ p = (index, a) := by
  rcases h with h | h
  · rw [JsMap.set_get h]
    refine (or_iff_left_of_imp fun hp => ?_).symm
    rw [hp]
    exact JsMap.mem_of_get h
  · rw [JsMap.set_of_not_mem a (JsMap.get_eq_none_iff.1 h), List.mem_append,
      List.mem_singleton]

/-- A promise that waits is put at the end of the array of its index. -/
theorem Core.enlist (h : w.Core)
    (signal : Option Nat) {arrays : List (List Nat)}
    (ha : w.chunkWaiters.get index = some a
      ∨ (w.chunkWaiters.get index = none ∧ a = w.arrays.length))
    (harrays : ∀ b, (arrays[b]?).getD []
      = if b = a then w.array a ++ [w.waiters.length] else w.array b) :
    (w.enlist index signal a arrays).Core
      ∧ ∀ id waiter, (w.enlist index signal a arrays).Pending id waiter
        ↔ w.Pending id waiter
          ∨ (id = w.waiters.length ∧ waiter = ⟨index, signal, some a⟩) := by
  have hpending : ∀ id waiter,
      (w.enlist index signal a arrays).Pending id waiter
        ↔ w.Pending id waiter
          ∨ (id = w.waiters.length ∧ waiter = ⟨index, signal, some a⟩) := by
    intro id waiter
    rw [Pending, World.enlist]
    dsimp only
    constructor
    · rintro ⟨hget, hout⟩
      by_cases hlt : id < w.waiters.length
      · rw [List.getElem?_append_left hlt] at hget
        exact .inl ⟨hget, hout⟩
      · have hlen := (List.getElem?_eq_some_iff.1 hget).1
        rw [List.length_append, List.length_singleton] at hlen
        obtain rfl : id = w.waiters.length := by omega
        rw [List.getElem?_concat_length] at hget
        exact .inr ⟨rfl, (Option.some.inj hget).symm⟩
    · rintro (hp | ⟨rfl, rfl⟩)
      · exact ⟨by rw [List.getElem?_append_left hp.lt]; exact hp.1, hp.2⟩
      · refine ⟨List.getElem?_concat_length, fun hmem => ?_⟩
        exact Nat.lt_irrefl _ (h.lt_of_settled hmem)
  have hmem : ∀ p, p ∈ (w.enlist index signal a arrays).chunkWaiters
      ↔ p ∈ w.chunkWaiters ∨ p = (index, a) := fun p =>
    mem_set_pair (ha.imp_right And.left)
  have harray : ∀ b, (w.enlist index signal a arrays).array b
      = if b = a then w.array a ++ [w.waiters.length] else w.array b := harrays
  have hfresh : ∀ {id waiter}, w.Pending id waiter → id ≠ w.waiters.length :=
    fun hp => Nat.ne_of_lt hp.lt
  -- the index of the array, when it is there already
  have hown : ∀ i, (i, a) ∈ w.chunkWaiters → i = index := by
    intro i hi
    rcases ha with ha | ⟨-, rfl⟩
    · exact h.same_index hi (JsMap.mem_of_get ha)
    · exact absurd (length_of_filed h hi) (Nat.lt_irrefl _)
  have hold : ∀ id ∈ w.array a, ∃ s, w.Pending id ⟨index, s, some a⟩ := by
    intro id hid
    rcases ha with ha | ⟨-, rfl⟩
    · exact (h.filed index a (JsMap.mem_of_get ha)).2.2 id hid
    · rw [array, List.getElem?_eq_none (Nat.le_refl _)] at hid
      exact absurd hid List.not_mem_nil
  have hnodup : (w.array a).Nodup := by
    rcases ha with ha | ⟨-, rfl⟩
    · exact (h.filed index a (JsMap.mem_of_get ha)).2.1
    · rw [array, List.getElem?_eq_none (Nat.le_refl _)]
      exact List.nodup_nil
  refine ⟨⟨h.once, ?_, JsMap.nodup_keys_set h.keys index a, ?_, ?_, ?_, ?_, ?_⟩,
    hpending⟩
  · intro id settlement hsettled
    obtain ⟨waiter, hget, hfit⟩ := h.fits id settlement hsettled
    have hlt := (List.getElem?_eq_some_iff.1 hget).1
    refine ⟨waiter, ?_, hfit⟩
    rw [World.enlist]
    dsimp only
    rwa [List.getElem?_append_left hlt]
  · rcases ha with ha | ⟨ha, rfl⟩
    · rw [World.enlist]
      dsimp only
      rw [JsMap.set_get ha]
      exact h.values
    · rw [World.enlist]
      dsimp only
      rw [JsMap.set_of_not_mem _ (JsMap.get_eq_none_iff.1 ha), JsMap.values,
        List.map_append]
      refine List.nodup_append.2 ⟨h.values, List.nodup_singleton _, ?_⟩
      intro x hx y hy heq
      obtain ⟨⟨i, b⟩, hp, rfl⟩ := List.mem_map.1 hx
      have hlt := length_of_filed h hp
      rw [List.mem_singleton.1 hy] at heq
      exact Nat.ne_of_lt hlt heq
  · intro i b hib
    rw [harray]
    by_cases hb : b = a
    · subst hb
      obtain rfl : i = index := by
        rcases (hmem _).1 hib with hib | hib
        · exact hown i hib
        · exact congrArg Prod.fst hib
      rw [if_pos rfl]
      refine ⟨List.append_ne_nil_of_right_ne_nil _ (List.cons_ne_nil _ _),
        List.nodup_append.2 ⟨hnodup, List.nodup_singleton _, ?_⟩, ?_⟩
      · intro x hx y hy heq
        obtain ⟨s, hp⟩ := hold x hx
        rw [List.mem_singleton.1 hy] at heq
        exact hfresh hp heq
      · intro id hid
        rcases List.mem_append.1 hid with hid | hid
        · obtain ⟨s, hp⟩ := hold id hid
          exact ⟨s, (hpending _ _).2 (.inl hp)⟩
        · exact ⟨signal, (hpending _ _).2
            (.inr ⟨List.mem_singleton.1 hid, rfl⟩)⟩
    · rw [if_neg hb]
      have hib' : (i, b) ∈ w.chunkWaiters :=
        ((hmem _).1 hib).resolve_right fun heq => hb (congrArg Prod.snd heq)
      obtain ⟨hne, hnd, hall⟩ := h.filed i b hib'
      refine ⟨hne, hnd, fun id hid => ?_⟩
      obtain ⟨s, hp⟩ := hall id hid
      exact ⟨s, (hpending _ _).2 (.inl hp)⟩
  · intro id waiter hp
    rcases (hpending _ _).1 hp with hp | ⟨rfl, rfl⟩
    · obtain ⟨b, hb, hbmem, hid⟩ := h.held id waiter hp
      refine ⟨b, hb, (hmem _).2 (.inl hbmem), ?_⟩
      rw [harray]
      by_cases hba : b = a
      · rw [if_pos hba]
        exact List.mem_append_left _ (hba ▸ hid)
      · rwa [if_neg hba]
    · refine ⟨a, rfl, (hmem _).2 (.inr rfl), ?_⟩
      rw [harray, if_pos rfl]
      exact List.mem_append_right _ List.mem_cons_self
  · rw [World.enlist]
    dsimp only
    by_cases hsignal : signal.isSome = true
    · rw [if_pos hsignal]
      refine List.nodup_append.2 ⟨h.listeners, List.nodup_singleton _, ?_⟩
      intro x hx y hy heq
      obtain ⟨waiter, hp, -⟩ := (h.listening x).1 hx
      rw [List.mem_singleton.1 hy] at heq
      exact hfresh hp heq
    · rw [if_neg hsignal]
      exact h.listeners
  · intro id
    have hlisten : id ∈ (w.enlist index signal a arrays).listeners
        ↔ id ∈ w.listeners
          ∨ (id = w.waiters.length ∧ signal.isSome = true) := by
      rw [World.enlist]
      dsimp only
      by_cases hsignal : signal.isSome = true
      · rw [if_pos hsignal, List.mem_append, List.mem_singleton]
        exact or_congr_right (and_iff_left hsignal).symm
      · rw [if_neg hsignal]
        exact (or_iff_left fun hx => hsignal hx.2).symm
    rw [hlisten, h.listening]
    constructor
    · rintro (⟨waiter, hp, hsome⟩ | ⟨rfl, hsome⟩)
      · exact ⟨waiter, (hpending _ _).2 (.inl hp), hsome⟩
      · exact ⟨_, (hpending _ _).2 (.inr ⟨rfl, rfl⟩), hsome⟩
    · rintro ⟨waiter, hp, hsome⟩
      rcases (hpending _ _).1 hp with hp | ⟨rfl, rfl⟩
      · exact .inl ⟨waiter, hp, hsome⟩
      · exact .inr ⟨rfl, hsome⟩

-- ======== the chunks

/-- A chunk is where its bytes are. -/
def ChunkAt (files : JsMap Nat Buffer) (i : Nat) (bytes : Buffer) :
    Chunk → Prop
  | .buffer bytes' => bytes' = bytes
  | .path fileIndex => fileIndex = i ∧ files.get i = some bytes

/-- The chunks are those that were appended. -/
structure Stored (w : World) : Prop where
  length : w.chunks.length = w.appended.length
  bytes : ∀ i chunk bytes, w.chunks[i]? = some chunk →
    w.appended[i]? = some bytes → ChunkAt w.files i bytes chunk

theorem Stored.readChunk (h : w.Stored) (i : Nat) :
    w.readChunk i = w.appended[i]? := by
  rw [World.readChunk]
  cases hchunk : w.chunks[i]? with
  | none =>
    rw [List.getElem?_eq_none_iff, h.length,
      ← List.getElem?_eq_none_iff] at hchunk
    exact hchunk.symm
  | some chunk =>
    have hlt := (List.getElem?_eq_some_iff.1 hchunk).1
    have hbytes := List.getElem?_eq_getElem (h.length ▸ hlt)
    have hat := h.bytes i chunk _ hchunk hbytes
    rw [hbytes]
    cases chunk with
    | buffer bytes => exact congrArg some hat
    | path fileIndex =>
      obtain ⟨rfl, hget⟩ := hat
      exact hget

/-- The bytes of a chunk in memory. -/
def bytes? : Chunk → Option Buffer
  | .buffer bytes => some bytes
  | .path _ => none

/-- The files when the chunks in memory went to them. -/
theorem get_spilled (chunks : List Chunk) (files : JsMap Nat Buffer) (i : Nat) :
    JsMap.get (chunks.zipIdx.foldl spillChunk files) i
      = (chunks[i]?.bind bytes?).or (files.get i) := by
  induction chunks using List.reverseRecOn with
  | nil => rfl
  | append_singleton chunks chunk ih =>
    rw [List.zipIdx_append, List.foldl_append, Nat.zero_add]
    by_cases hi : i = chunks.length
    · subst hi
      rw [List.getElem?_eq_none (Nat.le_refl _)] at ih
      rw [List.getElem?_concat_length]
      cases chunk with
      | buffer bytes => exact JsMap.get_set_self _ _ _
      | path fileIndex => exact ih
    · have hget : (chunks ++ [chunk])[i]? = chunks[i]? := by
        by_cases hlt : i < chunks.length
        · exact List.getElem?_append_left hlt
        · have hlong : (chunks ++ [chunk]).length ≤ i := by
            rw [List.length_append, List.length_singleton]
            omega
          rw [List.getElem?_eq_none hlong,
            List.getElem?_eq_none (Nat.le_of_not_lt hlt)]
      rw [hget, ← ih]
      cases chunk with
      | buffer bytes =>
        exact JsMap.get_set_ne _ _ fun heq => hi heq.symm
      | path fileIndex => rfl

theorem Stored.spill (h : w.Stored) : w.spill.Stored := by
  refine ⟨?_, fun i chunk bytes hchunk hbytes => ?_⟩
  · rw [World.spill]
    dsimp only
    rw [List.length_mapIdx]
    exact h.length
  · rw [World.spill] at hchunk hbytes ⊢
    dsimp only at hchunk hbytes ⊢
    rw [List.getElem?_mapIdx] at hchunk
    obtain ⟨old, hold, rfl⟩ := Option.map_eq_some_iff.1 hchunk
    have hat := h.bytes i old bytes hold hbytes
    refine ⟨rfl, ?_⟩
    rw [get_spilled, hold]
    cases old with
    | buffer bytes' => exact congrArg some hat
    | path fileIndex => exact hat.2

/-- Another chunk is stored behind the others. -/
theorem Stored.putChunk (h : w.Stored) (options : CacheOptions)
    (bytes : Buffer) : (w.putChunk options bytes).Stored := by
  -- the chunks before it, in memory or spilled
  have hspilled : ∃ w₁ : World, (w.putChunk options bytes
        = if w₁.cacheDirectory.isSome then
            { w₁ with
              files := w₁.files.set w₁.chunks.length bytes
              chunks := w₁.chunks ++ [.path w₁.chunks.length] }
          else { w₁ with chunks := w₁.chunks ++ [.buffer bytes] })
      ∧ w₁.appended = w.appended ++ [bytes]
      ∧ w₁.chunks.length = w.appended.length
      ∧ ∀ i chunk b, w₁.chunks[i]? = some chunk → w.appended[i]? = some b →
        ChunkAt w₁.files i b chunk := by
    rw [World.putChunk]
    dsimp only
    by_cases hfull : w.cacheDirectory = none
        ∧ w.totalBytes + bytes.length > options.memoryCacheBytes
    · rw [if_pos hfull]
      refine ⟨_, rfl, rfl, ?_, ?_⟩
      · exact h.spill.length
      · exact h.spill.bytes
    · rw [if_neg hfull]
      exact ⟨_, rfl, rfl, h.length, h.bytes⟩
  obtain ⟨w₁, heq, happended, hlength, hbytes⟩ := hspilled
  rw [heq]
  have hget : ∀ {α : Type} (l : List α) (x y : α) (i : Nat),
      (l ++ [x])[i]? = some y →
      (l[i]? = some y ∧ i ≠ l.length) ∨ (i = l.length ∧ y = x) := by
    intro α l x y i hi
    by_cases hlt : i < l.length
    · rw [List.getElem?_append_left hlt] at hi
      exact .inl ⟨hi, by omega⟩
    · have hlen := (List.getElem?_eq_some_iff.1 hi).1
      rw [List.length_append, List.length_singleton] at hlen
      obtain rfl : i = l.length := by omega
      rw [List.getElem?_concat_length] at hi
      exact .inr ⟨rfl, (Option.some.inj hi).symm⟩
  by_cases hdir : w₁.cacheDirectory.isSome = true
  · rw [if_pos hdir]
    refine ⟨?_, fun i chunk b hchunk hb => ?_⟩
    · dsimp only
      rw [happended, List.length_append, List.length_append, hlength]
      rfl
    · dsimp only at hchunk hb ⊢
      rw [happended] at hb
      rcases hget _ _ _ _ hb with ⟨hb, hne⟩ | ⟨rfl, rfl⟩
      · rcases hget _ _ _ _ hchunk with ⟨hchunk, -⟩ | ⟨rfl, -⟩
        · have hat := hbytes i chunk b hchunk hb
          cases chunk with
          | buffer bytes' => exact hat
          | path fileIndex =>
            refine ⟨hat.1, ?_⟩
            rw [JsMap.get_set_ne _ _ fun heq => hne (heq.symm.trans hlength)]
            exact hat.2
        · exact absurd hlength hne
      · rw [← hlength, List.getElem?_concat_length] at hchunk
        rw [← Option.some.inj hchunk, ← hlength]
        exact ⟨rfl, JsMap.get_set_self _ _ _⟩
  · rw [if_neg hdir]
    refine ⟨?_, fun i chunk b hchunk hb => ?_⟩
    · dsimp only
      rw [happended, List.length_append, List.length_append, hlength]
      rfl
    · dsimp only at hchunk hb ⊢
      rw [happended] at hb
      rcases hget _ _ _ _ hb with ⟨hb, hne⟩ | ⟨rfl, rfl⟩
      · rcases hget _ _ _ _ hchunk with ⟨hchunk, -⟩ | ⟨rfl, -⟩
        · exact hbytes i chunk b hchunk hb
        · exact absurd hlength hne
      · rw [← hlength, List.getElem?_concat_length] at hchunk
        rw [← Option.some.inj hchunk]
        rfl

-- ======== the invariant

/-- What holds of a cache between calls. -/
structure Inv (w : World) : Prop where
  core : w.Core
  waits : ∀ id waiter, w.Pending id waiter →
    w.appended.length ≤ waiter.index ∧ w.completed = false
      ∧ w.failure = none
      ∧ ∀ signal, waiter.signal = some signal → w.aborted.get signal = none
  stored : w.failure = none → w.Stored
  disposed : w.disposed = true → w.failure ≠ none

theorem Inv.settles (h : w.Inv) : w.Settles := by
  refine ⟨h.core.once, h.core.fits, fun id waiter hp => ?_⟩
  obtain ⟨hindex, hcompleted, hfailure, hsignal⟩ := h.waits id waiter hp
  refine ⟨hindex, hcompleted, hfailure, ?_, hsignal⟩
  cases hdisposed : w.disposed with
  | false => rfl
  | true => exact absurd hfailure (h.disposed hdisposed)

/-- The promises that wait, index by index. -/
def waitingIds (w : World) : List Nat :=
  w.chunkWaiters.flatMap fun p => w.array p.2

theorem Core.mem_waitingIds (h : w.Core) :
    id ∈ w.waitingIds ↔ ∃ waiter, w.Pending id waiter := by
  rw [waitingIds, List.mem_flatMap]
  constructor
  · rintro ⟨⟨index, a⟩, hmem, hid⟩
    obtain ⟨signal, hp⟩ := (h.filed index a hmem).2.2 id hid
    exact ⟨_, hp⟩
  · rintro ⟨waiter, hp⟩
    obtain ⟨a, -, hmem, hid⟩ := h.held id waiter hp
    exact ⟨_, hmem, hid⟩

theorem Core.nodup_waitingIds (h : w.Core) : w.waitingIds.Nodup := by
  rw [waitingIds, List.nodup_flatMap]
  refine ⟨fun p hp => (h.filed p.1 p.2 hp).2.1, ?_⟩
  have hvalues := List.pairwise_map.1 h.values
  refine hvalues.imp_of_mem fun {p q} hp hq hne => ?_
  intro id hidp hidq
  obtain ⟨_, hp'⟩ := (h.filed p.1 p.2 hp).2.2 id hidp
  obtain ⟨_, hq'⟩ := (h.filed q.1 q.2 hq).2.2 id hidq
  have hsame := hp'.unique hq'
  rw [Waiter.mk.injEq] at hsame
  exact hne (Option.some.inj hsame.2.2)

/-- Settling everybody leaves nobody waiting and the map empty. -/
theorem Core.settleEverybody (h : w.Core)
    (settlement : Settlement)
    (hfits : ∀ id waiter, w.Pending id waiter → w.Fits waiter settlement) :
    (w.retire w.waitingIds settlement []).Core
      ∧ ∀ id waiter, ¬(w.retire w.waitingIds settlement []).Pending id waiter := by
  refine ⟨h.settle h.nodup_waitingIds (fun id hid => ?_)
    (List.nil_sublist _) (fun _ _ hmem => absurd hmem List.not_mem_nil)
    (fun index a hmem hout => ?_), fun id waiter hp => ?_⟩
  · obtain ⟨waiter, hp⟩ := h.mem_waitingIds.1 hid
    exact ⟨waiter, hp, hfits id waiter hp⟩
  · obtain ⟨id, hid, hnot⟩ := hout
    exact absurd (List.mem_flatMap.2 ⟨_, hmem, hid⟩) hnot
  · obtain ⟨hp, hnot⟩ := pending_retire.1 hp
    exact hnot (h.mem_waitingIds.2 ⟨waiter, hp⟩)

/-- With nobody waiting there is little to hold. -/
theorem inv_of_nobody (hcore : w.Core)
    (hnobody : ∀ id waiter, ¬w.Pending id waiter)
    (hstored : w.failure = none → w.Stored)
    (hdisposed : w.disposed = true → w.failure ≠ none) : w.Inv :=
  ⟨hcore, fun id waiter hp => absurd hp (hnobody id waiter), hstored,
    hdisposed⟩

-- ------------------------------------------------------------------ failing

theorem settleAll_retire (w : World) (ids : List Nat)
    (settlement : Settlement) :
    w.settleAll ids settlement = w.retire ids settlement w.chunkWaiters :=
  settleAll_eq w ids settlement

theorem retire_retire (w : World) (ids ids' : List Nat)
    (settlement : Settlement) (m m' : JsMap Nat Nat) :
    (w.retire ids settlement m).retire ids' settlement m'
      = w.retire (ids ++ ids') settlement m' := by
  have hfilter : (w.listeners.filter (· ∉ ids)).filter (· ∉ ids')
      = w.listeners.filter (· ∉ ids ++ ids') := by
    rw [List.filter_filter]
    refine List.filter_congr fun x _ => ?_
    simp only [List.mem_append, not_or, Bool.decide_and]
    exact Bool.and_comm _ _
  rw [retire, retire, retire]
  dsimp only
  rw [hfilter, List.map_append, List.append_assoc]

/-- Only the first failure counts. -/
theorem markFailed_again (hfailure : w.failure ≠ none)
    (error : String) : w.markFailed error = w := by
  rw [World.markFailed, if_pos (Option.isSome_iff_ne_none.2 hfailure)]

theorem markFailed_eq (hfailure : w.failure = none) (error : String) :
    w.markFailed error
      = retire { w with failure := some error } w.waitingIds
        (.rejected error) [] := by
  have hfold : ∀ (ps : List (Nat × Nat)) (u : World), u.arrays = w.arrays →
      ps.foldl (fun u p => u.settleAll (u.array p.2) (.rejected error)) u
        = retire u (ps.flatMap fun p => w.array p.2) (.rejected error)
          u.chunkWaiters := by
    intro ps
    induction ps with
    | nil =>
      intro u _
      exact settleAll_eq u [] (.rejected error)
    | cons p ps ih =>
      intro u hu
      have hrest := ih (u.retire (w.array p.2) (.rejected error)
        u.chunkWaiters) hu
      rw [List.foldl_cons, array_congr hu, settleAll_retire, hrest,
        retire_retire, List.flatMap_cons]
      rfl
  rw [World.markFailed, hfailure]
  change (if (none : Option String).isSome then w else _) = _
  rw [if_neg (by decide)]
  dsimp only
  rw [hfold w.chunkWaiters { w with failure := some error } rfl]
  rfl

theorem Inv.markFailed (h : w.Inv) (error : String) :
    (w.markFailed error).Inv := by
  by_cases hfailure : w.failure = none
  · have hcore : Core { w with failure := some error } := by
      refine h.core.congr rfl rfl rfl rfl rfl fun waiter settlement hfit => ?_
      refine Fits.mono ?_ ?_ ?_ ?_ hfit
      · exact List.prefix_refl _
      · exact fun hdone => ⟨hdone, rfl⟩
      · intro e he
        rw [hfailure] at he
        cases he
      · exact fun _ _ hab => hab
    obtain ⟨hcore', hnobody⟩ := hcore.settleEverybody
      (.rejected error) fun _ _ _ => .inl rfl
    rw [markFailed_eq hfailure]
    exact inv_of_nobody hcore' hnobody
      (fun hnone => absurd hnone (Option.some_ne_none error))
      (fun _ => Option.some_ne_none error)
  · rw [markFailed_again hfailure]
    exact h

-- ---------------------------------------------------------------- completing

theorem foldl_delete (ps : List (Nat × Nat)) (m : JsMap Nat Nat) :
    ps.foldl (fun m p => JsMap.delete m p.1) m
      = m.filter fun q => decide (q.1 ∉ ps.map Prod.fst) := by
  induction ps generalizing m with
  | nil =>
    refine (List.filter_eq_self.2 fun q _ => ?_).symm
    exact decide_eq_true List.not_mem_nil
  | cons p ps ih =>
    rw [List.foldl_cons, ih, JsMap.delete, List.filter_filter]
    refine List.filter_congr fun q _ => ?_
    simp only [List.map_cons, List.mem_cons, not_or, Bool.decide_and]
    exact Bool.and_comm _ _

/-- The loop of `markComplete`, when no promise waits for a chunk that is
there. -/
theorem foldl_completeIndex (ps : List (Nat × Nat)) {u : World}
    (harrays : u.arrays = w.arrays)
    (hps : ∀ p ∈ ps, ¬p.1 < u.chunks.length) :
    ps.foldl completeIndex u
      = u.retire (ps.flatMap fun p => w.array p.2) (.resolved none)
        (ps.foldl (fun m p => JsMap.delete m p.1) u.chunkWaiters) := by
  induction ps generalizing u with
  | nil => exact settleAll_eq u [] (.resolved none)
  | cons p ps ih =>
    have hstep : u.completeIndex p
        = u.retire (w.array p.2) (.resolved none)
          (u.chunkWaiters.delete p.1) := by
      rw [completeIndex, if_neg (hps p List.mem_cons_self),
        array_congr harrays, settleAll_retire]
      rfl
    have hrest := ih (u := u.retire (w.array p.2) (.resolved none)
      (u.chunkWaiters.delete p.1)) harrays
      (fun q hq => hps q (List.mem_cons_of_mem p hq))
    rw [List.foldl_cons, hstep, hrest, retire_retire, List.flatMap_cons]
    rfl

section
variable (h : w.Inv)
include h

/-- No promise waits for a chunk that is there, so no array does. -/
theorem Inv.beyond (hfailure : w.failure = none)
    {p : Nat × Nat} (hp : p ∈ w.chunkWaiters) :
    ¬p.1 < w.chunks.length := by
  obtain ⟨hne, -, hall⟩ := h.core.filed p.1 p.2 hp
  obtain ⟨id, hid⟩ := List.exists_mem_of_ne_nil _ hne
  obtain ⟨signal, hpending⟩ := hall id hid
  have hwait : w.appended.length ≤ p.1 := (h.waits id _ hpending).1
  have hlength := (h.stored hfailure).length
  omega

theorem Inv.markComplete : w.markComplete.Inv := by
  rw [World.markComplete]
  by_cases hend : (w.completed || w.failure.isSome || w.disposed) = true
  · rw [if_pos hend]
    exact h
  · rw [if_neg hend]
    simp only [Bool.or_eq_true, not_or, Bool.not_eq_true,
      Option.isSome_eq_false_iff, Option.isNone_iff_eq_none] at hend
    obtain ⟨⟨hcompleted, hfailure⟩, hdisposed⟩ := hend
    have hcore : Core { w with completed := true } := by
      refine h.core.congr rfl rfl rfl rfl rfl fun waiter settlement hfit => ?_
      refine Fits.mono ?_ ?_ ?_ ?_ hfit
      · exact List.prefix_refl _
      · exact fun _ => ⟨rfl, rfl⟩
      · exact fun _ he => he
      · exact fun _ _ hab => hab
    obtain ⟨hcore', hnobody⟩ := hcore.settleEverybody
      (.resolved none) fun id waiter hp =>
        ⟨rfl, (h.waits id waiter hp).1⟩
    have hfold := foldl_completeIndex w.chunkWaiters (w := w)
      (u := { w with completed := true }) rfl
      (fun p hp => h.beyond hfailure hp)
    have hempty : w.chunkWaiters.foldl (fun m p => JsMap.delete m p.1)
        w.chunkWaiters = [] := by
      rw [foldl_delete, List.filter_eq_nil_iff]
      intro q hq hnot
      exact of_decide_eq_true hnot (List.mem_map_of_mem hq)
    rw [hfold]
    dsimp only
    rw [hempty]
    refine inv_of_nobody hcore' hnobody (fun hnone => ?_) (fun hd => ?_)
    · exact ⟨(h.stored hnone).length, (h.stored hnone).bytes⟩
    · exact h.disposed hd

-- ------------------------------------------------------------------ disposing

/-- Once it has failed, nobody waits, and what becomes of the chunks does not
matter. -/
theorem Inv.closed (hfailure : w.failure ≠ none)
    (hwaiters : w'.waiters = w.waiters) (hsettled : w'.settled = w.settled)
    (hmap : w'.chunkWaiters = w.chunkWaiters) (harrays : w'.arrays = w.arrays)
    (hlisteners : w'.listeners = w.listeners)
    (happended : w'.appended = w.appended)
    (hcompleted : w'.completed = w.completed)
    (hfailure' : w'.failure = w.failure) (haborted : w'.aborted = w.aborted) :
    w'.Inv := by
  have hcore : w'.Core := by
    refine h.core.congr hwaiters hsettled hmap harrays hlisteners
      fun waiter settlement hfit => ?_
    refine Fits.mono ?_ ?_ ?_ ?_ hfit
    · refine ⟨[], ?_⟩
      rw [List.append_nil, happended]
    · exact fun hdone => ⟨hcompleted.trans hdone, happended⟩
    · exact fun e he => hfailure'.trans he
    · exact fun s r hab => haborted ▸ hab
  refine inv_of_nobody hcore (fun id waiter hp => ?_) (fun hnone => ?_)
    (fun _ hnone => ?_)
  · rw [Pending, hwaiters, hsettled] at hp
    exact hfailure (h.waits id waiter hp).2.2.1
  · exact absurd (hfailure'.symm.trans hnone) hfailure
  · exact hfailure (hfailure'.symm.trans hnone)

omit h in
theorem failure_markFailed (w : World) (error : String) :
    (w.markFailed error).failure ≠ none := by
  by_cases hfailure : w.failure = none
  · rw [markFailed_eq hfailure]
    exact Option.some_ne_none error
  · rw [markFailed_again hfailure]
    exact hfailure

omit h in
theorem markFailed_disposed (w : World) (error : String) :
    World.markFailed { w with disposed := true } error
      = { w.markFailed error with disposed := true } := by
  by_cases hfailure : w.failure = none
  · rw [markFailed_eq hfailure,
      markFailed_eq (w := { w with disposed := true }) hfailure]
    rfl
  · rw [markFailed_again hfailure,
      markFailed_again (w := { w with disposed := true }) hfailure]

section
variable (options : CacheOptions)

theorem Inv.disposeNow :
    (w.disposeNow options).Inv := by
  rw [World.disposeNow]
  by_cases hdisposed : w.disposed = true
  · rw [if_pos hdisposed]
    exact h
  · rw [if_neg hdisposed]
    dsimp only
    rw [markFailed_disposed]
    have hfailed := h.markFailed
      ("Snapshot transcript " ++ options.snapshotId ++ " was disposed")
    have hfailure := failure_markFailed w
      ("Snapshot transcript " ++ options.snapshotId ++ " was disposed")
    by_cases hdir : (w.markFailed ("Snapshot transcript "
        ++ options.snapshotId ++ " was disposed")).cacheDirectory.isSome = true
    · rw [if_pos hdir]
      exact hfailed.closed hfailure rfl rfl rfl rfl rfl rfl rfl rfl rfl
    · rw [if_neg hdir]
      exact hfailed.closed hfailure rfl rfl rfl rfl rfl rfl rfl rfl rfl

/-- The readers are only counted. -/
theorem Inv.readers (readers : Nat)
    (released : List Bool) (disposeRequested : Bool) :
    Inv { w with
      readers := readers
      released := released
      disposeRequested := disposeRequested } := by
  refine ⟨h.core.congr rfl rfl rfl rfl rfl fun _ _ hfit => ?_, h.waits,
    fun hnone => ?_, h.disposed⟩
  · refine Fits.mono ?_ ?_ ?_ ?_ hfit
    · exact List.prefix_refl _
    · exact fun hdone => ⟨hdone, rfl⟩
    · exact fun _ he => he
    · exact fun _ _ hab => hab
  · exact ⟨(h.stored hnone).length, (h.stored hnone).bytes⟩

theorem Inv.dispose : (w.dispose options).Inv := by
  have hmarked : Inv { w with disposeRequested := true } :=
    h.readers w.readers w.released true
  rw [World.dispose]
  by_cases hend : (w.disposed || w.disposeRequested) = true
  · rw [if_pos hend]
    exact h
  · rw [if_neg hend]
    dsimp only
    by_cases hreaders : w.readers > 0
    · rw [if_pos hreaders]
      exact hmarked
    · rw [if_neg hreaders]
      exact hmarked.disposeNow options

theorem Inv.retain : w.retain.Inv := by
  rw [World.retain]
  by_cases hdisposed : w.disposed = true
  · rw [if_pos hdisposed]
    exact h
  · rw [if_neg hdisposed]
    exact h.readers (w.readers + 1) (w.released ++ [false])
      w.disposeRequested

theorem Inv.release (reader : Nat) : (w.release options reader).Inv := by
  have hcalled : Inv { w with
      released := w.released.set reader true
      readers := w.readers - 1 } :=
    h.readers (w.readers - 1) (w.released.set reader true) w.disposeRequested
  rw [World.release]
  cases hreleased : w.released[reader]? with
  | none => exact h
  | some called =>
    cases called with
    | true => exact h
    | false =>
      dsimp only
      by_cases hlast : (decide (w.readers - 1 = 0) && w.disposeRequested)
          = true
      · rw [if_pos hlast]
        exact hcalled.disposeNow options
      · rw [if_neg hlast]
        exact hcalled

end

-- ---------------------------------------------------------------- appending

/-- A chunk that is put somewhere changes nothing for those who wait. -/
structure Put (w w' : World) (bytes : Buffer) : Prop where
  waiters : w'.waiters = w.waiters
  settled : w'.settled = w.settled
  chunkWaiters : w'.chunkWaiters = w.chunkWaiters
  arrays : w'.arrays = w.arrays
  listeners : w'.listeners = w.listeners
  appended : w'.appended = w.appended ++ [bytes]
  completed : w'.completed = w.completed
  failure : w'.failure = w.failure
  disposed : w'.disposed = w.disposed
  aborted : w'.aborted = w.aborted

omit h in
theorem putChunk_put (w : World) (bytes : Buffer) :
    Put w (w.putChunk options bytes) bytes := by
  rw [World.putChunk]
  dsimp only
  by_cases hfull : w.cacheDirectory = none
      ∧ w.totalBytes + bytes.length > options.memoryCacheBytes
  · rw [if_pos hfull]
    exact ⟨rfl, rfl, rfl, rfl, rfl, rfl, rfl, rfl, rfl, rfl⟩
  · rw [if_neg hfull]
    dsimp only
    by_cases hdir : w.cacheDirectory.isSome = true
    · rw [if_pos hdir]
      exact ⟨rfl, rfl, rfl, rfl, rfl, rfl, rfl, rfl, rfl, rfl⟩
    · rw [if_neg hdir]
      exact ⟨rfl, rfl, rfl, rfl, rfl, rfl, rfl, rfl, rfl, rfl⟩

omit h in
theorem Put.pending {bytes : Buffer} (hput : Put w w' bytes)
    (id : Nat) (waiter : Waiter) :
    w'.Pending id waiter ↔ w.Pending id waiter := by
  rw [Pending, Pending, hput.waiters, hput.settled]

omit h in
theorem Put.core {bytes : Buffer} (hput : Put w w' bytes)
    (h : w.Core) (hcompleted : w.completed = false) : w'.Core := by
  refine h.congr hput.waiters hput.settled hput.chunkWaiters hput.arrays
    hput.listeners fun waiter settlement hfit => ?_
  refine Fits.mono ?_ ?_ ?_ ?_ hfit
  · exact ⟨[bytes], hput.appended.symm⟩
  · intro hdone
    rw [hcompleted] at hdone
    cases hdone
  · exact fun e he => hput.failure.trans he
  · exact fun s r hab => hput.aborted ▸ hab

/-- Nothing has ended yet. -/
structure Writable (w : World) : Prop where
  completed : w.completed = false
  failure : w.failure = none
  disposed : w.disposed = false

omit h in
theorem writable_iff : w.writable = true ↔ w.Writable := by
  rw [writable, Bool.not_eq_true']
  simp only [Bool.or_eq_false_iff, Option.isSome_eq_false_iff,
    Option.isNone_iff_eq_none]
  constructor
  · rintro ⟨⟨hcompleted, hfailure⟩, hdisposed⟩
    exact ⟨hcompleted, hfailure, hdisposed⟩
  · rintro ⟨hcompleted, hfailure, hdisposed⟩
    exact ⟨⟨hcompleted, hfailure⟩, hdisposed⟩

/-- The cache with one more chunk, and those who waited for it told. -/
theorem storeChunk_cases (hw : w.Writable)
    (options : CacheOptions) (bytes : Buffer) :
    (w.chunkWaiters.get w.appended.length = none
      ∧ w.storeChunk options bytes = w.putChunk options bytes)
    ∨ ∃ a, w.chunkWaiters.get w.appended.length = some a
      ∧ w.storeChunk options bytes
        = (w.putChunk options bytes).retire (w.array a)
          (.resolved (some bytes))
          (w.chunkWaiters.delete w.appended.length) := by
  have hput := putChunk_put options w bytes
  have hstored := (h.stored hw.failure).putChunk options bytes
  have hindex : (w.putChunk options bytes).chunks.length - 1
      = w.appended.length := by
    rw [hstored.length, hput.appended, List.length_append,
      List.length_singleton]
    omega
  have hread : (w.putChunk options bytes).readChunk w.appended.length
      = some bytes := by
    rw [hstored.readChunk, hput.appended]
    exact List.getElem?_concat_length
  rw [World.storeChunk]
  dsimp only
  rw [hindex, hput.chunkWaiters]
  cases hget : w.chunkWaiters.get w.appended.length with
  | none => exact .inl ⟨rfl, rfl⟩
  | some a =>
    refine .inr ⟨a, rfl, ?_⟩
    rw [hread]
    dsimp only
    rw [array_congr hput.arrays, settleAll_retire, hput.chunkWaiters]
    rfl

theorem Inv.storeChunk (hw : w.Writable)
    (options : CacheOptions) (bytes : Buffer) :
    (w.storeChunk options bytes).Inv := by
  have hput := putChunk_put options w bytes
  have hcore := hput.core h.core hw.completed
  have hstored := (h.stored hw.failure).putChunk options bytes
  have hdisposed : (w.putChunk options bytes).disposed = true →
      (w.putChunk options bytes).failure ≠ none := by
    intro hd
    rw [hput.disposed, hw.disposed] at hd
    cases hd
  -- those who wait for another chunk wait on
  have hwaits : ∀ id waiter, w.Pending id waiter →
      waiter.index ≠ w.appended.length →
      (w.putChunk options bytes).appended.length ≤ waiter.index
        ∧ (w.putChunk options bytes).completed = false
        ∧ (w.putChunk options bytes).failure = none
        ∧ ∀ signal, waiter.signal = some signal →
          (w.putChunk options bytes).aborted.get signal = none := by
    intro id waiter hp hne
    obtain ⟨hindex, hcompleted, hfailure, hsignal⟩ := h.waits id waiter hp
    rw [hput.appended, hput.completed, hput.failure, hput.aborted,
      List.length_append, List.length_singleton]
    exact ⟨by omega, hcompleted, hfailure, hsignal⟩
  rcases storeChunk_cases h hw options bytes with
    ⟨hget, heq⟩ | ⟨a, hget, heq⟩
  · rw [heq]
    refine ⟨hcore, fun id waiter hp => ?_, fun _ => hstored, hdisposed⟩
    rw [hput.pending] at hp
    refine hwaits id waiter hp fun hindex => ?_
    obtain ⟨b, -, hmem, -⟩ := h.core.held id waiter hp
    rw [hindex] at hmem
    rw [JsMap.get_of_mem h.core.keys hmem] at hget
    cases hget
  · have hmem := JsMap.mem_of_get hget
    obtain ⟨-, hnodup, hall⟩ := h.core.filed _ a hmem
    have hother : ∀ i b, (i, b) ∈ w.chunkWaiters → i ≠ w.appended.length →
        ∀ id ∈ w.array b, id ∉ w.array a := by
      intro i b hib hne id hid hida
      obtain ⟨s, hp⟩ := (h.core.filed i b hib).2.2 id hid
      obtain ⟨t, hq⟩ := hall id hida
      have hsame := hp.unique hq
      rw [Waiter.mk.injEq] at hsame
      exact hne hsame.1
    rw [heq]
    refine ⟨?_, fun id waiter hp => ?_, fun _ => ?_, hdisposed⟩
    · refine hcore.settle hnodup (fun id hid => ?_) ?_ ?_ ?_
      · obtain ⟨s, hp⟩ := hall id hid
        refine ⟨_, (hput.pending _ _).2 hp, ?_⟩
        change (w.putChunk options bytes).appended[w.appended.length]? = _
        rw [hput.appended]
        exact List.getElem?_concat_length
      · rw [hput.chunkWaiters]
        exact List.filter_sublist
      · intro i b hib id hid
        rw [array_congr hput.arrays] at hid
        obtain ⟨hib, hne⟩ := List.mem_filter.1 hib
        exact hother i b hib (of_decide_eq_true hne) id hid
      · rintro i b hib ⟨id, hid, hnot⟩
        rw [array_congr hput.arrays] at hid
        rw [hput.chunkWaiters] at hib
        refine List.mem_filter.2 ⟨hib, decide_eq_true fun hi => hnot ?_⟩
        change i = w.appended.length at hi
        subst hi
        exact h.core.same_array hib hmem ▸ hid
    · obtain ⟨hp, hnot⟩ := pending_retire.1 hp
      rw [hput.pending] at hp
      refine hwaits id waiter hp fun hindex => hnot ?_
      obtain ⟨b, -, hib, hid⟩ := h.core.held id waiter hp
      rw [hindex] at hib
      exact h.core.same_array hib hmem ▸ hid
    · exact ⟨hstored.length, hstored.bytes⟩

section
variable (options : CacheOptions)

theorem Inv.appendEncodedChunk (bytes : Buffer) :
    (w.appendEncodedChunk options bytes).Inv := by
  rw [World.appendEncodedChunk]
  by_cases hw : w.writable = true
  · rw [if_pos hw]
    exact h.storeChunk (writable_iff.1 hw) options bytes
  · rw [if_neg hw]
    exact h

/-- Who waits for the next chunk gets it when it is appended. -/
theorem Inv.delivered (bytes : Buffer) (hw : w.writable = true)
    (hp : w.Pending id waiter) (hindex : waiter.index = w.appended.length) :
    (id, .resolved (some bytes))
      ∈ (w.appendEncodedChunk options bytes).settled := by
  obtain ⟨a, -, hmem, hid⟩ := h.core.held id waiter hp
  rw [hindex] at hmem
  have hget := JsMap.get_of_mem h.core.keys hmem
  rw [World.appendEncodedChunk, if_pos hw]
  rcases storeChunk_cases h (writable_iff.1 hw) options bytes with
    ⟨hnone, -⟩ | ⟨b, hget', heq⟩
  · rw [hget] at hnone
    cases hnone
  · rw [hget] at hget'
    obtain rfl := Option.some.inj hget'
    rw [heq]
    exact List.mem_append_right _ (List.mem_map_of_mem hid)

-- ------------------------------------------------------------------ waiting

theorem Inv.answer (hfits : w.Fits ⟨index, signal, none⟩ settlement) :
    (w.answer index signal settlement).Inv := by
  obtain ⟨hcore, hpending⟩ := h.core.answer hfits
  refine ⟨hcore, fun id waiter hp => ?_, fun hnone => ?_, h.disposed⟩
  · exact h.waits id waiter ((hpending id waiter).1 hp)
  · exact ⟨(h.stored hnone).length, (h.stored hnone).bytes⟩

theorem Inv.enlist {arrays : List (List Nat)}
    (ha : w.chunkWaiters.get index = some a
      ∨ (w.chunkWaiters.get index = none ∧ a = w.arrays.length))
    (harrays : ∀ b, (arrays[b]?).getD []
      = if b = a then w.array a ++ [w.waiters.length] else w.array b)
    (hindex : w.appended.length ≤ index) (hcompleted : w.completed = false)
    (hfailure : w.failure = none)
    (hsignal : signal.bind w.aborted.get = none) :
    (w.enlist index signal a arrays).Inv := by
  obtain ⟨hcore, hpending⟩ := h.core.enlist signal ha harrays
  refine ⟨hcore, fun id waiter hp => ?_, fun hnone => ?_, h.disposed⟩
  · rcases (hpending id waiter).1 hp with hp | ⟨-, rfl⟩
    · exact h.waits id waiter hp
    · refine ⟨hindex, hcompleted, hfailure, fun s hs => ?_⟩
      change signal = some s at hs
      rw [hs] at hsignal
      exact hsignal
  · exact ⟨(h.stored hnone).length, (h.stored hnone).bytes⟩

theorem Inv.waitForChunk (index : Nat)
    (signal : Option Nat) : (w.waitForChunk index signal).Inv := by
  rw [World.waitForChunk]
  cases hsignal : signal.bind w.aborted.get with
  | some reason =>
    obtain ⟨s, hs, hreason⟩ := Option.bind_eq_some_iff.1 hsignal
    exact h.answer (.inr ⟨s, hs, hreason⟩)
  | none =>
    dsimp only
    cases hfailure : w.failure with
    | some error => exact h.answer (.inl hfailure)
    | none =>
      have hstored := h.stored hfailure
      dsimp only
      by_cases hlt : index < w.chunks.length
      · rw [if_pos hlt]
        cases hread : w.readChunk index with
        | none => exact h
        | some bytes =>
          refine h.answer ?_
          rw [hstored.readChunk] at hread
          exact hread
      · rw [if_neg hlt]
        have hindex : w.appended.length ≤ index := by
          rw [← hstored.length]
          exact Nat.le_of_not_lt hlt
        by_cases hcompleted : w.completed = true
        · rw [if_pos hcompleted]
          exact h.answer ⟨hcompleted, hindex⟩
        · rw [if_neg hcompleted]
          have hopen := Bool.eq_false_iff.2 hcompleted
          cases hget : w.chunkWaiters.get index with
          | some a =>
            have hlong := length_of_filed h.core (JsMap.mem_of_get hget)
            refine h.enlist (.inl hget) (fun b => ?_) hindex hopen
              hfailure hsignal
            exact getD_modify w.arrays a b _ hlong
          | none =>
            refine h.enlist (.inr ⟨hget, rfl⟩) (fun b => ?_) hindex
              hopen hfailure hsignal
            exact getD_concat w.arrays [w.waiters.length] b

-- ------------------------------------------------------------------ aborting

theorem Inv.abort (signal : Nat) (reason : String) :
    (w.abort signal reason).Inv := by
  rw [World.abort]
  by_cases hhas : w.aborted.has signal = true
  · rw [if_pos hhas]
    exact h
  · rw [if_neg hhas]
    have hnew : w.aborted.get signal = none :=
      Option.not_isSome_iff_eq_none.1 hhas
    have hcore : Core { w with aborted := w.aborted.set signal reason } := by
      refine h.core.congr rfl rfl rfl rfl rfl fun waiter settlement hfit => ?_
      refine Fits.mono ?_ ?_ ?_ ?_ hfit
      · exact List.prefix_refl _
      · exact fun hdone => ⟨hdone, rfl⟩
      · exact fun _ he => he
      · intro s r hab
        refine (JsMap.get_set_ne _ _ ?_).trans hab
        rintro rfl
        rw [hnew] at hab
        cases hab
    obtain ⟨hcore', hstore, hpending⟩ := foldl_dispatch w.listeners
      hcore (JsMap.get_set_self w.aborted signal reason)
    refine ⟨hcore', fun id waiter hp => ?_, fun hnone => ?_, fun hd => ?_⟩
    · obtain ⟨hp, hnot⟩ := (hpending id waiter).1 hp
      obtain ⟨hindex, hcompleted, hfailure, hsignal⟩ := h.waits id waiter hp
      rw [hstore.appended, hstore.completed, hstore.failure, hstore.aborted]
      refine ⟨hindex, hcompleted, hfailure, fun s hs => ?_⟩
      refine (JsMap.get_set_ne _ _ ?_).trans (hsignal s hs)
      rintro rfl
      refine hnot ⟨(h.core.listening id).2 ⟨waiter, hp, ?_⟩, hs⟩
      rw [hs]
      rfl
    · have hstored := h.stored (hstore.failure ▸ hnone)
      refine ⟨?_, ?_⟩
      · rw [hstore.chunks, hstore.appended]
        exact hstored.length
      · rw [hstore.chunks, hstore.appended, hstore.files]
        exact hstored.bytes
    · rw [hstore.failure]
      exact h.disposed (hstore.disposed ▸ hd)

-- ======== the runs

theorem Inv.step (e : Event) : (w.step options e).Inv := by
  cases e with
  | waitForChunk index signal => exact h.waitForChunk index signal
  | appendEncodedChunk bytes => exact h.appendEncodedChunk options bytes
  | markComplete => exact h.markComplete
  | markFailed error => exact h.markFailed error
  | retain => exact h.retain
  | release reader => exact h.release options reader
  | dispose => exact h.dispose options
  | abort signal reason => exact h.abort signal reason

end

end

end World

end OneHarness.Daemon.Snapshot
