/-
What a snapshot of a namespace keeps.

The loop over the names either takes a value's blob or notes why not, so the
names of the user are split between the two (`Collects`). Of the payload the
search then takes the longest prefix that fits (`searchPrefix_spec`), and the
names behind it are noted too. The one thing that stops all of it is a key
without `startswith`, and the loop comes to every key.
-/
import OneHarness.Rlm.Snapshot

namespace OneHarness.Rlm.Snapshot

open Lib

variable {κ V F : Type} (dill : Serializer V F) (caps : Caps)

-- ======== statement vocabulary

/-- The names of the user, with their values. -/
def users (items : List (Key κ × V)) : List (String × V) :=
  items.filterMap fun item =>
    match item.1 with
    | .str name => if passedOver name then none else some (name, item.2)
    | .other _ => none

/-- The value is dumped within both caps, after so many bytes. -/
def Admissible (total : ℤ) (v : V) : Prop :=
  (dill.dump v).2 = none
    ∧ ((dill.dump v).1.length : ℤ) ≤ caps.maxVariableBytes
    ∧ total + (dill.dump v).1.length ≤ caps.maxBytes

instance (total : ℤ) (v : V) : Decidable (Admissible dill caps total v) :=
  inferInstanceAs (Decidable (_ ∧ _ ∧ _))

/-- The blobs that the caps let in, in order. -/
def admitted : List (String × V) → ℤ → Payload
  | [], _ => []
  | (name, v) :: rest, total =>
    if Admissible dill caps total v then
      (name, (dill.dump v).1)
        :: admitted rest (total + (dill.dump v).1.length)
    else admitted rest total

variable [DecidableEq κ]

/-- The snapshot keeps all it can. -/
structure KeepsAll (ns : JsMap (Key κ) V) (r : Result κ V F) : Prop where
  once : ∀ name v, ns.get (.str name) = some v → passedOver name = false →
    (name ∈ r.saved ↔ name ∉ r.skipped.map Prod.fst)
  longest : ∃ p, r.file = dill.dumpFile p
    ∧ (∀ name, name ∈ r.saved ↔ name ∈ p.map Prod.fst)
    ∧ p <+: admitted dill caps (users ns) 0
    ∧ ∀ q, q <+: admitted dill caps (users ns) 0 → Fits dill caps q → q <+: p
  within : (dill.size r.file : ℤ) ≤ caps.maxBytes
  restored : ∃ back, restoreState dill ([] : JsMap (Key κ) V) r.file = .ok back
    ∧ ∀ key v, back.ns.get key = some v
      ↔ ∃ name, key = .str name ∧ name ∈ r.saved ∧ ns.get key = some v

/-- It succeeds, unless even nothing is too much. -/
def Keeps (ns : JsMap (Key κ) V) : Prop :=
  Fits dill caps [] →
    ∃ r, snapshotState dill caps ns = .saved r ∧ KeepsAll dill caps ns r

def AllStrings (ns : JsMap (Key κ) V) : Prop :=
  ∀ key ∈ ns.keys, ∃ name, key = .str name

-- ======== the collection

variable {dill caps} {c : Collected}

variable {items : List (Key κ × V)}

omit [DecidableEq κ] in
theorem collect_other {key : κ} {v : V}
    (h : (.other key, v) ∈ items) : collect dill caps items c = none := by
  induction items generalizing c with
  | nil => cases h
  | cons item items ih =>
    obtain ⟨k, w⟩ := item
    cases k with
    | other => rfl
    | str name =>
      unfold collect
      apply ih
      simpa using h

omit [DecidableEq κ] in
theorem collect_strings (h : ∀ item ∈ items, ∃ name, item.1 = .str name) :
    collect dill caps items c
      = some ((users items).foldl
        (fun c p => collectOne dill caps c p.1 p.2) c) := by
  induction items generalizing c with
  | nil => rfl
  | cons item items ih =>
    obtain ⟨k, v⟩ := item
    obtain ⟨name, hname⟩ := h _ List.mem_cons_self
    obtain rfl : k = .str name := hname
    have hrest := fun c => ih (c := c) fun x hx => h x (List.mem_cons_of_mem _ hx)
    unfold collect
    rw [hrest]
    by_cases hpassed : passedOver name = true
    · simp [users, hpassed]
    · simp [users, hpassed]

variable (dill caps)

/-- A name is collected or skipped. -/
theorem collectOne_spec (c : Collected) (name : String) (v : V) :
    (Admissible dill caps c.total v →
      (collectOne dill caps c name v).payload
          = c.payload ++ [(name, (dill.dump v).1)]
        ∧ (collectOne dill caps c name v).total
          = c.total + (dill.dump v).1.length
        ∧ (collectOne dill caps c name v).skipped = c.skipped)
    ∧ (¬Admissible dill caps c.total v →
      (collectOne dill caps c name v).payload = c.payload
        ∧ (collectOne dill caps c name v).total = c.total
        ∧ (collectOne dill caps c name v).skipped.map Prod.fst
          = c.skipped.map Prod.fst ++ [name]) := by
  unfold Admissible collectOne
  constructor
  · intro h
    obtain ⟨hnone, hvariable, htotal⟩ := h
    have hlimit : ¬(if caps.pruneOversized = true then caps.maxVariableBytes
        else min caps.maxVariableBytes (caps.maxBytes - c.total))
          < ((dill.dump v).1.length : ℤ) := by
      split
      · omega
      · omega
    simp only [if_neg hlimit, hnone]
    rw [if_neg (by omega)]
    exact ⟨rfl, rfl, rfl⟩
  · intro h
    by_cases hlimit : (if caps.pruneOversized = true then caps.maxVariableBytes
        else min caps.maxVariableBytes (caps.maxBytes - c.total))
          < ((dill.dump v).1.length : ℤ)
    · simp only [if_pos hlimit]
      split
      · simp
      · simp
    · simp only [if_neg hlimit]
      cases hdump : (dill.dump v).2 with
      | some reason => simp
      | none =>
        have htotal : caps.maxBytes < c.total + (dill.dump v).1.length := by
          by_contra hle
          apply h
          refine ⟨hdump, ?_, by omega⟩
          split at hlimit
          · omega
          · omega
        simp [htotal]

/-- The names are split between the payload and what is skipped. -/
structure Collects (us : List (String × V)) (c c' : Collected) : Prop where
  payload : c'.payload = c.payload ++ admitted dill caps us c.total
  names : (c'.payload.map Prod.fst ++ c'.skipped.map Prod.fst).Perm
    (c.payload.map Prod.fst ++ c.skipped.map Prod.fst ++ us.map Prod.fst)

theorem collects (us : List (String × V)) (c : Collected) :
    Collects dill caps us c
      (us.foldl (fun c p => collectOne dill caps c p.1 p.2) c) := by
  induction us generalizing c with
  | nil => exact ⟨by simp [admitted], by simp⟩
  | cons u us ih =>
    obtain ⟨name, v⟩ := u
    have hrest := ih (collectOne dill caps c name v)
    obtain ⟨hyes, hno⟩ := collectOne_spec dill caps c name v
    rw [List.foldl_cons]
    by_cases hadm : Admissible dill caps c.total v
    · obtain ⟨hpayload, htotal, hskipped⟩ := hyes hadm
      constructor
      · rw [hrest.payload, hpayload, htotal]
        simp [admitted, hadm]
      · refine hrest.names.trans ?_
        rw [hpayload, hskipped]
        simp only [List.map_append, List.map_cons, List.map_nil,
          List.append_assoc, List.singleton_append]
        apply List.Perm.append_left
        exact List.perm_middle.symm
    · obtain ⟨hpayload, htotal, hskipped⟩ := hno hadm
      constructor
      · rw [hrest.payload, hpayload, htotal]
        simp [admitted, hadm]
      · refine hrest.names.trans ?_
        rw [hpayload, hskipped]
        simp

-- ======== the search

omit dill caps in
/-- The search finds the largest that fits. -/
theorem searchPrefix_spec {fits : Nat → Bool}
    (hmono : ∀ i j, i ≤ j → fits j = true → fits i = true) {fuel low high : Nat}
    (hlow : fits low = true) (hhigh : ∀ j, fits j = true → j ≤ high)
    (hfuel : high - low ≤ fuel) :
    fits (searchPrefix fits fuel low high) = true
      ∧ ∀ j, fits j = true → j ≤ searchPrefix fits fuel low high := by
  induction fuel generalizing low high with
  | zero =>
    refine ⟨hlow, fun j hj => ?_⟩
    have := hhigh j hj
    unfold searchPrefix
    omega
  | succ fuel ih =>
    unfold searchPrefix
    by_cases hlt : low < high
    · simp only [if_pos hlt]
      by_cases hmid : fits ((low + high + 1) / 2) = true
      · rw [if_pos hmid]
        exact ih hmid hhigh (by omega)
      · rw [if_neg hmid]
        apply ih hlow _ (by omega)
        intro j hj
        by_contra hgt
        exact hmid (hmono _ j (by omega) hj)
    · rw [if_neg hlt]
      refine ⟨hlow, fun j hj => ?_⟩
      have := hhigh j hj
      omega

-- ======== what is restored

variable {dill caps} {ns : JsMap (Key κ) V}

omit [DecidableEq κ] in
theorem mem_users {name : String} {v : V} :
    (name, v) ∈ users items
      ↔ (.str name, v) ∈ items ∧ passedOver name = false := by
  unfold users
  rw [List.mem_filterMap]
  constructor
  · intro h
    obtain ⟨⟨key, w⟩, hmem, heq⟩ := h
    cases key with
    | other => cases heq
    | str n =>
      by_cases hpassed : passedOver n = true
      · simp [hpassed] at heq
      · simp only [hpassed, Bool.false_eq_true, if_false, Option.some.injEq,
          Prod.mk.injEq] at heq
        obtain ⟨rfl, rfl⟩ := heq
        exact ⟨hmem, by simpa using hpassed⟩
  · intro h
    exact ⟨_, h.1, by simp [h.2]⟩

omit [DecidableEq κ] in
theorem nodup_users
    (h : (items.map Prod.fst).Nodup) : ((users items).map Prod.fst).Nodup := by
  induction items with
  | nil => exact List.nodup_nil
  | cons item items ih =>
    obtain ⟨key, v⟩ := item
    obtain ⟨hkey, hrest⟩ := List.nodup_cons.1 h
    cases key with
    | other => exact ih hrest
    | str name =>
      by_cases hpassed : passedOver name = true
      · simpa [users, hpassed] using ih hrest
      · have hnot : name ∉ (users items).map Prod.fst := by
          intro hmem
          obtain ⟨⟨n, w⟩, hw, rfl⟩ := List.mem_map.1 hmem
          exact hkey (List.mem_map.2 ⟨_, (mem_users.1 hw).1, rfl⟩)
        have hcons : users ((.str name, v) :: items) = (name, v) :: users items := by
          simp [users, hpassed]
        rw [hcons]
        exact List.nodup_cons.2 ⟨hnot, ih hrest⟩

omit [DecidableEq κ] in
/-- An admitted blob is that of a value of the user. -/
theorem mem_admitted {us : List (String × V)} {total : ℤ} {name : String}
    {blob : List UInt8} (h : (name, blob) ∈ admitted dill caps us total) :
    ∃ v, (name, v) ∈ us ∧ dill.dump v = (blob, none) := by
  induction us generalizing total with
  | nil => cases h
  | cons u us ih =>
    obtain ⟨n, v⟩ := u
    unfold admitted at h
    split at h
    · next hadm =>
      rcases List.mem_cons.1 h with heq | hmem
      · cases heq
        exact ⟨v, List.mem_cons_self, Prod.ext rfl hadm.1⟩
      · obtain ⟨w, hw, hdump⟩ := ih hmem
        exact ⟨w, List.mem_cons_of_mem _ hw, hdump⟩
    · obtain ⟨w, hw, hdump⟩ := ih h
      exact ⟨w, List.mem_cons_of_mem _ hw, hdump⟩

/-- What is set name after name. -/
theorem get_foldl_set {l : List (String × V)} {m : JsMap (Key κ) V}
    (hl : (l.map Prod.fst).Nodup) (key : Key κ) (v : V) :
    (l.foldl (fun m p => m.set (.str p.1) p.2) m).get key = some v
      ↔ (∃ name, key = .str name ∧ (name, v) ∈ l)
        ∨ (∀ p ∈ l, key ≠ .str p.1) ∧ m.get key = some v := by
  induction l generalizing m with
  | nil => simp
  | cons p l ih =>
    obtain ⟨name, w⟩ := p
    obtain ⟨hname, hrest⟩ := List.nodup_cons.1 hl
    rw [List.foldl_cons, ih hrest, JsMap.get_set]
    by_cases hkey : Key.str name = key
    · subst hkey
      have hno : ∀ p ∈ l, Key.str name ≠ (.str p.1 : Key κ) := by
        intro p hp heq
        rw [Key.str.injEq] at heq
        exact hname (List.mem_map.2 ⟨p, hp, heq.symm⟩)
      rw [if_pos rfl]
      constructor
      · intro h
        rcases h with ⟨n, hn, hmem⟩ | ⟨-, heq⟩
        · exact absurd hn (hno _ hmem)
        · cases heq
          exact .inl ⟨name, rfl, List.mem_cons_self⟩
      · intro h
        rcases h with ⟨n, hn, hmem⟩ | ⟨hall, -⟩
        · rcases List.mem_cons.1 hmem with heq | hmem
          · cases heq
            exact .inr ⟨hno, rfl⟩
          · exact absurd hn (hno _ hmem)
        · exact absurd rfl (hall _ List.mem_cons_self)
    · have hne : ∀ n, key = .str n → n ≠ name := by
        intro n heq hn
        exact hkey (by rw [heq, hn])
      rw [if_neg hkey]
      constructor
      · intro h
        rcases h with ⟨n, hn, hmem⟩ | ⟨hno, hget⟩
        · exact .inl ⟨n, hn, List.mem_cons_of_mem _ hmem⟩
        · exact .inr ⟨List.forall_mem_cons.2 ⟨fun heq => hkey heq.symm, hno⟩,
            hget⟩
      · intro h
        rcases h with ⟨n, hn, hmem⟩ | ⟨hno, hget⟩
        · rcases List.mem_cons.1 hmem with heq | hmem
          · cases heq
            exact absurd rfl (hne _ hn)
          · exact .inl ⟨n, hn, hmem⟩
        · exact .inr ⟨(List.forall_mem_cons.1 hno).2, hget⟩

/-- A payload of names of the user is restored. -/
theorem restoreState_payload {p : Payload} (hns : ns.keys.Nodup)
    (hp : p <+: admitted dill caps (users ns) 0)
    (hnames : (p.map Prod.fst).Nodup) :
    ∃ back, restoreState dill ([] : JsMap (Key κ) V) (dill.dumpFile p) = .ok back
      ∧ ∀ key v, back.ns.get key = some v
        ↔ ∃ name, key = .str name ∧ name ∈ p.map Prod.fst
          ∧ ns.get key = some v := by
  have hvalue : ∀ x ∈ p, ∃ v, (.str x.1, v) ∈ ns ∧ passedOver x.1 = false
      ∧ dill.loads x.2 = .ok v := by
    intro x hx
    obtain ⟨v, hv, hdump⟩ := mem_admitted (hp.subset hx)
    obtain ⟨hmem, hpassed⟩ := mem_users.1 hv
    have hloads := dill.loads_dump v (by rw [hdump])
    rw [hdump] at hloads
    exact ⟨v, hmem, hpassed, hloads⟩
  have hfilter : p.filter (·.1 ∉ restoreSkip) = p := by
    rw [List.filter_eq_self]
    intro x hx
    obtain ⟨v, -, hpassed, -⟩ := hvalue x hx
    rw [passedOver, Bool.or_eq_false_iff] at hpassed
    have hsub : ∀ name ∈ restoreSkip, name ∈ alwaysSkip := by decide
    simpa using fun hskip => of_decide_eq_false hpassed.2 (hsub x.1 hskip)
  have hstaged : (p.filterMap fun x =>
      (dill.loads x.2).toOption.map (x.1, ·)).map Prod.fst = p.map Prod.fst := by
    rw [List.map_filterMap, ← List.filterMap_eq_map]
    apply List.filterMap_congr
    intro x hx
    obtain ⟨v, -, -, hloads⟩ := hvalue x hx
    simp [hloads, Except.toOption]
  unfold restoreState
  rw [dill.loadFile_dumpFile]
  refine ⟨_, rfl, fun key v => ?_⟩
  dsimp only
  rw [hfilter, get_foldl_set (by rwa [hstaged])]
  have hempty : JsMap.get ([] : JsMap (Key κ) V) key ≠ some v := by
    intro hget
    cases hget
  simp only [hempty, and_false, or_false]
  apply exists_congr
  intro name
  apply and_congr_right
  intro hkey
  subst hkey
  constructor
  · intro h
    obtain ⟨x, hx, heq⟩ := List.mem_filterMap.1 h
    obtain ⟨w, hmem, -, hloads⟩ := hvalue x hx
    rw [hloads] at heq
    cases heq
    exact ⟨List.mem_map_of_mem hx, JsMap.get_of_mem hns hmem⟩
  · intro h
    obtain ⟨x, hx, hname⟩ := List.mem_map.1 h.1
    obtain ⟨w, hmem, -, hloads⟩ := hvalue x hx
    have hget := JsMap.get_of_mem hns hmem
    rw [hname, h.2] at hget
    cases hget
    exact List.mem_filterMap.2 ⟨x, hx, by rw [hloads, hname]; rfl⟩

-- ======== the whole

variable (dill caps) in
/-- What is committed of the collected names. -/
theorem keepsAll_commit {c : Collected} {p rest : Payload}
    {skipped : List (String × String)} {r : Result κ V F}
    (hns : ns.keys.Nodup)
    (hc : Collects dill caps (users ns) {} c) (hpayload : c.payload = p ++ rest)
    (hskipped : skipped.map Prod.fst
      = c.skipped.map Prod.fst ++ rest.map Prod.fst)
    (hfits : Fits dill caps p)
    (hlongest : ∀ q, q <+: c.payload → Fits dill caps q → q <+: p)
    (hr : commit dill caps ns p skipped c.oversized = .saved r) :
    KeepsAll dill caps ns r := by
  cases hr
  have hadmitted : c.payload = admitted dill caps (users ns) 0 := by
    simpa using hc.payload
  have hsaved : ∀ name, name ∈ sorted (p.map Prod.fst) ↔ name ∈ p.map Prod.fst :=
    fun name => List.mem_mergeSort
  have hperm : (p.map Prod.fst ++ skipped.map Prod.fst).Perm
      ((users ns).map Prod.fst) := by
    have hnames := hc.names
    rw [hpayload] at hnames
    rw [hskipped]
    simp only [List.map_append, List.map_nil, List.nil_append,
      List.append_assoc] at hnames ⊢
    exact (List.Perm.append_left _ List.perm_append_comm).trans hnames
  have hnodup := hperm.nodup_iff.2 (nodup_users hns)
  obtain ⟨hp, -, hapart⟩ := List.nodup_append.1 hnodup
  have hprefix : p <+: admitted dill caps (users ns) 0 := by
    rw [← hadmitted, hpayload]
    exact List.prefix_append p rest
  refine ⟨?_, ⟨p, rfl, hsaved, hprefix, ?_⟩, hfits, ?_⟩
  · intro name v hget hpassed
    dsimp only
    rw [hsaved]
    constructor
    · exact fun hin hout => hapart name hin name hout rfl
    · intro hout
      have hmem : name ∈ (users ns).map Prod.fst := List.mem_map.2
        ⟨(name, v), mem_users.2 ⟨JsMap.mem_of_get hget, hpassed⟩, rfl⟩
      exact (List.mem_append.1 (hperm.mem_iff.2 hmem)).resolve_right hout
  · rw [← hadmitted]
    exact hlongest
  · obtain ⟨back, hback, hall⟩ := restoreState_payload hns hprefix hp
    refine ⟨back, hback, fun key v => ?_⟩
    simp only [hall, hsaved]

/-- A snapshot keeps all it can exactly when every key is a string. -/
theorem keeps_iff_strings (hns : ns.keys.Nodup) :
    Keeps dill caps ns ↔ (Fits dill caps [] → AllStrings ns) := by
  apply forall_congr'
  intro hempty
  constructor
  · intro h key hkey
    obtain ⟨r, hr, -⟩ := h
    obtain ⟨⟨k, v⟩, hmem, rfl⟩ := List.mem_map.1 hkey
    cases k with
    | str name => exact ⟨name, rfl⟩
    | other k =>
      rw [snapshotState, collect_other hmem] at hr
      cases hr
  · intro h
    have hc := collects dill caps (users ns) {}
    unfold snapshotState
    rw [collect_strings fun item hitem => h item.1 (List.mem_map_of_mem hitem)]
    generalize (users ns).foldl (fun c p => collectOne dill caps c p.1 p.2) {}
      = c at hc
    dsimp only
    by_cases hfits : Fits dill caps c.payload
    · rw [if_pos hfits]
      exact ⟨_, rfl, keepsAll_commit dill caps hns hc (List.append_nil _).symm
        (List.append_nil _).symm hfits (fun q hq _ => hq) rfl⟩
    · rw [if_neg hfits, if_neg (not_not.2 hempty)]
      generalize hfun : (fun k => decide (Fits dill caps (c.payload.take k)))
        = fits
      have hat : ∀ k, fits k = true ↔ Fits dill caps (c.payload.take k) := by
        intro k
        rw [← hfun, decide_eq_true_eq]
      have hmono : ∀ i j, i ≤ j → fits j = true → fits i = true := by
        intro i j hij hj
        have hle := dill.size_mono _ _
          (List.take_prefix_take_left hij (l := c.payload))
        rw [hat] at hj ⊢
        unfold Fits at hj ⊢
        omega
      have hlast : ∀ j, fits j = true → j ≤ c.payload.length - 1 := by
        intro j hj
        by_contra hgt
        rw [hat, List.take_of_length_le (by omega)] at hj
        exact hfits hj
      obtain ⟨hlow, hmax⟩ := searchPrefix_spec hmono ((hat 0).2 hempty) hlast
        (Nat.le_trans (Nat.sub_le _ _) (Nat.sub_le _ _) :
          c.payload.length - 1 - 0 ≤ c.payload.length)
      generalize searchPrefix fits c.payload.length 0 (c.payload.length - 1)
        = low at hlow hmax
      rw [hat] at hlow
      rw [if_neg (not_not.2 hlow)]
      refine ⟨_, rfl, keepsAll_commit dill caps hns hc
        (List.take_append_drop low c.payload).symm
        (by simp [Function.comp_def]) hlow ?_ rfl⟩
      intro q hq hfit
      rw [List.prefix_iff_eq_take.1 hq] at hfit ⊢
      exact List.take_prefix_take_left (hmax _ ((hat _).2 hfit))

/-- A file is what was dumped, and a value its bytes behind a header. -/
def tagged : Serializer (List UInt8) Payload where
  dump v := (128 :: v, none)
  loads b := .ok b.tail
  dumpFile p := p
  size p := (p.flatMap Prod.snd).length
  loadFile := some
  loads_dump _ _ := rfl
  loadFile_dumpFile _ := rfl
  size_mono p q h := by
    obtain ⟨rest, rfl⟩ := h
    rw [List.flatMap_append, List.length_append]
    exact Nat.le_add_right _ _

def capped : Caps := ⟨3, 3, false⟩

theorem keeps_two :
    Keeps (κ := Nat) tagged capped [(.str "x", [1]), (.str "y", [2])] := by
  rw [keeps_iff_strings (by decide)]
  intro _ key hkey
  simp only [JsMap.keys, List.map_cons, List.map_nil, List.mem_cons,
    List.not_mem_nil, or_false] at hkey
  rcases hkey with h | h
  · exact ⟨"x", h⟩
  · exact ⟨"y", h⟩

theorem not_keeps_other :
    ¬Keeps tagged capped [(.str "x", [1]), (.other 1, [2])] := by
  intro h
  obtain ⟨r, hr, -⟩ := h (by decide)
  cases hr

end OneHarness.Rlm.Snapshot
