/-
Merging two lists of records by key: what comes in replaces the record with
its key unless that is newer, and records with a new key go to the end.

# The rules

With the keys of either list distinct, the merged list has distinct keys
(`nodup_merge`), and a record is in it exactly if it is one that comes in and
none with its key is newer, or one that is there and all that come in with its
key are older (`mem_merge`).
-/
import Mathlib.Data.Int.Basic
import OneHarness.Lib.JsMap

namespace OneHarness.Lib.FreshMerge

variable {α κ : Type} [DecidableEq κ] (key : α → κ) (stamp : α → Int)

/-- Put in what comes in, unless there is a newer one. -/
def put (merged : JsMap κ α) (next : α) : JsMap κ α :=
  match merged.get (key next) with
  | some current =>
    if stamp current ≤ stamp next then merged.set (key next) next else merged
  | none => merged.set (key next) next

def merge (currents nexts : List α) : List α :=
  JsMap.values <| nexts.foldl (put key stamp) <|
    currents.foldl (fun merged current => merged.set (key current) current) []

variable {key stamp}

theorem get_put (merged : JsMap κ α) (next : α) (k : κ) :
    (put key stamp merged next).get k
      = if key next = k then
          match merged.get k with
          | some current =>
            if stamp current ≤ stamp next then some next else some current
          | none => some next
        else merged.get k := by
  unfold put
  by_cases hk : key next = k
  · subst hk
    rw [if_pos rfl]
    cases hget : merged.get (key next) with
    | none => exact JsMap.get_set_self merged (key next) next
    | some current =>
      dsimp only
      by_cases hstamp : stamp current ≤ stamp next
      · rw [if_pos hstamp, if_pos hstamp]
        exact JsMap.get_set_self merged (key next) next
      · rw [if_neg hstamp, if_neg hstamp]
        exact hget
  · rw [if_neg hk]
    split
    · split
      · exact JsMap.get_set_ne merged next hk
      · rfl
    · exact JsMap.get_set_ne merged next hk

theorem put_shape (merged : JsMap κ α) (next : α) :
    put key stamp merged next = merged.set (key next) next
      ∨ put key stamp merged next = merged := by
  unfold put
  split
  · split
    · exact .inl rfl
    · exact .inr rfl
  · exact .inl rfl

/-- A map from the key of a record to the record. -/
structure Indexed (key : α → κ) (merged : JsMap κ α) : Prop where
  nodup : merged.keys.Nodup
  keyed : merged.Keyed key

variable {merged : JsMap κ α}

section
variable (h : Indexed key merged)
include h

theorem Indexed.set (a : α) : Indexed key (merged.set (key a) a) :=
  ⟨JsMap.nodup_keys_set h.nodup _ _, h.keyed.set a⟩

theorem Indexed.put (a : α) : Indexed key (put key stamp merged a) := by
  have hshape : FreshMerge.put key stamp merged a = merged.set (key a) a
      ∨ FreshMerge.put key stamp merged a = merged := put_shape merged a
  rcases hshape with heq | heq
  · rw [heq]
    exact h.set a
  · rwa [heq]

theorem Indexed.foldl_put (nexts : List α) :
    Indexed key (nexts.foldl (FreshMerge.put key stamp) merged) := by
  induction nexts generalizing merged with
  | nil => exact h
  | cons next nexts ih => exact ih (h.put next)

theorem Indexed.foldl_set (currents : List α) :
    Indexed key (currents.foldl (fun m a => m.set (key a) a) merged) := by
  induction currents generalizing merged with
  | nil => exact h
  | cons current currents ih => exact ih (h.set current)

end

omit [DecidableEq κ] in
theorem Indexed.nil : Indexed key ([] : JsMap κ α) :=
  ⟨List.nodup_nil, JsMap.Keyed.nil key⟩

theorem Indexed.mem_values (h : Indexed key merged)
    {a : α} : a ∈ merged.values ↔ merged.get (key a) = some a := by
  constructor
  · intro hmem
    obtain ⟨⟨k, b⟩, hp, heq⟩ := List.mem_map.1 hmem
    have hk := h.keyed _ hp
    dsimp only at hk heq
    rw [← heq, ← hk]
    exact JsMap.get_of_mem h.nodup hp
  · exact JsMap.mem_values_of_get

omit [DecidableEq κ] in
theorem Indexed.map_key (h : Indexed key merged) :
    merged.values.map key = merged.keys := by
  unfold JsMap.values JsMap.keys
  rw [List.map_map]
  exact List.map_congr_left fun p hp => (h.keyed p hp).symm

theorem indexed_merge (currents nexts : List α) :
    Indexed key (nexts.foldl (put key stamp)
      (currents.foldl (fun m a => m.set (key a) a) [])) :=
  (Indexed.nil.foldl_set currents).foldl_put nexts

variable {k : κ}

theorem mem_keys_put {next : α} :
    k ∈ (put key stamp merged next).keys ↔ k ∈ merged.keys ∨ k = key next := by
  have hiff : ∀ m : JsMap κ α, k ∈ m.keys ↔ m.get k ≠ none := fun m =>
    (not_iff_comm.1 JsMap.get_eq_none_iff.symm).symm
  rw [hiff, hiff, get_put]
  by_cases hk : key next = k
  · rw [if_pos hk]
    refine iff_of_true ?_ (.inr hk.symm)
    cases merged.get k with
    | none => exact Option.some_ne_none next
    | some current =>
      dsimp only
      split
      · exact Option.some_ne_none next
      · exact Option.some_ne_none current
  · rw [if_neg hk]
    exact (or_iff_left fun h => hk h.symm).symm

variable {nexts : List α}

theorem mem_keys_foldl_put :
    k ∈ (nexts.foldl (put key stamp) merged).keys
      ↔ k ∈ merged.keys ∨ k ∈ nexts.map key := by
  induction nexts generalizing merged with
  | nil => exact (or_iff_left List.not_mem_nil).symm
  | cons next nexts ih =>
    rw [List.foldl_cons, ih, mem_keys_put, List.map_cons, List.mem_cons,
      or_assoc]

variable {currents : List α}

theorem mem_keys_foldl_set :
    k ∈ (currents.foldl (fun m a => m.set (key a) a) merged).keys
      ↔ k ∈ merged.keys ∨ k ∈ currents.map key := by
  induction currents generalizing merged with
  | nil => exact (or_iff_left List.not_mem_nil).symm
  | cons current currents ih =>
    rw [List.foldl_cons, ih, JsMap.mem_keys_set, List.map_cons,
      List.mem_cons, or_assoc]

/-- A merge has the keys of both lists. -/
theorem mem_keys_merge :
    k ∈ (merge key stamp currents nexts).map key
      ↔ k ∈ currents.map key ∨ k ∈ nexts.map key := by
  unfold merge
  rw [(indexed_merge currents nexts).map_key, mem_keys_foldl_put,
    mem_keys_foldl_set]
  exact or_congr_left (or_iff_right List.not_mem_nil)

theorem nodup_merge (currents nexts : List α) :
    ((merge key stamp currents nexts).map key).Nodup := by
  unfold merge
  rw [(indexed_merge currents nexts).map_key]
  exact (indexed_merge currents nexts).nodup

/-- With distinct keys, each record that comes in is met once. -/
theorem get_foldl_put (hnodup : (nexts.map key).Nodup) (k : κ) :
    (nexts.foldl (put key stamp) merged).get k
      = match nexts.find? (key · = k) with
        | some next => (put key stamp merged next).get k
        | none => merged.get k := by
  induction nexts generalizing merged with
  | nil => rfl
  | cons next nexts ih =>
    rw [List.map_cons, List.nodup_cons] at hnodup
    rw [List.foldl_cons, ih hnodup.2]
    by_cases hk : key next = k
    · have hnone : nexts.find? (key · = k) = none := by
        rw [List.find?_eq_none]
        intro a ha hak
        have hkey : key a = key next := (of_decide_eq_true hak).trans hk.symm
        exact hnodup.1 (hkey ▸ List.mem_map_of_mem ha)
      rw [hnone, List.find?_cons_of_pos (by simpa using hk)]
    · rw [List.find?_cons_of_neg (by simpa using hk)]
      cases hfind : nexts.find? (key · = k) with
      | none =>
        dsimp only
        rw [get_put, if_neg hk]
      | some a =>
        dsimp only
        rw [get_put, get_put, get_put, if_neg hk]

theorem find?_key_eq_some {l : List α} (hnodup : (l.map key).Nodup) {a : α}
    : l.find? (key · = k) = some a ↔ a ∈ l ∧ key a = k := by
  constructor
  · intro h
    exact ⟨List.mem_of_find?_eq_some h, by simpa using List.find?_some h⟩
  · rintro ⟨hmem, hk⟩
    cases hfind : l.find? (key · = k) with
    | none =>
      have hnone := List.find?_eq_none.1 hfind a hmem
      exact absurd (decide_eq_true hk) hnone
    | some b =>
      have hb : key b = k := by simpa using List.find?_some hfind
      have heq := List.inj_on_of_nodup_map hnodup
        (List.mem_of_find?_eq_some hfind) hmem (hb.trans hk.symm)
      rw [heq]

theorem mem_merge
    (hcurrents : (currents.map key).Nodup) (hnexts : (nexts.map key).Nodup)
    {a : α} :
    a ∈ merge key stamp currents nexts ↔
      (a ∈ nexts ∧ ∀ c ∈ currents, key c = key a → stamp c ≤ stamp a)
        ∨ (a ∈ currents ∧ ∀ n ∈ nexts, key n = key a → stamp n < stamp a) := by
  have hget : ∀ k, JsMap.get (currents.foldl
      (fun m c => JsMap.set m (key c) c) ([] : JsMap κ α)) k
        = currents.find? (key · = k) := by
    intro k
    rw [JsMap.get_foldl_set [] hcurrents, JsMap.get_nil, Option.or_none,
      Option.map_id']
  unfold merge
  rw [(indexed_merge currents nexts).mem_values, get_foldl_put hnexts]
  cases hnext : nexts.find? (key · = key a) with
  | none =>
    dsimp only
    have hnone : ∀ n ∈ nexts, key n ≠ key a := by
      intro n hn heq
      exact List.find?_eq_none.1 hnext n hn (decide_eq_true heq)
    rw [hget, find?_key_eq_some hcurrents]
    constructor
    · rintro ⟨hmem, -⟩
      exact .inr ⟨hmem, fun n hn heq => absurd heq (hnone n hn)⟩
    · rintro (⟨hmem, -⟩ | ⟨hmem, -⟩)
      · exact absurd rfl (hnone a hmem)
      · exact ⟨hmem, rfl⟩
  | some next =>
    obtain ⟨hmem, hkey⟩ := (find?_key_eq_some hnexts).1 hnext
    have hunique : ∀ n ∈ nexts, key n = key a → n = next := fun n hn heq =>
      List.inj_on_of_nodup_map hnexts hn hmem (heq.trans hkey.symm)
    dsimp only
    rw [get_put, if_pos hkey, hget]
    cases hcurrent : currents.find? (key · = key a) with
    | none =>
      dsimp only
      have hnone : ∀ c ∈ currents, key c ≠ key a := by
        intro c hc heq
        exact List.find?_eq_none.1 hcurrent c hc (decide_eq_true heq)
      constructor
      · intro heq
        cases heq
        exact .inl ⟨hmem, fun c hc heq => absurd heq (hnone c hc)⟩
      · rintro (⟨hmem', -⟩ | ⟨hmem', -⟩)
        · rw [hunique a hmem' rfl]
        · exact absurd rfl (hnone a hmem')
    | some current =>
      obtain ⟨hmemc, hkeyc⟩ := (find?_key_eq_some hcurrents).1 hcurrent
      have huniquec : ∀ c ∈ currents, key c = key a → c = current :=
        fun c hc heq => List.inj_on_of_nodup_map hcurrents hc hmemc
          (heq.trans hkeyc.symm)
      dsimp only
      by_cases hstamp : stamp current ≤ stamp next
      · rw [if_pos hstamp]
        constructor
        · intro heq
          cases heq
          refine .inl ⟨hmem, fun c hc heq => ?_⟩
          rw [huniquec c hc heq]
          exact hstamp
        · rintro (⟨hmem', -⟩ | ⟨hmem', holder⟩)
          · rw [hunique a hmem' rfl]
          · have hlt := holder next hmem hkey
            rw [huniquec a hmem' rfl] at hlt
            omega
      · rw [if_neg hstamp]
        constructor
        · intro heq
          cases heq
          refine .inr ⟨hmemc, fun n hn heq => ?_⟩
          rw [hunique n hn heq]
          omega
        · rintro (⟨hmem', hnewer⟩ | ⟨hmem', -⟩)
          · have hle := hnewer current hmemc hkeyc
            rw [hunique a hmem' rfl] at hle
            omega
          · rw [huniquec a hmem' rfl]

end OneHarness.Lib.FreshMerge
