/-
Insertion-ordered maps, as ECMAScript's `Map`: setting an existing key
replaces its value in place, setting a new one appends it, and
iteration follows the list.

Only the operations and laws a development over such maps uses are
here: the get laws of `set` and `delete`, and that a map built by `set`
stays keyed by a function of its values (`Keyed`), the shape of every
index from an id to the record that carries it.
-/
import Mathlib.Data.List.Nodup
import Mathlib.Data.List.Lookmap

namespace OneHarness.Lib

universe u v w

/-- An insertion-ordered map: its entries in iteration order. -/
abbrev JsMap (κ : Type u) (ν : Type v) := List (κ × ν)

namespace JsMap

variable {κ : Type u} {ν : Type v} [DecidableEq κ]
  {k k' : κ} {m : JsMap κ ν} {v : ν}

/-- The value at `k`, if any. -/
def get (m : JsMap κ ν) (k : κ) : Option ν :=
  (m.find? fun p => p.1 = k).map Prod.snd

/-- Whether `k` has a value. -/
def has (m : JsMap κ ν) (k : κ) : Bool := (m.get k).isSome

/-- Replace the value at `k` in place, or append the pair. -/
def set : JsMap κ ν → κ → ν → JsMap κ ν
  | [], k, v => [(k, v)]
  | p :: m, k, v => if p.1 = k then (k, v) :: m else p :: set m k v

/-- Drop `k`. -/
def delete (m : JsMap κ ν) (k : κ) : JsMap κ ν :=
  m.filter fun p => p.1 ≠ k

/-- The keys in iteration order. -/
def keys (m : JsMap κ ν) : List κ := m.map Prod.fst

/-- The values in iteration order. -/
def values (m : JsMap κ ν) : List ν := m.map Prod.snd

-- ======== the get laws

@[simp] theorem get_nil (k : κ) : get ([] : JsMap κ ν) k = none := rfl

theorem get_cons (p : κ × ν) (m : JsMap κ ν) (k : κ) :
    get (p :: m) k = if p.1 = k then some p.2 else get m k := by
  unfold get
  by_cases h : p.1 = k
  · simp [h]
  · simp [h]

section
variable (m : JsMap κ ν)

theorem get_set (k k' : κ) (v : ν) :
    (m.set k v).get k' = if k = k' then some v else m.get k' := by
  induction m with
  | nil => simp only [set, get_cons, get_nil]
  | cons p m ih =>
    by_cases h : p.1 = k
    · simp only [set, h, if_true, get_cons]
      by_cases hk : k = k'
      · simp [hk]
      · simp [hk]
    · simp only [set, h, if_false, get_cons, ih]
      by_cases hp : p.1 = k'
      · have hk : k ≠ k' := fun hk => h (hp.trans hk.symm)
        simp [hp, hk]
      · simp [hp]

@[simp] theorem get_set_self (k : κ) (v : ν) :
    (m.set k v).get k = some v := by
  rw [get_set, if_pos rfl]

theorem get_set_ne (v : ν) (h : k ≠ k') :
    (m.set k v).get k' = m.get k' := by
  rw [get_set, if_neg h]

theorem get_delete (k k' : κ) :
    (m.delete k).get k' = if k = k' then none else m.get k' := by
  induction m with
  | nil => simp [delete]
  | cons p m ih =>
    unfold delete at ih ⊢
    by_cases h : p.1 = k
    · rw [List.filter_cons_of_neg (by simpa using h), ih, get_cons]
      by_cases hk : k = k'
      · simp [hk]
      · have : p.1 ≠ k' := fun hp => hk (h.symm.trans hp)
        simp [hk, this]
    · rw [List.filter_cons_of_pos (by simpa using h), get_cons, ih,
        get_cons]
      by_cases hp : p.1 = k'
      · have hk : k ≠ k' := fun hk => h (hp.trans hk.symm)
        simp [hp, hk]
      · simp [hp]

end

theorem mem_of_get (h : m.get k = some v) : (k, v) ∈ m := by
  unfold get at h
  simp only [Option.map_eq_some_iff] at h
  obtain ⟨⟨k', v'⟩, hf, rfl⟩ := h
  have hk := List.find?_some hf
  simp only [decide_eq_true_eq] at hk
  exact hk ▸ List.mem_of_find?_eq_some hf

theorem get_of_mem (h : m.keys.Nodup)
    (hmem : (k, v) ∈ m) : m.get k = some v := by
  induction m with
  | nil => cases hmem
  | cons p m ih =>
    rw [keys, List.map_cons, List.nodup_cons] at h
    rw [get_cons]
    rcases List.mem_cons.1 hmem with heq | hmem
    · rw [← heq, if_pos rfl]
    · have hne : p.1 ≠ k := by
        rintro rfl
        exact h.1 (List.mem_map.2 ⟨(p.1, v), hmem, rfl⟩)
      rw [if_neg hne]
      exact ih h.2 hmem

theorem mem_values_of_get (h : m.get k = some v) : v ∈ m.values :=
  List.mem_map.2 ⟨_, mem_of_get h, rfl⟩

theorem mem_set {p : κ × ν} (h : p ∈ m.set k v) : p ∈ m ∨ p = (k, v) := by
  induction m with
  | nil => exact .inr (List.mem_singleton.1 h)
  | cons q m ih =>
    by_cases hq : q.1 = k
    · rw [set, if_pos hq] at h
      rcases List.mem_cons.1 h with h | h
      · exact .inr h
      · exact .inl (List.mem_cons_of_mem _ h)
    · rw [set, if_neg hq] at h
      rcases List.mem_cons.1 h with h | h
      · exact .inl (h ▸ List.mem_cons_self)
      · exact (ih h).imp_left (List.mem_cons_of_mem _)

theorem get_eq_none_iff : m.get k = none ↔ k ∉ m.keys := by
  unfold get keys
  simp only [Option.map_eq_none_iff, List.find?_eq_none,
    decide_eq_true_eq, List.mem_map, not_exists, not_and]

theorem keys_set (m : JsMap κ ν) (k : κ) (v : ν) :
    (m.set k v).keys = if k ∈ m.keys then m.keys else m.keys ++ [k] := by
  induction m with
  | nil => simp [set, keys]
  | cons p m ih =>
    unfold keys at ih ⊢
    by_cases hp : p.1 = k
    · simp [set, hp]
    · have hne : ¬ k = p.1 := fun h => hp h.symm
      rw [set, if_neg hp, List.map_cons, ih, List.map_cons]
      by_cases hk : k ∈ m.map Prod.fst
      · rw [if_pos hk, if_pos (List.mem_cons_of_mem _ hk)]
      · rw [if_neg hk, if_neg (fun h => (List.mem_cons.1 h).elim hne hk)]
        rfl

theorem mem_keys_set : k' ∈ (m.set k v).keys ↔ k' ∈ m.keys ∨ k' = k := by
  rw [keys_set]
  by_cases hk : k ∈ m.keys
  · rw [if_pos hk]
    exact (or_iff_left_of_imp fun h => h ▸ hk).symm
  · rw [if_neg hk, List.mem_append, List.mem_singleton]

theorem nodup_keys_set (h : m.keys.Nodup) (k : κ) (v : ν) :
    (m.set k v).keys.Nodup := by
  rw [keys_set]
  by_cases hk : k ∈ m.keys
  · rw [if_pos hk]
    exact h
  · rw [if_neg hk]
    exact List.nodup_append.2 ⟨h, List.nodup_singleton k, fun x hx y hy => by
      rw [List.mem_singleton.1 hy]
      exact fun heq => hk (heq ▸ hx)⟩

theorem nodup_keys_delete (h : m.keys.Nodup) (k : κ) :
    (m.delete k).keys.Nodup := h.sublist ((List.filter_sublist).map _)

theorem mem_keys_delete : k' ∈ (m.delete k).keys ↔ k' ∈ m.keys ∧ k' ≠ k := by
  rw [← not_iff_not, ← get_eq_none_iff, get_delete, not_and_or,
    ← get_eq_none_iff, not_not]
  by_cases hk : k = k'
  · rw [if_pos hk]
    exact iff_of_true rfl (.inr hk.symm)
  · rw [if_neg hk]
    exact (or_iff_left fun heq => hk heq.symm).symm

theorem has_eq_true_iff : m.has k = true ↔ k ∈ m.keys := by
  rw [has, ← not_iff_not, ← get_eq_none_iff]
  cases m.get k <;> simp

-- ======== a key set once

/-- A new key goes to the end. -/
theorem set_of_not_mem (v : ν) (h : k ∉ m.keys) :
    m.set k v = m ++ [(k, v)] := by
  induction m with
  | nil => rfl
  | cons p m ih =>
    have hp : p.1 ≠ k := fun heq => h (by simp [keys, heq])
    have hm : k ∉ keys m := fun hmem => h (List.mem_cons_of_mem _ hmem)
    rw [set, if_neg hp, ih hm, List.cons_append]

theorem map_of_not_mem (v : ν) (h : k ∉ m.keys) :
    (m.map fun p => if p.1 = k then (p.1, v) else p) = m := by
  refine (List.map_congr_left fun p hp => ?_).trans (List.map_id m)
  refine if_neg ?_
  rintro rfl
  exact h (List.mem_map_of_mem hp)

/-- With distinct keys, setting one of them is changing its pair. -/
theorem set_of_mem (hnd : m.keys.Nodup) (v : ν) (h : k ∈ m.keys) :
    m.set k v = m.map fun p => if p.1 = k then (p.1, v) else p := by
  induction m with
  | nil => cases h
  | cons p m ih =>
    rw [keys, List.map_cons, List.nodup_cons] at hnd
    by_cases hp : p.1 = k
    · rw [set, if_pos hp, List.map_cons, if_pos hp,
        map_of_not_mem v (hp ▸ hnd.1), hp]
    · have hmem : k ∈ keys m :=
        (List.mem_cons.1 h).resolve_left fun heq => hp heq.symm
      rw [set, if_neg hp, List.map_cons, if_neg hp, ih hnd.2 hmem]

/-- Setting a key to the value it has changes nothing. -/
theorem set_get (h : m.get k = some v) : m.set k v = m := by
  induction m with
  | nil => cases h
  | cons p m ih =>
    rw [get_cons] at h
    by_cases hp : p.1 = k
    · rw [if_pos hp] at h
      rw [set, if_pos hp, ← Option.some.inj h, ← hp]
    · rw [if_neg hp] at h
      rw [set, if_neg hp, ih h]

theorem set_set (m : JsMap κ ν) (k : κ) (v v' : ν) :
    (m.set k v).set k v' = m.set k v' := by
  induction m with
  | nil => simp [set]
  | cons p m ih =>
    by_cases hp : p.1 = k
    · simp [set, hp]
    · simp [set, hp, ih]

/-- Deleting it again leaves the map as it was. -/
theorem delete_concat (v : ν) (h : k ∉ m.keys) :
    delete (m ++ [(k, v)]) k = m := by
  rw [delete, List.filter_append, List.filter_cons_of_neg (by simp),
    List.filter_nil, List.append_nil, List.filter_eq_self]
  intro p hp
  have hne : p.1 ≠ k := fun heq => h (heq ▸ List.mem_map_of_mem hp)
  simpa using hne

-- ======== keyed by a field

/-- Every value sits under its own key. -/
def Keyed (key : ν → κ) (m : JsMap κ ν) : Prop := ∀ p ∈ m, p.1 = key p.2

omit [DecidableEq κ] in
theorem Keyed.nil (key : ν → κ) : Keyed key ([] : JsMap κ ν) :=
  fun _ h => absurd h List.not_mem_nil

theorem Keyed.set {key : ν → κ} (h : m.Keyed key) (v : ν) :
    (m.set (key v) v).Keyed key := by
  induction m with
  | nil =>
    intro p hp
    rw [JsMap.set, List.mem_singleton] at hp
    rw [hp]
  | cons q m ih =>
    intro p hp
    have hm : Keyed key m := fun x hx => h x (List.mem_cons_of_mem _ hx)
    by_cases hq : q.1 = key v
    · rw [JsMap.set, if_pos hq, List.mem_cons] at hp
      rcases hp with rfl | hp
      · rfl
      · exact hm p hp
    · rw [JsMap.set, if_neg hq, List.mem_cons] at hp
      rcases hp with rfl | hp
      · exact h _ List.mem_cons_self
      · exact ih hm p hp

/-- In a keyed map, looking a key up yields a value that carries it. -/
theorem Keyed.key_of_get {key : ν → κ} (h : m.Keyed key)
    (hget : m.get k = some v) : key v = k :=
  (h _ (mem_of_get hget)).symm

/-- Filling a map from a list of distinct keys finds exactly its
members. -/
theorem get_foldl_set {α : Type w} {key : α → κ} {val : α → ν} {l : List α}
    (m : JsMap κ ν) (hnd : (l.map key).Nodup) (k : κ) :
    (l.foldl (fun m a => m.set (key a) (val a)) m).get k
      = ((l.find? fun a => key a = k).map val).or (m.get k) := by
  induction l generalizing m with
  | nil => simp
  | cons v l ih =>
    rw [List.map_cons, List.nodup_cons] at hnd
    rw [List.foldl_cons, ih _ hnd.2, get_set]
    by_cases hv : key v = k
    · have hnone : l.find? (fun v => key v = k) = none := by
        rw [List.find?_eq_none]
        intro x hx hxk
        refine hnd.1 (List.mem_map.2 ⟨x, hx, ?_⟩)
        rw [hv]
        simpa using hxk
      simp [hv, hnone]
    · simp [hv]

/-- Filling a map from a list finds the last member with the key. -/
theorem get_foldl_set_last {α : Type w} (key : α → κ) (val : α → ν)
    (l : List α) (m : JsMap κ ν) (k : κ) :
    (l.foldl (fun m a => m.set (key a) (val a)) m).get k
      = ((l.filter (key · = k)).getLast?.map val).or (m.get k) := by
  induction l generalizing m with
  | nil => rfl
  | cons a l ih =>
    rw [List.foldl_cons, ih, get_set]
    by_cases hk : key a = k
    · rw [if_pos hk, List.filter_cons_of_pos (by simpa using hk)]
      cases hlast : (l.filter (key · = k)).getLast? with
      | none =>
        rw [List.getLast?_eq_none_iff.1 hlast]
        rfl
      | some b =>
        rw [List.getLast?_cons, hlast]
        rfl
    · rw [if_neg hk, List.filter_cons_of_neg (by simpa using hk)]

end JsMap
end OneHarness.Lib
