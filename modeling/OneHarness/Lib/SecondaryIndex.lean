/-
A secondary index of a map, kept by hand: for a key of the values it names an
entry that has it. Of the map only its look-up counts.

# The rules

The index is sound if what it names has the key, and complete if it names an
entry for each key that some entry has. `Removed` says that some entries have
left both; it holds of a single drop (`Removed.drop`) and composes
(`Removed.trans`). A removal keeps an index sound, and complete exactly if no
entry that it named leaves while another one with the key stays
(`Removed.complete_iff`). An entry that is put adds its own key
(`Sound.put`, `complete_put_iff`).
-/
import OneHarness.Lib.JsMap

namespace OneHarness.Lib.SecondaryIndex

variable {κ ν ι : Type} [DecidableEq ι] (key : ν → Option ι)

/-- The entry is not named any more. -/
def drop [DecidableEq κ] (index : JsMap ι κ) (k : κ) (v : ν) : JsMap ι κ :=
  match key v with
  | some a => if index.get a = some k then index.delete a else index
  | none => index

/-- The entry is named for its key. -/
def point (index : JsMap ι κ) (k : κ) (v : ν) : JsMap ι κ :=
  match key v with
  | some a => index.set a k
  | none => index

def Sound (get : κ → Option ν) (index : JsMap ι κ) : Prop :=
  ∀ a k, index.get a = some k → ∃ v, get k = some v ∧ key v = some a

/-- Complete for all keys but one. -/
def CompleteBut (but : Option ι) (get : κ → Option ν) (index : JsMap ι κ) :
    Prop :=
  ∀ k v a, get k = some v → key v = some a → but ≠ some a →
    ∃ k', index.get a = some k'

def Complete (get : κ → Option ν) (index : JsMap ι κ) : Prop :=
  ∀ k v a, get k = some v → key v = some a → ∃ k', index.get a = some k'

/-- The index names exactly the entry of a key: no two share one. -/
def Unique (get : κ → Option ν) (index : JsMap ι κ) : Prop :=
  ∀ a k, index.get a = some k ↔ ∃ v, get k = some v ∧ key v = some a

/-- The entries of `S` have left the map and the index. -/
structure Removed (S : κ → Prop) (get get' : κ → Option ν)
    (index index' : JsMap ι κ) : Prop where
  gone : ∀ k, S k → get' k = none
  kept : ∀ k, ¬ S k → get' k = get k
  index : ∀ a k, index'.get a = some k ↔ index.get a = some k ∧ ¬ S k

variable {key} {get get' get'' : κ → Option ν}
  {index index' index'' : JsMap ι κ} {k : κ} {v : ν} {S T : κ → Prop}

theorem get_drop [DecidableEq κ] (a : ι) :
    (drop key index k v).get a
      = if key v = some a ∧ index.get a = some k then none
        else index.get a := by
  unfold drop
  cases hkey : key v with
  | none =>
    rw [if_neg]
    rintro ⟨heq, -⟩
    cases heq
  | some b =>
    dsimp only
    by_cases hb : index.get b = some k
    · rw [if_pos hb, JsMap.get_delete]
      by_cases hab : b = a
      · subst hab
        rw [if_pos rfl, if_pos ⟨rfl, hb⟩]
      · rw [if_neg hab, if_neg]
        rintro ⟨heq, -⟩
        exact hab (Option.some.inj heq)
    · rw [if_neg hb, if_neg]
      rintro ⟨heq, ha⟩
      exact hb (Option.some.inj heq ▸ ha)

theorem get_point (a : ι) :
    (point key index k v).get a
      = if key v = some a then some k else index.get a := by
  unfold point
  cases hkey : key v with
  | none =>
    rw [if_neg]
    intro heq
    cases heq
  | some b =>
    dsimp only
    rw [JsMap.get_set]
    by_cases hab : b = a
    · rw [if_pos hab, if_pos (congrArg some hab)]
    · rw [if_neg hab, if_neg fun heq => hab (Option.some.inj heq)]

-- ======== removals

/-- No entry has left that was not there. -/
theorem Removed.absent (h : Sound key get index) (hget : get k = none) :
    Removed (· = k) get get index index where
  gone := by
    rintro _ rfl
    exact hget
  kept := fun _ _ => rfl
  index := by
    intro a k'
    refine ⟨fun hindex => ⟨hindex, ?_⟩, And.left⟩
    rintro rfl
    obtain ⟨v, hv, -⟩ := h a k' hindex
    rw [hget] at hv
    cases hv

theorem Removed.drop [DecidableEq κ] (h : Sound key get index) (hget : get k = some v)
    (hgone : get' k = none) (hkept : ∀ k', k' ≠ k → get' k' = get k') :
    Removed (· = k) get get' index (drop key index k v) where
  gone := by
    rintro _ rfl
    exact hgone
  kept := hkept
  index := by
    intro a k'
    rw [get_drop]
    by_cases hboth : key v = some a ∧ index.get a = some k
    · rw [if_pos hboth]
      constructor
      · intro heq
        cases heq
      · rintro ⟨hindex, hne⟩
        rw [hboth.2] at hindex
        exact absurd (Option.some.inj hindex).symm hne
    · rw [if_neg hboth]
      refine ⟨fun hindex => ⟨hindex, ?_⟩, And.left⟩
      rintro rfl
      obtain ⟨w, hw, hkey⟩ := h a k' hindex
      rw [hget] at hw
      cases hw
      exact hboth ⟨hkey, hindex⟩

section
variable (h : Removed S get get' index index')
include h

theorem Removed.trans (h' : Removed T get' get'' index' index'') :
    Removed (fun k => S k ∨ T k) get get'' index index'' where
  gone := by
    intro k hk
    by_cases hT : T k
    · exact h'.gone k hT
    · rw [h'.kept k hT]
      exact h.gone k (hk.resolve_right hT)
  kept := by
    intro k hk
    rw [h'.kept k fun hT => hk (.inr hT), h.kept k fun hS => hk (.inl hS)]
  index := by
    intro a k
    rw [h'.index, h.index]
    constructor
    · rintro ⟨⟨hindex, hS⟩, hT⟩
      exact ⟨hindex, fun hk => hk.elim hS hT⟩
    · rintro ⟨hindex, hk⟩
      exact ⟨⟨hindex, fun hS => hk (.inl hS)⟩, fun hT => hk (.inr hT)⟩

theorem Removed.sound
    (hsound : Sound key get index) : Sound key get' index' := by
  intro a k hindex'
  obtain ⟨hindex, hk⟩ := (h.index a k).1 hindex'
  obtain ⟨v, hv, hkey⟩ := hsound a k hindex
  exact ⟨v, (h.kept k hk).trans hv, hkey⟩

theorem Removed.unique
    (hunique : Unique key get index) : Unique key get' index' := by
  intro a k
  rw [h.index, hunique]
  by_cases hk : S k
  · rw [h.gone k hk]
    constructor
    · exact fun hboth => absurd hk hboth.2
    · rintro ⟨v, heq, -⟩
      cases heq
  · rw [h.kept k hk]
    exact and_iff_left hk

/-- Exactly what keeps an index complete: no entry that it names leaves while
another one with the key stays. -/
theorem Removed.complete_iff
    (hcomplete : Complete key get index) (but : Option ι) :
    CompleteBut key but get' index' ↔
      ∀ a k, index.get a = some k → S k → but ≠ some a →
        ∀ k' v', get k' = some v' → key v' = some a → S k' := by
  constructor
  · intro hafter a k hindex hk hbut k' v' hget hkey
    by_contra hk'
    obtain ⟨k'', hindex'⟩ :=
      hafter k' v' a ((h.kept k' hk').trans hget) hkey hbut
    obtain ⟨hindex'', hk''⟩ := (h.index a k'').1 hindex'
    rw [hindex] at hindex''
    cases hindex''
    exact hk'' hk
  · intro hsafe k' v' a hget' hkey hbut
    have hk' : ¬ S k' := fun hk' => by
      rw [h.gone k' hk'] at hget'
      cases hget'
    rw [h.kept k' hk'] at hget'
    obtain ⟨k, hindex⟩ := hcomplete k' v' a hget' hkey
    refine ⟨k, (h.index a k).2 ⟨hindex, fun hk => ?_⟩⟩
    exact hk' (hsafe a k hindex hk hbut k' v' hget' hkey)

end

-- ======== a new entry

theorem Sound.put (h : Sound key get index) (hnone : get k = none)
    (hput : get' k = some v) (hkept : ∀ k', k' ≠ k → get' k' = get k') :
    Sound key get' (point key index k v) := by
  intro a k' hpoint
  rw [get_point] at hpoint
  by_cases hkey : key v = some a
  · rw [if_pos hkey] at hpoint
    cases hpoint
    exact ⟨v, hput, hkey⟩
  · rw [if_neg hkey] at hpoint
    obtain ⟨w, hw, hkeyw⟩ := h a k' hpoint
    refine ⟨w, ?_, hkeyw⟩
    rw [hkept]
    · exact hw
    · rintro rfl
      rw [hnone] at hw
      cases hw

theorem Unique.put (h : Unique key get index) (hnone : get k = none)
    (hfree : ∀ a, key v = some a → index.get a = none)
    (hput : get' k = some v) (hkept : ∀ k', k' ≠ k → get' k' = get k') :
    Unique key get' (point key index k v) := by
  intro a k'
  have hsound : Sound key get index := fun a k => (h a k).1
  constructor
  · exact hsound.put hnone hput hkept a k'
  · rintro ⟨w, hw, hkey⟩
    rw [get_point]
    by_cases hk : k' = k
    · subst hk
      rw [hput] at hw
      cases hw
      exact if_pos hkey
    · rw [hkept k' hk] at hw
      have hindex := (h a k').2 ⟨w, hw, hkey⟩
      rw [if_neg]
      · exact hindex
      · intro hkeyv
        rw [hfree a hkeyv] at hindex
        cases hindex

theorem complete_put_iff (hnone : get k = none) (hput : get' k = some v)
    (hkept : ∀ k', k' ≠ k → get' k' = get k') :
    Complete key get' (point key index k v)
      ↔ CompleteBut key (key v) get index := by
  constructor
  · intro h k' w a hw hkey hbut
    have hne : k' ≠ k := by
      rintro rfl
      rw [hnone] at hw
      cases hw
    obtain ⟨k'', hpoint⟩ := h k' w a ((hkept k' hne).trans hw) hkey
    rw [get_point, if_neg hbut] at hpoint
    exact ⟨k'', hpoint⟩
  · intro h k' w a hw hkey
    rw [get_point]
    by_cases hbut : key v = some a
    · exact ⟨k, if_pos hbut⟩
    · rw [if_neg hbut]
      have hne : k' ≠ k := by
        rintro rfl
        rw [hput] at hw
        cases hw
        exact hbut hkey
      exact h k' w a ((hkept k' hne).symm.trans hw) hkey hbut

end OneHarness.Lib.SecondaryIndex
