/-
Parent-pointer chains: the walk a child makes to its root.

A tree stored as "every node names its parent" is read by following the
parent partial function until it is undefined. `Chain parent a l` says
the walk from `a` visits exactly `l` (`a` first) and then stops; a walk
that never stops has no chain, so a cycle is simply a node without one.
`chain?` is the executable walk, cut off at a step budget, and
`chain?_eq_some_iff` says a budget of one more than the number of nodes
loses nothing.

# Relinking

`Chain.relink` is the law every "drop some nodes, reconnect their
children" operation is measured against: if each kept node's new parent
is its nearest kept ancestor, the new walk is the old one with the
dropped nodes filtered out. `Chain.not_reach` is its converse tool: a
set of nodes closed under the parent function never leads out of itself.
-/
import Mathlib.Data.List.Nodup
import Mathlib.Data.List.Perm.Subperm
import Mathlib.Logic.Relation

namespace OneHarness.Lib

universe u v

variable {α : Type u} {β : Type v}

-- ======== the walk

/-- Following `parent` from `a` visits exactly `l`, `a` first, and
stops. -/
inductive Chain (parent : α → Option α) : α → List α → Prop
  | stop {a : α} : parent a = none → Chain parent a [a]
  | step {a b : α} {l : List α} :
      parent a = some b → Chain parent b l → Chain parent a (a :: l)

/-- The executable walk, giving up after `fuel` nodes. -/
def chain? (parent : α → Option α) : Nat → α → Option (List α)
  | 0, _ => none
  | fuel + 1, a =>
    match parent a with
    | none => some [a]
    | some b => (chain? parent fuel b).map (a :: ·)

variable {a b : α} {l nodes : List α}

namespace Chain

variable {parent : α → Option α}

section
variable (h : Chain parent a l)
include h

/-- A chain starts at its node. -/
theorem exists_cons : ∃ t, l = a :: t := by
  cases h with
  | stop _ => exact ⟨[], rfl⟩
  | step _ _ => exact ⟨_, rfl⟩

theorem ne_nil : l ≠ [] := by
  obtain ⟨t, rfl⟩ := h.exists_cons
  exact List.cons_ne_nil _ _

/-- The walk is a function of its start. -/
theorem unique {l' : List α} (h' : Chain parent a l') : l = l' := by
  induction h generalizing l' with
  | stop hn =>
    cases h' with
    | stop _ => rfl
    | step hs _ => rw [hn] at hs; cases hs
  | step hs _ ih =>
    cases h' with
    | stop hn => rw [hn] at hs; cases hs
    | step hs' ht =>
      rw [hs] at hs'
      cases hs'
      rw [ih ht]

/-- Every node on a chain has the rest of the chain as its own. -/
theorem of_mem (hb : b ∈ l) :
    ∃ t, Chain parent b (b :: t) ∧ (b :: t) <:+ l := by
  induction h with
  | stop hn =>
    rcases List.mem_singleton.1 hb with rfl
    exact ⟨[], .stop hn, List.suffix_rfl⟩
  | step hs ht ih =>
    rcases List.mem_cons.1 hb with rfl | hb
    · exact ⟨_, .step hs ht, List.suffix_rfl⟩
    · obtain ⟨t, hc, hsuf⟩ := ih hb
      exact ⟨t, hc, hsuf.trans (List.suffix_cons _ _)⟩

/-- No node occurs twice: a repeated node would repeat forever. -/
theorem nodup : l.Nodup := by
  induction h with
  | stop _ => exact List.nodup_singleton _
  | @step a b l hs ht ih =>
    refine List.nodup_cons.2 ⟨fun hmem => ?_, ih⟩
    obtain ⟨t, hc, hsuf⟩ := ht.of_mem hmem
    have hlen := congrArg List.length (hc.unique (.step hs ht))
    have hle := hsuf.length_le
    simp only [List.length_cons] at hlen hle
    omega

/-- Two chains meet in a node and are the same from there on, or never. -/
theorem meet {l' : List α} (h' : Chain parent b l') :
    (∀ x ∈ l', x ∉ l) ∨ ∃ before before' c rest, l = before ++ c :: rest
      ∧ l' = before' ++ c :: rest ∧ (∀ x ∈ before, x ∉ l')
      ∧ ∀ x ∈ before', x ∉ l := by
  -- the first node of the second chain that is on the first one
  have hmet : ∀ {b : α} {l' : List α}, Chain parent b l' → b ∈ l →
      ∃ before before' c rest, l = before ++ c :: rest
        ∧ l' = before' ++ c :: rest ∧ (∀ x ∈ before, x ∉ l')
        ∧ ∀ x ∈ before', x ∉ l := by
    intro b l' h' hb
    obtain ⟨t, hc, before, heq⟩ := h.of_mem hb
    obtain rfl := h'.unique hc
    subst heq
    refine ⟨before, [], b, t, rfl, rfl, fun x hx => ?_, by simp⟩
    exact (List.nodup_append'.1 h.nodup).2.2 hx
  induction h' with
  | @stop b hn =>
    by_cases hb : b ∈ l
    · exact .inr (hmet (.stop hn) hb)
    · exact .inl (by simpa using hb)
  | @step b c l' hs ht ih =>
    by_cases hb : b ∈ l
    · exact .inr (hmet (.step hs ht) hb)
    · rcases ih with hnone | ⟨before, before', d, rest, rfl, rfl, hl, hl'⟩
      · exact .inl (by simpa [hb] using hnone)
      · refine .inr ⟨before, b :: before', d, rest, rfl, rfl, ?_, ?_⟩
        · intro x hx hmem
          rcases List.mem_cons.1 hmem with rfl | hmem
          · exact hb (List.mem_append_left _ hx)
          · exact hl x hx hmem
        · exact List.forall_mem_cons.2 ⟨hb, hl'⟩

/-- The last node of a chain is a root. -/
theorem parent_getLast : parent (l.getLast h.ne_nil) = none := by
  induction h with
  | stop hn => exact hn
  | step _ ht ih => rwa [List.getLast_cons ht.ne_nil]

end

-- ======== the executable walk

/-- The budgeted walk is right when it answers. -/
theorem of_chain? : ∀ {fuel : Nat} {a : α} {l : List α},
    chain? parent fuel a = some l → Chain parent a l := by
  intro fuel
  induction fuel with
  | zero => intro a l h; cases h
  | succ n ih =>
    intro a l h
    cases hp : parent a with
    | none =>
      simp only [chain?, hp, Option.some.injEq] at h
      exact h ▸ .stop hp
    | some b =>
      simp only [chain?, hp, Option.map_eq_some_iff] at h
      obtain ⟨t, ht, rfl⟩ := h
      exact .step hp (ih ht)

/-- The budgeted walk answers as soon as the budget covers the chain. -/
theorem chain?_of_le (h : Chain parent a l) :
    ∀ {fuel : Nat}, l.length ≤ fuel → chain? parent fuel a = some l := by
  induction h with
  | stop hn =>
    intro fuel hle
    obtain ⟨n, rfl⟩ : ∃ n, fuel = n + 1 := ⟨fuel - 1, by
      simp only [List.length_singleton] at hle; omega⟩
    simp only [chain?, hn]
  | step hs _ ih =>
    intro fuel hle
    simp only [List.length_cons] at hle
    obtain ⟨n, rfl⟩ : ∃ n, fuel = n + 1 := ⟨fuel - 1, by omega⟩
    simp only [chain?, hs, ih (show _ ≤ n by omega), Option.map_some]

section
variable (h : Chain parent a l) (hnodes : ∀ x y, parent x = some y → y ∈ nodes)
include h hnodes

/-- Everything after the start of a chain is something stepped to. -/
theorem tail_subset : l.tail ⊆ nodes := by
  induction h with
  | stop _ => exact List.nil_subset _
  | @step a b l hs ht ih =>
    obtain ⟨t, rfl⟩ := ht.exists_cons
    intro x hx
    rcases List.mem_cons.1 hx with rfl | hx
    · exact hnodes _ _ hs
    · exact ih hx

/-- A chain is no longer than the nodes it can step to, plus its start. -/
theorem length_le : l.length ≤ nodes.length + 1 := by
  have hnd : l.tail.Nodup := h.nodup.sublist (List.tail_sublist l)
  have hle := (List.subperm_of_subset hnd (h.tail_subset hnodes)).length_le
  rw [List.length_tail] at hle
  omega

end

/-- One step more than the number of nodes is budget enough: the walk
then answers exactly when it stops at all. -/
theorem chain?_eq_some_iff {fuel : Nat}
    (hnodes : ∀ x y, parent x = some y → y ∈ nodes)
    (hfuel : nodes.length < fuel) :
    chain? parent fuel a = some l ↔ Chain parent a l :=
  ⟨of_chain?, fun h => h.chain?_of_le (by
    have := h.length_le hnodes
    omega)⟩

-- ======== cycles

/-- Walking leads to nothing that is not on the chain. -/
theorem mem_of_reaches (h : Chain parent a l)
    (hb : Relation.ReflTransGen (fun x y => parent x = some y) a b) :
    b ∈ l := by
  induction hb with
  | refl =>
    obtain ⟨t, rfl⟩ := h.exists_cons
    exact List.mem_cons_self
  | tail _ hstep ih =>
    obtain ⟨t, hc, hsuf⟩ := h.of_mem ih
    cases hc with
    | stop hn => rw [hn] at hstep; cases hstep
    | step hs ht =>
      rw [hs] at hstep
      cases hstep
      obtain ⟨t', rfl⟩ := ht.exists_cons
      exact hsuf.subset (List.mem_cons_of_mem _ List.mem_cons_self)

/-- A node with a chain does not come back to itself. -/
theorem not_cycle (h : Chain parent a l) :
    ¬Relation.TransGen (fun x y => parent x = some y) a a := by
  intro hcycle
  obtain ⟨b, hstep, hback⟩ := Relation.TransGen.head'_iff.1 hcycle
  have hnd := h.nodup
  cases h with
  | stop hn => rw [hn] at hstep; cases hstep
  | step hs ht =>
    rw [hs] at hstep
    cases hstep
    exact (List.nodup_cons.1 hnd).1 (ht.mem_of_reaches hback)

/-- Where nothing comes back to itself, every walk stops: the nodes it has
passed are distinct, and there are only so many. -/
theorem exists_of_acyclic (hnodes : ∀ x y, parent x = some y → y ∈ nodes)
    (hac : ∀ x, ¬Relation.TransGen (fun x y => parent x = some y) x x)
    (a : α) : ∃ l, Chain parent a l := by
  have hwalk : ∀ (n : Nat) (seen : List α) (a : α), seen.Nodup →
      seen ⊆ nodes →
      (∀ x ∈ seen, Relation.ReflTransGen (fun x y => parent x = some y) x a) →
      nodes.length < seen.length + n → ∃ l, Chain parent a l := by
    intro n
    induction n with
    | zero =>
      intro seen a hnd hsub _ hlt
      have hle := (List.subperm_of_subset hnd hsub).length_le
      omega
    | succ n ih =>
      intro seen a hnd hsub hreach hlt
      cases hp : parent a with
      | none => exact ⟨[a], .stop hp⟩
      | some b =>
        have hb : b ∉ seen := fun hmem =>
          hac b (.tail' (hreach b hmem) hp)
        have hreach' : ∀ x ∈ b :: seen,
            Relation.ReflTransGen (fun x y => parent x = some y) x b := by
          intro x hx
          rcases List.mem_cons.1 hx with rfl | hx
          · exact .refl
          · exact (hreach x hx).tail hp
        obtain ⟨l, hl⟩ := ih (b :: seen) b (List.nodup_cons.2 ⟨hb, hnd⟩)
          (List.cons_subset.2 ⟨hnodes a b hp, hsub⟩) hreach'
          (by rw [List.length_cons]; omega)
        exact ⟨a :: l, .step hp hl⟩
  exact hwalk (nodes.length + 1) [] a List.nodup_nil (List.nil_subset _)
    (fun x hx => absurd hx List.not_mem_nil) (by rw [List.length_nil]; omega)

-- ======== relinking

/-- Dropping nodes and handing every kept one to its nearest kept
ancestor filters the walk: the induction is on the old chain, and a
dropped node changes nothing because its own tail already answers. -/
theorem relink {parent' : β → Option β} {keep : α → Bool} {f : α → β}
    (h : Chain parent a l)
    (hlink : ∀ b t, Chain parent b (b :: t) → (b :: t) <:+ l →
      keep b = true → parent' (f b) = (t.find? keep).map f) :
    ∀ x, l.find? keep = some x →
      Chain parent' (f x) ((l.filter keep).map f) := by
  induction h with
  | @stop a hn =>
    intro x hx
    simp only [List.find?_singleton, Option.ite_none_right_eq_some,
      Option.some.injEq] at hx
    obtain ⟨hk, rfl⟩ := hx
    rw [List.filter_singleton, hk]
    exact .stop (hlink a [] (.stop hn) List.suffix_rfl hk)
  | @step a b l hs ht ih =>
    have ih' := ih fun c t hc hsuf =>
      hlink c t hc (hsuf.trans (List.suffix_cons _ _))
    intro x hx
    cases hk : keep a with
    | false =>
      rw [List.find?_cons, hk] at hx
      rw [List.filter_cons_of_neg (by simp [hk])]
      exact ih' x hx
    | true =>
      rw [List.find?_cons, hk] at hx
      cases hx
      have hp := hlink a l (.step hs ht) List.suffix_rfl hk
      rw [List.filter_cons_of_pos hk, List.map_cons]
      cases hf : l.find? keep with
      | none =>
        rw [hf] at hp
        have hnil : l.filter keep = [] := by
          rw [List.filter_eq_nil_iff]
          exact fun y hy => List.find?_eq_none.1 hf y hy
        rw [hnil]
        exact .stop hp
      | some y =>
        rw [hf] at hp
        exact .step hp (ih' y hf)

/-- A set closed under the parent function cannot be left by walking. -/
theorem not_reach {S : α → Prop}
    (hclosed : ∀ x y, S x → parent x = some y → S y) (ha : S a)
    (hab : Relation.ReflTransGen (fun x y => parent x = some y) a b) :
    S b := by
  induction hab with
  | refl => exact ha
  | tail _ hstep ih => exact hclosed _ _ ih hstep

/-- Walking reaches every node of the chain. -/
theorem reaches (h : Chain parent a l) (hb : b ∈ l) :
    Relation.ReflTransGen (fun x y => parent x = some y) a b := by
  induction h with
  | stop _ => rw [List.mem_singleton.1 hb]
  | step hs _ ih =>
    rcases List.mem_cons.1 hb with rfl | hb
    · exact .refl
    · exact .head hs (ih hb)

end Chain
end OneHarness.Lib
