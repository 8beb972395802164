/-
Programs that change a state one step at a time, and may be cut off
between two steps.

A run of a program gives its result, the state it ends in, and the states
it left behind on the way: one for each step, the state before it. A
program cut off after `k` steps leaves the `k`-th of them
(`Ran.after`), and its result is lost.

# Reasoning

`Holds I x s Q R`: from `s`, every state left behind is under `I`, and `x`
ends under `Q` with a value or under `R` with an error. There is one rule
for each way a program is made.
-/
import Mathlib.Data.List.Basic

namespace OneHarness.Lib

/-- A process is told by its pid and its start. -/
instance instLawfulBEqProcess : LawfulBEq (ℕ × String) := inferInstance

/-- What a run comes to. -/
structure Ran (σ ε α : Type) where
  result : Except ε α
  /-- The state before each step, in order. -/
  passed : List σ
  state : σ

/-- The state after so many steps. -/
def Ran.after {σ ε α : Type} (r : Ran σ ε α) (k : Nat) : σ :=
  r.passed[k]?.getD r.state

/-- A program over the state `σ` that may throw an `ε`. -/
def Steps (σ ε α : Type) : Type := σ → Ran σ ε α

namespace Steps

variable {σ ε α β : Type}

protected def bind (x : Steps σ ε α) (f : α → Steps σ ε β) : Steps σ ε β :=
  fun s =>
    let r := x s
    match r.result with
    | .ok a =>
      let r' := f a r.state
      ⟨r'.result, r.passed ++ r'.passed, r'.state⟩
    | .error e => ⟨.error e, r.passed, r.state⟩

instance : Monad (Steps σ ε) where
  pure a := fun s => ⟨.ok a, [], s⟩
  bind := Steps.bind

def throw (e : ε) : Steps σ ε α := fun s => ⟨.error e, [], s⟩

/-- Settle it: the result as a value. -/
def attempt {ε' : Type} (x : Steps σ ε α) : Steps σ ε' (Except ε α) :=
  fun s => ⟨.ok (x s).result, (x s).passed, (x s).state⟩

/-- Read the state. -/
def read (f : σ → α) : Steps σ ε α := fun s => ⟨.ok (f s), [], s⟩

/-- One step. -/
def step (f : σ → σ) : Steps σ ε Unit := fun s => ⟨.ok (), [s], f s⟩

-- ======== the rules

/-- Every state left behind is under `I`, the end under `Q` or `R`. -/
structure Holds (I : σ → Prop) (x : Steps σ ε α) (s : σ) (Q : α → σ → Prop)
    (R : ε → σ → Prop) : Prop where
  passed : ∀ t ∈ (x s).passed, I t
  ok : ∀ a, (x s).result = .ok a → Q a (x s).state
  error : ∀ e, (x s).result = .error e → R e (x s).state

namespace Holds

variable {I : σ → Prop} {s : σ} {Q Q' : α → σ → Prop} {R R' : ε → σ → Prop}

theorem mono {x : Steps σ ε α} (h : Holds I x s Q R)
    (hQ : ∀ a t, Q a t → Q' a t) (hR : ∀ e t, R e t → R' e t) :
    Holds I x s Q' R' :=
  ⟨h.passed, fun a ha => hQ a _ (h.ok a ha), fun e he => hR e _ (h.error e he)⟩

theorem weaken {I' : σ → Prop} {x : Steps σ ε α} (h : Holds I x s Q R)
    (hI : ∀ t, I t → I' t) : Holds I' x s Q R :=
  ⟨fun t ht => hI t (h.passed t ht), h.ok, h.error⟩

theorem pure {a : α} (h : Q a s) : Holds I (pure a) s Q R := by
  refine ⟨fun _ ht => absurd ht List.not_mem_nil, ?_, nofun⟩
  intro b hb
  cases hb
  exact h

theorem throw {e : ε} (h : R e s) :
    Holds I (Steps.throw e : Steps σ ε α) s Q R := by
  refine ⟨fun _ ht => absurd ht List.not_mem_nil, nofun, ?_⟩
  intro e' he
  cases he
  exact h

theorem read {f : σ → α} (h : Q (f s) s) : Holds I (Steps.read f) s Q R := by
  refine ⟨fun _ ht => absurd ht List.not_mem_nil, ?_, nofun⟩
  intro b hb
  cases hb
  exact h

theorem step {f : σ → σ} {Q : Unit → σ → Prop} (hI : I s) (h : Q () (f s)) :
    Holds I (Steps.step f) s Q R := by
  refine ⟨?_, fun _ _ => h, nofun⟩
  intro t ht
  rwa [List.mem_singleton.1 ht]

theorem bind {x : Steps σ ε α} {f : α → Steps σ ε β} {Q : β → σ → Prop}
    (h : Holds I x s (fun a t => Holds I (f a) t Q R) R) :
    Holds I (x >>= f) s Q R := by
  have heq : (x >>= f) s = Steps.bind x f s := rfl
  cases hx : (x s).result with
  | ok a =>
    have hf := h.ok a hx
    have hran : (x >>= f) s = ⟨(f a (x s).state).result,
        (x s).passed ++ (f a (x s).state).passed,
        (f a (x s).state).state⟩ := by
      rw [heq, Steps.bind]
      dsimp only
      rw [hx]
    constructor
    · intro t ht
      rw [hran] at ht
      rcases List.mem_append.1 ht with ht | ht
      · exact h.passed t ht
      · exact hf.passed t ht
    · intro b hb
      rw [hran] at hb ⊢
      exact hf.ok b hb
    · intro e he
      rw [hran] at he ⊢
      exact hf.error e he
  | error e =>
    have hran : (x >>= f) s = ⟨.error e, (x s).passed, (x s).state⟩ := by
      rw [heq, Steps.bind]
      dsimp only
      rw [hx]
    constructor
    · intro t ht
      rw [hran] at ht
      exact h.passed t ht
    · intro b hb
      rw [hran] at hb
      cases hb
    · intro e' he
      rw [hran] at he ⊢
      cases he
      exact h.error e hx

theorem attempt {ε' : Type} {x : Steps σ ε α}
    {Q : Except ε α → σ → Prop} {R : ε' → σ → Prop}
    (h : Holds I x s (fun a => Q (.ok a)) (fun e => Q (.error e))) :
    Holds I (Steps.attempt x) s Q R := by
  refine ⟨h.passed, ?_, nofun⟩
  intro r hr
  have heq : (x s).result = r := Except.ok.inj hr
  show Q r (x s).state
  cases hx : (x s).result with
  | ok a =>
    rw [← heq, hx]
    exact h.ok a hx
  | error e =>
    rw [← heq, hx]
    exact h.error e hx

/-- A program that ends under `I` is under it wherever it is cut off. -/
theorem after {x : Steps σ ε α} (h : Holds I x s (fun _ => I) (fun _ => I))
    (k : Nat) : I ((x s).after k) := by
  have hstate : I (x s).state := by
    cases hx : (x s).result with
    | ok a => exact h.ok a hx
    | error e => exact h.error e hx
  rw [Ran.after]
  cases hk : (x s).passed[k]? with
  | none => exact hstate
  | some t => exact h.passed t (List.mem_of_getElem? hk)

end Holds

end Steps

end OneHarness.Lib
