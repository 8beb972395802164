/-
Runs of a state machine, and what holds all along one.

`Along P s es`: every state of the run from `s` by the events `es` meets
`P`, the first and the last included. `Guarded G s es`: every event meets
`G` in the state it happens in.

# The rules

An invariant is kept by every run (`invariant`). When a step from a good
state leads to a good state exactly if its event meets `G`, a run is good
all along exactly if all of its events meet `G` (`along_iff_guarded`): the
condition on the single step is then the exact condition on the run.
-/
import Mathlib.Data.List.Basic

namespace OneHarness.Lib.Run

variable {σ ε : Type} (step : σ → ε → σ) {P : σ → Prop} {G : σ → ε → Prop}

/-- Every state of the run is one. -/
def Along (P : σ → Prop) (s : σ) : List ε → Prop
  | [] => P s
  | e :: es => P s ∧ Along P (step s e) es

/-- Every event of the run is one, where it happens. -/
def Guarded (G : σ → ε → Prop) (s : σ) : List ε → Prop
  | [] => True
  | e :: es => G s e ∧ Guarded G (step s e) es

variable {step}

variable {s : σ} {es : List ε}

theorem Along.head (h : Along step P s es) : P s := by
  cases es with
  | nil => exact h
  | cons e es => exact h.1

theorem Along.mono {Q : σ → Prop} (h : Along step P s es)
    (hPQ : ∀ s, P s → Q s) : Along step Q s es := by
  induction es generalizing s with
  | nil => exact hPQ s h
  | cons e es ih => exact ⟨hPQ s h.1, ih h.2⟩

/-- The states of a run are those that its starts lead to. -/
theorem along_iff_take :
    Along step P s es ↔ ∀ k, P ((es.take k).foldl step s) := by
  induction es generalizing s with
  | nil => simp [Along]
  | cons e es ih =>
    rw [Along, ih]
    constructor
    · intro h k
      cases k with
      | zero => exact h.1
      | succ k => exact h.2 k
    · intro h
      exact ⟨h 0, fun k => h (k + 1)⟩

theorem Along.last (h : Along step P s es) : P (es.foldl step s) := by
  have hall := along_iff_take.1 h es.length
  rwa [List.take_length] at hall

/-- What every step keeps, every run keeps. -/
theorem invariant {Inv : σ → Prop} (hstep : ∀ s e, Inv s → Inv (step s e))
    {s : σ} (h : Inv s) (es : List ε) : Inv (es.foldl step s) := by
  induction es generalizing s with
  | nil => exact h
  | cons e es ih => exact ih (hstep s e h)

/-- A run whose events are guarded is good all along, when a guarded step
leads from a good state to a good one. -/
theorem along_of_guarded {Inv : σ → Prop}
    (hstep : ∀ s e, Inv s → Inv (step s e))
    (hgood : ∀ s e, Inv s → P s → G s e → P (step s e))
    {s : σ} (hinv : Inv s) (h : P s) {es : List ε}
    (hguard : Guarded step G s es) : Along step P s es := by
  induction es generalizing s with
  | nil => exact h
  | cons e es ih =>
    exact ⟨h, ih (hstep s e hinv) (hgood s e hinv h hguard.1) hguard.2⟩

/-- What guarded steps keep holds all along a guarded run. -/
theorem along_of_kept (hkept : ∀ s e, P s → G s e → P (step s e)) {s : σ}
    (h : P s) {es : List ε} (hguard : Guarded step G s es) :
    Along step P s es := by
  induction es generalizing s with
  | nil => exact h
  | cons e es ih => exact ⟨h, ih (hkept s e h hguard.1) hguard.2⟩

/-- With the guard exact for a step, it is exact for a run. -/
theorem along_iff_guarded {Inv : σ → Prop}
    (hstep : ∀ s e, Inv s → Inv (step s e))
    (hexact : ∀ s e, Inv s → P s → (P (step s e) ↔ G s e))
    {s : σ} (hinv : Inv s) (h : P s) {es : List ε} :
    Along step P s es ↔ Guarded step G s es := by
  constructor
  · intro halong
    induction es generalizing s with
    | nil => exact trivial
    | cons e es ih =>
      have hnext := halong.2.head
      exact ⟨(hexact s e hinv h).1 hnext, ih (hstep s e hinv) hnext halong.2⟩
  · intro hguard
    apply along_of_guarded hstep _ hinv h hguard
    intro s e hinv h hg
    exact (hexact s e hinv h).2 hg

end OneHarness.Lib.Run
