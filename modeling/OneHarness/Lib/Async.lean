/-
Computations that suspend, throw, and may never end.

An `Async` computation runs in a world and leaves one behind together
with a value or an error; `none` is a computation that never ends. What
others do while it is suspended is part of the world, so a statement
about every world is one about every interleaving at its suspension
points.

# Reasoning

`Holds x w Q R` says that from the world `w`, should `x` end, it ends
with a value under `Q` or throws under `R`. There is one rule for each
way a computation is made, so a proof follows the text of the program.
-/

namespace OneHarness.Lib

/-- A computation over the world `W` that may throw an `E`. -/
def Async (W E α : Type) : Type := W → Option (Except E α × W)

namespace Async

variable {W E α β : Type}

/-- `await x`, then go on with its value. -/
protected def bind (x : Async W E α) (f : α → Async W E β) : Async W E β :=
  fun w =>
    match x w with
    | some (.ok a, w') => f a w'
    | some (.error e, w') => some (.error e, w')
    | none => none

instance : Monad (Async W E) where
  pure a := fun w => some (.ok a, w)
  bind := Async.bind

/-- `throw`. -/
def throw (e : E) : Async W E α := fun w => some (.error e, w)

/-- `try { x } catch (e) { h(e) }`. -/
def tryCatch (x : Async W E α) (h : E → Async W E α) : Async W E α :=
  fun w =>
    match x w with
    | some (.error e, w') => h e w'
    | r => r

/-- Read the world. -/
def read (f : W → α) : Async W E α := fun w => some (.ok (f w), w)

/-- Change the world. -/
def modify (f : W → W) : Async W E Unit := fun w => some (.ok (), f w)

/-- Go on with a settled result. -/
def ofExcept (r : Except E α) : Async W E α := fun w => some (r, w)

/-- Never end. -/
def diverge : Async W E α := fun _ => none

/-- From `w`, a value is under `Q` and an error under `R`. -/
def Holds (x : Async W E α) (w : W) (Q : α → W → Prop)
    (R : E → W → Prop) : Prop :=
  ∀ r w', x w = some (r, w') →
    match r with
    | .ok a => Q a w'
    | .error e => R e w'

variable {w : W} {Q Q' : α → W → Prop} {R R' : E → W → Prop}

namespace Holds

theorem ok {x : Async W E α} {a : α} {w' : W} (h : Holds x w Q R)
    (hx : x w = some (.ok a, w')) : Q a w' := h _ _ hx

theorem mono {x : Async W E α} (h : Holds x w Q R)
    (hQ : ∀ a w', Q a w' → Q' a w') (hR : ∀ e w', R e w' → R' e w') :
    Holds x w Q' R' := by
  intro r w' hx
  have hr := h r w' hx
  cases r with
  | ok a => exact hQ a w' hr
  | error e => exact hR e w' hr

theorem pure {a : α} (h : Q a w) : Holds (pure a) w Q R := by
  intro r w' hx
  cases hx
  exact h

theorem throw {e : E} (h : R e w) :
    Holds (Async.throw e : Async W E α) w Q R := by
  intro r w' hx
  cases hx
  exact h

theorem read {f : W → α} (h : Q (f w) w) : Holds (Async.read f) w Q R := by
  intro r w' hx
  cases hx
  exact h

theorem modify {f : W → W} {Q : Unit → W → Prop} (h : Q () (f w)) :
    Holds (Async.modify f) w Q R := by
  intro r w' hx
  cases hx
  exact h

theorem ofExcept {r : Except E α} (hok : ∀ a, r = .ok a → Q a w)
    (herror : ∀ e, r = .error e → R e w) :
    Holds (Async.ofExcept r) w Q R := by
  intro r' w' hx
  cases hx
  cases r with
  | ok a => exact hok a rfl
  | error e => exact herror e rfl

theorem diverge : Holds (Async.diverge : Async W E α) w Q R := by
  intro r w' hx
  cases hx

theorem bind {x : Async W E α} {f : α → Async W E β} {Q : β → W → Prop}
    (h : Holds x w (fun a w' => Holds (f a) w' Q R) R) :
    Holds (x >>= f) w Q R := by
  intro r w' hx
  have heq : (x >>= f) w = Async.bind x f w := rfl
  rw [heq, Async.bind] at hx
  cases hxw : x w with
  | none =>
    rw [hxw] at hx
    cases hx
  | some p =>
    obtain ⟨ra, w₁⟩ := p
    have ha := h ra w₁ hxw
    rw [hxw] at hx
    cases ra with
    | ok a => exact ha r w' hx
    | error e =>
      cases hx
      exact ha

theorem map {x : Async W E α} {f : α → β} {Q : β → W → Prop}
    (h : Holds x w (fun a w' => Q (f a) w') R) : Holds (f <$> x) w Q R :=
  bind (h.mono (fun _ _ hQ => pure hQ) fun _ _ hR => hR)

theorem tryCatch {x : Async W E α} {k : E → Async W E α}
    (h : Holds x w Q (fun e w' => Holds (k e) w' Q R)) :
    Holds (Async.tryCatch x k) w Q R := by
  intro r w' hx
  rw [Async.tryCatch] at hx
  cases hxw : x w with
  | none =>
    rw [hxw] at hx
    cases hx
  | some p =>
    obtain ⟨ra, w₁⟩ := p
    have ha := h ra w₁ hxw
    rw [hxw] at hx
    cases ra with
    | ok a =>
      cases hx
      exact ha
    | error e => exact ha r w' hx

/-- A branch on a boolean. -/
theorem ite {b : Bool} {x y : Async W E α} (ht : b = true → Holds x w Q R)
    (hf : b = false → Holds y w Q R) :
    Holds (if b = true then x else y) w Q R := by
  cases b with
  | true => exact ht rfl
  | false => exact hf rfl

/-- A step that is taken or left out, and then the rest. -/
theorem joined {b : Bool} {x : Async W E Unit} {k : Unit → Async W E α}
    (P : W → Prop) (ht : b = true → Holds x w (fun _ w' => P w') R)
    (hf : b = false → P w) (hk : ∀ w', P w' → Holds (k ()) w' Q R) :
    Holds (if b = true then x >>= k else k ()) w Q R :=
  ite (fun hb => bind ((ht hb).mono (fun _ w' hP => hk w' hP) fun _ _ hR => hR))
    fun hb => hk w (hf hb)

end Holds

end Async

end OneHarness.Lib
