/-
TicTacToe.Lib.Frame — what a computation leaves alone, whether it fails or
not.

`Keeps R x` says that every exit of `x`, the failing ones included, is in
a state related by the preorder `R` to the one it started in. There is one
rule per constructor of the monad, so a frame property of a handler is put
together along its text; a zoomed computation keeps `R` as soon as what it
writes back does.

No `sorry`, no `axiom`, no `native_decide`.
-/
import Mathlib.Order.Defs.Unbundled
import TicTacToe.Lib.Wp

namespace TicTacToe.Lib

variable {ε σ τ α β : Type}

/-- Every exit of `x` from `s` is related to `s`. -/
def KeepsAt (R : σ → σ → Prop) (x : EStateM ε σ α) (s : σ) : Prop :=
  wp x (fun _ s' => R s s') (fun _ s' => R s s') s

/-- `x` keeps `R` wherever it starts. -/
def Keeps (R : σ → σ → Prop) (x : EStateM ε σ α) : Prop := ∀ s, KeepsAt R x s

section Rules

variable {R : σ → σ → Prop} [IsPreorder σ R]

theorem keeps_pure (a : α) : Keeps R (pure a : EStateM ε σ α) := fun s => refl_of R s

theorem keeps_throw (e : ε) : Keeps R (throw e : EStateM ε σ α) := fun s => refl_of R s

theorem keeps_get : Keeps R (get : EStateM ε σ σ) := fun s => refl_of R s

theorem keeps_liftE (x : Except ε α) : Keeps R (liftE x : EStateM ε σ α) := by
  cases x with
  | ok a => exact keeps_pure a
  | error e => exact keeps_throw e

theorem keeps_okOr (e : ε) (x : Option α) : Keeps R (okOr e x : EStateM ε σ α) := by
  cases x with
  | some a => exact keeps_pure a
  | none => exact keeps_throw e

omit [IsPreorder σ R] in
theorem keeps_modify {f : σ → σ} (h : ∀ s, R s (f s)) :
    Keeps R (modify f : EStateM ε σ PUnit) := fun s => h s

theorem Keeps.bind {x : EStateM ε σ α} {f : α → EStateM ε σ β} (hx : Keeps R x)
    (hf : ∀ a, Keeps R (f a)) : Keeps R (x >>= f) := by
  intro s
  unfold KeepsAt
  rw [wp_bind]
  refine wp_mono (hx s) (fun a s₁ h₁ => ?_) (fun _ _ h₁ => h₁)
  exact wp_mono (hf a s₁) (fun _ _ h₂ => trans_of R h₁ h₂) (fun _ _ h₂ => trans_of R h₁ h₂)

omit [IsPreorder σ R] in
theorem Keeps.ite {c : Prop} [Decidable c] {x y : EStateM ε σ α} (hx : Keeps R x)
    (hy : Keeps R y) : Keeps R (if c then x else y) := by
  by_cases h : c
  · rw [if_pos h]
    exact hx
  · rw [if_neg h]
    exact hy

omit [IsPreorder σ R] in
theorem Keeps.map {x : EStateM ε σ α} (hx : Keeps R x) (f : α → β) : Keeps R (f <$> x) := by
  intro s
  unfold KeepsAt
  rw [wp_map]
  exact hx s

omit [IsPreorder σ R] in
/-- `get` hands the state it is in to what follows. -/
theorem keeps_get_bind {f : σ → EStateM ε σ β} (hf : ∀ s, KeepsAt R (f s) s) :
    Keeps R (get >>= f) := by
  intro s
  unfold KeepsAt
  rw [wp_bind, wp_get]
  exact hf s

end Rules

/-- A zoom keeps `R` when every exit of the part, written back, does. -/
theorem keeps_zoom {R : σ → σ → Prop} [IsPreorder σ R] {S : τ → τ → Prop} {look : σ → Option τ}
    {write : τ → σ → σ} {absent : ε} {x : EStateM ε τ α} (hx : Keeps S x)
    (hwrite : ∀ s t t', look s = some t → S t t' → R s (write t' s)) :
    Keeps R (zoom look write absent x) := by
  intro s
  unfold KeepsAt
  cases hlook : look s with
  | none =>
    rw [wp_zoom_none hlook]
    exact refl_of R s
  | some t =>
    rw [wp_zoom hlook]
    exact wp_mono (hx t) (fun _ t' h => hwrite s t t' hlook h) (fun _ t' h => hwrite s t t' hlook h)

end TicTacToe.Lib
