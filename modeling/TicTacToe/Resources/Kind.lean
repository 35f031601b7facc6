/-
TicTacToe.Resources.Kind — the kind byte every payload starts with, and
the validating parse the three bodies share (`program/resources/kind.rs`
and the `from_bytes` of each body).

`fromBytesOf` is that parse with the body's layout, validation and error
texts as parameters; `fromBytesOf_ok` says once what it accepts: the kind
byte followed by exactly what the body's writer produces.

No `sorry`, no `axiom`, no `native_decide`.
-/
import TicTacToe.Runtime.Lock

namespace TicTacToe

open Lib

inductive Kind where
  | config
  | user
  | game
  deriving DecidableEq, Repr

/-- `Kind as u8`. -/
def Kind.toByte : Kind → UInt8
  | config => 0
  | user => 1
  | game => 2

/-- `Kind::try_from`. -/
def Kind.tryFrom (b : UInt8) : Option Kind :=
  if b = 0 then some config else if b = 1 then some user else if b = 2 then some game else none

theorem Kind.tryFrom_eq_some {b : UInt8} {k : Kind} : Kind.tryFrom b = some k ↔ b = k.toByte := by
  unfold tryFrom
  constructor
  · intro h
    split at h
    · rename_i hb
      cases h
      exact hb
    · split at h
      · rename_i hb
        cases h
        exact hb
      · split at h
        · rename_i hb
          cases h
          exact hb
        · cases h
  · rintro rfl
    cases k <;> rfl

theorem Kind.toByte_injective {k k' : Kind} (h : k.toByte = k'.toByte) : k = k' := by
  have hk := Kind.tryFrom_eq_some.mpr (rfl : k.toByte = k.toByte)
  rw [h, Kind.tryFrom_eq_some.mpr rfl] at hk
  exact (Option.some.inj hk).symm

/-- The error texts of one body's `from_bytes`. -/
structure BodyErrors where
  wrongKind : String
  invalidLayout : String

/-- `from_bytes`: the kind byte, the kindless layout over exactly the
remaining bytes, then the body's own validation. -/
def fromBytesOf {β : Type} (kind : Kind) (errs : BodyErrors) (layout : Reader β)
    (validate : β → Except String Unit) (bytes : List UInt8) : Except String β :=
  match bytes with
  | [] => .error errs.wrongKind
  | k :: body =>
    if Kind.tryFrom k = some kind then
      match layout body with
      | .ok v [] =>
        match validate v with
        | .ok _ => .ok v
        | .error m => .error m
      | _ => .error errs.invalidLayout
    else
      .error errs.wrongKind

/-- A layout that must use up its buffer. -/
def ReadsAll {β : Type} (layout : Reader β) (enc : β → List UInt8) : Prop :=
  ∀ buf v, layout buf = .ok v [] ↔ buf = enc v

theorem fromBytesOf_ok {β : Type} {kind : Kind} {errs : BodyErrors} {layout : Reader β}
    {validate : β → Except String Unit} {enc : β → List UInt8} (h : ReadsAll layout enc)
    {bytes : List UInt8} {v : β} :
    fromBytesOf kind errs layout validate bytes = .ok v ↔
      bytes = kind.toByte :: enc v ∧ validate v = .ok () := by
  cases bytes with
  | nil => simp [fromBytesOf]
  | cons k body =>
    simp only [fromBytesOf, Kind.tryFrom_eq_some, List.cons.injEq, ← h body v]
    by_cases hk : k = kind.toByte
    · rw [if_pos hk]
      simp only [hk, true_and]
      constructor
      · intro hv
        split at hv
        · rename_i w hlay
          split at hv
          · rename_i u hval
            obtain rfl := Except.ok.inj hv
            exact ⟨hlay, hval⟩
          · cases hv
        · cases hv
      · rintro ⟨hlay, hval⟩
        rw [hlay]
        simp [hval]
    · simp [hk]

end TicTacToe
