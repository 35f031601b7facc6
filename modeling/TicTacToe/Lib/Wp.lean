/-
TicTacToe.Lib.Wp — a weakest-precondition calculus for computations that
read and write a state and may fail: `EStateM ε σ`, where a failure KEEPS
the state it happened in (no rollback).

Nothing here names the program. `wp x Q E s` says that running `x` from
`s` ends either with a value and a state in `Q`, or with an error and a
state in `E`. The lemmas below follow the constructors of the monad, so
a body is executed symbolically by `simp only [wp_simps]`-style rewriting
and one statement covers both of its exits.

`zoom` runs a computation on a part of the state (one element of a
vector, one decoded field), failing when the part is absent; `wp_zoom` is
its rule. `wp_mono` weakens the two postconditions.

No `sorry`, no `axiom`, no `native_decide`.
-/
import Mathlib.Logic.Basic
import Mathlib.Data.List.Basic

namespace TicTacToe.Lib

variable {ε σ τ α β : Type}

/-- Every exit of `x` from `s` is a value in `Q` or an error in `E`. -/
def wp (x : EStateM ε σ α) (Q : α → σ → Prop) (E : ε → σ → Prop) (s : σ) : Prop :=
  match x s with
  | .ok a s' => Q a s'
  | .error e s' => E e s'

section Rules

variable {Q : α → σ → Prop} {E : ε → σ → Prop} {s : σ}

@[simp] theorem wp_pure (a : α) : wp (pure a : EStateM ε σ α) Q E s ↔ Q a s := Iff.rfl

@[simp] theorem wp_throw (e : ε) : wp (throw e : EStateM ε σ α) Q E s ↔ E e s := Iff.rfl

@[simp] theorem wp_get {Q : σ → σ → Prop} : wp (get : EStateM ε σ σ) Q E s ↔ Q s s := Iff.rfl

@[simp] theorem wp_set {Q : PUnit → σ → Prop} (t : σ) :
    wp (set t : EStateM ε σ PUnit) Q E s ↔ Q ⟨⟩ t := Iff.rfl

@[simp] theorem wp_modify {Q : PUnit → σ → Prop} (f : σ → σ) :
    wp (modify f : EStateM ε σ PUnit) Q E s ↔ Q ⟨⟩ (f s) := Iff.rfl

@[simp] theorem wp_bind {Q : β → σ → Prop} (x : EStateM ε σ α) (f : α → EStateM ε σ β) :
    wp (x >>= f) Q E s ↔ wp x (fun a s' => wp (f a) Q E s') E s := by
  simp only [wp, bind, EStateM.bind]
  cases x s <;> rfl

@[simp] theorem wp_map {Q : β → σ → Prop} (f : α → β) (x : EStateM ε σ α) :
    wp (f <$> x) Q E s ↔ wp x (fun a s' => Q (f a) s') E s := by
  simp only [wp, Functor.map, EStateM.map]
  cases x s <;> rfl

theorem wp_ite (c : Prop) [Decidable c] (x y : EStateM ε σ α) :
    wp (if c then x else y) Q E s ↔ (c → wp x Q E s) ∧ (¬ c → wp y Q E s) := by
  by_cases h : c <;> simp [h]

theorem wp_of_ok {x : EStateM ε σ α} {a : α} {s' : σ} (h : x s = .ok a s') :
    wp x Q E s ↔ Q a s' := by
  simp only [wp, h]

theorem wp_of_error {x : EStateM ε σ α} {e : ε} {s' : σ} (h : x s = .error e s') :
    wp x Q E s ↔ E e s' := by
  simp only [wp, h]

/-- What `wp` says about a run that succeeded. -/
theorem wp.ok {x : EStateM ε σ α} (hw : wp x Q E s) {a : α} {s' : σ}
    (h : x s = .ok a s') : Q a s' :=
  (wp_of_ok h).mp hw

/-- What `wp` says about a run that failed. -/
theorem wp.error {x : EStateM ε σ α} (hw : wp x Q E s) {e : ε} {s' : σ}
    (h : x s = .error e s') : E e s' :=
  (wp_of_error h).mp hw

theorem wp_mono {x : EStateM ε σ α} {Q' : α → σ → Prop} {E' : ε → σ → Prop}
    (h : wp x Q E s) (hQ : ∀ a s', Q a s' → Q' a s') (hE : ∀ e s', E e s' → E' e s') :
    wp x Q' E' s := by
  unfold wp at h ⊢
  split at h
  · exact hQ _ _ h
  · exact hE _ _ h

/-- The success postcondition may also speak of the run itself. -/
theorem wp_run {x : EStateM ε σ α} (h : wp x Q E s) :
    wp x (fun a s' => x s = .ok a s' ∧ Q a s') E s := by
  unfold wp at h ⊢
  split at h
  · rename_i a s' hx
    exact ⟨hx, h⟩
  · exact h

/-- A computation that cannot fail succeeds with a value in `Q`. -/
theorem wp_total {x : EStateM ε σ α} (h : wp x Q (fun _ _ => False) s) :
    ∃ a s', x s = .ok a s' ∧ Q a s' := by
  unfold wp at h
  split at h
  · rename_i a s' hx
    exact ⟨a, s', hx, h⟩
  · exact h.elim

/-- A computation that cannot succeed fails with an error in `E`. -/
theorem wp_fails {x : EStateM ε σ α} (h : wp x (fun _ _ => False) E s) :
    ∃ e s', x s = .error e s' ∧ E e s' := by
  unfold wp at h
  split at h
  · exact h.elim
  · rename_i e s' hx
    exact ⟨e, s', hx, h⟩

end Rules

/-! ## Lifting and zooming -/

/-- A pure fallible value as a computation that leaves the state alone. -/
def liftE (x : Except ε α) : EStateM ε σ α :=
  match x with
  | .ok a => pure a
  | .error e => throw e

@[simp] theorem wp_liftE_ok {Q : α → σ → Prop} {E : ε → σ → Prop} {s : σ} (a : α) :
    wp (liftE (.ok a) : EStateM ε σ α) Q E s ↔ Q a s := Iff.rfl

@[simp] theorem wp_liftE_error {Q : α → σ → Prop} {E : ε → σ → Prop} {s : σ} (e : ε) :
    wp (liftE (.error e) : EStateM ε σ α) Q E s ↔ E e s := Iff.rfl

/-- `none` becomes the failure `e`. -/
def okOr (e : ε) (x : Option α) : EStateM ε σ α :=
  match x with
  | some a => pure a
  | none => throw e

@[simp] theorem wp_okOr_some {Q : α → σ → Prop} {E : ε → σ → Prop} {s : σ} (e : ε) (a : α) :
    wp (okOr e (some a) : EStateM ε σ α) Q E s ↔ Q a s := Iff.rfl

@[simp] theorem wp_okOr_none {Q : α → σ → Prop} {E : ε → σ → Prop} {s : σ} (e : ε) :
    wp (okOr e (none : Option α) : EStateM ε σ α) Q E s ↔ E e s := Iff.rfl

theorem wp_okOr {Q : α → σ → Prop} {E : ε → σ → Prop} {s : σ} (e : ε) (x : Option α) :
    wp (okOr e x : EStateM ε σ α) Q E s ↔ (∀ a, x = some a → Q a s) ∧ (x = none → E e s) := by
  cases x <;> simp

/-- Runs `x` on the part of the state that `look` finds, writing the part
back at every exit, the failing one included; `absent` when there is no
such part. -/
def zoom (look : σ → Option τ) (write : τ → σ → σ) (absent : ε) (x : EStateM ε τ α) :
    EStateM ε σ α := fun s =>
  match look s with
  | none => .error absent s
  | some t =>
    match x t with
    | .ok a t' => .ok a (write t' s)
    | .error e t' => .error e (write t' s)

theorem wp_zoom {look : σ → Option τ} {write : τ → σ → σ} {absent : ε} {x : EStateM ε τ α}
    {Q : α → σ → Prop} {E : ε → σ → Prop} {s : σ} {t : τ} (h : look s = some t) :
    wp (zoom look write absent x) Q E s ↔
      wp x (fun a t' => Q a (write t' s)) (fun e t' => E e (write t' s)) t := by
  simp only [wp, zoom, h]
  cases x t <;> rfl

/-- A part that is always there. -/
theorem wp_zoom_some (f : σ → τ) {write : τ → σ → σ} {absent : ε} {x : EStateM ε τ α}
    {Q : α → σ → Prop} {E : ε → σ → Prop} {s : σ} :
    wp (zoom (fun s => some (f s)) write absent x) Q E s ↔
      wp x (fun a t' => Q a (write t' s)) (fun e t' => E e (write t' s)) (f s) :=
  wp_zoom rfl

theorem wp_zoom_none {look : σ → Option τ} {write : τ → σ → σ} {absent : ε}
    {x : EStateM ε τ α} {Q : α → σ → Prop} {E : ε → σ → Prop} {s : σ} (h : look s = none) :
    wp (zoom look write absent x) Q E s ↔ E absent s := by
  simp only [wp, zoom, h]

theorem except_bind_ok {x : Except ε α} {f : α → Except ε β} {b : β} :
    (x >>= f) = .ok b ↔ ∃ a, x = .ok a ∧ f a = .ok b := by
  constructor
  · intro h
    cases x with
    | error e => cases h
    | ok a => exact ⟨a, rfl, h⟩
  · rintro ⟨a, rfl, hf⟩
    exact hf

/-- A list of computations that all succeed. -/
theorem mapM_ok {f : α → Except ε β} {l : List α}
    (h : ∀ a ∈ l, ∃ b, f a = .ok b) : ∃ bs, l.mapM f = .ok bs ∧
      ∀ a ∈ l, ∀ b, f a = .ok b → b ∈ bs := by
  induction l with
  | nil => exact ⟨[], rfl, fun _ ha => absurd ha List.not_mem_nil⟩
  | cons a l ih =>
    obtain ⟨b, hb⟩ := h a List.mem_cons_self
    obtain ⟨bs, hbs, hmem⟩ := ih fun c hc => h c (List.mem_cons_of_mem a hc)
    refine ⟨b :: bs, by simp only [List.mapM_cons, hb, hbs]; rfl, fun c hc d hd => ?_⟩
    rcases List.mem_cons.mp hc with rfl | hc
    · rw [hb] at hd
      cases hd
      exact List.mem_cons_self
    · exact List.mem_cons_of_mem b (hmem c hc d hd)

/-- A computed check of what a computation returns. -/
theorem ok_of_any {ε α : Type} {x : Except ε α} {p : α → Bool} (h : x.toOption.any p = true) :
    ∃ a, x = .ok a ∧ p a = true := by
  cases x with
  | error e => cases h
  | ok a => exact ⟨a, rfl, h⟩

end TicTacToe.Lib
