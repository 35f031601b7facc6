/-
TicTacToe.Lib.Streams — a deterministic consumer of several first-in
first-out streams.

In every state the consumer either halts or names the one stream it reads
next (`need`); reading an item moves it on (`feed`). It cannot ask
whether a stream is empty, so what it ends up doing depends on what each
stream carries and not on how the arrivals on different streams were
interleaved: `run_interleaving`.

A configuration is the consumer's state with what is still unread. The
proof has two parts. A step commutes with an arrival (`Step.push`), so
arrivals can be moved to the front; and steps are deterministic
(`Step.unique`), so the settled configuration reached is the only one.

Nothing here names the program.

No `sorry`, no `axiom`, no `native_decide`.
-/
import Mathlib.Logic.Relation
import Mathlib.Data.List.Basic
import Mathlib.Logic.Function.Basic

namespace TicTacToe.Lib

structure Consumer (ι σ α : Type) where
  need : σ → Option ι
  feed : σ → α → σ

/-- A state and the unread items of each stream, oldest first. -/
structure Unread (ι σ α : Type) where
  state : σ
  queue : ι → List α

namespace Consumer

variable {ι σ α : Type} [DecidableEq ι] (C : Consumer ι σ α)

/-- The needed stream has an item, and it is read. -/
inductive Step : Unread ι σ α → Unread ι σ α → Prop
  | read {s : σ} {q : ι → List α} {i : ι} {a : α} {rest : List α} :
      C.need s = some i → q i = a :: rest →
      Step ⟨s, q⟩ ⟨C.feed s a, Function.update q i rest⟩

/-- Nothing left to read that is needed. -/
def Settled (c : Unread ι σ α) : Prop := ∀ i, C.need c.state = some i → c.queue i = []

/-- `c` reads as far as it can and ends in `c'`. -/
def Settles (c c' : Unread ι σ α) : Prop := Relation.ReflTransGen C.Step c c' ∧ C.Settled c'

/-- An item arrives on a stream. -/
def push (c : Unread ι σ α) (p : ι × α) : Unread ι σ α :=
  { c with queue := Function.update c.queue p.1 (c.queue p.1 ++ [p.2]) }

/-- All arrivals first, no reading in between. -/
def pushAll (c : Unread ι σ α) (l : List (ι × α)) : Unread ι σ α := l.foldl push c

variable {C}

theorem Settled.no_step {c c' : Unread ι σ α} (h : C.Settled c) : ¬ C.Step c c' := by
  rintro ⟨hneed, hq⟩
  exact absurd (hq.symm.trans (h _ hneed)) (List.cons_ne_nil _ _)

theorem Step.unique {c c₁ c₂ : Unread ι σ α} (h₁ : C.Step c c₁) (h₂ : C.Step c c₂) : c₁ = c₂ := by
  obtain ⟨hneed, hq⟩ := h₁
  obtain ⟨hneed', hq'⟩ := h₂
  obtain rfl : _ = _ := Option.some.inj (hneed.symm.trans hneed')
  obtain ⟨rfl, rfl⟩ := List.cons.inj (hq.symm.trans hq')
  rfl

/-- Reading does not look at the back of a queue. -/
theorem Step.push {c c' : Unread ι σ α} (h : C.Step c c') (p : ι × α) :
    C.Step (push c p) (push c' p) := by
  obtain ⟨hneed, hq⟩ := h
  rename_i s q i a rest
  obtain ⟨j, b⟩ := p
  by_cases hij : j = i
  · subst hij
    have hq' : (Consumer.push ⟨s, q⟩ (j, b)).queue j = a :: (rest ++ [b]) := by
      simp [Consumer.push, hq]
    have hstep := Step.read (C := C) (s := s) hneed hq'
    simpa [Consumer.push] using hstep
  · have hq' : (Consumer.push ⟨s, q⟩ (j, b)).queue i = a :: rest := by
      simp [Consumer.push, Function.update_of_ne (Ne.symm hij), hq]
    have hstep := Step.read (C := C) (s := s) hneed hq'
    simpa [Consumer.push, Function.update_of_ne hij, Function.update_comm hij] using hstep

theorem steps_push {c c' : Unread ι σ α} (h : Relation.ReflTransGen C.Step c c') (p : ι × α) :
    Relation.ReflTransGen C.Step (push c p) (push c' p) :=
  h.lift (fun d => push d p) fun _ _ hstep => hstep.push p

theorem steps_pushAll {c c' : Unread ι σ α} (h : Relation.ReflTransGen C.Step c c')
    (l : List (ι × α)) : Relation.ReflTransGen C.Step (pushAll c l) (pushAll c' l) := by
  induction l generalizing c c' with
  | nil => exact h
  | cons p rest ih => exact ih (steps_push h p)

/-- The settled configuration is unique. -/
theorem Settles.unique {c c₁ c₂ : Unread ι σ α} (h₁ : C.Settles c c₁) (h₂ : C.Settles c c₂) :
    c₁ = c₂ := by
  have huniq : Relator.RightUnique C.Step := fun _ _ _ => Step.unique
  rcases Relation.ReflTransGen.total_of_right_unique huniq h₁.1 h₂.1 with h | h
  · rcases Relation.ReflTransGen.cases_head h with rfl | ⟨_, hstep, -⟩
    · rfl
    · exact absurd hstep h₁.2.no_step
  · rcases Relation.ReflTransGen.cases_head h with rfl | ⟨_, hstep, -⟩
    · rfl
    · exact absurd hstep h₂.2.no_step

variable (C) in
/-- Arrivals in order, reading as far as possible after each one. -/
inductive Run : Unread ι σ α → List (ι × α) → Unread ι σ α → Prop
  | nil (c : Unread ι σ α) : Run c [] c
  | cons {c c₁ c₂ : Unread ι σ α} {p : ι × α} {l : List (ι × α)} :
      C.Settles (push c p) c₁ → Run c₁ l c₂ → Run c (p :: l) c₂

/-- Reading eagerly gets no further than reading at the end. -/
theorem Run.settles {c c' : Unread ι σ α} {l : List (ι × α)} (hc : C.Settled c)
    (h : C.Run c l c') : C.Settles (pushAll c l) c' := by
  induction h with
  | nil c => exact ⟨.refl, hc⟩
  | cons hs _ ih =>
    obtain ⟨hsteps, hsettled⟩ := ih hs.2
    exact ⟨(steps_pushAll hs.1 _).trans hsteps, hsettled⟩

/-- The items a list of arrivals puts on stream `i`. -/
def onStream (i : ι) (l : List (ι × α)) : List α := (l.filter fun p => p.1 = i).map Prod.snd

theorem pushAll_eq (c : Unread ι σ α) (l : List (ι × α)) :
    pushAll c l = { c with queue := fun i => c.queue i ++ onStream i l } := by
  induction l generalizing c with
  | nil => simp [pushAll, onStream]
  | cons p rest ih =>
    rw [pushAll, List.foldl_cons, ← pushAll, ih]
    simp only [push, Unread.mk.injEq, true_and]
    funext i
    by_cases hi : p.1 = i
    · subst hi
      simp [onStream]
    · simp [onStream, hi, Function.update_of_ne (Ne.symm hi)]

/-- Two interleavings of the same streams end in the same configuration. -/
theorem run_interleaving {c c₁ c₂ : Unread ι σ α} {l₁ l₂ : List (ι × α)} (hc : C.Settled c)
    (h₁ : C.Run c l₁ c₁) (h₂ : C.Run c l₂ c₂)
    (hsame : ∀ i, onStream i l₁ = onStream i l₂) : c₁ = c₂ := by
  have hs₁ := h₁.settles hc
  have hs₂ := h₂.settles hc
  rw [pushAll_eq] at hs₁ hs₂
  simp only [hsame] at hs₁
  exact hs₁.unique hs₂

end Consumer

end TicTacToe.Lib
