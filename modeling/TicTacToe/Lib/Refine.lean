/-
TicTacToe.Lib.Refine — a fallible component against what it is for.

The component performs operations on a state of its own and may fail; its
purpose is a total step on an abstract state. `Simulates` asks for one
operation it is meant for: from a state that keeps the invariant the component answers
what the abstract step answers, keeps the invariant and stays related by
the abstraction function. `Simulates.run` is the same for every sequence
of operations, failure freedom included.

Nothing here names the program.

No `sorry`, no `axiom`, no `native_decide`.
-/
import TicTacToe.Lib.Reader

namespace TicTacToe.Lib

section Refine

variable {ε σ τ Op Out : Type}

/-- The answers to `ops`, performed one after the other. -/
def performAll (perform : Op → EStateM ε σ Out) : List Op → EStateM ε σ (List Out)
  | [] => return []
  | op :: ops => do
    let out ← perform op
    let outs ← performAll perform ops
    return out :: outs

/-- The abstract answers and the abstract state `ops` end in. -/
def runSpec (spec : Op → τ → Out × τ) : List Op → τ → List Out × τ
  | [], t => ([], t)
  | op :: ops, t =>
    let (out, t') := spec op t
    let (outs, t'') := runSpec spec ops t'
    (out :: outs, t'')

/-- An operation in `Ok` is the abstract step, seen through `abs`. -/
def Simulates (Ok : Op → Prop) (Inv : σ → Prop) (abs : σ → τ) (perform : Op → EStateM ε σ Out)
    (spec : Op → τ → Out × τ) : Prop :=
  ∀ op s, Ok op → Inv s →
    ∃ s', perform op s = .ok (spec op (abs s)).1 s' ∧ Inv s' ∧ abs s' = (spec op (abs s)).2

variable {Ok : Op → Prop} {Inv : σ → Prop} {abs : σ → τ} {perform : Op → EStateM ε σ Out}
  {spec : Op → τ → Out × τ}

/-- A sequence of operations is the sequence of abstract steps. -/
theorem Simulates.run (h : Simulates Ok Inv abs perform spec) (ops : List Op)
    (hops : ∀ op ∈ ops, Ok op) {s : σ} (hs : Inv s) :
    ∃ s', performAll perform ops s = .ok (runSpec spec ops (abs s)).1 s' ∧ Inv s' ∧
      abs s' = (runSpec spec ops (abs s)).2 := by
  induction ops generalizing s with
  | nil => exact ⟨s, rfl, hs, rfl⟩
  | cons op ops ih =>
    obtain ⟨s₁, hop, hs₁, habs⟩ := h op s (hops op List.mem_cons_self) hs
    obtain ⟨s', hrun, hs', hfinal⟩ := ih (fun o ho => hops o (List.mem_cons_of_mem op ho)) hs₁
    rw [habs] at hrun hfinal
    refine ⟨s', ?_, hs', hfinal⟩
    unfold performAll
    rw [bind_of_ok hop, bind_of_ok hrun]
    rfl

end Refine

end TicTacToe.Lib
