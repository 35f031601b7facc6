/-
TicTacToe.Lib.Tally — sums of a per-cell quantity over a finite family of
cells, and how they move when one cell is rewritten.

A ledger, a board and a table of counters are all functions `ι → α` from
a finite index type; `tally f L` adds `f` over the cells. Every
conservation argument is then the one equation `tally_update`: what the
cell held before and what it holds after, on opposite sides, with no
subtraction.

Nothing here names the program.

No `sorry`, no `axiom`, no `native_decide`.
-/
import Mathlib.Algebra.BigOperators.Group.Finset.Basic
import Mathlib.Algebra.Order.BigOperators.Group.Finset
import Mathlib.Data.Fintype.BigOperators
import Mathlib.Data.Set.Card

namespace TicTacToe.Lib

open Finset

variable {ι α : Type} [Fintype ι]

/-- The total of `f` over the cells of `L`. -/
@[irreducible] def tally (f : α → ℕ) (L : ι → α) : ℕ := ∑ i, f (L i)

/-- Rewriting cell `i` trades its old contribution for its new one. -/
theorem tally_update [DecidableEq ι] (f : α → ℕ) (L : ι → α) (i : ι) (a : α) :
    tally f (Function.update L i a) + f (L i) = tally f L + f a := by
  have hnew := add_sum_erase univ (fun j => f (Function.update L i a j)) (mem_univ i)
  have hold := add_sum_erase univ (fun j => f (L j)) (mem_univ i)
  have hrest : ∑ j ∈ univ.erase i, f (Function.update L i a j) = ∑ j ∈ univ.erase i, f (L j) :=
    sum_congr rfl fun j hj => by rw [Function.update_of_ne (ne_of_mem_erase hj)]
  simp only [Function.update_self] at hnew
  unfold tally
  omega

/-- Two different cells rewritten, one after the other. -/
theorem tally_update_update [DecidableEq ι] (f : α → ℕ) (L : ι → α) {i j : ι} (h : i ≠ j)
    (a b : α) :
    tally f (Function.update (Function.update L i a) j b) + f (L i) + f (L j)
      = tally f L + f a + f b := by
  have hi := tally_update f L i a
  have hj := tally_update f (Function.update L i a) j b
  rw [Function.update_of_ne h.symm] at hj
  omega

theorem tally_const_zero {f : α → ℕ} {L : ι → α} (h : ∀ i, f (L i) = 0) : tally f L = 0 := by
  unfold tally
  exact sum_eq_zero fun i _ => h i

/-- Two different cells together hold at most the total. -/
theorem add_le_tally [DecidableEq ι] (f : α → ℕ) (L : ι → α) {i j : ι} (h : i ≠ j) :
    f (L i) + f (L j) ≤ tally f L := by
  have hi := add_sum_erase univ (fun k => f (L k)) (mem_univ i)
  have hj : f (L j) ≤ ∑ k ∈ univ.erase i, f (L k) :=
    single_le_sum (f := fun k => f (L k)) (fun _ _ => Nat.zero_le _)
      (mem_erase.mpr ⟨h.symm, mem_univ j⟩)
  unfold tally
  omega

/-- A strict cell makes the whole sum strict. -/
theorem tally_lt {f g : α → ℕ} {L : ι → α} (h : ∀ i, f (L i) ≤ g (L i)) {i : ι}
    (hi : f (L i) < g (L i)) : tally f L < tally g L := by
  unfold tally
  exact sum_lt_sum (fun j _ => h j) ⟨i, mem_univ i, hi⟩

/-- The tally of the indicator of a set of cells is its size. -/
theorem tally_eq_ncard {f : α → ℕ} {L : ι → α} {S : Set ι}
    (h : ∀ i, i ∈ S ∧ f (L i) = 1 ∨ i ∉ S ∧ f (L i) = 0) : tally f L = S.ncard := by
  classical
  have hf : ∀ i, f (L i) = if i ∈ S then 1 else 0 := fun i => by
    rcases h i with ⟨hi, hfi⟩ | ⟨hi, hfi⟩
    · rw [hfi, if_pos hi]
    · rw [hfi, if_neg hi]
  have hS : S = (({i | i ∈ S} : Finset ι) : Set ι) := by
    ext i
    simp
  unfold tally
  rw [sum_congr rfl fun i _ => hf i, ← card_filter]
  conv_rhs => rw [hS, Set.ncard_coe_finset]

end TicTacToe.Lib
