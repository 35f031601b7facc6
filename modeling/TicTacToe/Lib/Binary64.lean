/-
TicTacToe.Lib.Binary64 — natural numbers as doubles.

A double keeps 53 binary digits. A number that has more of them is rounded
to the nearest one that has not, of two equally near ones to the one whose
last digit is even.

No `sorry`, no `axiom`, no `native_decide`.
-/
import Mathlib.Algebra.Group.Nat.Even

namespace TicTacToe.Lib

/-- Rounds away the last `e` binary digits, ties to even. -/
def roundEven (n e : Nat) : Nat :=
  let q := n / 2 ^ e
  let r := n % 2 ^ e
  2 ^ e * (if 2 ^ e < 2 * r ∨ 2 * r = 2 ^ e ∧ q % 2 = 1 then q + 1 else q)

/-- The double nearest to `n`. -/
def toBinary64 (n : Nat) : Nat := roundEven n (n.log2 - 52)

theorem roundEven_of_dvd {n e : Nat} (h : 2 ^ e ∣ n) : roundEven n e = n := by
  have hr : n % 2 ^ e = 0 := Nat.mod_eq_zero_of_dvd h
  have hpos : 0 < 2 ^ e := Nat.two_pow_pos e
  have htie : ¬ (2 ^ e < 2 * (n % 2 ^ e) ∨ 2 * (n % 2 ^ e) = 2 ^ e ∧ n / 2 ^ e % 2 = 1) := by
    rw [hr]
    omega
  unfold roundEven
  simp only [if_neg htie]
  exact Nat.mul_div_cancel' h

/-- Up to `2 ^ 53` every number is a double. -/
theorem toBinary64_of_le {n : Nat} (h : n ≤ 2 ^ 53) : toBinary64 n = n := by
  refine roundEven_of_dvd ?_
  obtain hlt | rfl := Nat.lt_or_eq_of_le h
  · have hlog : n.log2 - 52 = 0 := by
      rcases Nat.eq_zero_or_pos n with rfl | hpos
      · rfl
      · have := (Nat.log2_lt (Nat.ne_of_gt hpos)).mpr hlt
        omega
    rw [hlog]
    exact Nat.one_dvd n
  · rw [Nat.log2_two_pow]
    exact ⟨2 ^ 52, rfl⟩

/-- Behind it the odd ones are not. -/
example : toBinary64 (2 ^ 53 + 1) = 2 ^ 53 ∧ toBinary64 (2 ^ 53 + 3) = 2 ^ 53 + 4 := by
  decide +kernel

end TicTacToe.Lib
