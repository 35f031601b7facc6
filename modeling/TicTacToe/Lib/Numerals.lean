/-
TicTacToe.Lib.Numerals — the numerals of `Fin 2`.

A numeral of `Fin 2` rests on a proof that two is not zero. With the proof
named here, every numeral is the same term whichever module it stands in.

No `sorry`, no `axiom`, no `native_decide`.
-/

namespace TicTacToe.Lib

instance neZero_two : @NeZero Nat Zero.ofOfNat0 2 := ⟨Nat.succ_ne_zero 1⟩

end TicTacToe.Lib
