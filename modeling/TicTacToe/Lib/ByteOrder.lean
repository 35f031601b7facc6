/-
TicTacToe.Lib.ByteOrder — the order of byte strings, as a key-value store
iterates them.

Fixed-width parts compare one after the other, big-endian numbers compare
as numbers, appending a zero byte gives the next string, and the strings
with a prefix are one range. Nothing here names the program.

No `sorry`, no `axiom`, no `native_decide`.
-/
import TicTacToe.Lib.LittleEndian

namespace TicTacToe.Lib

section Order

variable {a b x y : List UInt8}

/-- Parts of one width compare before what follows them. -/
theorem append_lt_append_iff (h : a.length = b.length) :
    a ++ x < b ++ y ↔ a < b ∨ a = b ∧ x < y := by
  induction a generalizing b with
  | nil =>
    obtain rfl : b = [] := List.length_eq_zero_iff.mp h.symm
    simp
  | cons c a ih =>
    cases b with
    | nil => cases h
    | cons d b =>
      rw [List.cons_append, List.cons_append, List.cons_lt_cons_iff, List.cons_lt_cons_iff,
        ih (Nat.succ.inj h), List.cons.injEq]
      tauto

/-- One more zero byte is the next string. -/
theorem append_zero_le_iff : a ++ [0] ≤ b ↔ a < b := by
  induction a generalizing b with
  | nil =>
    cases b with
    | nil => exact iff_of_false (by decide) (by decide)
    | cons c b =>
      have hle : [(0 : UInt8)] ≤ c :: b := by
        rw [List.cons_le_cons_iff]
        by_cases hc : 0 = c
        · exact .inr ⟨hc, List.nil_le b⟩
        · exact .inl (Std.lt_of_le_of_ne UInt8.zero_le hc)
      exact iff_of_true hle (List.nil_lt_cons c b)
  | cons c a ih =>
    cases b with
    | nil => exact iff_of_false (by simp) (List.not_lt_nil _)
    | cons d b => rw [List.cons_append, List.cons_le_cons_iff, List.cons_lt_cons_iff, ih]

/-- A range between two neighbouring last bytes is a prefix. -/
theorem mem_prefix_range {c : UInt8} (hc : c < c + 1) :
    (a ++ [c] ≤ b ∧ b < a ++ [c + 1]) ↔ ∃ rest, b = a ++ c :: rest := by
  induction a generalizing b with
  | nil =>
    cases b with
    | nil => simp
    | cons d b =>
      simp only [List.nil_append, List.cons_le_cons_iff, List.cons_lt_cons_iff, List.not_lt_nil,
        and_false, or_false, List.nil_le, and_true, List.cons.injEq]
      constructor
      · intro h
        obtain ⟨hle, hlt⟩ := h
        refine ⟨b, ?_, rfl⟩
        rcases hle with hcd | hcd
        · have h₁ : c.toNat < d.toNat := hcd
          have h₂ : d.toNat < (c + 1).toNat := hlt
          have h₃ : c.toNat < (c + 1).toNat := hc
          have h₄ : (c + 1).toNat = (c.toNat + 1) % 256 := UInt8.toNat_add c 1
          omega
        · exact hcd.symm
      · intro h
        obtain ⟨_, rfl, -⟩ := h
        exact ⟨.inr rfl, hc⟩
  | cons d a ih =>
    cases b with
    | nil => simp
    | cons e b =>
      simp only [List.cons_append, List.cons_le_cons_iff, List.cons_lt_cons_iff, List.cons.injEq]
      constructor
      · intro h
        obtain ⟨hle, hlt⟩ := h
        rcases hle with h₁ | ⟨rfl, h₁⟩
        · rcases hlt with h₂ | ⟨rfl, -⟩
          · exact absurd h₁ (UInt8.lt_asymm h₂)
          · exact absurd h₁ (UInt8.lt_irrefl _)
        · rcases hlt with h₂ | ⟨-, h₂⟩
          · exact absurd h₂ (UInt8.lt_irrefl _)
          · obtain ⟨rest, rfl⟩ := ih.mp ⟨h₁, h₂⟩
            exact ⟨rest, rfl, rfl⟩
      · intro h
        obtain ⟨rest, rfl, rfl⟩ := h
        obtain ⟨h₁, h₂⟩ := ih.mpr ⟨rest, rfl⟩
        exact ⟨.inr ⟨rfl, h₁⟩, .inr ⟨rfl, h₂⟩⟩

end Order

/-! ## Big-endian numbers -/

theorem reverse_leBytes_lt_iff (k : Nat) {n m : Nat} (hn : n < 256 ^ k) (hm : m < 256 ^ k) :
    (leBytes k n).reverse < (leBytes k m).reverse ↔ n < m := by
  induction k generalizing n m with
  | zero =>
    simp only [pow_zero, Nat.lt_one_iff] at hn hm
    subst hn
    subst hm
    simp [leBytes]
  | succ k ih =>
    have hn' : n / 256 < 256 ^ k := by
      rw [pow_succ] at hn
      exact Nat.div_lt_of_lt_mul (by omega)
    have hm' : m / 256 < 256 ^ k := by
      rw [pow_succ] at hm
      exact Nat.div_lt_of_lt_mul (by omega)
    have heq : (leBytes k (n / 256)).reverse = (leBytes k (m / 256)).reverse ↔
        n / 256 = m / 256 := by
      rw [List.reverse_inj]
      constructor
      · intro h
        have hnum := congrArg leNat h
        rwa [leNat_leBytes, leNat_leBytes, Nat.mod_eq_of_lt hn', Nat.mod_eq_of_lt hm'] at hnum
      · intro h
        rw [h]
    have hbyte : UInt8.ofNat (n % 256) < UInt8.ofNat (m % 256) ↔ n % 256 < m % 256 := by
      rw [UInt8.lt_iff_toNat_lt, UInt8.toNat_ofNat', UInt8.toNat_ofNat']
      omega
    rw [leBytes, leBytes, List.reverse_cons, List.reverse_cons, append_lt_append_iff (by simp),
      ih hn' hm', heq, List.cons_lt_cons_iff, hbyte]
    simp only [List.not_lt_nil, and_false, or_false]
    omega

/-- Versions compare as their keys do. -/
theorem be64_lt_iff {v w : UInt64} : be64 v < be64 w ↔ v < w := by
  unfold be64 le64
  rw [reverse_leBytes_lt_iff 8 v.toNat_lt w.toNat_lt, UInt64.lt_iff_toNat_lt]

end TicTacToe.Lib
