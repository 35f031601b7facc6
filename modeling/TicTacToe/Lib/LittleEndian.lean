/-
TicTacToe.Lib.LittleEndian — fixed-width little-endian numbers as byte
lists, with the two halves of their round trip: writing then reading is
reduction modulo `256 ^ k`, and reading then writing gives the bytes
back.

Nothing here names the program; widths are arbitrary.

No `sorry`, no `axiom`, no `native_decide`.
-/
import Mathlib.Data.Nat.ModEq
import Mathlib.Tactic.Ring

namespace TicTacToe.Lib

/-- The `k` low bytes of `n`, least significant first. -/
def leBytes : Nat → Nat → List UInt8
  | 0, _ => []
  | k + 1, n => UInt8.ofNat (n % 256) :: leBytes k (n / 256)

/-- The number a byte list spells, least significant byte first. -/
def leNat : List UInt8 → Nat
  | [] => 0
  | b :: bs => b.toNat + 256 * leNat bs

@[simp] theorem length_leBytes (k n : Nat) : (leBytes k n).length = k := by
  induction k generalizing n with
  | zero => rfl
  | succ k ih => simp [leBytes, ih]

theorem leNat_leBytes (k n : Nat) : leNat (leBytes k n) = n % 256 ^ k := by
  induction k generalizing n with
  | zero => simp [leBytes, leNat, Nat.mod_one]
  | succ k ih =>
    have hb : (UInt8.ofNat (n % 256)).toNat = n % 256 := by
      simp [UInt8.toNat_ofNat']
    rw [leBytes, leNat, ih, hb, pow_succ, Nat.mul_comm (256 ^ k) 256, Nat.mod_mul]

/-- The low bytes, then the bytes of what is above them. -/
theorem leBytes_add (j k n : Nat) : leBytes (j + k) n = leBytes j n ++ leBytes k (n / 256 ^ j) := by
  induction j generalizing n with
  | zero => simp [leBytes]
  | succ j ih =>
    rw [Nat.succ_add, leBytes, ih, leBytes, List.cons_append, Nat.div_div_eq_div_mul, pow_succ,
      Nat.mul_comm 256]

theorem leNat_lt (bs : List UInt8) : leNat bs < 256 ^ bs.length := by
  induction bs with
  | nil => simp [leNat]
  | cons b bs ih =>
    have hb : b.toNat < 256 := b.toNat_lt
    rw [leNat, List.length_cons, pow_succ]
    omega

theorem leBytes_leNat (bs : List UInt8) : leBytes bs.length (leNat bs) = bs := by
  induction bs with
  | nil => rfl
  | cons b bs ih =>
    have hb : b.toNat < 256 := b.toNat_lt
    have hmod : (b.toNat + 256 * leNat bs) % 256 = b.toNat := by omega
    have hdiv : (b.toNat + 256 * leNat bs) / 256 = leNat bs := by omega
    rw [leNat, List.length_cons, leBytes, hmod, hdiv, ih]
    simp

/-! ## The widths of machine words -/

def le16 (x : UInt16) : List UInt8 := leBytes 2 x.toNat

def le32 (x : UInt32) : List UInt8 := leBytes 4 x.toNat

def le64 (x : UInt64) : List UInt8 := leBytes 8 x.toNat

@[simp] theorem length_le16 (x : UInt16) : (le16 x).length = 2 := length_leBytes 2 _

@[simp] theorem length_le32 (x : UInt32) : (le32 x).length = 4 := length_leBytes 4 _

@[simp] theorem length_le64 (x : UInt64) : (le64 x).length = 8 := length_leBytes 8 _

@[simp] theorem ofNat_leNat_le16 (x : UInt16) : UInt16.ofNat (leNat (le16 x)) = x := by
  rw [le16, leNat_leBytes, Nat.mod_eq_of_lt (by simpa using x.toNat_lt), UInt16.ofNat_toNat]

@[simp] theorem ofNat_leNat_le32 (x : UInt32) : UInt32.ofNat (leNat (le32 x)) = x := by
  rw [le32, leNat_leBytes, Nat.mod_eq_of_lt (by simpa using x.toNat_lt), UInt32.ofNat_toNat]

@[simp] theorem ofNat_leNat_le64 (x : UInt64) : UInt64.ofNat (leNat (le64 x)) = x := by
  rw [le64, leNat_leBytes, Nat.mod_eq_of_lt (by simpa using x.toNat_lt), UInt64.ofNat_toNat]

theorem le64_ofNat_leNat {bs : List UInt8} (h : bs.length = 8) :
    le64 (UInt64.ofNat (leNat bs)) = bs := by
  have hlt : leNat bs < 2 ^ 64 := by
    have := leNat_lt bs
    rw [h] at this
    simpa using this
  rw [le64, UInt64.toNat_ofNat', Nat.mod_eq_of_lt (by simpa using hlt), ← h, leBytes_leNat]

theorem le32_ofNat_leNat {bs : List UInt8} (h : bs.length = 4) :
    le32 (UInt32.ofNat (leNat bs)) = bs := by
  have hlt : leNat bs < 2 ^ 32 := by
    have := leNat_lt bs
    rw [h] at this
    simpa using this
  rw [le32, UInt32.toNat_ofNat', Nat.mod_eq_of_lt (by simpa using hlt), ← h, leBytes_leNat]

theorem le64_injective {x y : UInt64} (h : le64 x = le64 y) : x = y := by
  rw [← ofNat_leNat_le64 x, h, ofNat_leNat_le64]

/-- `to_be_bytes` of a `u64`. -/
def be64 (x : UInt64) : List UInt8 := (le64 x).reverse

@[simp] theorem length_be64 (x : UInt64) : (be64 x).length = 8 := by
  rw [be64, List.length_reverse, length_le64]

theorem be64_injective {x y : UInt64} (h : be64 x = be64 y) : x = y :=
  le64_injective (List.reverse_inj.mp h)

end TicTacToe.Lib
