/-
TicTacToe.Web.Hex — bytes as the browser shows and compares them.

Hashes and ids cross into the browser as lowercase hex, two digits a byte;
`hexString_injective` is why comparing the strings compares the bytes.

No `sorry`, no `axiom`, no `native_decide`.
-/
import Mathlib.Logic.Function.Basic

namespace TicTacToe.Web

def hexDigit (n : Nat) : Char := Char.ofNat (if n < 10 then 48 + n else 87 + n)

/-- `faster_hex::hex_string`: two lowercase digits a byte. -/
def hexString (bytes : List UInt8) : String :=
  String.ofList (bytes.flatMap fun b => [hexDigit (b.toNat / 16), hexDigit (b.toNat % 16)])

theorem hexDigit_inj {a b : Nat} (ha : a < 16) (hb : b < 16) (h : hexDigit a = hexDigit b) :
    a = b := by
  have hall : ∀ x y : Fin 16, hexDigit x.val = hexDigit y.val → x = y := by decide
  exact congrArg Fin.val (hall ⟨a, ha⟩ ⟨b, hb⟩ h)

theorem hexDigits_inj {a b : UInt8} (h₁ : hexDigit (a.toNat / 16) = hexDigit (b.toNat / 16))
    (h₂ : hexDigit (a.toNat % 16) = hexDigit (b.toNat % 16)) : a = b := by
  have ha := a.toNat_lt
  have hb := b.toNat_lt
  have hhigh := hexDigit_inj (by omega) (by omega) h₁
  have hlow := hexDigit_inj (by omega) (by omega) h₂
  apply UInt8.toNat_inj.mp
  omega

theorem hexString_injective : Function.Injective hexString := by
  intro as bs h
  have hlist := String.ofList_injective h
  clear h
  induction as generalizing bs with
  | nil =>
    cases bs with
    | nil => rfl
    | cons b bs => cases hlist
  | cons a as ih =>
    cases bs with
    | nil => cases hlist
    | cons b bs =>
      simp only [List.flatMap_cons, List.cons_append, List.nil_append, List.cons.injEq] at hlist
      obtain ⟨h₁, h₂, hrest⟩ := hlist
      rw [hexDigits_inj h₁ h₂, ih hrest]

end TicTacToe.Web
