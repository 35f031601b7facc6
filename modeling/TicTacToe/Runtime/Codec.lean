/-
TicTacToe.Runtime.Codec — bytes, faults and the self-advancing reader the
wire decoders run in.

`Fault` is how a guest computation can end badly. `decode` is every
`Err(..::Decode(msg))` of the source with its message; `panic` is a Rust
panic (an index out of bounds, a failed slice conversion, an `expect`, an
arithmetic overflow); `diverged` is a loop that used up the fuel it was
given. Only `decode` is a rejection: the other two are what the guest
must never reach.

`Reader` is `buf: &mut &[u8]`: reading advances the buffer and a short
buffer is an error naming the field.

No `sorry`, no `axiom`, no `native_decide`.
-/
import Mathlib.Data.Vector.Basic
import Mathlib.Data.UInt
import TicTacToe.Lib.Reader

namespace TicTacToe

open Lib

/-- `[u8; 32]`. -/
abbrev Bytes32 := Lib.Bytes 32

inductive Fault where
  | decode (msg : String)
  | panic
  | diverged
  deriving DecidableEq, Repr

/-- A rejection, as opposed to a panic or a loop that does not end. -/
def Fault.IsReject : Fault → Prop
  | .decode _ => True
  | _ => False

@[simp] theorem Fault.isReject_decode (msg : String) : (Fault.decode msg).IsReject := trivial

@[simp] theorem Fault.not_isReject_panic : ¬ Fault.panic.IsReject := id

@[simp] theorem Fault.not_isReject_diverged : ¬ Fault.diverged.IsReject := id

/-! ## Checked arithmetic -/

/-- `u64::checked_add`. -/
def checkedAdd (a b : UInt64) : Option UInt64 :=
  if a.toNat + b.toNat < 2 ^ 64 then some (a + b) else none

/-- `u64::checked_sub`. -/
def checkedSub (a b : UInt64) : Option UInt64 :=
  if b.toNat ≤ a.toNat then some (a - b) else none

/-- `u64::checked_mul`. -/
def checkedMul (a b : UInt64) : Option UInt64 :=
  if a.toNat * b.toNat < 2 ^ 64 then some (a * b) else none

/-- `+` on `u8`, which must not overflow. -/
def addU8 (a b : UInt8) : Except Fault UInt8 :=
  if a.toNat + b.toNat < 256 then .ok (a + b) else .error .panic

theorem checkedAdd_eq_some {a b c : UInt64} :
    checkedAdd a b = some c ↔ c.toNat = a.toNat + b.toNat := by
  have hc := c.toNat_lt
  unfold checkedAdd
  split
  · rw [Option.some.injEq, ← UInt64.toNat_inj, UInt64.toNat_add, Nat.mod_eq_of_lt (by omega)]
    exact eq_comm
  · constructor
    · intro h; cases h
    · intro h; omega

theorem checkedSub_eq_some {a b c : UInt64} :
    checkedSub a b = some c ↔ c.toNat + b.toNat = a.toNat := by
  unfold checkedSub
  split
  · rename_i h
    rw [Option.some.injEq, ← UInt64.toNat_inj,
      UInt64.toNat_sub_of_le a b (UInt64.le_iff_toNat_le.mpr h)]
    omega
  · constructor
    · intro h; cases h
    · intro h; omega

theorem checkedMul_eq_some {a b c : UInt64} :
    checkedMul a b = some c ↔ c.toNat = a.toNat * b.toNat := by
  have hc := c.toNat_lt
  unfold checkedMul
  split
  · rename_i h
    rw [Option.some.injEq, ← UInt64.toNat_inj, UInt64.toNat_mul, Nat.mod_eq_of_lt h]
    exact eq_comm
  · rename_i h
    constructor
    · intro h; cases h
    · intro h'; exact absurd (h' ▸ hc) h

theorem checkedAdd_isSome {a b : UInt64} (h : a.toNat + b.toNat < 2 ^ 64) :
    ∃ c, checkedAdd a b = some c :=
  ⟨a + b, if_pos h⟩

theorem addU8_eq_ok {a b : UInt8} (h : a.toNat + b.toNat < 256) :
    addU8 a b = .ok (a + b) ∧ (a + b).toNat = a.toNat + b.toNat := by
  refine ⟨if_pos h, ?_⟩
  rw [UInt8.toNat_add, Nat.mod_eq_of_lt h]

/-! ## The reader -/

/-- `buf: &mut &[u8]`; a short buffer is an error naming the field. -/
abbrev Reader (α : Type) := Lib.Reader Fault α

/-- `Reader::byte`. -/
def Reader.byte (field : String) : Reader UInt8 := Lib.Reader.byte (.decode field)

/-- `Reader::le_u32`. -/
def Reader.leU32 (field : String) : Reader UInt32 := Lib.Reader.u32 (.decode field)

/-- `Reader::le_u64`. -/
def Reader.leU64 (field : String) : Reader UInt64 := Lib.Reader.u64 (.decode field)

/-- `Reader::array::<N>`. -/
def Reader.array (field : String) (n : Nat) : Reader (Lib.Bytes n) :=
  Lib.Reader.array (.decode field) n

/-- The next `n` bytes as a slice. -/
def Reader.take (field : String) (n : Nat) : Reader (List UInt8) :=
  Lib.Reader.take (.decode field) n

/-- The rest of the buffer as a slice. -/
def Reader.rest : Reader (List UInt8) := Lib.Reader.rest

/-- `Reader::many`: a `u32` count, then that many items. -/
def Reader.many {α S : Type} (field : String) (st : S) (item : S → Reader (α × S)) :
    Reader (List α) :=
  Lib.Reader.many (.decode field) st item

section Decodes

variable (field : String)

theorem Reader.decodes_byte : Decodes Fault.IsReject (Reader.byte field) (fun _ => True) :=
  Lib.decodes_byte trivial

theorem Reader.decodes_leU32 : Decodes Fault.IsReject (Reader.leU32 field) (fun _ => True) :=
  Lib.decodes_u32 trivial

theorem Reader.decodes_leU64 : Decodes Fault.IsReject (Reader.leU64 field) (fun _ => True) :=
  Lib.decodes_u64 trivial

theorem Reader.decodes_array (n : Nat) :
    Decodes Fault.IsReject (Reader.array field n) (fun _ => True) :=
  Lib.decodes_array trivial

theorem Reader.decodes_take (n : Nat) :
    Decodes Fault.IsReject (Reader.take field n) (fun bs => bs.length = n) :=
  Lib.decodes_take trivial

theorem Reader.decodes_many {α S : Type} {P : α → Prop} {item : S → Reader (α × S)}
    (h : ∀ st, Decodes Fault.IsReject (item st) (fun p => P p.1)) (st : S) :
    Decodes Fault.IsReject (Reader.many field st item) (fun as => ∀ a ∈ as, P a) :=
  Lib.decodes_many trivial h st

end Decodes

end TicTacToe
