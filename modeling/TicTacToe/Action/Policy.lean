/-
TicTacToe.Action.Policy — the deposit policy the guest is generic over
(`deposit_policy` of the runtime) and the one this program wires in
(`program/deposit_policy.rs`).

Nothing proved about the handlers looks inside a policy.

No `sorry`, no `axiom`, no `native_decide`.
-/
import TicTacToe.Runtime.Lock

namespace TicTacToe

structure DepositBody where
  userIdx : UInt8
  outputIdx : UInt32
  initialLock : LockEnum

/-- Which user is credited, and the lock to create it with if it is new. -/
structure CreditTarget where
  userIdx : UInt8
  createWith : Option LockEnum

structure DepositPolicy where
  /-- The script a deposit must pay, for a body and a covenant id. -/
  depositSpk : DepositBody → Bytes32 → List UInt8
  creditTarget : DepositBody → Except String CreditTarget
  minCreateBalance : UInt64

/-- `MIN_CREATE_BALANCE`. -/
def minCreateBalance : UInt64 := 1000

/-- `CovenantDepositPolicy`: the P2SH of the covenant's delegate-entry
script; credit or create the user the action names. -/
def covenantDepositPolicy (B : Battery) : DepositPolicy where
  depositSpk _ covenantId := p2shScript (B.delegateEntrySpkHash covenantId)
  creditTarget body := .ok { userIdx := body.userIdx, createWith := some body.initialLock }
  minCreateBalance := minCreateBalance

end TicTacToe
