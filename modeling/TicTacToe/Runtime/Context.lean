/-
TicTacToe.Runtime.Context — the apply context every action runs in, and
the slot lifecycle it tracks within one transaction.

A `Guest` computation reads and writes an `ApplyContext` and may fail;
failing keeps the context as it was at the failure, so what a rejected
action leaves behind can be stated. `onResource i` is a method call on
`cx.resources[i]`: it panics out of bounds.

A slot without data is `New`, one with data is `Live`; `mark_created`
drives `New -> Live` and rejects every other slot.

No `sorry`, no `axiom`, no `native_decide`.
-/
import TicTacToe.Runtime.Lock

namespace TicTacToe

open Lib

inductive Lifecycle where
  | new
  | live
  | deleted
  deriving DecidableEq, Repr

/-- `Lifecycle::from_resource`. -/
def Lifecycle.fromResource (r : Resource) : Lifecycle := if r.data = [] then new else live

structure ApplyContext where
  tx : Transaction
  context : MergesetContext
  resources : List Resource
  authCtx : AuthContext
  exits : ExitSink
  deposit : DepositSink
  lifecycle : List Lifecycle
  consumedOutputs : List UInt32

abbrev Guest (α : Type) := EStateM Fault ApplyContext α

/-- `cx.resources[i]`, read. -/
def resourceAt (i : Nat) : Guest Resource := do
  let cx ← get
  okOr .panic cx.resources[i]?

def ApplyContext.setResource (cx : ApplyContext) (i : Nat) (r : Resource) : ApplyContext :=
  { cx with resources := cx.resources.set i r }

/-- A method call on `cx.resources[i]`. -/
def onResource {α : Type} (i : Nat) (x : EStateM Fault Resource α) : Guest α :=
  zoom (fun cx => cx.resources[i]?) (fun r cx => cx.setResource i r) .panic x

/-- `cx.lifecycle(i)`. -/
def lifecycleAt (i : Nat) : Guest Lifecycle := do
  let cx ← get
  okOr .panic cx.lifecycle[i]?

/-- `cx.mark_created(i)`. -/
def markCreated (i : Nat) : Guest Unit := do
  let l ← lifecycleAt i
  if l = .new then
    modify fun cx => { cx with lifecycle := cx.lifecycle.set i .live }
  else
    throw (.decode "lifecycle: slot is not new")

end TicTacToe
