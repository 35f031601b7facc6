/-
TicTacToe.Runtime.Battery — the machinery the guest is built against and
whose source lies outside this repository, taken as one parameter.

Every field is a total function (library routines neither panic nor
diverge). The two sinks and the lifecycle behave as their names say and
are modelled outright; what is left open is what no proof may depend on:
which signatures verify, which multisig bodies are well formed beyond
their layout, when an exit is refused, what an output index parses to.

`sortUnstable` carries its two laws with it: whatever order it gives to
equal keys, it returns a permutation sorted by key.

`genesisPubkey` is the key baked in at build time.

No `sorry`, no `axiom`, no `native_decide`.
-/
import Mathlib.Data.List.Sort
import TicTacToe.Runtime.Abi

namespace TicTacToe

open Lib

/-- Body of the two witness signers: an input index and three offsets. -/
structure PrevTxV1Witness where
  inputIdx : UInt8
  offset0 : UInt32
  offset1 : UInt32
  offset2 : UInt32
  deriving DecidableEq

/-- What a signer is resolved against. -/
structure SignerResolveContext where
  payloadBytes : List UInt8
  restPreimage : List UInt8
  payloadPresig : List UInt8
  resources : List Resource

structure Battery where
  /-- `Sha256::hash_with_domain`. -/
  hashWithDomain : UInt8 → List UInt8 → Bytes32
  /-- The rule on `(threshold, n_pubkeys, keys)` of `MultisigLockView::decode`. -/
  multisigValid : UInt8 → UInt8 → List UInt8 → Bool
  schnorrTryUnlock : Bytes32 → UInt8 → List (UInt8 × Bytes32) → Bool
  multisigTryUnlock : UInt8 → List UInt8 → UInt8 → List (UInt8 × List Bytes32) → Bool
  unlockedTryUnlock : UInt8 → Bool
  /-- `PrevTxV1WitnessSigner::resolve`. -/
  prevTxV1Witness : PrevTxV1Witness → UInt8 → SignerResolveContext → Except String Bytes32
  /-- `MultisigPrevTxV1WitnessSigner::resolve`. -/
  multisigPrevTxV1Witness :
    PrevTxV1Witness → UInt8 → SignerResolveContext → Except String (List Bytes32)
  /-- `SignerResolveContext::sig_msg`. -/
  sigMsg : SignerResolveContext → List UInt8
  verifyK256SchnorrSig : Bytes32 → List UInt8 → List UInt8 → Bool
  delegateEntrySpkHash : Bytes32 → Bytes32
  parseOutputAtIndexV1 : List UInt8 → UInt32 → Option Output
  /-- Whether `ExitSink::emit` accepts one more exit. -/
  exitAccepts : ExitSink → StandardSpk → UInt64 → Bool
  /-- `DepositSink::set`. -/
  depositSet : DepositSink → Bytes32 → Except String DepositSink
  /-- `sort_unstable_by_key(|(idx, _)| *idx)`. -/
  sortUnstable : {α : Type} → (l : List (UInt8 × α)) →
    { l' : List (UInt8 × α) // l'.Perm l ∧ l'.Pairwise (fun a b => a.1 ≤ b.1) }
  genesisPubkey : Bytes32

/-- `ExitSink::emit`. -/
def ExitSink.emit (B : Battery) (sink : ExitSink) (dest : StandardSpk) (amount : UInt64) :
    Option ExitSink :=
  if B.exitAccepts sink dest amount then some (sink ++ [⟨dest, amount⟩]) else none

/-! ## A battery that computes -/

namespace Battery

/-- Keeps the domain, the first 23 bytes and the eight after the 32nd: all of
what a game id is derived from, if the lock hash ends in zeros. -/
def plainHash (domain : UInt8) (bytes : List UInt8) : Bytes32 :=
  padTo 32 (domain :: ((padTo 23 bytes).val ++ (padTo 8 (bytes.drop 32)).val))

/-- The output at `idx` of a preimage that lists 43-byte outputs: a value and a
35-byte script. -/
def plainOutput (restPreimage : List UInt8) (idx : UInt32) : Option Output :=
  let bytes := (restPreimage.drop (43 * idx.toNat)).take 43
  if bytes.length = 43 then
    some { value := UInt64.ofNat (leNat (bytes.take 8)), spkVersion := 0, spk := bytes.drop 8 }
  else
    none

/-- A signature is the key it is by; a schnorr lock opens for its own key. -/
def plain : Battery where
  hashWithDomain := plainHash
  multisigValid _ _ _ := false
  schnorrTryUnlock pubkey idx keys := (idx, pubkey) ∈ keys
  multisigTryUnlock _ _ _ _ := false
  unlockedTryUnlock _ := true
  prevTxV1Witness _ _ _ := .error "no witness"
  multisigPrevTxV1Witness _ _ _ := .error "no witness"
  sigMsg ctx := ctx.payloadPresig
  verifyK256SchnorrSig pubkey sig _ := sig.take 32 = pubkey.val
  delegateEntrySpkHash covenantId := covenantId
  parseOutputAtIndexV1 := plainOutput
  exitAccepts _ _ _ := true
  depositSet _ commitment := .ok (some commitment)
  sortUnstable l := ⟨l.insertionSort fun a b => a.1 ≤ b.1, List.perm_insertionSort _ l,
    List.pairwise_insertionSort _ l⟩
  genesisPubkey := padTo 32 [0x47]

end Battery

end TicTacToe
