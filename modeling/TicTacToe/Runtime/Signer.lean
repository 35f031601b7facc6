/-
TicTacToe.Runtime.Signer — the signer kinds, their wire decoding and
their resolution (`runtime/signer.rs`, `runtime/signer_variants.rs`).

A sig-pointer signer reads the public key out of the lock of the resource
it names and verifies the signature it points at; the genesis signer uses
the baked-in key; the two witness kinds are the battery's.

Resolution reads a stored lock through the unchecked decoder, so whether
it can panic is a question: `resolve_rejects` answers it.

No `sorry`, no `axiom`, no `native_decide`.
-/
import TicTacToe.Resources.Config
import TicTacToe.Resources.User

namespace TicTacToe

open Lib

inductive SignerEnum where
  | schnorrSigPtr (sigOffset : UInt32)
  | prevTxV1Witness (s : PrevTxV1Witness)
  | multisigSchnorrSigPtr (pubkeyIdx : UInt8) (sigOffset : UInt32)
  | multisigPrevTxV1Witness (s : PrevTxV1Witness)
  | genesisSchnorrSigPtr (sigOffset : UInt32)
  deriving DecidableEq

/-! ## Wire decoding -/

/-- `read_resource_idx`: a `u8` index below the number of declared resources. -/
def readResourceIdx (field : String) (nResources : Nat) : Reader UInt8 := do
  let idx ← Reader.byte field
  if idx.toNat ≥ nResources then
    throw (.decode field)
  else
    return idx

/-- Input index and three offsets, 13 bytes. -/
def decodePrevTxV1Witness : Reader PrevTxV1Witness := do
  let inputIdx ← Reader.byte "signer.prev_tx_v1.input_idx"
  let offset0 ← Reader.leU32 "signer.prev_tx_v1.offset"
  let offset1 ← Reader.leU32 "signer.prev_tx_v1.offset"
  let offset2 ← Reader.leU32 "signer.prev_tx_v1.offset"
  return { inputIdx, offset0, offset1, offset2 }

def decodeSigner (nResources : Nat) : Reader (UInt8 × SignerEnum) := do
  let resourceIdx ← readResourceIdx "signer.resource_idx" nResources
  let kind ← Reader.byte "signer.kind"
  if kind = 0x01 then
    let sigOffset ← Reader.leU32 "signer.schnorr.sig_offset"
    return (resourceIdx, .schnorrSigPtr sigOffset)
  else if kind = 0x02 then
    let s ← decodePrevTxV1Witness
    return (resourceIdx, .prevTxV1Witness s)
  else if kind = 0x03 then
    let pubkeyIdx ← Reader.byte "signer.multisig_schnorr.pubkey_idx"
    let sigOffset ← Reader.leU32 "signer.multisig_schnorr.sig_offset"
    return (resourceIdx, .multisigSchnorrSigPtr pubkeyIdx sigOffset)
  else if kind = 0x04 then
    let s ← decodePrevTxV1Witness
    return (resourceIdx, .multisigPrevTxV1Witness s)
  else if kind = 0x05 then
    let sigOffset ← Reader.leU32 "signer.genesis_schnorr.sig_offset"
    return (resourceIdx, .genesisSchnorrSigPtr sigOffset)
  else
    throw (.decode "signer: unknown kind")

/-! ## Resolution -/

/-- `Err` with a decode message. -/
def reject {α : Type} (msg : String) : Except Fault α := .error (.decode msg)

/-- `payload_bytes[off..off+64]` as a signature. -/
def readSigAtOffset (sigOffset : UInt32) (ctx : SignerResolveContext) :
    Except Fault (List UInt8) :=
  if sigOffset.toNat + 64 ≤ ctx.payloadBytes.length then
    .ok ((ctx.payloadBytes.drop sigOffset.toNat).take 64)
  else
    reject "signer: sig_offset out of range"

/-- The lock of a config or user resource, as both lock-reading signers
find it. -/
def readLock (B : Battery) (resourceIdx : UInt8) (ctx : SignerResolveContext) :
    Except Fault LockEnum :=
  match ctx.resources[resourceIdx.toNat]? with
  | none => reject "signer: resource_idx out of range"
  | some resource =>
    match resource.data.head?.bind Kind.tryFrom with
    | some .config =>
      match ConfigBody.fromBytes B resource.data with
      | .error m => reject m
      | .ok v => v.lock
    | some .user =>
      match UserBody.fromBytes B resource.data with
      | .error m => reject m
      | .ok v => v.lock
    | _ => reject "signer: unknown or absent resource kind"

def readSchnorrLockPubkey (B : Battery) (resourceIdx : UInt8) (ctx : SignerResolveContext) :
    Except Fault Bytes32 :=
  match readLock B resourceIdx ctx with
  | .error e => .error e
  | .ok (.schnorr pubkey) => .ok pubkey
  | .ok _ => reject "signer.schnorr: target resource is not a Schnorr lock"

/-- `iter_pubkeys().nth(i)`: the `i`-th 32-byte chunk of the key bytes. -/
def nthPubkey (pubkeys : List UInt8) (i : Nat) : Option Bytes32 :=
  if h : ((pubkeys.drop (32 * i)).take 32).length = 32 then
    some ⟨(pubkeys.drop (32 * i)).take 32, h⟩
  else
    none

def readMultisigLockPubkeyAt (B : Battery) (resourceIdx pubkeyIdx : UInt8)
    (ctx : SignerResolveContext) : Except Fault Bytes32 :=
  match readLock B resourceIdx ctx with
  | .error e => .error e
  | .ok (.multisig _ pubkeys) =>
    match nthPubkey pubkeys pubkeyIdx.toNat with
    | some pk => .ok pk
    | none => reject "signer.multisig: pubkey_idx out of range"
  | .ok _ => reject "signer.multisig: target resource is not a Multisig lock"

/-- A key whose signature at `sigOffset` must verify over the signed prefix. -/
def verifiedKey (B : Battery) (pubkey : Bytes32) (sigOffset : UInt32)
    (ctx : SignerResolveContext) (invalid : String) : Except Fault Bytes32 :=
  match readSigAtOffset sigOffset ctx with
  | .error e => .error e
  | .ok sig =>
    if B.verifyK256SchnorrSig pubkey sig (B.sigMsg ctx) then .ok pubkey else reject invalid

/-- `SchnorrSigPtrSigner::resolve`. -/
def resolveSchnorrSigPtr (B : Battery) (sigOffset : UInt32) (resourceIdx : UInt8)
    (ctx : SignerResolveContext) : Except Fault Bytes32 :=
  match readSchnorrLockPubkey B resourceIdx ctx with
  | .error e => .error e
  | .ok pubkey => verifiedKey B pubkey sigOffset ctx "signer.schnorr: invalid signature"

/-- `GenesisSchnorrSigPtrSigner::resolve`. -/
def resolveGenesisSchnorrSigPtr (B : Battery) (sigOffset : UInt32) (resourceIdx : UInt8)
    (ctx : SignerResolveContext) : Except Fault Bytes32 :=
  match ctx.resources[resourceIdx.toNat]? with
  | none => reject "signer.genesis_schnorr: resource_idx out of range"
  | some _ =>
    verifiedKey B B.genesisPubkey sigOffset ctx "signer.genesis_schnorr: invalid signature"

/-- `MultisigSchnorrSigPtrSigner::resolve`. -/
def resolveMultisigSchnorrSigPtr (B : Battery) (pubkeyIdx : UInt8) (sigOffset : UInt32)
    (resourceIdx : UInt8) (ctx : SignerResolveContext) : Except Fault (List Bytes32) :=
  match readMultisigLockPubkeyAt B resourceIdx pubkeyIdx ctx with
  | .error e => .error e
  | .ok pubkey =>
    match verifiedKey B pubkey sigOffset ctx "signer.multisig_schnorr: invalid signature" with
    | .error e => .error e
    | .ok pk => .ok [pk]

/-- A battery `Result` as a fault. -/
def ofBattery {α : Type} (x : Except String α) : Except Fault α := x.mapError .decode

/-- What a signer contributes to the auth context: a single-key unlocker or
multisig keys. -/
inductive Unlocker where
  | schnorr (pubkey : Bytes32)
  | multisig (pubkeys : List Bytes32)
  deriving DecidableEq

/-- `Signer::resolve` of each kind. -/
def SignerEnum.resolve (B : Battery) (s : SignerEnum) (resourceIdx : UInt8)
    (ctx : SignerResolveContext) : Except Fault Unlocker :=
  match s with
  | schnorrSigPtr off => (resolveSchnorrSigPtr B off resourceIdx ctx).map .schnorr
  | genesisSchnorrSigPtr off => (resolveGenesisSchnorrSigPtr B off resourceIdx ctx).map .schnorr
  | prevTxV1Witness w => (ofBattery (B.prevTxV1Witness w resourceIdx ctx)).map .schnorr
  | multisigSchnorrSigPtr i off =>
    (resolveMultisigSchnorrSigPtr B i off resourceIdx ctx).map .multisig
  | multisigPrevTxV1Witness w =>
    (ofBattery (B.multisigPrevTxV1Witness w resourceIdx ctx)).map .multisig

/-! ## Decoding and resolving only ever reject -/

theorem decodes_readResourceIdx (field : String) (n : Nat) :
    Decodes Fault.IsReject (readResourceIdx field n) (fun idx => idx.toNat < n) := by
  refine (Reader.decodes_byte field).bind fun idx _ => Decodes.ite (fun _ => ?_) (fun h => ?_)
  · exact decodes_throw trivial
  · exact decodes_pure (Nat.lt_of_not_le h)

theorem decodes_decodePrevTxV1Witness :
    Decodes Fault.IsReject decodePrevTxV1Witness (fun _ => True) :=
  (Reader.decodes_byte _).bind fun _ _ => (Reader.decodes_leU32 _).bind fun _ _ =>
    (Reader.decodes_leU32 _).bind fun _ _ => (Reader.decodes_leU32 _).bind fun _ _ =>
    decodes_pure trivial

theorem decodes_decodeSigner (n : Nat) :
    Decodes Fault.IsReject (decodeSigner n) (fun s => s.1.toNat < n) := by
  refine (decodes_readResourceIdx _ n).bind fun idx hidx =>
    (Reader.decodes_byte _).bind fun kind _ => ?_
  refine Decodes.ite (fun _ => ?_) fun _ => Decodes.ite (fun _ => ?_) fun _ =>
    Decodes.ite (fun _ => ?_) fun _ => Decodes.ite (fun _ => ?_) fun _ =>
    Decodes.ite (fun _ => ?_) fun _ => decodes_throw trivial
  · exact (Reader.decodes_leU32 _).bind fun _ _ => decodes_pure hidx
  · exact decodes_decodePrevTxV1Witness.bind fun _ _ => decodes_pure hidx
  · exact (Reader.decodes_byte _).bind fun _ _ =>
      (Reader.decodes_leU32 _).bind fun _ _ => decodes_pure hidx
  · exact decodes_decodePrevTxV1Witness.bind fun _ _ => decodes_pure hidx
  · exact (Reader.decodes_leU32 _).bind fun _ _ => decodes_pure hidx

/-- Every failure of `x` is a rejection. -/
def Rejects {α : Type} (x : Except Fault α) : Prop := ∀ e, x = .error e → e.IsReject

theorem rejects_reject {α : Type} (m : String) : Rejects (reject m : Except Fault α) := by
  rintro e ⟨⟩
  trivial

theorem rejects_ok {α : Type} (a : α) : Rejects (.ok a) := by
  rintro e ⟨⟩

theorem Rejects.map {α β : Type} {x : Except Fault α} (h : Rejects x) (f : α → β) :
    Rejects (x.map f) := by
  cases x with
  | ok a => exact rejects_ok (f a)
  | error e =>
    rintro e' ⟨⟩
    exact h e rfl

theorem rejects_ofBattery {α : Type} (x : Except String α) : Rejects (ofBattery x) := by
  cases x with
  | ok a => exact rejects_ok a
  | error m => exact rejects_reject m

/-- A lock behind a parsed body is always there to be read. -/
theorem rejects_readLock (B : Battery) (idx : UInt8) (ctx : SignerResolveContext) :
    Rejects (readLock B idx ctx) := by
  unfold readLock
  split
  · exact rejects_reject _
  · split
    · split
      · exact rejects_reject _
      · rename_i v hv
        obtain ⟨l, hl, -⟩ := ConfigBody.lock_of_fromBytes hv
        rw [hl]
        exact rejects_ok l
    · split
      · exact rejects_reject _
      · rename_i v hv
        obtain ⟨l, hl, -⟩ := UserBody.lock_of_fromBytes hv
        rw [hl]
        exact rejects_ok l
    · exact rejects_reject _

theorem rejects_verifiedKey (B : Battery) (pk : Bytes32) (off : UInt32)
    (ctx : SignerResolveContext) (m : String) : Rejects (verifiedKey B pk off ctx m) := by
  unfold verifiedKey readSigAtOffset
  by_cases h : off.toNat + 64 ≤ ctx.payloadBytes.length
  · rw [if_pos h]
    by_cases hv : B.verifyK256SchnorrSig pk ((ctx.payloadBytes.drop off.toNat).take 64)
        (B.sigMsg ctx) = true
    · simp only [hv, if_true]
      exact rejects_ok pk
    · simp only [hv]
      exact rejects_reject m
  · rw [if_neg h]
    exact rejects_reject _

theorem rejects_readSchnorrLockPubkey (B : Battery) (idx : UInt8) (ctx : SignerResolveContext) :
    Rejects (readSchnorrLockPubkey B idx ctx) := by
  have hlock := rejects_readLock B idx ctx
  unfold readSchnorrLockPubkey
  cases h : readLock B idx ctx with
  | error e =>
    rintro e' ⟨⟩
    exact hlock e h
  | ok l =>
    cases l with
    | schnorr pk => exact rejects_ok pk
    | multisig t ks => exact rejects_reject _
    | unlocked => exact rejects_reject _

theorem rejects_readMultisigLockPubkeyAt (B : Battery) (idx i : UInt8)
    (ctx : SignerResolveContext) : Rejects (readMultisigLockPubkeyAt B idx i ctx) := by
  have hlock := rejects_readLock B idx ctx
  unfold readMultisigLockPubkeyAt
  cases h : readLock B idx ctx with
  | error e =>
    rintro e' ⟨⟩
    exact hlock e h
  | ok l =>
    cases l with
    | schnorr pk => exact rejects_reject _
    | unlocked => exact rejects_reject _
    | multisig t ks =>
      dsimp only
      cases nthPubkey ks i.toNat with
      | none => exact rejects_reject _
      | some pk => exact rejects_ok pk

/-- No signer kind panics, whatever it points at. -/
theorem SignerEnum.resolve_rejects (B : Battery) (s : SignerEnum) (idx : UInt8)
    (ctx : SignerResolveContext) : Rejects (s.resolve B idx ctx) := by
  cases s with
  | schnorrSigPtr off =>
    refine Rejects.map ?_ _
    have hpk := rejects_readSchnorrLockPubkey B idx ctx
    unfold resolveSchnorrSigPtr
    cases h : readSchnorrLockPubkey B idx ctx with
    | error e =>
      rintro e' ⟨⟩
      exact hpk e h
    | ok pk => exact rejects_verifiedKey B pk off ctx _
  | genesisSchnorrSigPtr off =>
    refine Rejects.map ?_ _
    unfold resolveGenesisSchnorrSigPtr
    cases ctx.resources[idx.toNat]? with
    | none => exact rejects_reject _
    | some r => exact rejects_verifiedKey B _ off ctx _
  | prevTxV1Witness w => exact (rejects_ofBattery _).map _
  | multisigSchnorrSigPtr i off =>
    refine Rejects.map ?_ _
    have hpk := rejects_readMultisigLockPubkeyAt B idx i ctx
    unfold resolveMultisigSchnorrSigPtr
    cases h : readMultisigLockPubkeyAt B idx i ctx with
    | error e =>
      rintro e' ⟨⟩
      exact hpk e h
    | ok pk =>
      have hv := rejects_verifiedKey B pk off ctx "signer.multisig_schnorr: invalid signature"
      cases h' : verifiedKey B pk off ctx "signer.multisig_schnorr: invalid signature" with
      | error e =>
        intro e' he'
        simp only [h'] at he'
        cases he'
        exact hv e h'
      | ok pk' =>
        simp only [h']
        exact rejects_ok _
  | multisigPrevTxV1Witness w => exact (rejects_ofBattery _).map _

end TicTacToe
