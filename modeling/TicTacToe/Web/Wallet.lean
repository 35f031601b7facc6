/-
TicTacToe.Web.Wallet — the browser's decoder of a signed transaction
(`txFromBorsh` of `web/src/wallet.ts`) over the layout its header
documents.

The reader checks the length only where it takes a run of bytes; its
numbers read zeros behind the end. `local_readTx` is why that does no
harm: a decode that ends at the length of its bytes has read nothing
else, so a truncated transaction would have decoded the same whole.

No `sorry`, no `axiom`, no `native_decide`.
-/
import TicTacToe.Lib.Cursor
import TicTacToe.Web.Hex

namespace TicTacToe.Web

open Lib Lib.Cursor

/-! ## The layout -/

/-- A list that a `u32` can count, as borsh demands of a `Vec`. -/
abbrev Vec (α : Type) := { l : List α // l.length < 2 ^ 32 }

inductive ComputeCommit where
  | sigopCount (n : UInt8)
  | computeBudget (n : UInt16)

structure TransactionInput where
  transactionId : Bytes 32
  index : UInt32
  sigScript : Vec UInt8
  sequence : UInt64
  computeCommit : ComputeCommit

structure Covenant where
  authorizingInput : UInt16
  covenantId : Bytes 32

structure TransactionOutput where
  value : UInt64
  spkVersion : UInt16
  script : Vec UInt8
  covenant : Option Covenant

/-- `kaspa_consensus_core::tx::Transaction`, in declaration order. -/
structure Transaction where
  version : UInt16
  inputs : Vec TransactionInput
  outputs : Vec TransactionOutput
  lockTime : UInt64
  subnetworkId : Bytes 20
  gas : UInt64
  payload : Vec UInt8
  storageMass : UInt64
  id : Bytes 32

/-- A `Vec` of bytes. -/
def blob (v : Vec UInt8) : List UInt8 := le32 (UInt32.ofNat v.val.length) ++ v.val

def ComputeCommit.toBorsh : ComputeCommit → List UInt8
  | sigopCount n => 0 :: [n]
  | computeBudget n => 1 :: le16 n

def TransactionInput.toBorsh (i : TransactionInput) : List UInt8 :=
  i.transactionId.val ++ (le32 i.index ++ (blob i.sigScript ++ (le64 i.sequence ++
    i.computeCommit.toBorsh)))

def covenantToBorsh : Option Covenant → List UInt8
  | none => [0]
  | some c => 1 :: (le16 c.authorizingInput ++ c.covenantId.val)

def TransactionOutput.toBorsh (o : TransactionOutput) : List UInt8 :=
  le64 o.value ++ (le16 o.spkVersion ++ (blob o.script ++ covenantToBorsh o.covenant))

def Transaction.toBorsh (tx : Transaction) : List UInt8 :=
  le16 tx.version ++ (encVec TransactionInput.toBorsh tx.inputs.val ++
    (encVec TransactionOutput.toBorsh tx.outputs.val ++ (le64 tx.lockTime ++ (tx.subnetworkId.val ++
      (le64 tx.gas ++ (blob tx.payload ++ (le64 tx.storageMass ++ tx.id.val)))))))

/-! ## The decoder -/

/-- A decoded input; `sigOpCount` is undefined where its byte was. -/
structure ITransactionInput where
  transactionId : String
  index : UInt32
  signatureScript : String
  sequence : UInt64
  sigOpCount : Option UInt8
  computeBudget : Option UInt16
  deriving DecidableEq

structure ICovenant where
  authorizingInput : UInt16
  covenantId : String
  deriving DecidableEq

structure ITransactionOutput where
  value : UInt64
  version : UInt16
  script : String
  covenant : Option ICovenant
  deriving DecidableEq

/-- The plain object the wasm `Transaction` constructor accepts. -/
structure ITransaction where
  version : UInt16
  inputs : List ITransactionInput
  outputs : List ITransactionOutput
  lockTime : UInt64
  subnetworkId : String
  gas : UInt64
  payload : String
  storageMass : UInt64
  id : String
  deriving DecidableEq

abbrev TxReader := Cursor String

/-- `bytes(n)`. -/
def readBytes (n : Nat) : TxReader (List UInt8) :=
  Cursor.bytes "borsh: unexpected end of transaction bytes" n

def readVec : TxReader (List UInt8) := do readBytes (← u32).toNat

def readHash : TxReader String := do return hexString (← readBytes 32)

/-- Every byte but 0 is taken for a compute budget. -/
def readComputeCommit : TxReader (Option UInt8 × Option UInt16) := do
  let variant ← u8
  if variant = some 0 then
    return (← u8, none)
  else
    return (some 0, some (← u16))

def readInput : TxReader ITransactionInput := do
  let transactionId ← readHash
  let index ← u32
  let signatureScript := hexString (← readVec)
  let sequence ← u64
  let (sigOpCount, computeBudget) ← readComputeCommit
  return { transactionId, index, signatureScript, sequence, sigOpCount, computeBudget }

/-- Every byte but 1 is taken for no covenant. -/
def readCovenant : TxReader (Option ICovenant) := do
  let tag ← u8
  if tag = some 1 then
    let authorizingInput ← u16
    return some { authorizingInput, covenantId := ← readHash }
  else
    return none

def readOutput : TxReader ITransactionOutput := do
  let value ← u64
  let version ← u16
  let script := hexString (← readVec)
  let covenant ← readCovenant
  return { value, version, script, covenant }

def readTx : TxReader ITransaction := do
  let version ← u16
  let inputs ← counted readInput
  let outputs ← counted readOutput
  let lockTime ← u64
  let subnetworkId := hexString (← readBytes 20)
  let gas ← u64
  let payload := hexString (← readVec)
  let storageMass ← u64
  let id ← readHash
  return { version, inputs, outputs, lockTime, subnetworkId, gas, payload, storageMass, id }

def txFromBorsh (bytes : List UInt8) : Except String ITransaction :=
  Cursor.whole "borsh: trailing bytes after transaction" readTx bytes

/-! ## What the decoder should give -/

def ComputeCommit.fields : ComputeCommit → Option UInt8 × Option UInt16
  | sigopCount n => (some n, none)
  | computeBudget n => (some 0, some n)

def TransactionInput.toObject (i : TransactionInput) : ITransactionInput where
  transactionId := hexString i.transactionId.val
  index := i.index
  signatureScript := hexString i.sigScript.val
  sequence := i.sequence
  sigOpCount := i.computeCommit.fields.1
  computeBudget := i.computeCommit.fields.2

def Covenant.toObject (c : Covenant) : ICovenant where
  authorizingInput := c.authorizingInput
  covenantId := hexString c.covenantId.val

def TransactionOutput.toObject (o : TransactionOutput) : ITransactionOutput where
  value := o.value
  version := o.spkVersion
  script := hexString o.script.val
  covenant := o.covenant.map Covenant.toObject

/-- The fields of a transaction as the wasm object spells them. -/
def Transaction.toObject (tx : Transaction) : ITransaction where
  version := tx.version
  inputs := tx.inputs.val.map TransactionInput.toObject
  outputs := tx.outputs.val.map TransactionOutput.toObject
  lockTime := tx.lockTime
  subnetworkId := hexString tx.subnetworkId.val
  gas := tx.gas
  payload := hexString tx.payload.val
  storageMass := tx.storageMass
  id := hexString tx.id.val

theorem ComputeCommit.fields_injective : Function.Injective ComputeCommit.fields := by
  intro a b h
  cases a <;> cases b <;> cases h <;> rfl

theorem TransactionInput.toObject_injective : Function.Injective TransactionInput.toObject := by
  intro a b h
  have hcommit : a.computeCommit = b.computeCommit :=
    ComputeCommit.fields_injective (Prod.ext (congrArg ITransactionInput.sigOpCount h)
      (congrArg ITransactionInput.computeBudget h))
  have hid := hexString_injective (congrArg ITransactionInput.transactionId h)
  have hscript := hexString_injective (congrArg ITransactionInput.signatureScript h)
  obtain ⟨aid, aindex, ascript, asequence, acommit⟩ := a
  obtain ⟨bid, bindex, bscript, bsequence, bcommit⟩ := b
  obtain rfl : aid = bid := Subtype.ext hid
  obtain rfl : ascript = bscript := Subtype.ext hscript
  obtain rfl : acommit = bcommit := hcommit
  obtain rfl : aindex = bindex := congrArg ITransactionInput.index h
  obtain rfl : asequence = bsequence := congrArg ITransactionInput.sequence h
  rfl

theorem Covenant.toObject_injective : Function.Injective Covenant.toObject := by
  intro a b h
  have hid := hexString_injective (congrArg ICovenant.covenantId h)
  obtain ⟨aindex, aid⟩ := a
  obtain ⟨bindex, bid⟩ := b
  obtain rfl : aid = bid := Subtype.ext hid
  obtain rfl : aindex = bindex := congrArg ICovenant.authorizingInput h
  rfl

theorem TransactionOutput.toObject_injective : Function.Injective TransactionOutput.toObject := by
  intro a b h
  have hscript := hexString_injective (congrArg ITransactionOutput.script h)
  have hcovenant := Option.map_injective Covenant.toObject_injective
    (congrArg ITransactionOutput.covenant h)
  obtain ⟨avalue, aversion, ascript, acovenant⟩ := a
  obtain ⟨bvalue, bversion, bscript, bcovenant⟩ := b
  obtain rfl : ascript = bscript := Subtype.ext hscript
  obtain rfl : acovenant = bcovenant := hcovenant
  obtain rfl : avalue = bvalue := congrArg ITransactionOutput.value h
  obtain rfl : aversion = bversion := congrArg ITransactionOutput.version h
  rfl

/-- No field is lost in the object. -/
theorem Transaction.toObject_injective : Function.Injective Transaction.toObject := by
  intro a b h
  have hinputs := List.map_injective_iff.mpr TransactionInput.toObject_injective
    (congrArg ITransaction.inputs h)
  have houtputs := List.map_injective_iff.mpr TransactionOutput.toObject_injective
    (congrArg ITransaction.outputs h)
  have hsubnetwork := hexString_injective (congrArg ITransaction.subnetworkId h)
  have hpayload := hexString_injective (congrArg ITransaction.payload h)
  have hid := hexString_injective (congrArg ITransaction.id h)
  obtain ⟨aversion, ainputs, aoutputs, alock, asubnetwork, agas, apayload, amass, aid⟩ := a
  obtain ⟨bversion, binputs, boutputs, block, bsubnetwork, bgas, bpayload, bmass, bid⟩ := b
  obtain rfl : ainputs = binputs := Subtype.ext hinputs
  obtain rfl : aoutputs = boutputs := Subtype.ext houtputs
  obtain rfl : asubnetwork = bsubnetwork := Subtype.ext hsubnetwork
  obtain rfl : apayload = bpayload := Subtype.ext hpayload
  obtain rfl : aid = bid := Subtype.ext hid
  obtain rfl : aversion = bversion := congrArg ITransaction.version h
  obtain rfl : alock = block := congrArg ITransaction.lockTime h
  obtain rfl : agas = bgas := congrArg ITransaction.gas h
  obtain rfl : amass = bmass := congrArg ITransaction.storageMass h
  rfl

/-! ## The decoder reads what the layout writes -/

theorem scans_readVec (v : Vec UInt8) : Scans readVec (blob v) v.val := by
  have hbytes : Scans (readBytes (UInt32.ofNat v.val.length).toNat) v.val v.val := by
    rw [count_ofNat v.property]
    exact scans_bytes _ v.val
  exact (scans_u32 _).bind hbytes

theorem scans_readHash (v : Bytes 32) : Scans readHash v.val (hexString v.val) :=
  (scans_array _ v).map

theorem scans_readComputeCommit (c : ComputeCommit) :
    Scans readComputeCommit c.toBorsh c.fields := by
  cases c with
  | sigopCount n => exact (scans_u8 0).bind ((scans_u8 n).map)
  | computeBudget n => exact (scans_u8 1).bind ((scans_u16 n).map)

theorem scans_readInput (i : TransactionInput) : Scans readInput i.toBorsh i.toObject :=
  (scans_readHash _).bind ((scans_u32 _).bind ((scans_readVec _).bind
    ((scans_u64 _).bind (scans_readComputeCommit _).map)))

theorem scans_readCovenant (c : Option Covenant) :
    Scans readCovenant (covenantToBorsh c) (c.map Covenant.toObject) := by
  cases c with
  | none => exact (scans_u8 0).bind (scans_pure none)
  | some c => exact (scans_u8 1).bind ((scans_u16 _).bind (scans_readHash _).map)

theorem scans_readOutput (o : TransactionOutput) : Scans readOutput o.toBorsh o.toObject :=
  (scans_u64 _).bind ((scans_u16 _).bind ((scans_readVec _).bind
    (scans_readCovenant _).map))

theorem scans_readTx (tx : Transaction) : Scans readTx tx.toBorsh tx.toObject :=
  (scans_u16 _).bind ((scans_counted tx.inputs.property fun _ _ => scans_readInput _).bind
    ((scans_counted tx.outputs.property fun _ _ => scans_readOutput _).bind
      ((scans_u64 _).bind ((scans_array _ tx.subnetworkId).bind ((scans_u64 _).bind
        ((scans_readVec _).bind ((scans_u64 _).bind (scans_readHash _).map)))))))

theorem local_readVec : Local readVec := local_u32.bind fun _ => local_bytes _ _

theorem local_readHash : Local readHash := (local_bytes _ _).bind fun _ => local_pure _

theorem local_readComputeCommit : Local readComputeCommit :=
  local_u8.bind fun _ => Local.ite (local_u8.bind fun _ => local_pure _)
    (local_u16.bind fun _ => local_pure _)

theorem local_readInput : Local readInput :=
  local_readHash.bind fun _ => local_u32.bind fun _ => local_readVec.bind fun _ =>
    local_u64.bind fun _ => local_readComputeCommit.bind fun _ => local_pure _

theorem local_readCovenant : Local readCovenant :=
  local_u8.bind fun _ => Local.ite
    (local_u16.bind fun _ => local_readHash.bind fun _ => local_pure _) (local_pure _)

theorem local_readOutput : Local readOutput :=
  local_u64.bind fun _ => local_u16.bind fun _ => local_readVec.bind fun _ =>
    local_readCovenant.bind fun _ => local_pure _

theorem local_readTx : Local readTx :=
  local_u16.bind fun _ => (local_counted local_readInput).bind fun _ =>
    (local_counted local_readOutput).bind fun _ => local_u64.bind fun _ =>
    (local_bytes _ _).bind fun _ => local_u64.bind fun _ =>
    local_readVec.bind fun _ => local_u64.bind fun _ => local_readHash.bind fun _ => local_pure _

/-- A transaction decodes to its own fields; with a byte missing or a byte
to spare it does not decode. -/
theorem txFromBorsh_exact :
    Function.Injective Transaction.toObject ∧
    ∀ tx : Transaction,
      txFromBorsh tx.toBorsh = .ok tx.toObject ∧
      (∀ b ext, tx.toBorsh = b ++ ext → ext ≠ [] → ∃ e, txFromBorsh b = .error e) ∧
      ∀ ext, ext ≠ [] → ∃ e, txFromBorsh (tx.toBorsh ++ ext) = .error e := by
  refine ⟨Transaction.toObject_injective, fun tx => ?_⟩
  have hscans := scans_readTx tx
  refine ⟨hscans.whole _, ?_, ?_⟩
  · intro b ext hbs hext
    exact hscans.whole_prefix local_readTx _ hbs hext
  · intro ext hext
    exact ⟨_, hscans.whole_append _ hext⟩

/-- One input with a compute budget, one output bound to a covenant. -/
def Sample.tx : Transaction where
  version := 1
  inputs := ⟨[⟨⟨List.replicate 32 0x11, rfl⟩, 3, ⟨[0x41], by decide⟩, 0, .computeBudget 700⟩],
    by decide⟩
  outputs := ⟨[⟨1000, 0, ⟨[0x20, 0xac], by decide⟩, some ⟨0, ⟨List.replicate 32 0x77, rfl⟩⟩⟩],
    by decide⟩
  lockTime := 0
  subnetworkId := ⟨List.replicate 20 0x22, rfl⟩
  gas := 0
  payload := ⟨[0xde, 0xad], by decide⟩
  storageMass := 0
  id := ⟨List.replicate 32 0x33, rfl⟩

theorem txFromBorsh_exact_sample :
    txFromBorsh Sample.tx.toBorsh = .ok Sample.tx.toObject ∧
      (∃ e, txFromBorsh [1] = .error e) ∧
      ∃ e, txFromBorsh (Sample.tx.toBorsh ++ [0]) = .error e := by
  obtain ⟨hsame, hshort, hlong⟩ := txFromBorsh_exact.2 Sample.tx
  have hfirst : Sample.tx.toBorsh = [1] ++ Sample.tx.toBorsh.tail := rfl
  refine ⟨hsame, hshort [1] _ hfirst ?_, hlong [0] (List.cons_ne_nil _ _)⟩
  exact List.cons_ne_nil 0 _

end TicTacToe.Web
