/-
TicTacToe.Exits.Record — exit records and their stored form
(`node/src/da_store.rs`).

The permission tree and the script codec of an exit destination lie
outside this repository and are one parameter, `ExitBackend`; `Lawful`
says what the node relies on. The Borsh codecs are written out field by
field, and `ExitRecord.ofBytes_toBytes` is the half of their round trip a
store needs: what was put can be read back.

No `sorry`, no `axiom`, no `native_decide`.
-/
import TicTacToe.Runtime.Codec
import TicTacToe.Runtime.Abi

namespace TicTacToe

open Lib

/-- One exit of a settled bundle. -/
structure ExitLeaf where
  spk : StandardSpk
  amount : UInt64
  deriving DecidableEq

/-- The permission tree's hashes and the script form of a destination. -/
structure ExitBackend where
  /-- `ExitLeaf::script_bytes`. -/
  scriptBytes : StandardSpk → List UInt8
  /-- `StandardSpk::from_script`. -/
  fromScript : List UInt8 → Option StandardSpk
  hashLeaf : StandardSpk → UInt64 → Bytes32
  hashEmpty : Bytes32
  hashBranch : Bytes32 → Bytes32 → Bytes32
  requiredDepth : Nat → Nat
  /-- `PermissionTreeView::from_leaves(..).root()`. -/
  viewRoot : List (Option ExitLeaf) → Bytes32

/-! ## The padded tree -/

/-- One level up: neighbours joined. -/
def pairUp (hashBranch : Bytes32 → Bytes32 → Bytes32) : List Bytes32 → List Bytes32
  | a :: b :: rest => hashBranch a b :: pairUp hashBranch rest
  | _ => []

/-- Level 0 over the padded capacity: live leaf hashes, and the empty hash
for padding and emptied slots. -/
def paddedLevel (T : ExitBackend) (leaves : List ExitLeaf) (emptied : List Nat) : List Bytes32 :=
  (List.range (2 ^ T.requiredDepth leaves.length)).map fun i =>
    match leaves[i]? with
    | some leaf => if i ∈ emptied then T.hashEmpty else T.hashLeaf leaf.spk leaf.amount
    | none => T.hashEmpty

/-- The raw padded root of `leaves` with the slots `emptied` collapsed. -/
def rawRoot (T : ExitBackend) (leaves : List ExitLeaf) (emptied : List Nat) : Bytes32 :=
  ((pairUp T.hashBranch)^[T.requiredDepth leaves.length] (paddedLevel T leaves emptied)).headD
    T.hashEmpty

/-- What the node relies on. -/
structure ExitBackend.Lawful (T : ExitBackend) : Prop where
  fromScript_scriptBytes : ∀ spk, T.fromScript (T.scriptBytes spk) = some spk
  scriptBytes_length : ∀ spk, (T.scriptBytes spk).length < 2 ^ 32
  le_capacity : ∀ n, n ≤ 2 ^ T.requiredDepth n
  requiredDepth_lt : ∀ n, n < 2 ^ 32 → T.requiredDepth n < 64
  viewRoot_fresh : ∀ leaves, T.viewRoot (leaves.map some) = rawRoot T leaves []

/-! ## A backend that computes -/

namespace ExitBackend

/-- The script of a destination, as the node sees it. -/
def standardScript : StandardSpk → List UInt8
  | .pubKey key => 0x20 :: (key.val ++ [0xac])
  | .pubKeyEcdsa key => 0x21 :: (key.val ++ [0xab])
  | .scriptHash hash => p2shScript hash

def ofStandardScript : List UInt8 → Option StandardSpk
  | op :: rest =>
    if op = 0x20 ∧ rest.length = 33 then some (.pubKey (padTo 32 rest))
    else if op = 0x21 ∧ rest.length = 34 then some (.pubKeyEcdsa (padTo 33 rest))
    else if op = 0xaa ∧ rest.length = 34 then some (.scriptHash (padTo 32 rest.tail))
    else none
  | [] => none

/-- A backend whose hashes keep some of what they hash. -/
def plain : ExitBackend :=
  let hashes : ExitBackend := {
    scriptBytes := standardScript
    fromScript := ofStandardScript
    hashLeaf := fun spk amount => padTo 32 (le64 amount ++ (standardScript spk).drop 1)
    hashEmpty := padTo 32 []
    hashBranch := fun a b => padTo 32 (a.val.take 16 ++ b.val.take 16)
    requiredDepth := fun n => (n - 1).log2 + 1
    viewRoot := fun _ => padTo 32 [] }
  { hashes with viewRoot := fun leaves => rawRoot hashes (leaves.filterMap id) [] }

theorem plain_lawful : plain.Lawful where
  fromScript_scriptBytes spk := by
    cases spk with
    | pubKey key =>
      have hlen : (key.val ++ [0xac]).length = 33 := by simp [key.property]
      show ofStandardScript (0x20 :: (key.val ++ [0xac])) = _
      rw [ofStandardScript, if_pos ⟨rfl, hlen⟩, padTo_append]
    | pubKeyEcdsa key =>
      have hlen : (key.val ++ [0xab]).length = 34 := by simp [key.property]
      show ofStandardScript (0x21 :: (key.val ++ [0xab])) = _
      rw [ofStandardScript, if_neg (by simp), if_pos ⟨rfl, hlen⟩, padTo_append]
    | scriptHash hash =>
      have hlen : (0x20 :: (hash.val ++ [0x87])).length = 34 := by simp [hash.property]
      show ofStandardScript (0xaa :: 0x20 :: (hash.val ++ [0x87])) = _
      rw [ofStandardScript, if_neg (by simp), if_neg (by simp), if_pos ⟨rfl, hlen⟩, List.tail_cons,
        padTo_append]
  scriptBytes_length spk := by
    cases spk with
    | pubKey v | pubKeyEcdsa v | scriptHash v =>
      have hlen := v.property
      simp only [plain, standardScript, p2shScript, List.length_cons, List.length_append, hlen]
      decide
  le_capacity n := by
    have hlt : n - 1 < 2 ^ ((n - 1).log2 + 1) := Nat.lt_log2_self
    show n ≤ 2 ^ ((n - 1).log2 + 1)
    omega
  requiredDepth_lt n hn := by
    show (n - 1).log2 + 1 < 64
    by_cases h0 : n - 1 = 0
    · rw [h0]
      decide
    · have hlog : (n - 1).log2 < 32 := (Nat.log2_lt h0).mpr (by omega)
      omega
  viewRoot_fresh leaves := by
    have hall : (leaves.map some).filterMap id = leaves := by simp
    show rawRoot _ ((leaves.map some).filterMap id) [] = _
    rw [hall]
    rfl

end ExitBackend

/-! ## Stored values -/

/-- One claimed leaf of an exit family. -/
structure EmptiedLeaf where
  leafIndex : UInt32
  spendTxid : Bytes32
  deduct : UInt64
  deriving DecidableEq

/-- A settled exit bundle, indexed by its raw padded tree root. -/
structure ExitRecord where
  settlementTxid : Bytes32
  outpointIndex : UInt32
  daaScore : UInt64
  unclaimed : UInt64
  rent : UInt64
  leaves : List ExitLeaf
  emptied : List EmptiedLeaf
  deriving DecidableEq

/-- An L1 spend against an exit leaf. -/
structure SpentMark where
  spendTxid : Bytes32
  deduct : UInt64
  newRoot : Bytes32
  deriving DecidableEq

structure LatestSettlement where
  stateRoot : Bytes32
  permissionRoot : Bytes32
  txid : Bytes32
  daaScore : UInt64
  deriving DecidableEq

/-! ## Borsh -/

/-- A Borsh reader: every error is one error, dropped by `.ok()`. -/
abbrev BorshReader (α : Type) := Lib.Reader Unit α

def EmptiedLeaf.toBytes (e : EmptiedLeaf) : List UInt8 :=
  le32 e.leafIndex ++ (e.spendTxid.val ++ le64 e.deduct)

def EmptiedLeaf.read : BorshReader EmptiedLeaf := do
  let leafIndex ← Lib.Reader.u32 ()
  let spendTxid ← Lib.Reader.array () 32
  let deduct ← Lib.Reader.u64 ()
  return { leafIndex, spendTxid, deduct }

def encBytes (bytes : List UInt8) : List UInt8 := encVec (fun b => [b]) bytes

def ExitLeaf.toBytes (T : ExitBackend) (leaf : ExitLeaf) : List UInt8 :=
  encBytes (T.scriptBytes leaf.spk) ++ le64 leaf.amount

def ExitLeaf.read (T : ExitBackend) : BorshReader ExitLeaf := do
  let scriptBytes ← Lib.Reader.vec () (Lib.Reader.byte ())
  let amount ← Lib.Reader.u64 ()
  let spk ← okOr () (T.fromScript scriptBytes)
  return { spk, amount }

/-- `borsh::to_vec(rec).expect(..)`: the leaf count is cast to `u32`, the
emptied count must fit one. -/
def ExitRecord.toBytes (T : ExitBackend) (rec : ExitRecord) : Except Fault (List UInt8) :=
  if rec.emptied.length < 2 ^ 32 then
    .ok (rec.settlementTxid.val ++ (le32 rec.outpointIndex ++ (le64 rec.daaScore ++
      (le64 rec.unclaimed ++ (le64 rec.rent ++ (encVec (ExitLeaf.toBytes T) rec.leaves ++
        encVec EmptiedLeaf.toBytes rec.emptied))))))
  else
    .error .panic

def ExitRecord.read (T : ExitBackend) : BorshReader ExitRecord := do
  let settlementTxid ← Lib.Reader.array () 32
  let outpointIndex ← Lib.Reader.u32 ()
  let daaScore ← Lib.Reader.u64 ()
  let unclaimed ← Lib.Reader.u64 ()
  let rent ← Lib.Reader.u64 ()
  let leaves ← Lib.Reader.vec () (ExitLeaf.read T)
  let emptied ← Lib.Reader.vec () EmptiedLeaf.read
  return { settlementTxid, outpointIndex, daaScore, unclaimed, rent, leaves, emptied }

/-- `borsh::from_slice(&val).ok()`. -/
def ExitRecord.ofBytes (T : ExitBackend) (val : List UInt8) : Option ExitRecord :=
  Lib.Reader.whole (ExitRecord.read T) val

def SpentMark.toBytes (mark : SpentMark) : List UInt8 :=
  mark.spendTxid.val ++ (le64 mark.deduct ++ mark.newRoot.val)

def SpentMark.read : BorshReader SpentMark := do
  let spendTxid ← Lib.Reader.array () 32
  let deduct ← Lib.Reader.u64 ()
  let newRoot ← Lib.Reader.array () 32
  return { spendTxid, deduct, newRoot }

/-- `borsh::from_slice(&val).ok()`. -/
def SpentMark.ofBytes (val : List UInt8) : Option SpentMark :=
  Lib.Reader.whole SpentMark.read val

def LatestSettlement.toBytes (row : LatestSettlement) : List UInt8 :=
  row.stateRoot.val ++ (row.permissionRoot.val ++ (row.txid.val ++ le64 row.daaScore))

def LatestSettlement.read : BorshReader LatestSettlement := do
  let stateRoot ← Lib.Reader.array () 32
  let permissionRoot ← Lib.Reader.array () 32
  let txid ← Lib.Reader.array () 32
  let daaScore ← Lib.Reader.u64 ()
  return { stateRoot, permissionRoot, txid, daaScore }

/-- `borsh::from_slice(&val).ok()`. -/
def LatestSettlement.ofBytes (val : List UInt8) : Option LatestSettlement :=
  Lib.Reader.whole LatestSettlement.read val

section Borsh

variable {T : ExitBackend}

theorem emptiedLeaf_readsBack :
    ReadsBack (fun _ => True) EmptiedLeaf.read EmptiedLeaf.toBytes := by
  intro e rest _
  unfold EmptiedLeaf.read EmptiedLeaf.toBytes
  rw [List.append_assoc, List.append_assoc, bind_of_ok ((reads_u32 ()).readsBack _ _ trivial),
    bind_of_ok ((reads_array () 32).readsBack _ _ trivial),
    bind_of_ok ((reads_u64 ()).readsBack _ _ trivial)]
  rfl

theorem exitLeaf_readsBack (hT : T.Lawful) :
    ReadsBack (fun _ => True) (ExitLeaf.read T) (ExitLeaf.toBytes T) := by
  intro leaf rest _
  have hscript := ((reads_byte ()).readsBack.vec ()) (T.scriptBytes leaf.spk)
    (le64 leaf.amount ++ rest) ⟨hT.scriptBytes_length _, fun _ _ => trivial⟩
  unfold ExitLeaf.read ExitLeaf.toBytes encBytes
  rw [List.append_assoc, bind_of_ok hscript, bind_of_ok ((reads_u64 ()).readsBack _ _ trivial),
    hT.fromScript_scriptBytes]
  rfl

/-- Both counts fit the `u32` they are stored as. -/
structure ExitRecord.Encodable (rec : ExitRecord) : Prop where
  leaves : rec.leaves.length < 2 ^ 32
  emptied : rec.emptied.length < 2 ^ 32

/-- What was put can be read back. -/
theorem ExitRecord.ofBytes_toBytes (hT : T.Lawful) {rec : ExitRecord} (h : rec.Encodable) :
    ∃ val, rec.toBytes T = .ok val ∧ ExitRecord.ofBytes T val = some rec := by
  refine ⟨_, if_pos h.emptied, ?_⟩
  have hleaves := ((exitLeaf_readsBack hT).vec ()) rec.leaves
    (encVec EmptiedLeaf.toBytes rec.emptied) ⟨h.leaves, fun _ _ => trivial⟩
  have hemptied := (emptiedLeaf_readsBack.vec ()) rec.emptied [] ⟨h.emptied, fun _ _ => trivial⟩
  rw [List.append_nil] at hemptied
  unfold ExitRecord.ofBytes Lib.Reader.whole ExitRecord.read
  rw [bind_of_ok ((reads_array () 32).readsBack _ _ trivial),
    bind_of_ok ((reads_u32 ()).readsBack _ _ trivial),
    bind_of_ok ((reads_u64 ()).readsBack _ _ trivial),
    bind_of_ok ((reads_u64 ()).readsBack _ _ trivial),
    bind_of_ok ((reads_u64 ()).readsBack _ _ trivial),
    bind_of_ok hleaves, bind_of_ok hemptied]
  rfl

/-- What can be read back has counts that fit. -/
theorem ExitRecord.encodable_of_ofBytes {val : List UInt8} {rec : ExitRecord}
    (h : ExitRecord.ofBytes T val = some rec) : rec.Encodable := by
  unfold ExitRecord.ofBytes Lib.Reader.whole at h
  cases hread : ExitRecord.read T val with
  | error e rest =>
    rw [hread] at h
    cases h
  | ok rec' rest =>
    rw [hread] at h
    have hsame : rec' = rec := by
      cases rest with
      | nil => exact Option.some.inj h
      | cons b bs => cases h
    subst hsame
    unfold ExitRecord.read at hread
    obtain ⟨_, _, -, hread⟩ := ok_bind.mp hread
    obtain ⟨_, _, -, hread⟩ := ok_bind.mp hread
    obtain ⟨_, _, -, hread⟩ := ok_bind.mp hread
    obtain ⟨_, _, -, hread⟩ := ok_bind.mp hread
    obtain ⟨_, _, -, hread⟩ := ok_bind.mp hread
    obtain ⟨leaves, _, hleaves, hread⟩ := ok_bind.mp hread
    obtain ⟨emptied, _, hemptied, hread⟩ := ok_bind.mp hread
    obtain ⟨rfl, -⟩ := ok_pure.mp hread
    exact ⟨length_vec_lt hleaves, length_vec_lt hemptied⟩

theorem SpentMark.ofBytes_toBytes (mark : SpentMark) :
    SpentMark.ofBytes mark.toBytes = some mark := by
  have hroot := (reads_array () 32).readsBack mark.newRoot [] trivial
  rw [List.append_nil] at hroot
  unfold SpentMark.ofBytes Lib.Reader.whole SpentMark.read SpentMark.toBytes
  rw [bind_of_ok ((reads_array () 32).readsBack _ _ trivial),
    bind_of_ok ((reads_u64 ()).readsBack _ _ trivial), bind_of_ok hroot]
  rfl

theorem LatestSettlement.ofBytes_toBytes (row : LatestSettlement) :
    LatestSettlement.ofBytes row.toBytes = some row := by
  have hscore := (reads_u64 ()).readsBack row.daaScore [] trivial
  rw [List.append_nil] at hscore
  unfold LatestSettlement.ofBytes Lib.Reader.whole LatestSettlement.read LatestSettlement.toBytes
  rw [bind_of_ok ((reads_array () 32).readsBack _ _ trivial),
    bind_of_ok ((reads_array () 32).readsBack _ _ trivial),
    bind_of_ok ((reads_array () 32).readsBack _ _ trivial), bind_of_ok hscore]
  rfl

end Borsh

end TicTacToe
