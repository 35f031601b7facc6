/-
TicTacToe.Exits.Indexer — the exit indexer of the node
(`node/src/exit_index.rs`): a settled bundle is filed under its padded
root, and every claim moves its family's record to the root the claim
leaves.

A hook writes to a batch and to two in-memory mirrors; `Node.run` commits
the batch before the next hook. A `Book` is a map of records by root, and
the node keeps two: the mirror's and the store's. Each branch of a hook
has one spec lemma, `Node.Books` saying what it does to both of them.

No `sorry`, no `axiom`, no `native_decide`.
-/
import TicTacToe.Exits.Views

namespace TicTacToe

open Lib

/-! ## What the hooks are given -/

structure ExitsForBundle where
  newState : Bytes32
  permissionSpkHash : Bytes32
  leaves : List ExitLeaf

structure SettlementInfo where
  txId : Bytes32
  newState : Bytes32
  daaScore : UInt64
  permissionSpkHash : Bytes32

/-- An L1 spend of a permission output. -/
structure PermissionSpend where
  oldRoot : Bytes32
  leafIndex : Nat
  deduct : UInt64
  newRoot : Bytes32
  spendTxid : Bytes32
  newOutpointIndex : UInt32

abbrev ExitRecords := AList fun _ : Bytes32 => ExitRecord

/-- `TicTacToeExitIndexer`. -/
structure ExitIndexer where
  records : ExitRecords
  latest : Option LatestSettlement

structure HookState where
  indexer : ExitIndexer
  wb : WriteBatch

abbrev Hook := EStateM Fault HookState Unit

/-! ## The hooks -/

def write (op : WriteOp) : Hook := modify fun s => { s with wb := s.wb ++ [op] }

def modifyRecords (f : ExitRecords → ExitRecords) : Hook :=
  modify fun s => { s with indexer := { s.indexer with records := f s.indexer.records } }

def writeExitRecord (T : ExitBackend) (root : Bytes32) (rec : ExitRecord) : Hook := do
  let op ← liftE (putExitRecord T root rec)
  write op

def serveLatest (row : LatestSettlement) : Hook := do
  write (putLatestSettlement row)
  modify fun s => { s with indexer := { s.indexer with latest := some row } }

/-- No leaf is claimed when a family record is keyed. -/
def freshLeaves (leaves : List ExitLeaf) : List (Option ExitLeaf) := leaves.map some

/-- `record_for`. -/
def recordFor (T : ExitBackend) (bundle : ExitsForBundle) (settlement : SettlementInfo) :
    Bytes32 × ExitRecord :=
  (T.viewRoot (freshLeaves bundle.leaves),
    { settlementTxid := settlement.txId
      outpointIndex := 1
      daaScore := settlement.daaScore
      unclaimed := UInt64.ofNat bundle.leaves.length
      rent := 50000000
      leaves := bundle.leaves
      emptied := [] })

def onExitsCommitted (T : ExitBackend) (bundle : ExitsForBundle) (settlement : SettlementInfo) :
    Hook := do
  let (root, rec) := recordFor T bundle settlement
  writeExitRecord T root rec
  modifyRecords (AList.insert root rec)
  serveLatest
    { stateRoot := bundle.newState
      permissionRoot := bundle.permissionSpkHash
      txid := settlement.txId
      daaScore := settlement.daaScore }

/-- The record with one more claim. -/
def ExitRecord.claim (rec : ExitRecord) (spend : PermissionSpend) : ExitRecord :=
  { rec with emptied := rec.emptied ++
      [{ leafIndex := UInt32.ofNat spend.leafIndex, spendTxid := spend.spendTxid,
         deduct := spend.deduct }] }

def onPermissionSpent (T : ExitBackend) (spend : PermissionSpend) : Hook := do
  write (markLeafSpent spend.oldRoot spend.leafIndex
    { spendTxid := spend.spendTxid, deduct := spend.deduct, newRoot := spend.newRoot })
  let s ← get
  match s.indexer.records.lookup spend.oldRoot with
  | none => write (deleteExitRecord spend.oldRoot)
  | some rec =>
    if rec.unclaimed = 0 ∨ (rec.emptied.any fun e => e.leafIndex.toNat = spend.leafIndex) then
      return ()
    else if rec.unclaimed > 1 then
      -- the claim emits a continuation output: the record moves onto it
      write (deleteExitRecord spend.oldRoot)
      modifyRecords (AList.erase spend.oldRoot)
      let rec' := { rec.claim spend with
        settlementTxid := spend.spendTxid
        outpointIndex := spend.newOutpointIndex
        unclaimed := rec.unclaimed - 1 }
      modifyRecords (AList.insert spend.newRoot rec')
      writeExitRecord T spend.newRoot rec'
    else
      -- the last claim: the record drains where it is
      let rec' := { rec.claim spend with unclaimed := 0 }
      modifyRecords (AList.insert spend.oldRoot rec')
      writeExitRecord T spend.oldRoot rec'

/-! ## Committing -/

/-- The node's indexer and its store. -/
structure Node where
  indexer : ExitIndexer
  store : IndexStore

namespace Node

def empty : Node := { indexer := { records := ∅, latest := none }, store := ∅ }

/-- Runs a hook and commits its batch. -/
def run (hook : Hook) (n : Node) : Except Fault Node :=
  match hook ⟨n.indexer, []⟩ with
  | .ok _ s => .ok { indexer := s.indexer, store := n.store.commit s.wb }
  | .error e _ => .error e

end Node

section Spec

variable {T : ExitBackend} {n : Node} {s : HookState} {store : IndexStore}
  {Q : Unit → HookState → Prop} {E : Fault → HookState → Prop}

@[simp] theorem wp_write (op : WriteOp) :
    wp (write op) Q E s ↔ Q () { s with wb := s.wb ++ [op] } := Iff.rfl

@[simp] theorem wp_modifyRecords (f : ExitRecords → ExitRecords) :
    wp (modifyRecords f) Q E s ↔
      Q () { s with indexer := { s.indexer with records := f s.indexer.records } } := Iff.rfl

/-- Writing a record that fits stores it, whatever else the batch holds. -/
theorem wp_writeExitRecord (hT : T.Lawful) {root : Bytes32} {rec : ExitRecord}
    (hrec : rec.Encodable) (hQ : ∀ op, (∀ store : IndexStore, (store.apply op).records T
      = Function.update (store.records T) root (some rec)) → Q () { s with wb := s.wb ++ [op] }) :
    wp (writeExitRecord T root rec) Q E s := by
  obtain ⟨op, hop, hrecords⟩ := IndexStore.records_putExitRecord root hT hrec
  simp only [writeExitRecord, wp_bind, hop, wp_liftE_ok, wp_write]
  exact hQ op hrecords

/-- Exit records by their current root. -/
abbrev Book := Bytes32 → Option ExitRecord

/-- The mirror, as a book. -/
def ExitRecords.book (m : ExitRecords) : Book := fun root => m.lookup root

theorem ExitRecords.book_insert (m : ExitRecords) (root : Bytes32) (rec : ExitRecord) :
    ExitRecords.book (m.insert root rec) = Function.update m.book root (some rec) := by
  funext r
  by_cases h : r = root
  · subst h
    rw [Function.update_self]
    exact AList.lookup_insert _
  · rw [Function.update_of_ne h]
    exact AList.lookup_insert_ne h

theorem ExitRecords.book_erase (m : ExitRecords) (root : Bytes32) :
    ExitRecords.book (m.erase root) = Function.update m.book root none := by
  funext r
  by_cases h : r = root
  · subst h
    rw [Function.update_self]
    exact AList.lookup_erase _ _
  · rw [Function.update_of_ne h]
    exact AList.lookup_erase_ne h

/-- Both books of the node are the images under `F` of what they were. -/
structure Node.Books (T : ExitBackend) (n n' : Node) (F : Book → Book) : Prop where
  mirror : n'.indexer.records.book = F n.indexer.records.book
  stored : n'.store.records T = F (n.store.records T)

/-- What a hook leaves behind, from what it does to the mirror and, through its
batch, to the store. -/
theorem Node.run_of_wp {hook : Hook} {F : Book → Book}
    (h : wp hook (fun _ s => s.indexer.records.book = F n.indexer.records.book ∧
      (n.store.commit s.wb).records T = F (n.store.records T)) (fun _ _ => False)
      ⟨n.indexer, []⟩) :
    ∃ n', n.run hook = .ok n' ∧ n.Books T n' F := by
  unfold wp at h
  unfold Node.run
  cases hrun : hook ⟨n.indexer, []⟩ with
  | ok _ s =>
    rw [hrun] at h
    exact ⟨_, rfl, h.1, h.2⟩
  | error e s =>
    rw [hrun] at h
    exact h.elim

/-- A fresh bundle is filed under its root. -/
theorem Node.run_onExitsCommitted (hT : T.Lawful) (n : Node) {bundle : ExitsForBundle}
    (settlement : SettlementInfo) (hlen : bundle.leaves.length < 2 ^ 32) :
    ∃ n', n.run (onExitsCommitted T bundle settlement) = .ok n' ∧ n.Books T n' fun book =>
      Function.update book (recordFor T bundle settlement).1
        (some (recordFor T bundle settlement).2) := by
  have hrec : (recordFor T bundle settlement).2.Encodable := ⟨hlen, Nat.two_pow_pos 32⟩
  refine Node.run_of_wp ?_
  simp only [onExitsCommitted, wp_bind]
  refine wp_writeExitRecord hT hrec fun op hop => ?_
  simp only [wp_modifyRecords, serveLatest, wp_bind, wp_write, wp_modify, List.nil_append]
  refine ⟨ExitRecords.book_insert _ _ _, ?_⟩
  rw [IndexStore.commit_append, IndexStore.commit_singleton, IndexStore.commit_singleton,
    IndexStore.records_putLatestSettlement, hop]

section Spent

variable {spend : PermissionSpend} {rec : ExitRecord}

/-- A spend of a leaf that is not claimed yet passes the replay guard. -/
theorem guard_passes (hleft : 0 < rec.unclaimed.toNat)
    (hnew : ∀ e ∈ rec.emptied, e.leafIndex.toNat ≠ spend.leafIndex) :
    ¬ (rec.unclaimed = 0 ∨
      (rec.emptied.any fun e => e.leafIndex.toNat = spend.leafIndex) = true) := by
  rintro (h0 | hany)
  · rw [h0] at hleft
    exact absurd hleft (by decide)
  · obtain ⟨e, he, heq⟩ := List.any_eq_true.mp hany
    exact hnew e he (of_decide_eq_true heq)

/-- A claim that leaves a continuation moves the record to the new root. -/
theorem Node.run_onPermissionSpent_continued (hT : T.Lawful) (n : Node)
    (hrec : n.indexer.records.book spend.oldRoot = some rec) (hleft : 1 < rec.unclaimed.toNat)
    (hnew : ∀ e ∈ rec.emptied, e.leafIndex.toNat ≠ spend.leafIndex)
    (hfits : (rec.claim spend).Encodable) :
    ∃ n', n.run (onPermissionSpent T spend) = .ok n' ∧ n.Books T n' fun book =>
      Function.update (Function.update book spend.oldRoot none) spend.newRoot
        (some { rec.claim spend with
          settlementTxid := spend.spendTxid, outpointIndex := spend.newOutpointIndex,
          unclaimed := rec.unclaimed - 1 }) := by
  have hlookup : n.indexer.records.lookup spend.oldRoot = some rec := hrec
  have hgt : rec.unclaimed > 1 := UInt64.lt_iff_toNat_lt.mpr hleft
  refine Node.run_of_wp ?_
  simp only [onPermissionSpent, wp_bind, wp_write, wp_get, hlookup,
    if_neg (guard_passes (Nat.zero_lt_of_lt hleft) hnew), if_pos hgt, wp_modifyRecords]
  refine wp_writeExitRecord hT ⟨hfits.leaves, hfits.emptied⟩ fun op hop => ?_
  refine ⟨by rw [ExitRecords.book_insert, ExitRecords.book_erase], ?_⟩
  rw [IndexStore.commit_append, IndexStore.commit_singleton, hop, IndexStore.commit_append,
    IndexStore.commit_singleton, IndexStore.records_deleteExitRecord, List.nil_append,
    IndexStore.commit_singleton, IndexStore.records_markLeafSpent]

/-- The last claim of a family drains its record in place. -/
theorem Node.run_onPermissionSpent_drained (hT : T.Lawful) (n : Node)
    (hrec : n.indexer.records.book spend.oldRoot = some rec) (hlast : rec.unclaimed.toNat = 1)
    (hnew : ∀ e ∈ rec.emptied, e.leafIndex.toNat ≠ spend.leafIndex)
    (hfits : (rec.claim spend).Encodable) :
    ∃ n', n.run (onPermissionSpent T spend) = .ok n' ∧ n.Books T n' fun book =>
      Function.update book spend.oldRoot (some { rec.claim spend with unclaimed := 0 }) := by
  have hlookup : n.indexer.records.lookup spend.oldRoot = some rec := hrec
  have hgt : ¬ rec.unclaimed > 1 := fun h => by
    have hlt := UInt64.lt_iff_toNat_lt.mp h
    rw [hlast] at hlt
    exact absurd hlt (by decide)
  refine Node.run_of_wp ?_
  simp only [onPermissionSpent, wp_bind, wp_write, wp_get, hlookup,
    if_neg (guard_passes (hlast.symm ▸ Nat.one_pos) hnew), if_neg hgt, wp_modifyRecords]
  refine wp_writeExitRecord hT ⟨hfits.leaves, hfits.emptied⟩ fun op hop => ?_
  refine ⟨ExitRecords.book_insert _ _ _, ?_⟩
  rw [IndexStore.commit_append, IndexStore.commit_singleton, hop, List.nil_append,
    IndexStore.commit_singleton, IndexStore.records_markLeafSpent]

end Spent

end Spec

end TicTacToe
