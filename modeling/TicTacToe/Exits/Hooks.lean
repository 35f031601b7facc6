/-
TicTacToe.Exits.Hooks — the remaining hooks of the exit indexer, and what
every hook writes (`node/src/exit_index.rs`).

All six hooks have one shape: they read the mirrors, and then file and drop
the same records in the mirror and in the store. `ExitCall.plan` is that
second half as data, computed from what is read; `Node.run_plan` says that
running a hook and committing its batch is carrying out its plan. Two
nodes that read alike therefore write alike.

No `sorry`, no `axiom`, no `native_decide`.
-/
import TicTacToe.Exits.Indexer

namespace TicTacToe

open Lib

/-! ## The hooks -/

/-- `[0u8; 32]`. -/
def zeroHash : Bytes32 := padTo 32 []

/-- `TransactionOutpoint`. -/
structure Outpoint where
  transactionId : Bytes32
  index : UInt32
  deriving DecidableEq

/-- The iteration order of the mirror's `HashMap`: some order of its entries. -/
structure HashOrder where
  iter : ExitRecords → List (Bytes32 × ExitRecord)
  perm : ∀ m, (iter m).Perm (m.entries.map fun e => (e.1, e.2))

/-- The mirror iterated in the order of its entries. -/
def entriesOrder : HashOrder where
  iter m := m.entries.map fun e => (e.1, e.2)
  perm _ := List.Perm.refl _

/-- The permission root to serve: a settlement that emits no exits carries the
last known one forward. -/
def carriedRoot (latest : Option LatestSettlement) (settlement : SettlementInfo) : Bytes32 :=
  match latest with
  | some prev =>
    if settlement.permissionSpkHash = zeroHash then prev.permissionRoot
    else settlement.permissionSpkHash
  | none => settlement.permissionSpkHash

def onSettlementObserved (settlement : SettlementInfo) : Hook := do
  let s ← get
  serveLatest
    { stateRoot := settlement.newState
      permissionRoot := carriedRoot s.indexer.latest settlement
      txid := settlement.txId
      daaScore := settlement.daaScore }

/-- `was_spent`: the entry this spend left. -/
def EmptiedLeaf.wasSpent (spend : PermissionSpend) (e : EmptiedLeaf) : Bool :=
  e.leafIndex.toNat = spend.leafIndex && e.spendTxid = spend.spendTxid

/-- The key of the record that carries the spend, the old root first. -/
def spentKey (book : Bytes32 → Option ExitRecord) (spend : PermissionSpend) : Option Bytes32 :=
  [spend.oldRoot, spend.newRoot].find? fun key =>
    (book key).any fun rec => rec.emptied.any (EmptiedLeaf.wasSpent spend)

/-- The record without the spend, one more leaf unclaimed. -/
def ExitRecord.unclaim (rec : ExitRecord) (spend : PermissionSpend) : ExitRecord :=
  { rec with
    emptied := rec.emptied.filter fun e => !e.wasSpent spend
    unclaimed := rec.unclaimed + 1 }

def onPermissionSpendReverted (T : ExitBackend) (spend : PermissionSpend)
    (spentOutpoint : Outpoint) : Hook := do
  write (unmarkLeafSpent spend.oldRoot spend.leafIndex)
  let s ← get
  match spentKey (fun key => s.indexer.records.lookup key) spend with
  | none => return ()
  | some key =>
    match s.indexer.records.lookup key with
    | none => throw .panic
    | some rec =>
      modifyRecords (AList.erase key)
      if key = spend.newRoot then
        -- the advance overwrote the anchor fields: undo both
        write (deleteExitRecord key)
        let rec' := { rec.unclaim spend with
          settlementTxid := spentOutpoint.transactionId
          outpointIndex := spentOutpoint.index }
        modifyRecords (AList.insert spend.oldRoot rec')
        writeExitRecord T spend.oldRoot rec'
      else
        modifyRecords (AList.insert spend.oldRoot (rec.unclaim spend))
        writeExitRecord T spend.oldRoot (rec.unclaim spend)

/-- The first entry of the mirror with these leaves. -/
def leavesKey (order : HashOrder) (m : ExitRecords) (leaves : List ExitLeaf) : Option Bytes32 :=
  ((order.iter m).find? fun e => e.2.leaves = leaves).map Prod.fst

def onExitsReverted (T : ExitBackend) (order : HashOrder) (bundle : ExitsForBundle)
    (_settlement : SettlementInfo) : Hook := do
  let s ← get
  let key := (leavesKey order s.indexer.records bundle.leaves).getD
    (T.viewRoot (freshLeaves bundle.leaves))
  write (deleteExitRecord key)
  modifyRecords (AList.erase key)

/-- Claims cannot exist above a reverted settlement: what a commit does. -/
def onExitsRecommitted (T : ExitBackend) (bundle : ExitsForBundle) (settlement : SettlementInfo) :
    Hook := onExitsCommitted T bundle settlement

/-- `reseed`: what the mirrors lack is read from the store. -/
def reseed (T : ExitBackend) (store : IndexStore) (ix : ExitIndexer) : ExitIndexer where
  records := store.exitRoots.foldl (fun m root =>
    match store.getExitRecord T root with
    | some rec => if (m.lookup root).isSome then m else m.insert root rec
    | none => m) ix.records
  latest := if ix.latest.isNone then store.latestSettlement else ix.latest

/-- Any call of a hook. -/
inductive ExitCall where
  | committed (bundle : ExitsForBundle) (settlement : SettlementInfo)
  | observed (settlement : SettlementInfo)
  | spent (spend : PermissionSpend)
  | spendReverted (spend : PermissionSpend) (spentOutpoint : Outpoint)
  | exitsReverted (bundle : ExitsForBundle) (settlement : SettlementInfo)
  | recommitted (bundle : ExitsForBundle) (settlement : SettlementInfo)

def ExitCall.hook (T : ExitBackend) (order : HashOrder) : ExitCall → Hook
  | committed bundle settlement => onExitsCommitted T bundle settlement
  | observed settlement => onSettlementObserved settlement
  | spent spend => onPermissionSpent T spend
  | spendReverted spend spentOutpoint => onPermissionSpendReverted T spend spentOutpoint
  | exitsReverted bundle settlement => onExitsReverted T order bundle settlement
  | recommitted bundle settlement => onExitsRecommitted T bundle settlement

/-! ## Plans -/

/-- What a hook reads: the mirrors, and the search of the mirror by leaves. -/
structure MirrorView where
  book : Book
  latest : Option LatestSettlement
  hit : List ExitLeaf → Option Bytes32

def ExitIndexer.view (order : HashOrder) (ix : ExitIndexer) : MirrorView where
  book := ix.records.book
  latest := ix.latest
  hit := leavesKey order ix.records

/-- What a hook writes: a mark, records filed and dropped, the served row. -/
structure Plan where
  marks : List WriteOp
  edits : List (Bytes32 × Option ExitRecord)
  row : Option LatestSettlement

def servedRow (bundle : ExitsForBundle) (settlement : SettlementInfo) : LatestSettlement where
  stateRoot := bundle.newState
  permissionRoot := bundle.permissionSpkHash
  txid := settlement.txId
  daaScore := settlement.daaScore

/-- The records a spend files and drops, given the record under its old root. -/
def spentEdits (spend : PermissionSpend) : Option ExitRecord → List (Bytes32 × Option ExitRecord)
  | none => [(spend.oldRoot, none)]
  | some rec =>
    if rec.unclaimed = 0 ∨ (rec.emptied.any fun e => e.leafIndex.toNat = spend.leafIndex) then []
    else if rec.unclaimed > 1 then
      [(spend.oldRoot, none),
        (spend.newRoot, some { rec.claim spend with
          settlementTxid := spend.spendTxid
          outpointIndex := spend.newOutpointIndex
          unclaimed := rec.unclaimed - 1 })]
    else [(spend.oldRoot, some { rec.claim spend with unclaimed := 0 })]

/-- The records a spend's revert files and drops. -/
def unspentEdits (book : Book) (spend : PermissionSpend) (spentOutpoint : Outpoint) :
    List (Bytes32 × Option ExitRecord) :=
  match spentKey book spend with
  | none => []
  | some key =>
    match book key with
    | none => []
    | some rec =>
      if key = spend.newRoot then
        [(key, none), (spend.oldRoot, some { rec.unclaim spend with
          settlementTxid := spentOutpoint.transactionId
          outpointIndex := spentOutpoint.index })]
      else [(spend.oldRoot, some (rec.unclaim spend))]

def ExitCall.plan (T : ExitBackend) (v : MirrorView) : ExitCall → Plan
  | committed bundle settlement | recommitted bundle settlement =>
    { marks := []
      edits := [((recordFor T bundle settlement).1, some (recordFor T bundle settlement).2)]
      row := some (servedRow bundle settlement) }
  | observed settlement =>
    { marks := []
      edits := []
      row := some
        { stateRoot := settlement.newState
          permissionRoot := carriedRoot v.latest settlement
          txid := settlement.txId
          daaScore := settlement.daaScore } }
  | spent spend =>
    { marks := [markLeafSpent spend.oldRoot spend.leafIndex
        { spendTxid := spend.spendTxid, deduct := spend.deduct, newRoot := spend.newRoot }]
      edits := spentEdits spend (v.book spend.oldRoot)
      row := none }
  | spendReverted spend spentOutpoint =>
    { marks := [unmarkLeafSpent spend.oldRoot spend.leafIndex]
      edits := unspentEdits v.book spend spentOutpoint
      row := none }
  | exitsReverted bundle _ =>
    { marks := []
      edits := [((v.hit bundle.leaves).getD (T.viewRoot (freshLeaves bundle.leaves)), none)]
      row := none }

namespace Plan

def editOp (T : ExitBackend) (e : Bytes32 × Option ExitRecord) : Except Fault WriteOp :=
  match e.2 with
  | some rec => putExitRecord T e.1 rec
  | none => .ok (deleteExitRecord e.1)

/-- The batch of a plan; a record that cannot be encoded is a panic. -/
def ops (T : ExitBackend) (p : Plan) : Except Fault WriteBatch := do
  let edits ← p.edits.mapM (editOp T)
  return p.marks ++ (edits ++ p.row.toList.map putLatestSettlement)

/-- The plan on a book of records. -/
def onBook (p : Plan) (book : Book) : Book :=
  p.edits.foldl (fun b e => Function.update b e.1 e.2) book

end Plan

/-- The node has carried out a plan. -/
structure Node.Did (n n' : Node) (p : Plan) (wb : WriteBatch) : Prop where
  store : n'.store = n.store.commit wb
  mirror : n'.indexer.records.book = p.onBook n.indexer.records.book
  latest : n'.indexer.latest = p.row.or n.indexer.latest

section Plans

variable {T : ExitBackend} {order : HashOrder} {n : Node}

/-- The hook leaves what the plan says, or panics where the plan cannot be
encoded. -/
def Carries (T : ExitBackend) (ix : ExitIndexer) (p : Plan) (hook : Hook) : Prop :=
  wp hook
    (fun _ s => p.ops T = .ok s.wb ∧ s.indexer.records.book = p.onBook ix.records.book ∧
      s.indexer.latest = p.row.or ix.latest)
    (fun e _ => p.ops T = .error e) ⟨ix, []⟩

theorem wp_writeExitRecord_iff {root : Bytes32} {rec : ExitRecord} {Q : Unit → HookState → Prop}
    {E : Fault → HookState → Prop} {s : HookState} :
    wp (writeExitRecord T root rec) Q E s ↔
      match putExitRecord T root rec with
      | .ok op => Q () { s with wb := s.wb ++ [op] }
      | .error e => E e s := by
  unfold writeExitRecord
  cases putExitRecord T root rec <;> rfl

section Ops

variable (marks : List WriteOp) (row : Option LatestSettlement)

theorem Plan.ops_file (root : Bytes32) (rec : ExitRecord) :
    Plan.ops T ⟨marks, [(root, some rec)], row⟩ = (putExitRecord T root rec).map fun op =>
      marks ++ ([op] ++ row.toList.map putLatestSettlement) := by
  unfold Plan.ops
  rw [List.mapM_cons, List.mapM_nil]
  simp only [Plan.editOp]
  cases putExitRecord T root rec <;> rfl

theorem Plan.ops_move (old root : Bytes32) (rec : ExitRecord) :
    Plan.ops T ⟨marks, [(old, none), (root, some rec)], row⟩
      = (putExitRecord T root rec).map fun op =>
        marks ++ ([deleteExitRecord old, op] ++ row.toList.map putLatestSettlement) := by
  unfold Plan.ops
  rw [List.mapM_cons, List.mapM_cons, List.mapM_nil]
  simp only [Plan.editOp]
  cases putExitRecord T root rec <;> rfl

end Ops

theorem carries_committed (order : HashOrder) (ix : ExitIndexer) (bundle : ExitsForBundle)
    (settlement : SettlementInfo) :
    Carries T ix ((ExitCall.committed bundle settlement).plan T (ix.view order))
      (onExitsCommitted T bundle settlement) := by
  unfold Carries onExitsCommitted
  simp only [wp_bind, wp_writeExitRecord_iff, ExitCall.plan, Plan.ops_file]
  cases hop : putExitRecord T (recordFor T bundle settlement).1
      (recordFor T bundle settlement).2 with
  | error e => rfl
  | ok op => exact ⟨rfl, ExitRecords.book_insert _ _ _, rfl⟩

theorem carries_observed (order : HashOrder) (ix : ExitIndexer) (settlement : SettlementInfo) :
    Carries T ix ((ExitCall.observed settlement).plan T (ix.view order))
      (onSettlementObserved settlement) := ⟨rfl, rfl, rfl⟩

/-- Dropping what is not there changes nothing. -/
theorem Book.update_none {book : Book} {root : Bytes32} (h : book root = none) :
    Function.update book root none = book := by
  rw [← h, Function.update_eq_self]

theorem carries_spent (order : HashOrder) (ix : ExitIndexer) (spend : PermissionSpend) :
    Carries T ix ((ExitCall.spent spend).plan T (ix.view order))
      (onPermissionSpent T spend) := by
  unfold Carries onPermissionSpent
  simp only [wp_bind, wp_write, wp_get, ExitCall.plan, ExitIndexer.view]
  have hbook : ix.records.book spend.oldRoot = ix.records.lookup spend.oldRoot := rfl
  cases hrec : ix.records.lookup spend.oldRoot with
  | none =>
    rw [hrec] at hbook
    simp only [hbook, spentEdits, wp_write]
    exact ⟨rfl, (Book.update_none hbook).symm, rfl⟩
  | some rec =>
    rw [hrec] at hbook
    simp only [hbook, spentEdits]
    by_cases hguard : rec.unclaimed = 0 ∨
        (rec.emptied.any fun e => e.leafIndex.toNat = spend.leafIndex) = true
    · simp only [if_pos hguard, wp_pure]
      exact ⟨rfl, rfl, rfl⟩
    · by_cases hmore : rec.unclaimed > 1
      · simp only [if_neg hguard, if_pos hmore, wp_bind, wp_write, wp_modifyRecords,
          wp_writeExitRecord_iff, Plan.ops_move]
        cases hop : putExitRecord T spend.newRoot _ with
        | error e => rfl
        | ok op =>
          refine ⟨rfl, ?_, rfl⟩
          show ExitRecords.book _ = _
          rw [ExitRecords.book_insert, ExitRecords.book_erase]
          rfl
      · simp only [if_neg hguard, if_neg hmore, wp_bind, wp_modifyRecords, wp_writeExitRecord_iff,
          Plan.ops_file]
        cases hop : putExitRecord T spend.oldRoot _ with
        | error e => rfl
        | ok op => exact ⟨rfl, ExitRecords.book_insert _ _ _, rfl⟩

theorem carries_spendReverted (order : HashOrder) (ix : ExitIndexer) (spend : PermissionSpend)
    (spentOutpoint : Outpoint) :
    Carries T ix ((ExitCall.spendReverted spend spentOutpoint).plan T (ix.view order))
      (onPermissionSpendReverted T spend spentOutpoint) := by
  unfold Carries onPermissionSpendReverted
  simp only [wp_bind, wp_write, wp_get, ExitCall.plan, ExitIndexer.view]
  have hbook : (fun key => ix.records.lookup key) = ix.records.book := rfl
  simp only [hbook, unspentEdits]
  cases hkey : spentKey ix.records.book spend with
  | none => exact ⟨rfl, rfl, rfl⟩
  | some key =>
    have hcarries := List.find?_some hkey
    have hrec : ∃ rec, ix.records.lookup key = some rec := by
      cases h : ix.records.lookup key with
      | some rec => exact ⟨rec, rfl⟩
      | none =>
        have hnone : ix.records.book key = none := h
        simp [hnone] at hcarries
    obtain ⟨rec, hrec⟩ := hrec
    have hrec' : ix.records.book key = some rec := hrec
    simp only [hrec, hrec', wp_bind, wp_modifyRecords]
    by_cases hnew : key = spend.newRoot
    · simp only [if_pos hnew, wp_bind, wp_write, wp_modifyRecords, wp_writeExitRecord_iff,
        Plan.ops_move]
      cases hop : putExitRecord T spend.oldRoot _ with
      | error e => rfl
      | ok op =>
        refine ⟨rfl, ?_, rfl⟩
        show ExitRecords.book _ = _
        rw [ExitRecords.book_insert, ExitRecords.book_erase]
        rfl
    · have hold : key = spend.oldRoot := by
        have hmem := List.mem_of_find?_eq_some hkey
        simpa [hnew] using hmem
      simp only [if_neg hnew, wp_bind, wp_modifyRecords, wp_writeExitRecord_iff, Plan.ops_file]
      cases hop : putExitRecord T spend.oldRoot _ with
      | error e => rfl
      | ok op =>
        refine ⟨rfl, ?_, rfl⟩
        show ExitRecords.book _ = _
        rw [ExitRecords.book_insert, ExitRecords.book_erase, hold, Function.update_idem]
        rfl

theorem carries_exitsReverted (order : HashOrder) (ix : ExitIndexer)
    (bundle : ExitsForBundle) (settlement : SettlementInfo) :
    Carries T ix ((ExitCall.exitsReverted bundle settlement).plan T (ix.view order))
      (onExitsReverted T order bundle settlement) :=
  ⟨rfl, ExitRecords.book_erase _ _, rfl⟩

/-- Every hook carries out its plan. -/
theorem ExitCall.carries (c : ExitCall) (ix : ExitIndexer) :
    Carries T ix (c.plan T (ix.view order)) (c.hook T order) := by
  cases c with
  | committed bundle settlement => exact carries_committed order ix bundle settlement
  | observed settlement => exact carries_observed order ix settlement
  | spent spend => exact carries_spent order ix spend
  | spendReverted spend spentOutpoint => exact carries_spendReverted order ix spend spentOutpoint
  | exitsReverted bundle settlement => exact carries_exitsReverted order ix bundle settlement
  | recommitted bundle settlement => exact carries_committed order ix bundle settlement

/-- Running a hook and committing its batch is carrying out its plan. -/
theorem Node.run_plan (order : HashOrder) (c : ExitCall) (n : Node) :
    match (c.plan T (n.indexer.view order)).ops T with
    | .ok wb => ∃ n', n.run (c.hook T order) = .ok n' ∧
        n.Did n' (c.plan T (n.indexer.view order)) wb
    | .error e => n.run (c.hook T order) = .error e := by
  have hcarries : Carries T n.indexer (c.plan T (n.indexer.view order)) (c.hook T order) :=
    c.carries n.indexer
  unfold Carries wp at hcarries
  unfold Node.run
  cases hrun : c.hook T order ⟨n.indexer, []⟩ with
  | ok u s =>
    simp only [hrun] at hcarries
    simp only [hcarries.1]
    exact ⟨_, rfl, rfl, hcarries.2.1, hcarries.2.2⟩
  | error e s =>
    simp only [hrun] at hcarries
    simp only [hcarries]

end Plans

end TicTacToe
