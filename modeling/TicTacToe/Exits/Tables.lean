/-
TicTacToe.Exits.Tables — the exit store is three tables
(`node/src/da_store.rs`) in a column it shares with the game index.

Five families of keys share `StateSpace::Index`. `StoreKey` names them
all, and `StoreKey.bytes_injective` is the one fact about bytes: a write
under one key is seen under no other, whichever family. What is left is
the codecs, which read back what they wrote, except that the leaf count of
a record is cast to `u32` unchecked: `ExitRecord.Encodable` is exactly
when a put can be read back.

No `sorry`, no `axiom`, no `native_decide`.
-/
import TicTacToe.Index.Indexer
import TicTacToe.Lib.Refine

namespace TicTacToe

open Lib

/-! ## The keys of the column -/

/-- A key the game indexer writes. -/
inductive IndexerKey where
  | playerEvent (player : ResourceId) (event : PlayerEvent) (version : UInt64) (game : ResourceId)
  | gameStatus (status : GameStatus) (game : ResourceId)
  deriving DecidableEq

def IndexerKey.bytes : IndexerKey → List UInt8
  | playerEvent player event version game => playerEventKey player event version game
  | gameStatus status game => gameStatusKey status game

/-- A key of any of the five families. -/
inductive StoreKey where
  | record (root : Bytes32)
  | spent (root : Bytes32) (leafIndex : UInt32)
  | settlement
  | indexer (key : IndexerKey)
  deriving DecidableEq

def StoreKey.bytes : StoreKey → List UInt8
  | record root => exitRecordKey root
  | spent root leafIndex => spentMarkKey root leafIndex.toNat
  | settlement => latestSettlementKey
  | indexer key => key.bytes

theorem IndexerKey.bytes_injective : Function.Injective IndexerKey.bytes := by
  intro k k' h
  cases k with
  | playerEvent p e v id =>
    cases k' with
    | playerEvent p' e' v' id' =>
      obtain ⟨rfl, rfl, rfl, rfl⟩ := playerEventKey_inj h
      rfl
    | gameStatus s' id' => exact absurd h (playerEventKey_ne_gameStatusKey _ _ _ _ _ _)
  | gameStatus s id =>
    cases k' with
    | playerEvent p' e' v' id' => exact absurd h.symm (playerEventKey_ne_gameStatusKey _ _ _ _ _ _)
    | gameStatus s' id' =>
      obtain ⟨rfl, rfl⟩ := gameStatusKey_inj h
      rfl

/-- The indexer's keys start with another byte than the exit store's. -/
theorem IndexerKey.head_ne (key : IndexerKey) (rest : List UInt8) :
    key.bytes ≠ exitsDiscriminant :: rest := by
  intro h
  cases key with
  | playerEvent p e v id => exact absurd (List.cons.inj h).1 (by decide)
  | gameStatus s id => exact absurd (List.cons.inj h).1 (by decide)

/-- No two keys of the column are the same bytes. -/
theorem StoreKey.bytes_injective : Function.Injective StoreKey.bytes := by
  intro k k' h
  cases k with
  | record root =>
    cases k' with
    | record root' => rw [exitRecordKey_injective h]
    | spent root' i => exact absurd h (exitRecordKey_ne_spentMarkKey _ _ _)
    | settlement => exact absurd h (exitRecordKey_ne_latest _)
    | indexer key => exact absurd h.symm (key.head_ne _)
  | spent root i =>
    cases k' with
    | record root' => exact absurd h.symm (exitRecordKey_ne_spentMarkKey _ _ _)
    | spent root' j =>
      obtain ⟨rfl, hindex⟩ := spentMarkKey_eq h
      rw [UInt32.ofNat_toNat, UInt32.ofNat_toNat] at hindex
      rw [hindex]
    | settlement => exact absurd h (spentMarkKey_ne_latest _ _)
    | indexer key => exact absurd h.symm (key.head_ne _)
  | settlement =>
    cases k' with
    | record root' => exact absurd h.symm (exitRecordKey_ne_latest _)
    | spent root' j => exact absurd h.symm (spentMarkKey_ne_latest _ _)
    | settlement => rfl
    | indexer key => exact absurd h.symm (key.head_ne _)
  | indexer key =>
    cases k' with
    | record root' => exact absurd h (key.head_ne _)
    | spent root' j => exact absurd h (key.head_ne _)
    | settlement => exact absurd h (key.head_ne _)
    | indexer key' => rw [IndexerKey.bytes_injective h]

/-! ## Cells -/

namespace IndexStore

variable (store : IndexStore)

/-- What the store holds under each key of the column. -/
def cells (store : IndexStore) (key : StoreKey) : Option (List UInt8) := store.lookup key.bytes

theorem cells_put (key : StoreKey) (val : List UInt8) :
    (store.apply (.put key.bytes val)).cells = Function.update store.cells key (some val) := by
  funext k
  by_cases h : k = key
  · subst h
    simp [cells, apply]
  · have hne : k.bytes ≠ key.bytes := fun e => h (StoreKey.bytes_injective e)
    simp only [cells, apply, AList.lookup_insert_ne hne, Function.update_of_ne h]

theorem cells_delete (key : StoreKey) :
    (store.apply (.delete key.bytes)).cells = Function.update store.cells key none := by
  funext k
  by_cases h : k = key
  · subst h
    simp [cells, apply]
  · have hne : k.bytes ≠ key.bytes := fun e => h (StoreKey.bytes_injective e)
    simp only [cells, apply, AList.lookup_erase_ne hne, Function.update_of_ne h]

end IndexStore

/-! ## The tables -/

/-- What the exit store is for: records and spent marks by key, and one row. -/
@[ext] structure ExitTables where
  records : Bytes32 → Option ExitRecord
  spent : Bytes32 → UInt32 → Option SpentMark
  settlement : Option LatestSettlement

def ExitTables.empty : ExitTables :=
  { records := fun _ => none, spent := fun _ _ => none, settlement := none }

/-- The writes that share the column. -/
inductive StoreOp where
  | putExitRecord (root : Bytes32) (rec : ExitRecord)
  | deleteExitRecord (root : Bytes32)
  | markLeafSpent (root : Bytes32) (leafIndex : UInt32) (mark : SpentMark)
  | unmarkLeafSpent (root : Bytes32) (leafIndex : UInt32)
  | putLatestSettlement (row : LatestSettlement)
  /-- A put or a delete of the game indexer. -/
  | indexer (key : IndexerKey) (val : Option (List UInt8))

/-- A record to be put has counts that fit. -/
def StoreOp.Fits : StoreOp → Prop
  | putExitRecord _ rec => rec.Encodable
  | _ => True

def StoreOp.perform (T : ExitBackend) : StoreOp → EStateM Fault IndexStore Unit
  | putExitRecord root rec => do
    let op ← liftE (TicTacToe.putExitRecord T root rec)
    modify fun store => store.apply op
  | deleteExitRecord root => modify fun store => store.apply (TicTacToe.deleteExitRecord root)
  | markLeafSpent root leafIndex mark =>
    modify fun store => store.apply (TicTacToe.markLeafSpent root leafIndex.toNat mark)
  | unmarkLeafSpent root leafIndex =>
    modify fun store => store.apply (TicTacToe.unmarkLeafSpent root leafIndex.toNat)
  | putLatestSettlement row =>
    modify fun store => store.apply (TicTacToe.putLatestSettlement row)
  | indexer key (some val) => modify fun store => store.apply (.put key.bytes val)
  | indexer key none => modify fun store => store.apply (.delete key.bytes)

/-- Each write changes its own table, at its own key. -/
def StoreOp.onTables : StoreOp → ExitTables → Unit × ExitTables
  | putExitRecord root rec, t =>
    ((), { t with records := Function.update t.records root (some rec) })
  | deleteExitRecord root, t => ((), { t with records := Function.update t.records root none })
  | markLeafSpent root i mark, t =>
    ((), { t with
      spent := Function.update t.spent root (Function.update (t.spent root) i (some mark)) })
  | unmarkLeafSpent root i, t =>
    ((), { t with spent := Function.update t.spent root (Function.update (t.spent root) i none) })
  | putLatestSettlement row, t => ((), { t with settlement := some row })
  | indexer _ _, t => ((), t)

/-- The tables cells stand for. -/
def tablesOf (T : ExitBackend) (cells : StoreKey → Option (List UInt8)) : ExitTables where
  records root := (cells (.record root)).bind (ExitRecord.ofBytes T)
  spent root i := (cells (.spent root i)).bind SpentMark.ofBytes
  settlement := (cells .settlement).bind LatestSettlement.ofBytes

/-- Under every record key there is a record. -/
def RecordsReadable (T : ExitBackend) (cells : StoreKey → Option (List UInt8)) : Prop :=
  ∀ root val, cells (.record root) = some val → (ExitRecord.ofBytes T val).isSome = true

section Cells

variable {T : ExitBackend} {cells : StoreKey → Option (List UInt8)} {root : Bytes32}

theorem tablesOf_record (v : Option (List UInt8)) :
    tablesOf T (Function.update cells (.record root) v) =
      { tablesOf T cells with
        records := Function.update (tablesOf T cells).records root
          (v.bind (ExitRecord.ofBytes T)) } := by
  ext1
  · funext r
    by_cases h : r = root
    · subst h
      simp [tablesOf]
    · have hne : StoreKey.record r ≠ .record root := fun e => h (StoreKey.record.inj e)
      simp only [tablesOf, Function.update_of_ne hne, Function.update_of_ne h]
  · funext r i
    simp [tablesOf]
  · simp [tablesOf]

theorem tablesOf_spent (i : UInt32) (v : Option (List UInt8)) :
    tablesOf T (Function.update cells (.spent root i) v) =
      { tablesOf T cells with
        spent := Function.update (tablesOf T cells).spent root
          (Function.update ((tablesOf T cells).spent root) i (v.bind SpentMark.ofBytes)) } := by
  ext1
  · funext r
    simp [tablesOf]
  · funext r j
    by_cases h : r = root
    · subst h
      by_cases hi : j = i
      · subst hi
        simp [tablesOf]
      · simp [tablesOf, hi]
    · simp [tablesOf, h]
  · simp [tablesOf]

theorem tablesOf_settlement (v : Option (List UInt8)) :
    tablesOf T (Function.update cells .settlement v) =
      { tablesOf T cells with settlement := v.bind LatestSettlement.ofBytes } := by
  ext1
  · funext r
    simp [tablesOf]
  · funext r i
    simp [tablesOf]
  · simp [tablesOf]

theorem tablesOf_indexer (key : IndexerKey) (v : Option (List UInt8)) :
    tablesOf T (Function.update cells (.indexer key) v) = tablesOf T cells := by
  ext1
  · funext r
    simp [tablesOf]
  · funext r i
    simp [tablesOf]
  · simp [tablesOf]

theorem RecordsReadable.update (h : RecordsReadable T cells) {key : StoreKey}
    {v : Option (List UInt8)}
    (hv : ∀ root val, key = .record root → v = some val →
      (ExitRecord.ofBytes T val).isSome = true) :
    RecordsReadable T (Function.update cells key v) := by
  intro root val hval
  by_cases hk : StoreKey.record root = key
  · rw [hk, Function.update_self] at hval
    exact hv root val hk.symm hval
  · rw [Function.update_of_ne hk] at hval
    exact h root val hval

end Cells

section Simulation

variable {T : ExitBackend}

/-- One write is one step of the tables. -/
theorem perform_simulates_tables (hT : T.Lawful) :
    Simulates StoreOp.Fits (fun store : IndexStore => RecordsReadable T store.cells)
      (fun store => tablesOf T store.cells) (StoreOp.perform T) StoreOp.onTables := by
  intro op store hfits hread
  beta_reduce at hread ⊢
  cases op with
  | putExitRecord root rec =>
    obtain ⟨val, hval, hback⟩ := ExitRecord.ofBytes_toBytes hT hfits
    have hput : putExitRecord T root rec = .ok (.put (StoreKey.record root).bytes val) := by
      rw [putExitRecord, hval]
      rfl
    refine ⟨store.apply (.put (StoreKey.record root).bytes val), ?_, ?_, ?_⟩
    · simp only [StoreOp.perform, hput]
      rfl
    · rw [store.cells_put]
      refine hread.update ?_
      intro _ val' _ hval'
      rw [← Option.some.inj hval', hback]
      rfl
    · rw [store.cells_put, tablesOf_record, Option.bind_some, hback]
      rfl
  | deleteExitRecord root =>
    refine ⟨store.apply (.delete (StoreKey.record root).bytes), rfl, ?_, ?_⟩
    · rw [store.cells_delete]
      exact hread.update fun _ _ _ h => by cases h
    · rw [store.cells_delete, tablesOf_record]
      rfl
  | markLeafSpent root i mark =>
    refine ⟨store.apply (.put (StoreKey.spent root i).bytes mark.toBytes), rfl, ?_, ?_⟩
    · rw [store.cells_put]
      exact hread.update fun _ _ h => by cases h
    · rw [store.cells_put, tablesOf_spent, Option.bind_some, SpentMark.ofBytes_toBytes]
      rfl
  | unmarkLeafSpent root i =>
    refine ⟨store.apply (.delete (StoreKey.spent root i).bytes), rfl, ?_, ?_⟩
    · rw [store.cells_delete]
      exact hread.update fun _ _ h => by cases h
    · rw [store.cells_delete, tablesOf_spent]
      rfl
  | putLatestSettlement row =>
    refine ⟨store.apply (.put StoreKey.settlement.bytes row.toBytes), rfl, ?_, ?_⟩
    · rw [store.cells_put]
      exact hread.update fun _ _ h => by cases h
    · rw [store.cells_put, tablesOf_settlement, Option.bind_some, LatestSettlement.ofBytes_toBytes]
      rfl
  | indexer key val =>
    cases val with
    | some val =>
      refine ⟨store.apply (.put (StoreKey.indexer key).bytes val), rfl, ?_, ?_⟩
      · rw [store.cells_put]
        exact hread.update fun _ _ h => by cases h
      · rw [store.cells_put, tablesOf_indexer]
        rfl
    | none =>
      refine ⟨store.apply (.delete (StoreKey.indexer key).bytes), rfl, ?_, ?_⟩
      · rw [store.cells_delete]
        exact hread.update fun _ _ h => by cases h
      · rw [store.cells_delete, tablesOf_indexer]
        rfl

/-- Every read of the store is a look at the tables. -/
structure ServesTables (T : ExitBackend) (store : IndexStore) (t : ExitTables) : Prop where
  getExitRecord : ∀ root, store.getExitRecord T root = t.records root
  leafSpent : ∀ root (i : UInt32), store.leafSpent root i.toNat = t.spent root i
  latestSettlement : store.latestSettlement = t.settlement
  exitRoots_nodup : store.exitRoots.Nodup
  mem_exitRoots : ∀ root, root ∈ store.exitRoots ↔ (t.records root).isSome = true

theorem serves_tablesOf {store : IndexStore} (hread : RecordsReadable T store.cells) :
    ServesTables T store (tablesOf T store.cells) where
  getExitRecord _ := rfl
  leafSpent _ _ := rfl
  latestSettlement := rfl
  exitRoots_nodup := store.exitRoots_nodup
  mem_exitRoots root := by
    rw [store.mem_exitRoots_iff]
    show (store.cells (.record root)).isSome = true ↔
      ((store.cells (.record root)).bind (ExitRecord.ofBytes T)).isSome = true
    cases hval : store.cells (.record root) with
    | none => exact Iff.rfl
    | some val => exact ⟨fun _ => hread root val hval, fun _ => rfl⟩

/-- A put can be read back exactly when the counts fit: with more leaves the
stored count is not theirs, with more emptied entries the put panics. -/
theorem put_reads_back_iff (hT : T.Lawful) (root : Bytes32) (rec : ExitRecord)
    (store : IndexStore) :
    (∃ store', (StoreOp.putExitRecord root rec).perform T store = .ok () store' ∧
      store'.getExitRecord T root = some rec) ↔ rec.Encodable := by
  constructor
  · intro h
    obtain ⟨store', -, hget⟩ := h
    obtain ⟨val, -, hval⟩ := Option.bind_eq_some_iff.mp hget
    exact ExitRecord.encodable_of_ofBytes hval
  · intro h
    obtain ⟨op, hop, hrecords⟩ := IndexStore.records_putExitRecord root hT h
    refine ⟨store.apply op, ?_, ?_⟩
    · simp only [StoreOp.perform, hop]
      rfl
    · have hget := congrFun (hrecords store) root
      rwa [Function.update_self] at hget

/-- **The exit store is its tables.** Over every interleaving of its writes
and the game indexer's whose records have counts that fit, every read
returns what the tables hold: the last value put and not deleted since,
whatever happened under other keys. A record whose counts do not fit is
never read back. -/
theorem exit_store_faithful (hT : T.Lawful) :
    (∀ ops : List StoreOp, (∀ op ∈ ops, op.Fits) →
      ∃ outs store, performAll (StoreOp.perform T) ops (∅ : IndexStore) = .ok outs store ∧
        ServesTables T store (runSpec StoreOp.onTables ops .empty).2) ∧
    ∀ (root : Bytes32) (rec : ExitRecord) (store : IndexStore),
      (∃ store', (StoreOp.putExitRecord root rec).perform T store = .ok () store' ∧
        store'.getExitRecord T root = some rec) ↔ rec.Encodable := by
  refine ⟨fun ops hfits => ?_, fun root rec store => put_reads_back_iff hT root rec store⟩
  have hempty : tablesOf T (∅ : IndexStore).cells = .empty := by
    have hcells : (∅ : IndexStore).cells = fun _ => none := by
      funext key
      simp [IndexStore.cells]
    rw [hcells]
    rfl
  have hread : RecordsReadable T (∅ : IndexStore).cells := by
    intro root val hval
    simp [IndexStore.cells] at hval
  obtain ⟨store, hrun, hread', htables⟩ := (perform_simulates_tables hT).run ops hfits hread
  rw [hempty] at htables
  exact ⟨_, store, hrun, htables ▸ serves_tablesOf hread'⟩

namespace Sample

def exitRoot : Bytes32 := padTo 32 [0xee]

/-- A record of one leaf, claimed. -/
def exitRecord : ExitRecord where
  settlementTxid := padTo 32 [0x71]
  outpointIndex := 1
  daaScore := 100
  unclaimed := 0
  rent := 3
  leaves := [⟨.pubKey (padTo 32 [0xa1]), 5000⟩]
  emptied := [⟨0, padTo 32 [0x72], 5000⟩]

/-- A record whose leaf count does not fit a `u32`. -/
def wideRecord : ExitRecord :=
  { exitRecord with leaves := List.replicate (2 ^ 32) ⟨.pubKey (padTo 32 [0xa1]), 1⟩ }

end Sample

theorem exit_store_faithful_record :
    ∃ outs store, performAll (StoreOp.perform .plain)
        [.putExitRecord Sample.exitRoot Sample.exitRecord,
          .indexer (.gameStatus .open Sample.exitRoot) (some [1])] (∅ : IndexStore)
          = .ok outs store ∧
      ServesTables .plain store (runSpec StoreOp.onTables
        [.putExitRecord Sample.exitRoot Sample.exitRecord,
          .indexer (.gameStatus .open Sample.exitRoot) (some [1])] .empty).2 := by
  refine (exit_store_faithful ExitBackend.plain_lawful).1 _ ?_
  intro op hop
  simp only [List.mem_cons, List.not_mem_nil, or_false] at hop
  rcases hop with rfl | rfl
  · exact ⟨by decide, by decide⟩
  · trivial

/-- A record of 2^32 leaves is stored and not found again. -/
theorem wide_record_lost :
    ∃ store, performAll (StoreOp.perform .plain)
        [.putExitRecord Sample.exitRoot Sample.wideRecord] (∅ : IndexStore) = .ok [()] store ∧
      store.getExitRecord .plain Sample.exitRoot ≠ some Sample.wideRecord := by
  have hput : ∃ op, putExitRecord .plain Sample.exitRoot Sample.wideRecord = .ok op := by
    have hemptied : Sample.wideRecord.emptied.length < 2 ^ 32 := by decide
    unfold putExitRecord ExitRecord.toBytes
    rw [if_pos hemptied]
    exact ⟨_, rfl⟩
  obtain ⟨op, hop⟩ := hput
  refine ⟨(∅ : IndexStore).apply op, ?_, ?_⟩
  · simp only [performAll, StoreOp.perform, hop]
    rfl
  · intro h
    obtain ⟨val, -, hval⟩ := Option.bind_eq_some_iff.mp h
    have hlen := (ExitRecord.encodable_of_ofBytes hval).leaves
    rw [Sample.wideRecord, List.length_replicate] at hlen
    exact Nat.lt_irrefl _ hlen

end Simulation

end TicTacToe
