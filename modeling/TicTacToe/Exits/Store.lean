/-
TicTacToe.Exits.Store — the index keyspace exit records live in
(`node/src/da_store.rs`): keys, write batches and the root scan.

Three kinds of keys share one column and differ in length. The results
are about `records`, the map of exit records that a store stands for: a
put and a delete update it at one root, a mark or a settlement row leaves
it alone, and the scan finds every root it holds.

No `sorry`, no `axiom`, no `native_decide`.
-/
import Mathlib.Data.List.AList
import Mathlib.Data.List.Sort
import TicTacToe.Exits.Record

namespace TicTacToe

open Lib

/-! ## Keys -/

def exitsDiscriminant : UInt8 := 0x03

def spentMarkDelimiter : UInt8 := 0xFF

def latestSettlementMarker : UInt8 := 0xFE

/-- `0x03 || root[32]`. -/
def exitRecordKey (root : Bytes32) : List UInt8 := exitsDiscriminant :: root.val

/-- `0x03 || root[32] || 0xFF || index_be_u32`. -/
def spentMarkKey (root : Bytes32) (leafIndex : Nat) : List UInt8 :=
  exitsDiscriminant :: (root.val ++ spentMarkDelimiter :: (le32 (UInt32.ofNat leafIndex)).reverse)

/-- `0x03 || 0xFE`. -/
def latestSettlementKey : List UInt8 := [exitsDiscriminant, latestSettlementMarker]

theorem exitRecordKey_injective : Function.Injective exitRecordKey := fun _ _ h =>
  Subtype.ext (List.cons.inj h).2

theorem exitRecordKey_length (root : Bytes32) : (exitRecordKey root).length = 33 := by
  rw [exitRecordKey, List.length_cons, root.property]

theorem exitRecordKey_ne_spentMarkKey (root root' : Bytes32) (i : Nat) :
    exitRecordKey root ≠ spentMarkKey root' i := by
  intro h
  have hlen := congrArg List.length h
  rw [exitRecordKey_length] at hlen
  simp [spentMarkKey, root'.property] at hlen

/-- A mark key spells its root and the index as a `u32`. -/
theorem spentMarkKey_eq {root root' : Bytes32} {i j : Nat}
    (h : spentMarkKey root i = spentMarkKey root' j) :
    root = root' ∧ UInt32.ofNat i = UInt32.ofNat j := by
  obtain ⟨hroot, htail⟩ :=
    List.append_inj (List.cons.inj h).2 (root.property.trans root'.property.symm)
  have hindex := List.reverse_injective (List.cons.inj htail).2
  have hback := congrArg (fun bs => UInt32.ofNat (leNat bs)) hindex
  simp only [ofNat_leNat_le32] at hback
  exact ⟨Subtype.ext hroot, hback⟩

theorem spentMarkKey_ne_latest (root : Bytes32) (i : Nat) :
    spentMarkKey root i ≠ latestSettlementKey := by
  intro h
  have hlen := congrArg List.length h
  simp [spentMarkKey, root.property, latestSettlementKey] at hlen

theorem exitRecordKey_ne_latest (root : Bytes32) : exitRecordKey root ≠ latestSettlementKey := by
  intro h
  have hlen := congrArg List.length h
  rw [exitRecordKey_length] at hlen
  exact absurd hlen (by decide)

/-! ## Store and batches -/

/-- `StateSpace::Index`. -/
abbrev IndexStore := AList fun _ : List UInt8 => List UInt8

inductive WriteOp where
  | put (key val : List UInt8)
  | delete (key : List UInt8)

/-- The key an operation writes. -/
def WriteOp.key : WriteOp → List UInt8
  | put key _ => key
  | delete key => key

abbrev WriteBatch := List WriteOp

namespace IndexStore

def apply (store : IndexStore) : WriteOp → IndexStore
  | .put key val => store.insert key val
  | .delete key => store.erase key

/-- `store.commit(wb)`: the writes of the batch, in order. -/
def commit (store : IndexStore) (wb : WriteBatch) : IndexStore := wb.foldl apply store

/-- `range_iter`: the entries with `start ≤ key < stop`, in key order. -/
def rangeIter (store : IndexStore) (start stop : List UInt8) : List (List UInt8 × List UInt8) :=
  ((store.entries.map fun e => (e.1, e.2)).filter fun e => start ≤ e.1 ∧ e.1 < stop).insertionSort
    fun a b => a.1 ≤ b.1

/-- `get_exit_record`. -/
def getExitRecord (T : ExitBackend) (store : IndexStore) (root : Bytes32) : Option ExitRecord :=
  (store.lookup (exitRecordKey root)).bind (ExitRecord.ofBytes T)

/-- `leaf_spent`. -/
def leafSpent (store : IndexStore) (root : Bytes32) (leafIndex : Nat) : Option SpentMark :=
  (store.lookup (spentMarkKey root leafIndex)).bind SpentMark.ofBytes

/-- `latest_settlement`. -/
def latestSettlement (store : IndexStore) : Option LatestSettlement :=
  (store.lookup latestSettlementKey).bind LatestSettlement.ofBytes

/-- `&k[1..33]`, of a 33-byte record key. -/
def rootOfKey (key : List UInt8) : Option Bytes32 :=
  match key with
  | d :: rest => if h : rest.length = 32 then
      if d = exitsDiscriminant then some ⟨rest, h⟩ else none
    else none
  | [] => none

/-- `exit_roots`. -/
def exitRoots (store : IndexStore) : List Bytes32 :=
  (store.rangeIter [exitsDiscriminant] [exitsDiscriminant + 1]).filterMap fun e => rootOfKey e.1

end IndexStore

def putExitRecord (T : ExitBackend) (root : Bytes32) (rec : ExitRecord) : Except Fault WriteOp :=
  (rec.toBytes T).map (.put (exitRecordKey root))

def deleteExitRecord (root : Bytes32) : WriteOp := .delete (exitRecordKey root)

def markLeafSpent (root : Bytes32) (leafIndex : Nat) (mark : SpentMark) : WriteOp :=
  .put (spentMarkKey root leafIndex) mark.toBytes

def unmarkLeafSpent (root : Bytes32) (leafIndex : Nat) : WriteOp :=
  .delete (spentMarkKey root leafIndex)

def putLatestSettlement (row : LatestSettlement) : WriteOp :=
  .put latestSettlementKey row.toBytes

namespace IndexStore

variable {T : ExitBackend} (store : IndexStore) (root : Bytes32)

/-! ## The map of records -/

/-- The exit records a store stands for. -/
def records (T : ExitBackend) (store : IndexStore) : Bytes32 → Option ExitRecord :=
  getExitRecord T store

theorem commit_append (wb wb' : WriteBatch) :
    store.commit (wb ++ wb') = (store.commit wb).commit wb' := List.foldl_append

@[simp] theorem commit_singleton (op : WriteOp) : store.commit [op] = store.apply op := rfl

/-- A write leaves every other key alone. -/
theorem lookup_apply_ne {op : WriteOp} {k : List UInt8} (h : op.key ≠ k) :
    (store.apply op).lookup k = store.lookup k := by
  cases op with
  | put key val => exact AList.lookup_insert_ne (Ne.symm h)
  | delete key => exact AList.lookup_erase_ne (Ne.symm h)

/-- A batch leaves every key it does not name alone. -/
theorem lookup_commit_of_ne {k : List UInt8} {wb : WriteBatch} (h : ∀ op ∈ wb, op.key ≠ k) :
    (store.commit wb).lookup k = store.lookup k := by
  induction wb generalizing store with
  | nil => rfl
  | cons op wb ih =>
    have hhead := store.lookup_apply_ne (h op List.mem_cons_self)
    have htail := ih (store.apply op) fun op' hop => h op' (List.mem_cons_of_mem op hop)
    exact htail.trans hhead

/-- A write decides what its own key holds, whatever was there. -/
theorem lookup_apply_self (store store' : IndexStore) (op : WriteOp) :
    (store.apply op).lookup op.key = (store'.apply op).lookup op.key := by
  cases op with
  | put key val => exact (AList.lookup_insert store).trans (AList.lookup_insert store').symm
  | delete key =>
    show (store.erase key).lookup key = (store'.erase key).lookup key
    rw [AList.lookup_erase, AList.lookup_erase]

/-- A key the stores agree on is one they agree on after the same batch. -/
theorem lookup_commit_congr {store store' : IndexStore} {k : List UInt8}
    (h : store.lookup k = store'.lookup k) (wb : WriteBatch) :
    (store.commit wb).lookup k = (store'.commit wb).lookup k := by
  induction wb generalizing store store' with
  | nil => exact h
  | cons op wb ih =>
    refine ih ?_
    by_cases hk : op.key = k
    · subst hk
      exact lookup_apply_self store store' op
    · rw [store.lookup_apply_ne hk, store'.lookup_apply_ne hk, h]

/-- Puts of one value: the keys written hold it, the others what they held. -/
theorem lookup_commit_puts (keys : List (List UInt8)) (val k : List UInt8) :
    (store.commit (keys.map fun key => .put key val)).lookup k
      = if k ∈ keys then some val else store.lookup k := by
  induction keys generalizing store with
  | nil => rfl
  | cons key keys ih =>
    have htail := ih (store.apply (.put key val))
    rw [List.map_cons]
    refine htail.trans ?_
    by_cases hk : k = key
    · subst hk
      simp [apply]
    · simp [apply, hk, AList.lookup_insert_ne hk]

/-- Deletes: the keys named are gone, the others hold what they held. -/
theorem lookup_commit_deletes (keys : List (List UInt8)) (k : List UInt8) :
    (store.commit (keys.map .delete)).lookup k = if k ∈ keys then none else store.lookup k := by
  induction keys generalizing store with
  | nil => rfl
  | cons key keys ih =>
    have htail := ih (store.apply (.delete key))
    rw [List.map_cons]
    refine htail.trans ?_
    by_cases hk : k = key
    · subst hk
      simp [apply]
    · simp [apply, hk, AList.lookup_erase_ne hk]

theorem records_empty : records T (∅ : IndexStore) = fun _ => none := by
  funext root
  simp [records, getExitRecord]

/-- A key that is no record key is not seen by the records. -/
theorem records_put_other {key : List UInt8} (hkey : ∀ root, exitRecordKey root ≠ key)
    (val : List UInt8) : (store.apply (.put key val)).records T = store.records T := by
  funext root
  simp only [records, getExitRecord, apply, AList.lookup_insert_ne (hkey root)]

@[simp] theorem records_markLeafSpent (i : Nat) (mark : SpentMark) :
    (store.apply (markLeafSpent root i mark)).records T = store.records T :=
  records_put_other store (fun _ => exitRecordKey_ne_spentMarkKey _ _ _) _

@[simp] theorem records_unmarkLeafSpent (i : Nat) :
    (store.apply (unmarkLeafSpent root i)).records T = store.records T := by
  funext r
  have hkey : exitRecordKey r ≠ spentMarkKey root i := exitRecordKey_ne_spentMarkKey _ _ _
  simp only [records, getExitRecord, unmarkLeafSpent, apply, AList.lookup_erase_ne hkey]

@[simp] theorem records_putLatestSettlement (row : LatestSettlement) :
    (store.apply (putLatestSettlement row)).records T = store.records T :=
  records_put_other store exitRecordKey_ne_latest _

@[simp] theorem records_deleteExitRecord :
    (store.apply (deleteExitRecord root)).records T
      = Function.update (store.records T) root none := by
  funext r
  by_cases h : r = root
  · subst h
    simp [records, getExitRecord, apply, deleteExitRecord]
  · have hkey : exitRecordKey r ≠ exitRecordKey root := fun e => h (exitRecordKey_injective e)
    simp only [records, getExitRecord, apply, deleteExitRecord, AList.lookup_erase_ne hkey,
      Function.update_of_ne h]

/-- A put stores its record under its root and touches no other. -/
theorem records_putExitRecord (hT : T.Lawful) {rec : ExitRecord} (hrec : rec.Encodable) :
    ∃ op, putExitRecord T root rec = .ok op ∧ ∀ store : IndexStore,
      (store.apply op).records T = Function.update (store.records T) root (some rec) := by
  obtain ⟨val, hval, hback⟩ := ExitRecord.ofBytes_toBytes hT hrec
  refine ⟨.put (exitRecordKey root) val, by rw [putExitRecord, hval]; rfl, fun store => ?_⟩
  funext r
  by_cases h : r = root
  · subst h
    simp [records, getExitRecord, apply, hback]
  · have hkey : exitRecordKey r ≠ exitRecordKey root := fun e => h (exitRecordKey_injective e)
    simp only [records, getExitRecord, apply, AList.lookup_insert_ne hkey, Function.update_of_ne h]

/-! ## Range scans -/

/-- A range holds the entries stored under its keys. -/
theorem mem_rangeIter {start stop k v : List UInt8} :
    (k, v) ∈ store.rangeIter start stop ↔ store.lookup k = some v ∧ start ≤ k ∧ k < stop := by
  have hentry : (k, v) ∈ (store.entries.map fun e => (e.1, e.2)) ↔ store.lookup k = some v := by
    rw [← Option.mem_def, AList.mem_lookup_iff]
    constructor
    · intro h
      obtain ⟨e, he, heq⟩ := List.mem_map.mp h
      cases heq
      exact he
    · intro h
      exact List.mem_map.mpr ⟨_, h, rfl⟩
  unfold rangeIter
  rw [(List.perm_insertionSort _ _).mem_iff, List.mem_filter, decide_eq_true_eq, hentry]

/-- In key order, no key twice. -/
theorem rangeIter_ascending (start stop : List UInt8) :
    (store.rangeIter start stop).Pairwise fun a b => a.1 < b.1 := by
  have hle : (store.rangeIter start stop).Pairwise fun a b => a.1 ≤ b.1 :=
    List.pairwise_insertionSort (fun a b : List UInt8 × List UInt8 => a.1 ≤ b.1) _
  have hne : (store.rangeIter start stop).Pairwise fun a b => a.1 ≠ b.1 := by
    have hkeys : (store.entries.map fun e => (e.1, e.2)).Pairwise fun a b => a.1 ≠ b.1 :=
      List.pairwise_map.mpr (List.pairwise_map.mp store.keys_nodup)
    have hsym : ∀ a b : List UInt8 × List UInt8, a.1 ≠ b.1 → b.1 ≠ a.1 := fun _ _ => Ne.symm
    exact (List.perm_insertionSort _ _).symm.pairwise (hkeys.filter _) (fun {a b} => hsym a b)
  exact (hle.and hne).imp fun h => Std.lt_of_le_of_ne h.1 h.2

theorem rootOfKey_eq_some {key : List UInt8} {r : Bytes32} :
    rootOfKey key = some r ↔ key = exitRecordKey r := by
  unfold rootOfKey
  constructor
  · intro h
    split at h
    · split at h
      · split at h
        · rename_i hd
          cases h
          rw [hd]
          rfl
        · cases h
      · cases h
    · cases h
  · intro h
    subst h
    simp only [exitRecordKey, r.property, if_true, dif_pos]

/-- The scan finds the roots something is stored under. -/
theorem mem_exitRoots_iff :
    root ∈ store.exitRoots ↔ (store.lookup (exitRecordKey root)).isSome = true := by
  unfold exitRoots
  rw [List.mem_filterMap, Option.isSome_iff_exists]
  constructor
  · intro h
    obtain ⟨⟨k, v⟩, hmem, hroot⟩ := h
    rw [← rootOfKey_eq_some.mp hroot]
    exact ⟨v, (store.mem_rangeIter.mp hmem).1⟩
  · intro h
    obtain ⟨v, hv⟩ := h
    refine ⟨(exitRecordKey root, v), store.mem_rangeIter.mpr ⟨hv, ?_, ?_⟩,
      rootOfKey_eq_some.mpr rfl⟩
    · exact List.cons_le_cons_iff.mpr (.inr ⟨rfl, List.nil_le _⟩)
    · exact List.cons_lt_cons_iff.mpr (.inl (by decide))

theorem exitRoots_nodup : store.exitRoots.Nodup := by
  refine List.pairwise_filterMap.mpr ((store.rangeIter_ascending _ _).imp ?_)
  intro a b hlt r hr r' hr' heq
  rw [rootOfKey_eq_some.mp hr, rootOfKey_eq_some.mp hr', heq] at hlt
  exact Std.lt_irrefl hlt

/-- The scan finds every root a record is stored under. -/
theorem mem_exitRoots {rec : ExitRecord} (h : store.records T root = some rec) :
    root ∈ store.exitRoots := by
  obtain ⟨val, hval, -⟩ := Option.bind_eq_some_iff.mp h
  rw [mem_exitRoots_iff, hval]
  rfl

end IndexStore

end TicTacToe
