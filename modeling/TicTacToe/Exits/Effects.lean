/-
TicTacToe.Exits.Effects — what a plan does to the store.

The batch of a plan has marks, records and a row, under keys of three
different lengths: the records of the store change as the plan says
(`Plan.stored`), and so does the served row. A node is in sync when its
mirrors hold what its store holds; hooks keep it so.

No `sorry`, no `axiom`, no `native_decide`.
-/
import TicTacToe.Exits.Hooks

namespace TicTacToe

open Lib

/-! ## Keys of a batch -/

/-- The records a plan files can be encoded. -/
def Plan.Encodable (p : Plan) : Prop := ∀ e ∈ p.edits, ∀ rec ∈ e.2, ExitRecord.Encodable rec

/-- The marks of a plan are marks. -/
def Plan.MarksOnly (p : Plan) : Prop := ∀ op ∈ p.marks, ∃ root i, op.key = spentMarkKey root i

section Stored

variable {T : ExitBackend} {store : IndexStore}

/-- A batch without record keys leaves the records alone. -/
theorem IndexStore.records_commit_of_ne {wb : WriteBatch}
    (h : ∀ op ∈ wb, ∀ root, op.key ≠ exitRecordKey root) :
    (store.commit wb).records T = store.records T := by
  funext root
  simp only [IndexStore.records, IndexStore.getExitRecord,
    store.lookup_commit_of_ne fun op hop => h op hop root]

theorem IndexStore.latestSettlement_commit_of_ne {wb : WriteBatch}
    (h : ∀ op ∈ wb, op.key ≠ latestSettlementKey) :
    (store.commit wb).latestSettlement = store.latestSettlement := by
  simp only [IndexStore.latestSettlement, store.lookup_commit_of_ne h]

theorem Plan.key_editOp {e : Bytes32 × Option ExitRecord} {op : WriteOp}
    (h : Plan.editOp T e = .ok op) : op.key = exitRecordKey e.1 := by
  obtain ⟨root, rec⟩ := e
  cases rec with
  | none =>
    cases h
    rfl
  | some rec =>
    unfold Plan.editOp putExitRecord at h
    cases hval : rec.toBytes T with
    | error e =>
      simp only [hval] at h
      cases h
    | ok val =>
      simp only [hval] at h
      cases h
      rfl

/-- The record operations of a plan name record keys. -/
theorem Plan.key_edits {edits : List (Bytes32 × Option ExitRecord)} {ops : WriteBatch}
    (h : edits.mapM (Plan.editOp T) = .ok ops) {op : WriteOp} (hop : op ∈ ops) :
    ∃ root, op.key = exitRecordKey root := by
  induction edits generalizing ops with
  | nil =>
    cases h
    cases hop
  | cons e edits ih =>
    rw [List.mapM_cons] at h
    obtain ⟨op', hop', h⟩ := except_bind_ok.mp h
    obtain ⟨ops', hops', h⟩ := except_bind_ok.mp h
    cases h
    rcases List.mem_cons.mp hop with rfl | hmem
    · exact ⟨e.1, Plan.key_editOp hop'⟩
    · exact ih hops' hmem

/-- The record operations, each of a record that fits, do what they say. -/
theorem Plan.records_edits (hT : T.Lawful) {edits : List (Bytes32 × Option ExitRecord)}
    {ops : WriteBatch} (h : edits.mapM (Plan.editOp T) = .ok ops)
    (hfits : ∀ e ∈ edits, ∀ rec ∈ e.2, ExitRecord.Encodable rec) (store : IndexStore) :
    (store.commit ops).records T
      = edits.foldl (fun b e => Function.update b e.1 e.2) (store.records T) := by
  induction edits generalizing ops store with
  | nil =>
    cases h
    rfl
  | cons e edits ih =>
    rw [List.mapM_cons] at h
    obtain ⟨op, hop, h⟩ := except_bind_ok.mp h
    obtain ⟨ops', hops', h⟩ := except_bind_ok.mp h
    cases h
    have htail := ih hops' (fun e' he' => hfits e' (List.mem_cons_of_mem e he')) (store.apply op)
    have hhead : (store.apply op).records T = Function.update (store.records T) e.1 e.2 := by
      obtain ⟨root, rec⟩ := e
      cases rec with
      | none =>
        cases hop
        exact IndexStore.records_deleteExitRecord store root
      | some rec =>
        have hrec := hfits _ List.mem_cons_self rec rfl
        obtain ⟨op', hop', hrecords⟩ := IndexStore.records_putExitRecord root hT hrec
        have hsame : op' = op := Except.ok.inj (hop'.symm.trans hop)
        exact hsame ▸ hrecords store
    rw [List.foldl_cons, ← hhead]
    exact htail

/-- The parts of the batch of a plan. -/
theorem Plan.ops_ok {p : Plan} {wb : WriteBatch} (h : p.ops T = .ok wb) :
    ∃ edits, p.edits.mapM (Plan.editOp T) = .ok edits ∧
      wb = p.marks ++ (edits ++ p.row.toList.map putLatestSettlement) := by
  obtain ⟨edits, hedits, h⟩ := except_bind_ok.mp h
  cases h
  exact ⟨edits, hedits, rfl⟩

/-- A plan of records that fit has a batch. -/
theorem Plan.exists_ops (hT : T.Lawful) {p : Plan} (hfits : p.Encodable) :
    ∃ wb, p.ops T = .ok wb := by
  have hedits : ∀ e ∈ p.edits, ∃ op, Plan.editOp T e = .ok op := by
    rintro ⟨root, rec⟩ he
    cases rec with
    | none => exact ⟨_, rfl⟩
    | some rec =>
      obtain ⟨op, hop, -⟩ := IndexStore.records_putExitRecord root hT (hfits _ he rec rfl)
      exact ⟨op, hop⟩
  obtain ⟨ops, hops, -⟩ := mapM_ok hedits
  exact ⟨_, by rw [Plan.ops, hops]; rfl⟩

/-- The records of the store change as the plan says. -/
theorem Plan.stored (hT : T.Lawful) {p : Plan} {wb : WriteBatch} (h : p.ops T = .ok wb)
    (hfits : p.Encodable) (hmarks : p.MarksOnly) (store : IndexStore) :
    (store.commit wb).records T = p.onBook (store.records T) := by
  obtain ⟨edits, hedits, rfl⟩ := Plan.ops_ok h
  have hmark : ∀ op ∈ p.marks, ∀ root, op.key ≠ exitRecordKey root := by
    intro op hop root heq
    obtain ⟨root', i, hkey⟩ := hmarks op hop
    exact exitRecordKey_ne_spentMarkKey root root' i (heq.symm.trans hkey)
  have hrow : ∀ op ∈ p.row.toList.map putLatestSettlement, ∀ root,
      op.key ≠ exitRecordKey root := by
    intro op hop root heq
    obtain ⟨row, -, rfl⟩ := List.mem_map.mp hop
    exact exitRecordKey_ne_latest root heq.symm
  rw [IndexStore.commit_append, IndexStore.commit_append, IndexStore.records_commit_of_ne hrow,
    Plan.records_edits hT hedits hfits, IndexStore.records_commit_of_ne hmark]
  rfl

/-- The served row of the store is the plan's, if it has one. -/
theorem Plan.served {p : Plan} {wb : WriteBatch} (h : p.ops T = .ok wb) (hmarks : p.MarksOnly)
    (store : IndexStore) :
    (store.commit wb).latestSettlement = p.row.or store.latestSettlement := by
  obtain ⟨edits, hedits, rfl⟩ := Plan.ops_ok h
  have hother : ∀ op ∈ p.marks ++ edits, op.key ≠ latestSettlementKey := by
    intro op hop heq
    rcases List.mem_append.mp hop with hmark | hedit
    · obtain ⟨root, i, hkey⟩ := hmarks op hmark
      exact spentMarkKey_ne_latest root i (hkey.symm.trans heq)
    · obtain ⟨root, hkey⟩ := Plan.key_edits hedits hedit
      exact exitRecordKey_ne_latest root (hkey.symm.trans heq)
  rw [← List.append_assoc, IndexStore.commit_append]
  cases p.row with
  | none => exact IndexStore.latestSettlement_commit_of_ne hother
  | some row =>
    show (IndexStore.apply _ (putLatestSettlement row)).latestSettlement = some row
    simp [IndexStore.latestSettlement, IndexStore.apply, putLatestSettlement,
      LatestSettlement.ofBytes_toBytes]

/-- A batch is written only of claims that fit: what is left to check is the
size of the leaf lists. -/
theorem Plan.encodable_of_ops {p : Plan} {wb : WriteBatch} (h : p.ops T = .ok wb)
    (hleaves : ∀ e ∈ p.edits, ∀ rec ∈ e.2, rec.leaves.length < 2 ^ 32) : p.Encodable := by
  obtain ⟨ops, hops, -⟩ := Plan.ops_ok h
  intro e he rec hrec
  obtain ⟨op, hop⟩ : ∃ op, Plan.editOp T e = .ok op := by
    have hall : ∀ (edits : List (Bytes32 × Option ExitRecord)) (ops : WriteBatch),
        edits.mapM (Plan.editOp T) = .ok ops → ∀ e ∈ edits, ∃ op, Plan.editOp T e = .ok op := by
      intro edits
      induction edits with
      | nil =>
        intro _ _ e he
        cases he
      | cons e' edits ih =>
        intro ops hops e he
        rw [List.mapM_cons] at hops
        obtain ⟨op, hop, hops⟩ := except_bind_ok.mp hops
        obtain ⟨ops', hops', -⟩ := except_bind_ok.mp hops
        rcases List.mem_cons.mp he with rfl | hmem
        · exact ⟨op, hop⟩
        · exact ih ops' hops' e hmem
    exact hall p.edits ops hops e he
  have hemptied : rec.emptied.length < 2 ^ 32 := by
    by_contra hlong
    have hpanic : rec.toBytes T = .error .panic := if_neg hlong
    obtain ⟨root, filed⟩ := e
    cases hrec
    simp only [Plan.editOp, putExitRecord, hpanic] at hop
    cases hop
  exact ⟨hleaves e he rec hrec, hemptied⟩

end Stored

/-! ## What the hooks file -/

/-- A bundle that is filed has a leaf count that fits its field. -/
def ExitCall.Fits : ExitCall → Prop
  | committed bundle _ | recommitted bundle _ => bundle.leaves.length < 2 ^ 32
  | _ => True

section Calls

variable {T : ExitBackend} {v : MirrorView}

theorem ExitCall.plan_marksOnly (c : ExitCall) : (c.plan T v).MarksOnly := by
  intro op hop
  cases c with
  | spent spend =>
    rw [List.mem_singleton.mp hop]
    exact ⟨_, _, rfl⟩
  | spendReverted spend spentOutpoint =>
    rw [List.mem_singleton.mp hop]
    exact ⟨_, _, rfl⟩
  | _ => cases hop

/-- A spend files a record with the leaves of the one it advances. -/
theorem leaves_spentEdits {spend : PermissionSpend} {found : Option ExitRecord}
    {e : Bytes32 × Option ExitRecord} (he : e ∈ spentEdits spend found) {rec : ExitRecord}
    (hrec : rec ∈ e.2) : ∃ rec', found = some rec' ∧ rec.leaves = rec'.leaves := by
  cases found with
  | none =>
    rw [List.mem_singleton.mp he] at hrec
    cases hrec
  | some rec' =>
    refine ⟨rec', rfl, ?_⟩
    simp only [spentEdits] at he
    split at he
    · cases he
    · split at he
      · rcases List.mem_cons.mp he with rfl | he
        · cases hrec
        · rw [List.mem_singleton.mp he] at hrec
          cases hrec
          rfl
      · rw [List.mem_singleton.mp he] at hrec
        cases hrec
        rfl

/-- So does its revert. -/
theorem leaves_unspentEdits {book : Book} {spend : PermissionSpend} {spentOutpoint : Outpoint}
    {e : Bytes32 × Option ExitRecord} (he : e ∈ unspentEdits book spend spentOutpoint)
    {rec : ExitRecord} (hrec : rec ∈ e.2) :
    ∃ root rec', book root = some rec' ∧ rec.leaves = rec'.leaves := by
  unfold unspentEdits at he
  split at he
  · cases he
  · rename_i key _
    split at he
    · cases he
    · rename_i rec' hbook
      refine ⟨key, rec', hbook, ?_⟩
      split at he
      · rcases List.mem_cons.mp he with rfl | he
        · cases hrec
        · rw [List.mem_singleton.mp he] at hrec
          cases hrec
          rfl
      · rw [List.mem_singleton.mp he] at hrec
        cases hrec
        rfl

/-- Where the records read fit, the leaf lists filed do. -/
theorem ExitCall.leaves_fit {c : ExitCall} (hc : c.Fits)
    (hbook : ∀ root rec, v.book root = some rec → rec.leaves.length < 2 ^ 32) :
    ∀ e ∈ (c.plan T v).edits, ∀ rec ∈ e.2, rec.leaves.length < 2 ^ 32 := by
  intro e he rec hrec
  cases c with
  | committed bundle settlement =>
    rw [List.mem_singleton.mp he] at hrec
    cases hrec
    exact hc
  | recommitted bundle settlement =>
    rw [List.mem_singleton.mp he] at hrec
    cases hrec
    exact hc
  | observed settlement => cases he
  | spent spend =>
    obtain ⟨rec', hfound, hleaves⟩ := leaves_spentEdits he hrec
    exact hleaves ▸ hbook _ rec' hfound
  | spendReverted spend spentOutpoint =>
    obtain ⟨root, rec', hfound, hleaves⟩ := leaves_unspentEdits he hrec
    exact hleaves ▸ hbook root rec' hfound
  | exitsReverted bundle settlement =>
    rw [List.mem_singleton.mp he] at hrec
    cases hrec

end Calls

/-! ## The search by leaves -/

/-- What the search by leaves finds has them. -/
theorem leaves_of_leavesKey {order : HashOrder} {m : ExitRecords} {leaves : List ExitLeaf}
    {root : Bytes32} (h : leavesKey order m leaves = some root) :
    ∃ rec, m.book root = some rec ∧ rec.leaves = leaves := by
  obtain ⟨e, hfind, rfl⟩ := Option.map_eq_some_iff.mp h
  have hmem := (order.perm m).mem_iff.mp (List.mem_of_find?_eq_some hfind)
  obtain ⟨entry, hentry, rfl⟩ := List.mem_map.mp hmem
  have hleaves := List.find?_some (p := fun e : Bytes32 × ExitRecord => e.2.leaves = leaves) hfind
  exact ⟨entry.2, AList.mem_lookup_iff.mpr hentry, of_decide_eq_true hleaves⟩

/-- It finds something where there is something to find. -/
theorem leavesKey_ne_none (order : HashOrder) {m : ExitRecords} {root : Bytes32} {rec : ExitRecord}
    (h : m.book root = some rec) : leavesKey order m rec.leaves ≠ none := by
  have hentry : (⟨root, rec⟩ : Sigma fun _ : Bytes32 => ExitRecord) ∈ m.entries :=
    AList.mem_lookup_iff.mp h
  have hmem : (root, rec) ∈ order.iter m :=
    (order.perm m).mem_iff.mpr (List.mem_map.mpr ⟨_, hentry, rfl⟩)
  intro hnone
  have hfind := List.find?_eq_none.mp (Option.map_eq_none_iff.mp hnone) _ hmem
  exact hfind (decide_eq_true rfl)

/-! ## Nodes in sync -/

/-- The mirrors hold what the store holds. -/
structure Node.InSync (T : ExitBackend) (n : Node) : Prop where
  book : n.indexer.records.book = n.store.records T
  latest : n.indexer.latest = n.store.latestSettlement

/-- What the node has stored of its exits: the records and the served row. -/
def Node.exits (T : ExitBackend) (n : Node) : Book × Option LatestSettlement :=
  (n.store.records T, n.store.latestSettlement)

/-- Calls of hooks, each batch committed before the next. -/
def Node.calls (T : ExitBackend) (order : HashOrder) (cs : List ExitCall) (n : Node) :
    Except Fault Node := cs.foldlM (fun n c => n.run (c.hook T order)) n

section InSync

variable {T : ExitBackend} {n n' : Node}

theorem Node.inSync_empty (T : ExitBackend) : Node.empty.InSync T where
  book := (IndexStore.records_empty (T := T)).symm
  latest := rfl

/-- What is stored has been read back, so it fits. -/
theorem IndexStore.encodable_of_records {store : IndexStore} {root : Bytes32} {rec : ExitRecord}
    (h : store.records T root = some rec) : rec.Encodable := by
  obtain ⟨val, -, hval⟩ := Option.bind_eq_some_iff.mp h
  exact ExitRecord.encodable_of_ofBytes hval

/-- A plan carried out on mirror and store leaves both as it says. -/
theorem Node.Did.stored (hT : T.Lawful) {p : Plan} {wb : WriteBatch} (h : n.Did n' p wb)
    (hops : p.ops T = .ok wb) (hfits : p.Encodable) (hmarks : p.MarksOnly) :
    n'.store.records T = p.onBook (n.store.records T) ∧
      n'.store.latestSettlement = p.row.or n.store.latestSettlement := by
  rw [h.store]
  exact ⟨Plan.stored hT hops hfits hmarks _, Plan.served hops hmarks _⟩

theorem Node.Did.inSync (hT : T.Lawful) {p : Plan} {wb : WriteBatch} (h : n.Did n' p wb)
    (hn : n.InSync T) (hops : p.ops T = .ok wb) (hfits : p.Encodable) (hmarks : p.MarksOnly) :
    n'.InSync T := by
  obtain ⟨hbook, hlatest⟩ := h.stored hT hops hfits hmarks
  exact ⟨by rw [h.mirror, hbook, hn.book], by rw [h.latest, hlatest, hn.latest]⟩

end InSync

end TicTacToe
