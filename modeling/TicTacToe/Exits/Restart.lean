/-
TicTacToe.Exits.Restart — `reseed` next to running hooks: a restarted node
against one that kept its mirror, and a read of the store that races a
commit (`node/src/exit_index.rs`, `node/src/main.rs`).

Both compare two nodes with the same store, of which one mirror has part
of what the other has (`Node.Part`). A call that reads nothing of the
difference has one plan on both (`ExitCall.plan_eq`), and the nodes stay
so. A call that does read it goes wrong: a spend that comes before the
reseed hides its family, and a superseded key read back is found by its
leaves.

No `sorry`, no `axiom`, no `native_decide`.
-/
import TicTacToe.Exits.Runs

namespace TicTacToe

open Lib

/-! ## Two mirrors -/

/-- The records of one book are in the other. -/
def Book.Within (small big : Book) : Prop := ∀ root rec, small root = some rec → big root = some rec

/-- The call reads no record of `big` that `small` lacks, and finds at most one
by its leaves. -/
def ExitCall.Overlooks (T : ExitBackend) (small big : Book) : ExitCall → Prop
  | committed _ _ | recommitted _ _ | observed _ => True
  | spent spend => small spend.oldRoot = none → big spend.oldRoot = none
  | spendReverted spend _ => ∀ root ∈ [spend.oldRoot, spend.newRoot], ∀ rec,
      big root = some rec → rec.emptied.any (EmptiedLeaf.wasSpent spend) = true → small root ≠ none
  | exitsReverted bundle _ => ∀ root rec, big root = some rec → rec.leaves = bundle.leaves →
      (small root = none → root = T.viewRoot (freshLeaves bundle.leaves)) ∧
        ∀ root' rec', big root' = some rec' → rec'.leaves = bundle.leaves → root' = root

/-- The settlement publishes a root, or the row it would carry forward is in the
mirror, or that row has no root either. -/
def ExitCall.CarriesAlike (mirror stored : Option LatestSettlement) : ExitCall → Prop
  | observed settlement => settlement.permissionSpkHash = zeroHash → mirror = none →
      ∀ row ∈ stored, row.permissionRoot = zeroHash
  | _ => True

section Mirrors

variable {T : ExitBackend} {order order' : HashOrder} {small big : Book}

theorem Book.Within.absent (h : small.Within big) {root : Bytes32} (hroot : big root = none) :
    small root = none := by
  cases hs : small root with
  | none => rfl
  | some rec =>
    rw [h root rec hs] at hroot
    cases hroot

theorem Book.Within.eq (h : small.Within big) {root : Bytes32} (hroot : small root ≠ none) :
    small root = big root := by
  obtain ⟨rec, hrec⟩ := Option.ne_none_iff_exists'.mp hroot
  rw [hrec, h root rec hrec]

/-- A plan keeps one book within the other. -/
theorem Book.Within.onBook (h : small.Within big) (p : Plan) :
    (p.onBook small).Within (p.onBook big) := by
  unfold Plan.onBook
  induction p.edits generalizing small big with
  | nil => exact h
  | cons e edits ih =>
    refine ih fun root rec hroot => ?_
    dsimp only at hroot ⊢
    by_cases he : root = e.1
    · subst he
      rw [Function.update_self] at hroot ⊢
      exact hroot
    · rw [Function.update_of_ne he] at hroot ⊢
      exact h root rec hroot

/-- Both searches end at the same key, or at the bundle's root. -/
theorem leavesKey_getD_eq (order order' : HashOrder) {m m' : ExitRecords}
    (h : m.book.Within m'.book) {bundle : ExitsForBundle} {settlement : SettlementInfo}
    (hread : (ExitCall.exitsReverted bundle settlement).Overlooks T m.book m'.book) :
    (leavesKey order m bundle.leaves).getD (T.viewRoot (freshLeaves bundle.leaves))
      = (leavesKey order' m' bundle.leaves).getD (T.viewRoot (freshLeaves bundle.leaves)) := by
  cases hbig : leavesKey order' m' bundle.leaves with
  | none =>
    cases hsmall : leavesKey order m bundle.leaves with
    | none => rfl
    | some root =>
      obtain ⟨rec, hrec, hleaves⟩ := leaves_of_leavesKey hsmall
      have hfound := leavesKey_ne_none order' (h root rec hrec)
      exact absurd (hleaves ▸ hbig) hfound
  | some root =>
    obtain ⟨rec, hrec, hleaves⟩ := leaves_of_leavesKey hbig
    obtain ⟨hmissing, hunique⟩ := hread root rec hrec hleaves
    cases hsmall : leavesKey order m bundle.leaves with
    | none =>
      have hlacks : m.book root = none := by
        by_contra hhas
        have hsame : m.book root = some rec := (h.eq hhas).trans hrec
        exact leavesKey_ne_none order hsame (hleaves ▸ hsmall)
      exact (hmissing hlacks).symm
    | some root' =>
      obtain ⟨rec', hrec', hleaves'⟩ := leaves_of_leavesKey hsmall
      exact hunique root' rec' (h root' rec' hrec') hleaves'

/-- Whether a record carries the spend is the same in both books. -/
theorem spentKey_eq (h : small.Within big) {spend : PermissionSpend}
    (hread : ∀ root ∈ [spend.oldRoot, spend.newRoot], ∀ rec, big root = some rec →
      rec.emptied.any (EmptiedLeaf.wasSpent spend) = true → small root ≠ none) :
    spentKey small spend = spentKey big spend := by
  have hcarry : ∀ root ∈ [spend.oldRoot, spend.newRoot],
      ((small root).any fun rec => rec.emptied.any (EmptiedLeaf.wasSpent spend))
        = (big root).any fun rec => rec.emptied.any (EmptiedLeaf.wasSpent spend) := by
    intro root hroot
    cases hbig : big root with
    | none => rw [h.absent hbig]
    | some rec =>
      by_cases hcarries : rec.emptied.any (EmptiedLeaf.wasSpent spend) = true
      · rw [h.eq (hread root hroot rec hbig hcarries), hbig]
      · by_cases hsmall : small root = none
        · rw [hsmall]
          simpa using hcarries
        · rw [h.eq hsmall, hbig]
  simp only [spentKey, List.find?_cons, List.find?_nil, hcarry _ List.mem_cons_self,
    hcarry _ (List.mem_cons_of_mem _ List.mem_cons_self)]

theorem unspentEdits_eq (h : small.Within big) {spend : PermissionSpend}
    (hread : ∀ root ∈ [spend.oldRoot, spend.newRoot], ∀ rec, big root = some rec →
      rec.emptied.any (EmptiedLeaf.wasSpent spend) = true → small root ≠ none)
    (spentOutpoint : Outpoint) :
    unspentEdits small spend spentOutpoint = unspentEdits big spend spentOutpoint := by
  unfold unspentEdits
  rw [spentKey_eq h hread]
  cases hkey : spentKey big spend with
  | none => rfl
  | some key =>
    have hfound := List.find?_some hkey
    obtain ⟨rec, hrec⟩ : ∃ rec, big key = some rec := by
      cases hbig : big key with
      | some rec => exact ⟨rec, rfl⟩
      | none =>
        rw [hbig] at hfound
        cases hfound
    have hcarries : rec.emptied.any (EmptiedLeaf.wasSpent spend) = true := by
      rw [hrec] at hfound
      exact hfound
    simp only [h.eq (hread key (List.mem_of_find?_eq_some hkey) rec hrec hcarries)]

theorem carriedRoot_eq {mirror stored : Option LatestSettlement} {settlement : SettlementInfo}
    (h : mirror = none ∨ mirror = stored)
    (hread : (ExitCall.observed settlement).CarriesAlike mirror stored) :
    carriedRoot mirror settlement = carriedRoot stored settlement := by
  rcases h with rfl | rfl
  · cases stored with
    | none => rfl
    | some row =>
      by_cases hzero : settlement.permissionSpkHash = zeroHash
      · simp [carriedRoot, hzero, hread hzero rfl row rfl]
      · simp only [carriedRoot, if_neg hzero]
  · rfl

/-- A call that reads nothing of the difference has one plan. -/
theorem ExitCall.plan_eq {c : ExitCall} {ix ix' : ExitIndexer}
    (hbook : ix.records.book.Within ix'.records.book)
    (hlatest : ix.latest = none ∨ ix.latest = ix'.latest)
    (hread : c.Overlooks T ix.records.book ix'.records.book)
    (hcarries : c.CarriesAlike ix.latest ix'.latest) :
    c.plan T (ix.view order) = c.plan T (ix'.view order') := by
  cases c with
  | committed bundle settlement => rfl
  | recommitted bundle settlement => rfl
  | observed settlement =>
    simp only [plan, ExitIndexer.view, carriedRoot_eq hlatest hcarries]
  | spent spend =>
    have hsame : ix.records.book spend.oldRoot = ix'.records.book spend.oldRoot := by
      by_cases hnone : ix.records.book spend.oldRoot = none
      · rw [hnone, hread hnone]
      · exact hbook.eq hnone
    simp only [plan, ExitIndexer.view, hsame]
  | spendReverted spend spentOutpoint =>
    simp only [plan, ExitIndexer.view, unspentEdits_eq hbook hread]
  | exitsReverted bundle settlement =>
    simp only [plan, ExitIndexer.view, leavesKey_getD_eq order order' hbook hread]

end Mirrors

/-! ## Two nodes -/

/-- The same store, and one mirror with part of what the other has. -/
structure Node.Part (small big : Node) : Prop where
  store : small.store = big.store
  book : small.indexer.records.book.Within big.indexer.records.book
  latest : small.indexer.latest = none ∨ small.indexer.latest = big.indexer.latest

section Nodes

variable {T : ExitBackend} {order order' : HashOrder} {n m : Node}

/-- Two nodes with one plan for a call both panic, or both carry it out. -/
theorem Node.run_alike {c : ExitCall}
    (hplan : c.plan T (n.indexer.view order) = c.plan T (m.indexer.view order')) :
    (∃ e, n.run (c.hook T order) = .error e ∧ m.run (c.hook T order') = .error e) ∨
      ∃ n' m' wb, (c.plan T (n.indexer.view order)).ops T = .ok wb ∧
        n.run (c.hook T order) = .ok n' ∧ m.run (c.hook T order') = .ok m' ∧
        n.Did n' (c.plan T (n.indexer.view order)) wb ∧
        m.Did m' (c.plan T (n.indexer.view order)) wb := by
  have hn := Node.run_plan (T := T) order c n
  have hm := Node.run_plan (T := T) order' c m
  rw [← hplan] at hm
  cases hops : (c.plan T (n.indexer.view order)).ops T with
  | error e =>
    simp only [hops] at hn hm
    exact .inl ⟨e, hn, hm⟩
  | ok wb =>
    simp only [hops] at hn hm
    obtain ⟨n', hrun, hdid⟩ := hn
    obtain ⟨m', hrun', hdid'⟩ := hm
    exact .inr ⟨n', m', wb, rfl, hrun, hrun', hdid, hdid'⟩

theorem Node.Part.did {n' m' : Node} {p : Plan} {wb : WriteBatch} (h : n.Part m)
    (hn : n.Did n' p wb) (hm : m.Did m' p wb) : n'.Part m' where
  store := by rw [hn.store, hm.store, h.store]
  book := by
    rw [hn.mirror, hm.mirror]
    exact h.book.onBook p
  latest := by
    rw [hn.latest, hm.latest]
    cases p.row with
    | none => exact h.latest
    | some row => exact .inr rfl

/-- The mirror that `reseed` leaves. -/
theorem book_reseed (T : ExitBackend) (store : IndexStore) (ix : ExitIndexer) (root : Bytes32) :
    (reseed T store ix).records.book root
      = (ix.records.book root).or (store.records T root) := by
  have hscan : ∀ seed : ExitRecords → Bytes32 → ExitRecords,
      (∀ m r, seed m r = (store.getExitRecord T r).elim m fun rec =>
        if (m.lookup r).isSome then m else m.insert r rec) →
      ∀ (roots : List Bytes32) (m : ExitRecords), ExitRecords.book (roots.foldl seed m) root
        = (m.book root).or (if root ∈ roots then store.records T root else none) := by
    intro seed hseed roots
    induction roots with
    | nil =>
      intro m
      simp
    | cons r roots ih =>
      intro m
      rw [List.foldl_cons, ih, hseed]
      cases hrec : store.getExitRecord T r with
      | none =>
        have hnone : store.records T r = none := hrec
        by_cases hr : root = r
        · subst hr
          simp [hnone]
        · simp [hr]
      | some rec =>
        have hsome : store.records T r = some rec := hrec
        by_cases hhas : (m.lookup r).isSome = true
        · obtain ⟨rec', hrec'⟩ := Option.isSome_iff_exists.mp hhas
          have hbook : m.book r = some rec' := hrec'
          by_cases hr : root = r
          · subst hr
            simp [hhas, hbook]
          · simp [hhas, hr]
        · have hbook : m.book r = none := Option.not_isSome_iff_eq_none.mp hhas
          simp only [hhas]
          by_cases hr : root = r
          · subst hr
            simp [ExitRecords.book_insert, hsome, hbook]
          · simp [ExitRecords.book_insert, hr]
  refine (hscan _ (fun m r => ?_) store.exitRoots ix.records).trans ?_
  · cases store.getExitRecord T r <;> rfl
  by_cases hroot : root ∈ store.exitRoots
  · rw [if_pos hroot]
  · have hnone : store.records T root = none := by
      cases hrec : store.records T root with
      | none => rfl
      | some rec => exact absurd (IndexStore.mem_exitRoots store root hrec) hroot
    rw [if_neg hroot, hnone]

/-- A mirror within the store is reseeded to what the store holds. -/
theorem book_reseed_eq {store : IndexStore} {ix : ExitIndexer}
    (h : ix.records.book.Within (store.records T)) :
    (reseed T store ix).records.book = store.records T := by
  funext root
  rw [book_reseed]
  cases hrec : ix.records.book root with
  | none => exact Option.none_or
  | some rec => exact (h root rec hrec).symm

end Nodes

/-! ## After a restart -/

/-- What a restarted process finds: the store, and empty mirrors. -/
def Node.restarted (n : Node) : Node where
  indexer := { records := ∅, latest := none }
  store := n.store

/-- What happens to a node: a call whose batch is committed, or a reseed. -/
inductive NodeStep where
  | call (c : ExitCall)
  | reseed

def Node.step (T : ExitBackend) (order : HashOrder) (n : Node) : NodeStep → Except Fault Node
  | .call c => n.run (c.hook T order)
  | .reseed => .ok { n with indexer := TicTacToe.reseed T n.store n.indexer }

def Node.steps (T : ExitBackend) (order : HashOrder) (ss : List NodeStep) (n : Node) :
    Except Fault Node := ss.foldlM (Node.step T order) n

/-- The calls among the steps. -/
def NodeStep.calls (ss : List NodeStep) : List ExitCall := ss.filterMap fun s =>
  match s with
  | call c => some c
  | reseed => none

/-- Every call of the run meets a condition on the node it is made on. -/
def Node.Meets (T : ExitBackend) (order : HashOrder) (P : Node → ExitCall → Prop) :
    List NodeStep → Node → Prop
  | [], _ => True
  | s :: ss, n => (∀ c, s = .call c → P n c) ∧
      ∀ n', n.step T order s = .ok n' → n'.Meets T order P ss

/-- The call reads nothing that is stored and not in the mirror. -/
structure ExitCall.Seeded (T : ExitBackend) (n : Node) (c : ExitCall) : Prop where
  fits : c.Fits
  records : c.Overlooks T n.indexer.records.book (n.store.records T)
  latest : c.CarriesAlike n.indexer.latest n.store.latestSettlement

section Restart

variable {T : ExitBackend} {order order' : HashOrder} {n m : Node}

theorem Node.InSync.encodable (hn : n.InSync T) {root : Bytes32} {rec : ExitRecord}
    (h : n.indexer.records.book root = some rec) : rec.Encodable := by
  rw [hn.book] at h
  exact IndexStore.encodable_of_records h

/-- A call on a node in sync files what fits. -/
theorem Node.InSync.plan_encodable (hn : n.InSync T) {c : ExitCall} (hc : c.Fits)
    {wb : WriteBatch} (hops : (c.plan T (n.indexer.view order)).ops T = .ok wb) :
    (c.plan T (n.indexer.view order)).Encodable :=
  Plan.encodable_of_ops hops (ExitCall.leaves_fit hc fun _ _ h => (hn.encodable h).leaves)

/-- A call keeps a node in sync. -/
theorem Node.InSync.did (hT : T.Lawful) (hn : n.InSync T) {n' : Node} {c : ExitCall}
    (hc : c.Fits) {wb : WriteBatch} (hops : (c.plan T (n.indexer.view order)).ops T = .ok wb)
    (hdid : n.Did n' (c.plan T (n.indexer.view order)) wb) : n'.InSync T :=
  hdid.inSync hT hn hops (hn.plan_encodable hc hops) c.plan_marksOnly

/-- One step of the restarted node, next to the node that kept its mirror. -/
theorem Node.Part.call (order order' : HashOrder) (hT : T.Lawful) (h : n.Part m)
    (hm : m.InSync T) {c : ExitCall} (hc : c.Seeded T n) :
    (∃ e, n.run (c.hook T order) = .error e ∧ m.run (c.hook T order') = .error e) ∨
      ∃ n' m', n.run (c.hook T order) = .ok n' ∧ m.run (c.hook T order') = .ok m' ∧
        n'.Part m' ∧ m'.InSync T := by
  have hread := hc.records
  have hcarries := hc.latest
  rw [h.store, ← hm.book] at hread
  rw [h.store, ← hm.latest] at hcarries
  have hplan : c.plan T (n.indexer.view order) = c.plan T (m.indexer.view order') :=
    ExitCall.plan_eq h.book h.latest hread hcarries
  rcases Node.run_alike hplan with herror | ⟨n', m', wb, hops, hrun, hrun', hdid, hdid'⟩
  · exact .inl herror
  · have hpart := h.did hdid hdid'
    rw [hplan] at hops hdid'
    exact .inr ⟨n', m', hrun, hrun', hpart, hm.did hT hc.fits hops hdid'⟩

theorem Node.Part.reseed (h : n.Part m) (hm : m.InSync T) :
    ({ n with indexer := TicTacToe.reseed T n.store n.indexer } : Node).Part m where
  store := h.store
  book := by
    have hwithin := h.book
    rw [hm.book, ← h.store] at hwithin
    intro root rec hrec
    rw [hm.book, ← h.store, ← book_reseed_eq hwithin]
    exact hrec
  latest := by
    rcases h.latest with hnone | hsame
    · right
      show (if n.indexer.latest.isNone then n.store.latestSettlement else n.indexer.latest)
        = m.indexer.latest
      rw [hnone, hm.latest, h.store]
      rfl
    · right
      show (if n.indexer.latest.isNone then n.store.latestSettlement else n.indexer.latest)
        = m.indexer.latest
      cases hrow : n.indexer.latest with
      | some row =>
        rw [hrow] at hsame
        exact hsame
      | none =>
        rw [h.store, ← hm.latest, ← hsame, hrow]
        rfl

/-- The runs agree on what is stored, step by step. -/
theorem Node.Part.steps (hT : T.Lawful) (ss : List NodeStep) (h : n.Part m) (hm : m.InSync T)
    (hss : n.Meets T order (fun n c => c.Seeded T n) ss) :
    (n.steps T order ss).map (Node.exits T)
      = (m.calls T order' (NodeStep.calls ss)).map (Node.exits T) := by
  induction ss generalizing n m with
  | nil =>
    show Except.ok (n.exits T) = Except.ok (m.exits T)
    rw [Node.exits, Node.exits, h.store]
  | cons s ss ih =>
    obtain ⟨hs, htail⟩ := hss
    cases s with
    | reseed => exact ih (h.reseed hm) hm (htail _ rfl)
    | call c =>
      have hstep : NodeStep.calls (.call c :: ss) = c :: NodeStep.calls ss := rfl
      have hrunc : n.step T order (.call c) = n.run (c.hook T order) := rfl
      rw [hstep]
      unfold Node.steps Node.calls at ih ⊢
      rw [List.foldlM_cons, List.foldlM_cons, hrunc]
      rcases h.call order order' hT hm (hs c rfl) with
        ⟨e, hrun, hrun'⟩ | ⟨n', m', hrun, hrun', hpart, hsync⟩
      · rw [hrun, hrun']
        rfl
      · rw [hrun, hrun']
        exact ih hpart hsync (htail n' hrun)

/-- **Restart.** When every call of the restarted node reads nothing that is
stored and not yet in its mirror, then the records and the served row that are
stored are those of the node that kept its mirror, wherever `reseed` runs. -/
theorem restart_exits_eq (hT : T.Lawful) (hn : n.InSync T) (ss : List NodeStep)
    (hss : n.restarted.Meets T order (fun n c => c.Seeded T n) ss) :
    (n.restarted.steps T order ss).map (Node.exits T)
      = (n.calls T order' (NodeStep.calls ss)).map (Node.exits T) := by
  have hpart : n.restarted.Part n :=
    { store := rfl
      book := fun root rec hrec => by
        have hempty : (∅ : ExitRecords).lookup root = none := AList.lookup_empty root
        exact absurd (hempty.symm.trans hrec) (by simp)
      latest := .inl rfl }
  exact hpart.steps hT ss hn hss

end Restart

/-- Whether a run ends with a record stored under the root. -/
def storedAt (T : ExitBackend) (root : Bytes32) (run : Except Fault Node) : Bool :=
  match run with
  | .ok n => (n.store.records T root).isSome
  | .error _ => false

theorem storedAt_congr {T : ExitBackend} {run run' : Except Fault Node}
    (h : run.map (Node.exits T) = run'.map (Node.exits T)) (root : Bytes32) :
    storedAt T root run = storedAt T root run' := by
  cases run with
  | error e =>
    cases run' with
    | error e' => rfl
    | ok n' => cases h
  | ok n =>
    cases run' with
    | error e' => cases h
    | ok n' =>
      have hexits : n.exits T = n'.exits T := Except.ok.inj h
      have hrecords : n.store.records T = n'.store.records T := congrArg Prod.fst hexits
      rw [storedAt, storedAt, hrecords]

/-- The restarted node hides the family where the other one advances it. -/
theorem firstClaim_before_reseed :
    storedAt .plain firstClaim.newRoot (do
      let n ← Node.empty.run (settledCall.hook .plain entriesOrder)
      n.restarted.steps .plain entriesOrder [.call (.spent firstClaim), .reseed]) = false ∧
    storedAt .plain firstClaim.newRoot (do
      let n ← Node.empty.run (settledCall.hook .plain entriesOrder)
      n.calls .plain entriesOrder [.spent firstClaim]) = true := by
  decide +kernel

/-- A claim that comes before the reseed hides its family for good. -/
theorem restart_hides_family : ¬ ∀ (n : Node) (before after : List ExitCall), n.InSync .plain →
    (n.restarted.steps .plain entriesOrder
      (before.map .call ++ .reseed :: after.map .call)).map (Node.exits .plain)
      = (n.calls .plain entriesOrder (before ++ after)).map (Node.exits .plain) := by
  intro hclaim
  obtain ⟨n, hn, hsync, -⟩ := exists_settled
  have hsame := storedAt_congr (hclaim n [.spent firstClaim] [] hsync) firstClaim.newRoot
  obtain ⟨hcold, hwarm⟩ := firstClaim_before_reseed
  simp only [hn] at hcold hwarm
  exact absurd ((hcold.symm.trans hsame).trans hwarm) (by decide)

/-- Reseeded before the claim, the restarted node does as the other one. -/
theorem restart_exits_eq_reseeded : ∃ n : Node, n.InSync .plain ∧
    (n.restarted.steps .plain entriesOrder [.reseed, .call (.spent firstClaim)]).map
        (Node.exits .plain)
      = (n.calls .plain entriesOrder [.spent firstClaim]).map (Node.exits .plain) := by
  obtain ⟨n, hn, hsync, -⟩ := exists_settled
  have hwithin : (n.restarted.indexer.records.book).Within (n.store.records .plain) :=
    fun root rec hrec => by
      have hempty : (∅ : ExitRecords).lookup root = none := AList.lookup_empty root
      exact absurd (hempty.symm.trans hrec) (by simp)
  have hseeded : ∀ n', n.restarted.step .plain entriesOrder .reseed = .ok n' →
      n'.indexer.records.book = n'.store.records .plain := by
    intro n' hn'
    cases hn'
    exact book_reseed_eq hwithin
  refine ⟨n, hsync, restart_exits_eq ExitBackend.plain_lawful hsync
    [.reseed, .call (.spent firstClaim)] ⟨(fun c hc => by cases hc), fun n' hn' => ?_⟩⟩
  refine ⟨fun c hc => ?_, fun _ _ => trivial⟩
  cases hc
  have hread : n'.indexer.records.book firstClaim.oldRoot = none →
      n'.store.records .plain firstClaim.oldRoot = none := fun hnone => by
    rw [← hseeded n' hn']
    exact hnone
  exact ⟨trivial, hread, trivial⟩

/-! ## A read that races a commit -/

/-- The hook runs, `reseed` reads the store, and only then the batch is
committed. -/
def Node.runRacing (T : ExitBackend) (hook : Hook) (n : Node) : Except Fault Node :=
  match hook ⟨n.indexer, []⟩ with
  | .ok _ s => .ok { indexer := reseed T n.store s.indexer, store := n.store.commit s.wb }
  | .error e _ => .error e

/-- The call reads no record of the mirror that is not stored. -/
structure ExitCall.Inert (T : ExitBackend) (n : Node) (c : ExitCall) : Prop where
  fits : c.Fits
  records : c.Overlooks T (n.store.records T) n.indexer.records.book

/-- The node is in sync, and the raced one has more in its mirror. -/
structure Node.Raced (T : ExitBackend) (n raced : Node) : Prop where
  sync : n.InSync T
  part : n.Part raced
  latest : n.indexer.latest = raced.indexer.latest

section Racing

variable {T : ExitBackend} {order order' : HashOrder} {n m r : Node}

theorem Node.runRacing_eq (hook : Hook) (n : Node) : n.runRacing T hook
    = (n.run hook).map fun n' => { n' with indexer := reseed T n.store n'.indexer } := by
  unfold Node.runRacing Node.run
  cases hook ⟨n.indexer, []⟩ <;> rfl

/-- A served row that `reseed` would read is one the mirror had already. -/
theorem Node.Did.raced (hT : T.Lawful) (hn : n.InSync T) {c : ExitCall} (hc : c.Fits)
    {wb : WriteBatch} (hops : (c.plan T (n.indexer.view order)).ops T = .ok wb) {n' : Node}
    (hdid : n.Did n' (c.plan T (n.indexer.view order)) wb) :
    n'.Raced T { n' with indexer := reseed T n.store n'.indexer } := by
  have hlatest : n'.indexer.latest = (reseed T n.store n'.indexer).latest := by
    show _ = if n'.indexer.latest.isNone then n.store.latestSettlement else n'.indexer.latest
    cases hrow : n'.indexer.latest with
    | some row => rfl
    | none =>
      rw [hdid.latest] at hrow
      exact ((Option.or_eq_none_iff.mp hrow).2.symm.trans hn.latest)
  refine ⟨hn.did hT hc hops hdid, ⟨rfl, fun root rec hrec => ?_, .inr hlatest⟩, hlatest⟩
  show (reseed T n.store n'.indexer).records.book root = some rec
  rw [book_reseed, hrec]
  rfl

/-- A call that reads nothing superseded does the same on both nodes. -/
theorem Node.Raced.call (order order' : HashOrder) (hT : T.Lawful) (h : m.Raced T r)
    {c : ExitCall} (hc : c.Inert T r) :
    (∃ e, r.run (c.hook T order) = .error e ∧ m.run (c.hook T order') = .error e) ∨
      ∃ r' m', r.run (c.hook T order) = .ok r' ∧ m.run (c.hook T order') = .ok m' ∧
        m'.Raced T r' := by
  have hread := hc.records
  rw [← h.part.store, ← h.sync.book] at hread
  have hcarries : c.CarriesAlike m.indexer.latest r.indexer.latest := by
    rw [← h.latest]
    cases c with
    | observed settlement =>
      intro _ hnone row hrow
      rw [hnone] at hrow
      cases hrow
    | _ => trivial
  have hplan : c.plan T (m.indexer.view order') = c.plan T (r.indexer.view order) :=
    ExitCall.plan_eq h.part.book h.part.latest hread hcarries
  rcases Node.run_alike hplan with ⟨e, hrun, hrun'⟩ | ⟨m', r', wb, hops, hrun, hrun', hdid, hdid'⟩
  · exact .inl ⟨e, hrun', hrun⟩
  · refine .inr ⟨r', m', hrun', hrun, h.sync.did hT hc.fits hops hdid, h.part.did hdid hdid', ?_⟩
    rw [hdid.latest, hdid'.latest, h.latest]

theorem Node.Raced.calls (order order' : HashOrder) (hT : T.Lawful) (cs : List ExitCall)
    (h : m.Raced T r) (hcs : r.Meets T order (fun n c => c.Inert T n) (cs.map .call)) :
    (∃ e, r.calls T order cs = .error e ∧ m.calls T order' cs = .error e) ∨
      ∃ r' m', r.calls T order cs = .ok r' ∧ m.calls T order' cs = .ok m' ∧ m'.Raced T r' := by
  induction cs generalizing m r with
  | nil => exact .inr ⟨r, m, rfl, rfl, h⟩
  | cons c cs ih =>
    obtain ⟨hc, htail⟩ := hcs
    unfold Node.calls at ih ⊢
    rw [List.foldlM_cons, List.foldlM_cons]
    rcases h.call order order' hT (hc c rfl) with
      ⟨e, hrun, hrun'⟩ | ⟨r', m', hrun, hrun', hraced⟩
    · rw [hrun, hrun']
      exact .inl ⟨e, rfl, rfl⟩
    · rw [hrun, hrun']
      exact ih hraced (htail r' hrun)

/-- The revert of a settlement leaves no record with its leaves. -/
theorem Node.Raced.exitsReverted (hT : T.Lawful) (h : m.Raced T r) {bundle : ExitsForBundle}
    {settlement : SettlementInfo} (hc : (ExitCall.exitsReverted bundle settlement).Inert T r) :
    ∃ r', r.run (onExitsReverted T order bundle settlement) = .ok r' ∧
      ∀ root rec, r'.store.records T root = some rec → rec.leaves ≠ bundle.leaves := by
  obtain ⟨r', hrun, hdid⟩ :=
    Node.run_plan (T := T) order (.exitsReverted bundle settlement) r
  refine ⟨r', hrun, fun root rec hrec hleaves => ?_⟩
  have hfits : ((ExitCall.exitsReverted bundle settlement).plan T
      (r.indexer.view order)).Encodable := by
    intro e he rec hrec
    rw [List.mem_singleton.mp he] at hrec
    cases hrec
  rw [(hdid.stored hT rfl hfits (ExitCall.plan_marksOnly _)).1] at hrec
  by_cases hkey : root = (leavesKey order r.indexer.records bundle.leaves).getD
      (T.viewRoot (freshLeaves bundle.leaves))
  · subst hkey
    exact absurd ((Function.update_self _ _ _).symm.trans hrec) (by simp)
  · have hstored : r.store.records T root = some rec :=
      (Function.update_of_ne hkey _ _).symm.trans hrec
    have hmirror : r.indexer.records.book root = some rec := by
      refine h.part.book root rec ?_
      rw [h.sync.book, h.part.store]
      exact hstored
    have hfound : leavesKey order r.indexer.records bundle.leaves ≠ none :=
      hleaves ▸ leavesKey_ne_none order hmirror
    obtain ⟨key, hhit⟩ := Option.ne_none_iff_exists'.mp hfound
    obtain ⟨rec', hrec', hleaves'⟩ := leaves_of_leavesKey hhit
    have hsame : key = root := (hc.records root rec hmirror hleaves).2 key rec' hrec' hleaves'
    rw [hhit] at hkey
    exact hkey hsame.symm

/-- **Racing reseed.** When `reseed` reads the store between a hook and the
commit of its batch, and every later call reads no superseded record, then what
is stored is what it would be without the reseed, and the revert of a
settlement leaves no record with its leaves. -/
theorem racing_reseed_inert (hT : T.Lawful) (hn : n.InSync T) {c : ExitCall} (hc : c.Fits)
    (cs : List ExitCall) (hcs : ∀ r, n.runRacing T (c.hook T order) = .ok r →
      r.Meets T order (fun n c => c.Inert T n) (cs.map .call)) :
    ((n.runRacing T (c.hook T order)).bind (Node.calls T order cs)).map (Node.exits T)
        = ((n.run (c.hook T order)).bind (Node.calls T order' cs)).map (Node.exits T) ∧
      ∀ r bundle settlement,
        (n.runRacing T (c.hook T order)).bind (Node.calls T order cs) = .ok r →
        (ExitCall.exitsReverted bundle settlement).Inert T r →
        ∃ r', r.run (onExitsReverted T order bundle settlement) = .ok r' ∧
          ∀ root rec, r'.store.records T root = some rec → rec.leaves ≠ bundle.leaves := by
  have hrun := Node.run_plan (T := T) order c n
  rw [Node.runRacing_eq] at hcs ⊢
  cases hops : (c.plan T (n.indexer.view order)).ops T with
  | error e =>
    simp only [hops] at hrun
    rw [hrun]
    refine ⟨?_, fun r _ _ hr => by cases hr⟩
    show Except.map (Node.exits T) (.error e) = Except.map (Node.exits T) (.error e)
    rfl
  | ok wb =>
    simp only [hops] at hrun
    obtain ⟨n', hrun, hdid⟩ := hrun
    rw [hrun] at hcs ⊢
    have hraced := hdid.raced hT hn hc hops
    rcases hraced.calls order order' hT cs (hcs _ rfl) with
      ⟨e, hr, hm⟩ | ⟨r', m', hr, hm, hraced'⟩
    · refine ⟨?_, fun r _ _ hr' => ?_⟩
      · show Except.map _ (Node.calls T order cs _) = Except.map _ (Node.calls T order' cs n')
        rw [hr, hm]
      · have herror : Except.error e = Except.ok r := hr.symm.trans hr'
        cases herror
    · refine ⟨?_, fun r bundle settlement hr' hinert => ?_⟩
      · show Except.map _ (Node.calls T order cs _) = Except.map _ (Node.calls T order' cs n')
        rw [hr, hm]
        show Except.ok (r'.exits T) = Except.ok (m'.exits T)
        rw [Node.exits, Node.exits, hraced'.part.store]
      · have hsame : r' = r := Except.ok.inj (hr.symm.trans hr')
        exact (hsame ▸ hraced').exitsReverted hT hinert

end Racing

/-- With the superseded key in the mirror, the revert of the settlement misses
the record that is stored. -/
theorem stored_after_race :
    storedAt .plain firstClaim.newRoot (do
      let n ← Node.empty.run (settledCall.hook .plain entriesOrder)
      (n.runRacing .plain ((ExitCall.spent firstClaim).hook .plain entriesOrder)).bind
        (Node.calls .plain entriesOrder [.exitsReverted twoExits (settledIn 0xcc)])) = true ∧
    storedAt .plain firstClaim.newRoot (do
      let n ← Node.empty.run (settledCall.hook .plain entriesOrder)
      (n.run ((ExitCall.spent firstClaim).hook .plain entriesOrder)).bind
        (Node.calls .plain entriesOrder [.exitsReverted twoExits (settledIn 0xcc)])) = false := by
  decide +kernel

/-- A superseded key read back is not inert: a settlement revert can take it for
the family's record. -/
theorem racing_reseed_not_inert : ¬ ∀ (n : Node) (c : ExitCall) (cs : List ExitCall),
    n.InSync .plain →
    ((n.runRacing .plain (c.hook .plain entriesOrder)).bind
        (Node.calls .plain entriesOrder cs)).map (Node.exits .plain)
      = ((n.run (c.hook .plain entriesOrder)).bind (Node.calls .plain entriesOrder cs)).map
        (Node.exits .plain) := by
  intro hclaim
  obtain ⟨n, hn, hsync, -⟩ := exists_settled
  have hsame := storedAt_congr (hclaim n (.spent firstClaim)
    [.exitsReverted twoExits (settledIn 0xcc)] hsync) firstClaim.newRoot
  obtain ⟨hraced, hplain⟩ := stored_after_race
  simp only [hn] at hraced hplain
  exact absurd ((hraced.symm.trans hsame).trans hplain) (by decide)

/-- A bundle that one stored record has the leaves of, and no other key of the
mirror, can be reverted. -/
theorem inert_of_entries {T : ExitBackend} {n : Node} {bundle : ExitsForBundle}
    {settlement : SettlementInfo} {root : Bytes32} (hstored : n.store.records T root ≠ none)
    (hentries : ∀ e ∈ n.indexer.records.entries, e.2.leaves = bundle.leaves → e.1 = root) :
    (ExitCall.exitsReverted bundle settlement).Inert T n := by
  have hroot : ∀ root' rec, n.indexer.records.book root' = some rec →
      rec.leaves = bundle.leaves → root' = root := fun root' rec hrec hleaves =>
    hentries ⟨root', rec⟩ (AList.mem_lookup_iff.mp hrec) hleaves
  refine ⟨trivial, fun root' rec hrec hleaves => ⟨fun hnone => ?_, ?_⟩⟩
  · rw [hroot root' rec hrec hleaves] at hnone
    exact absurd hnone hstored
  · intro root'' rec' hrec' hleaves'
    rw [hroot root'' rec' hrec' hleaves', hroot root' rec hrec hleaves]

/-- The claim races the reseed, and a later settlement is recorded. -/
def racedRun : Except Fault Node := do
  let n ← Node.empty.run (settledCall.hook .plain entriesOrder)
  (n.runRacing .plain ((ExitCall.spent firstClaim).hook .plain entriesOrder)).bind
    (Node.calls .plain entriesOrder [.committed oneExit (settledIn 0xcd)])

/-- The mirror has a superseded key, and one key for the later settlement. -/
theorem racedRun_ok : ∃ r, racedRun = .ok r ∧
    r.indexer.records.book firstClaim.oldRoot ≠ r.store.records .plain firstClaim.oldRoot ∧
    (ExitCall.exitsReverted oneExit (settledIn 0xcd)).Inert .plain r := by
  obtain ⟨r, hr, hcheck⟩ := ok_of_any (x := racedRun)
    (p := fun r => r.indexer.records.book firstClaim.oldRoot
        ≠ r.store.records .plain firstClaim.oldRoot ∧
      r.store.records .plain (rawRoot .plain oneExit.leaves []) ≠ none ∧
      ∀ e ∈ r.indexer.records.entries, e.2.leaves = oneExit.leaves →
        e.1 = rawRoot .plain oneExit.leaves []) (by decide +kernel)
  obtain ⟨hsuperseded, hstored, hentries⟩ := of_decide_eq_true hcheck
  exact ⟨r, hr, hsuperseded, inert_of_entries hstored hentries⟩

/-- The later settlement is then reverted. -/
theorem racing_reseed_inert_settled : ∃ n r r' : Node, n.InSync .plain ∧
    ((n.runRacing .plain ((ExitCall.spent firstClaim).hook .plain entriesOrder)).bind
        (Node.calls .plain entriesOrder [.committed oneExit (settledIn 0xcd)])).map
        (Node.exits .plain)
      = ((n.run ((ExitCall.spent firstClaim).hook .plain entriesOrder)).bind
        (Node.calls .plain entriesOrder [.committed oneExit (settledIn 0xcd)])).map
        (Node.exits .plain) ∧
    (n.runRacing .plain ((ExitCall.spent firstClaim).hook .plain entriesOrder)).bind
        (Node.calls .plain entriesOrder [.committed oneExit (settledIn 0xcd)]) = .ok r ∧
    r.indexer.records.book firstClaim.oldRoot ≠ r.store.records .plain firstClaim.oldRoot ∧
    r.run (onExitsReverted .plain entriesOrder oneExit (settledIn 0xcd)) = .ok r' ∧
    ∀ root rec, r'.store.records .plain root = some rec → rec.leaves ≠ oneExit.leaves := by
  obtain ⟨n, hn, hsync, -⟩ := exists_settled
  obtain ⟨r, hr, hsuperseded, hrevert⟩ := racedRun_ok
  unfold racedRun at hr
  rw [hn] at hr
  have hinert : ∀ r : Node, (ExitCall.committed oneExit (settledIn 0xcd)).Inert .plain r := by
    intro r
    have hfits : (ExitCall.committed oneExit (settledIn 0xcd)).Fits := by
      show oneExit.leaves.length < 2 ^ 32
      decide
    exact ⟨hfits, trivial⟩
  have hmeets : ∀ r, n.runRacing .plain ((ExitCall.spent firstClaim).hook .plain entriesOrder)
      = .ok r → r.Meets .plain entriesOrder (fun n c => c.Inert .plain n)
        ([ExitCall.committed oneExit (settledIn 0xcd)].map .call) := by
    intro r _
    refine ⟨fun c hc => ?_, fun _ _ => trivial⟩
    cases hc
    exact hinert r
  have hfits : (ExitCall.spent firstClaim).Fits := trivial
  obtain ⟨hsame, hreverted⟩ :=
    racing_reseed_inert ExitBackend.plain_lawful hsync hfits _ hmeets
  obtain ⟨r', hr', hgone⟩ := hreverted r oneExit (settledIn 0xcd) hr hrevert
  exact ⟨n, r, r', hsync, hsame, hr, hsuperseded, hr', hgone⟩

end TicTacToe
