/-
TicTacToe.Exits.Runs — runs of hook calls on a node in sync.

Marks, rows and records are written without reading one from another, so a
run is followed in each of them by itself (`Node.InSync.calls_byKey`): the
records by `bookAfter`, the served row by `latestAfter`, the marks by the
marks that the calls write. Only the revert of a settlement searches the
mirror, and is left out. Of a full claim it is said what it files.

No `sorry`, no `axiom`, no `native_decide`.
-/
import TicTacToe.Exits.Effects
import TicTacToe.Exits.Families

namespace TicTacToe

open Lib

/-! ## What a call does -/

/-- The call finds the records it edits by their roots. -/
def ExitCall.ByKey : ExitCall → Prop
  | exitsReverted _ _ => False
  | _ => True

/-- A view of records alone. -/
def Book.view (book : Book) : MirrorView where
  book := book
  latest := none
  hit _ := none

/-- What a call does to the records. -/
def ExitCall.onBook (T : ExitBackend) (book : Book) (c : ExitCall) : Book :=
  (c.plan T book.view).onBook book

/-- What a call does to the served row. -/
def ExitCall.onLatest (latest : Option LatestSettlement) : ExitCall → Option LatestSettlement
  | committed bundle settlement | recommitted bundle settlement =>
    some (servedRow bundle settlement)
  | observed settlement => some
      { stateRoot := settlement.newState
        permissionRoot := carriedRoot latest settlement
        txid := settlement.txId
        daaScore := settlement.daaScore }
  | _ => latest

/-- The marks a call writes. -/
def ExitCall.marks : ExitCall → WriteBatch
  | spent spend => [markLeafSpent spend.oldRoot spend.leafIndex
      { spendTxid := spend.spendTxid, deduct := spend.deduct, newRoot := spend.newRoot }]
  | spendReverted spend _ => [unmarkLeafSpent spend.oldRoot spend.leafIndex]
  | _ => []

def bookAfter (T : ExitBackend) (cs : List ExitCall) (book : Book) : Book :=
  cs.foldl (ExitCall.onBook T) book

def latestAfter (cs : List ExitCall) (latest : Option LatestSettlement) :
    Option LatestSettlement := cs.foldl ExitCall.onLatest latest

/-- Every record the calls file can be encoded. -/
def StepsFit (T : ExitBackend) : List ExitCall → Book → Prop
  | [], _ => True
  | c :: cs, book => (c.plan T book.view).Encodable ∧ StepsFit T cs (c.onBook T book)

section Runs

variable {T : ExitBackend} {v : MirrorView} {c : ExitCall}

theorem ExitCall.plan_marks : (c.plan T v).marks = c.marks := by
  cases c <;> rfl

theorem ExitCall.plan_row (latest : Option LatestSettlement) (h : v.latest = latest) :
    (c.plan T v).row.or latest = c.onLatest latest := by
  subst h
  cases c <;> rfl

theorem ExitCall.ByKey.plan_edits (h : c.ByKey) :
    (c.plan T v).edits = (c.plan T v.book.view).edits := by
  cases c with
  | exitsReverted bundle settlement => exact h.elim
  | _ => rfl

@[simp] theorem bookAfter_nil (book : Book) : bookAfter T [] book = book := rfl

theorem bookAfter_append (cs cs' : List ExitCall) (book : Book) :
    bookAfter T (cs ++ cs') book = bookAfter T cs' (bookAfter T cs book) := List.foldl_append

theorem bookAfter_concat (cs : List ExitCall) (c : ExitCall) (book : Book) :
    bookAfter T (cs ++ [c]) book = c.onBook T (bookAfter T cs book) :=
  bookAfter_append cs [c] book

theorem stepsFit_append {cs cs' : List ExitCall} {book : Book} (h : StepsFit T cs book)
    (h' : StepsFit T cs' (bookAfter T cs book)) : StepsFit T (cs ++ cs') book := by
  induction cs generalizing book with
  | nil => exact h'
  | cons c cs ih => exact ⟨h.1, ih h.2 h'⟩

theorem stepsFit_concat {cs : List ExitCall} {book : Book} (h : StepsFit T cs book)
    (hc : (c.plan T (bookAfter T cs book).view).Encodable) : StepsFit T (cs ++ [c]) book :=
  stepsFit_append h ⟨hc, trivial⟩

/-- Marks are written apart from everything else. -/
theorem Plan.marked {p : Plan} {wb : WriteBatch} (h : p.ops T = .ok wb) (store : IndexStore)
    (root : Bytes32) (i : Nat) :
    (store.commit wb).lookup (spentMarkKey root i)
      = (store.commit p.marks).lookup (spentMarkKey root i) := by
  obtain ⟨edits, hedits, rfl⟩ := Plan.ops_ok h
  rw [IndexStore.commit_append]
  refine IndexStore.lookup_commit_of_ne _ fun op hop heq => ?_
  rcases List.mem_append.mp hop with hedit | hrow
  · obtain ⟨root', hkey⟩ := Plan.key_edits hedits hedit
    exact exitRecordKey_ne_spentMarkKey root' root i (hkey.symm.trans heq)
  · obtain ⟨row, -, rfl⟩ := List.mem_map.mp hrow
    exact spentMarkKey_ne_latest root i heq.symm

/-- A run of calls on a node in sync. -/
theorem Node.InSync.calls_byKey (hT : T.Lawful) (order : HashOrder) (cs : List ExitCall)
    (hcs : ∀ c ∈ cs, c.ByKey) {n : Node} (hn : n.InSync T)
    (hfits : StepsFit T cs n.indexer.records.book) :
    ∃ n', n.calls T order cs = .ok n' ∧ n'.InSync T ∧
      n'.indexer.records.book = bookAfter T cs n.indexer.records.book ∧
      n'.indexer.latest = latestAfter cs n.indexer.latest ∧
      ∀ root i, n'.store.lookup (spentMarkKey root i)
        = (n.store.commit (cs.flatMap ExitCall.marks)).lookup (spentMarkKey root i) := by
  induction cs generalizing n with
  | nil => exact ⟨n, rfl, hn, rfl, rfl, fun _ _ => rfl⟩
  | cons c cs ih =>
    have hedits : (c.plan T (n.indexer.view order)).edits
        = (c.plan T n.indexer.records.book.view).edits :=
      (hcs c List.mem_cons_self).plan_edits
    have henc : (c.plan T (n.indexer.view order)).Encodable := by
      unfold Plan.Encodable
      rw [hedits]
      exact hfits.1
    obtain ⟨wb, hops⟩ := Plan.exists_ops hT henc
    have hrun := Node.run_plan (T := T) order c n
    simp only [hops] at hrun
    obtain ⟨n', hrun, hdid⟩ := hrun
    have hbook : n'.indexer.records.book = c.onBook T n.indexer.records.book := by
      rw [hdid.mirror, Plan.onBook, hedits]
      rfl
    have hlatest : n'.indexer.latest = c.onLatest n.indexer.latest :=
      hdid.latest.trans (ExitCall.plan_row _ rfl)
    have hsync := hdid.inSync hT hn hops henc c.plan_marksOnly
    have htail : StepsFit T cs n'.indexer.records.book := hbook ▸ hfits.2
    obtain ⟨n'', hruns, hsync', hbook', hlatest', hmarks⟩ :=
      ih (fun c' hc' => hcs c' (List.mem_cons_of_mem c hc')) hsync htail
    refine ⟨n'', ?_, hsync', ?_, ?_, fun root i => ?_⟩
    · unfold Node.calls at hruns ⊢
      rw [List.foldlM_cons, hrun]
      exact hruns
    · rw [hbook', hbook]
      rfl
    · rw [hlatest', hlatest]
      rfl
    · have hmarked := Plan.marked hops n.store root i
      rw [ExitCall.plan_marks, ← hdid.store] at hmarked
      rw [hmarks, List.flatMap_cons, IndexStore.commit_append]
      exact IndexStore.lookup_commit_congr hmarked _

/-- Two exits are settled. -/
def settledCall : ExitCall := .committed twoExits (settledIn 0xcc)

/-- The node that has just recorded the settlement of two exits is in sync, and
has their record and no mark. -/
theorem exists_settled : ∃ n, Node.empty.run (settledCall.hook .plain entriesOrder) = .ok n ∧
    n.InSync .plain ∧
    n.indexer.records.book = settledCall.onBook .plain (fun _ => none) ∧
    ∀ root i, n.store.lookup (spentMarkKey root i) = none := by
  have hfits : StepsFit .plain [settledCall] Node.empty.indexer.records.book := by
    refine ⟨fun e he rec hrec => ?_, trivial⟩
    rw [List.mem_singleton.mp he] at hrec
    cases hrec
    exact ⟨by decide, by decide⟩
  have hbyKey : ∀ c ∈ [settledCall], c.ByKey := by
    intro c hc
    rw [List.mem_singleton.mp hc]
    trivial
  obtain ⟨n, hrun, hsync, hbook, -, hmarks⟩ := (Node.inSync_empty .plain).calls_byKey
    ExitBackend.plain_lawful entriesOrder [settledCall] hbyKey hfits
  unfold Node.calls at hrun
  rw [List.foldlM_cons] at hrun
  have hone : Node.empty.run (settledCall.hook .plain entriesOrder) = .ok n :=
    (bind_pure _).symm.trans hrun
  exact ⟨n, hone, hsync, hbook, hmarks⟩

end Runs

/-! ## A full claim -/

section Claim

variable {f : Family} {spend : PermissionSpend}

/-- What a spend does to the records, given the one under its old root. -/
theorem onBook_spent {T : ExitBackend} {book : Book} {rec : ExitRecord}
    (hrec : book spend.oldRoot = some rec) :
    (ExitCall.spent spend).onBook T book
      = (spentEdits spend (some rec)).foldl (fun b e => Function.update b e.1 e.2) book := by
  rw [← hrec]
  rfl

/-- The guard of a spend lets a full claim of a live family pass. -/
theorem Family.Ok.guard (h : f.Ok) (hlive : f.Live) (hnew : spend.leafIndex ∉ f.claimed) :
    ¬ (f.record.unclaimed = 0 ∨
      (f.record.emptied.any fun e => e.leafIndex.toNat = spend.leafIndex) = true) := by
  have hlen := h.live_iff.mp hlive
  have hcount := h.unclaimed_toNat
  exact guard_passes (by omega) (h.leafIndex_ne hnew)

/-- A full claim that leaves something moves the family's record. -/
theorem Family.Ok.spentEdits_live (h : f.Ok) (h' : (f.claim spend).Ok)
    (hnew : spend.leafIndex ∉ f.claimed) (hlive : (f.claim spend).Live) :
    spentEdits spend (some f.record)
      = [(spend.oldRoot, none), (spend.newRoot, some (f.claim spend).record)] := by
  have hclaims : (f.claim spend).claims.length = f.claims.length + 1 := List.length_append
  have hleaves : (f.claim spend).leaves.length = f.leaves.length := rfl
  have hmore := h'.live_iff.mp hlive
  have hcount := h.unclaimed_toNat
  have hleft : 1 < f.record.unclaimed.toNat := by omega
  have hgt : f.record.unclaimed > 1 := UInt64.lt_iff_toNat_lt.mpr hleft
  have hlive' : f.Live := h.live_iff.mpr (by omega)
  simp only [spentEdits, if_neg (h.guard hlive' hnew), if_pos hgt, h.record_claim hleft]

/-- The last claim drains the record where it is. -/
theorem Family.Ok.spentEdits_drained (h : f.Ok) (h' : (f.claim spend).Ok)
    (hnew : spend.leafIndex ∉ f.claimed) (hdone : ¬ (f.claim spend).Live) :
    spentEdits spend (some f.record)
      = [(spend.oldRoot, some { f.record.claim spend with unclaimed := 0 })] := by
  have hclaims : (f.claim spend).claims.length = f.claims.length + 1 := List.length_append
  have hleaves : (f.claim spend).leaves.length = f.leaves.length := rfl
  have hlen := h'.length_unclaimed
  rw [h'.live_iff] at hdone
  have hcount := h.unclaimed_toNat
  have hlast : f.record.unclaimed.toNat = 1 := by omega
  have hgt : ¬ f.record.unclaimed > 1 := fun hgt => by
    have hlt := UInt64.lt_iff_toNat_lt.mp hgt
    rw [hlast] at hlt
    exact absurd hlt (by decide)
  have hlive' : f.Live := h.live_iff.mpr (by omega)
  simp only [spentEdits, if_neg (h.guard hlive' hnew), if_neg hgt]

end Claim

end TicTacToe
