/-
TicTacToe.Exits.Reverts — the revert hooks take back what the apply hooks
did (`node/src/exit_index.rs`).

A family has one record at a time, `Family.entry`, next to the records of
the others. A full claim moves from one entry to the next
(`Family.onBook_claim`), its revert moves back (`Family.onBook_unclaim`),
and where the settlement's revert has dropped the record a claim's revert
finds nothing to do. Chains of claims follow by induction.

No `sorry`, no `axiom`, no `native_decide`.
-/
import TicTacToe.Exits.Runs

namespace TicTacToe

open Lib

/-! ## Chains of claims -/

/-- A full claim of a leaf that is left, from the family's root to the next. -/
structure Family.Claim (T : ExitBackend) (f : Family) (spend : PermissionSpend) : Prop where
  inRange : spend.leafIndex < f.leaves.length
  unclaimed : spend.leafIndex ∉ f.claimed
  old : spend.oldRoot = f.root T
  new : spend.newRoot = (f.claim spend).root T

/-- Full claims of a family, each of what the one before left. -/
inductive Family.Claims (T : ExitBackend) : Family → List PermissionSpend → Prop
  | nil {f : Family} : Claims T f []
  | cons {f : Family} {spend : PermissionSpend} {spends : List PermissionSpend} :
      f.Claim T spend → Claims T (f.claim spend) spends → Claims T f (spend :: spends)

def Family.claimAll (f : Family) (spends : List PermissionSpend) : Family :=
  { f with claims := f.claims ++ spends }

/-- The reverts of a chain of claims, the last one first, each with the output
that its claim spent. -/
def Family.reverts (f : Family) : List PermissionSpend → List ExitCall
  | [] => []
  | spend :: spends => (f.claim spend).reverts spends ++
      [.spendReverted spend { transactionId := f.outpoint.1, index := f.outpoint.2 }]

/-- The record of the family and its root: the last claim leaves both where they
were. -/
def Family.entry (T : ExitBackend) (f : Family) : Bytes32 × ExitRecord :=
  if f.Live ∨ f.claims = [] then (f.root T, f.record)
  else
    let prev : Family := { f with claims := f.claims.dropLast }
    (prev.root T, { prev.record with emptied := f.record.emptied, unclaimed := 0 })

/-- The records of the others, and the family's. -/
def Family.on (T : ExitBackend) (f : Family) (others : Book) : Book :=
  Function.update others (f.entry T).1 (some (f.entry T).2)

section Steps

variable {T : ExitBackend} {f : Family} {spend : PermissionSpend} {others : Book}

theorem Family.entry_live (h : f.Live) : f.entry T = (f.root T, f.record) := if_pos (.inl h)

theorem Family.entry_drained (h : ¬ (f.claim spend).Live) :
    (f.claim spend).entry T = (f.root T, { f.record.claim spend with unclaimed := 0 }) := by
  have hclaims : (f.claim spend).claims ≠ [] := List.append_ne_nil_of_right_ne_nil _ (by simp)
  have hprev : ({ f.claim spend with claims := (f.claim spend).claims.dropLast } : Family) = f := by
    simp [Family.claim]
  have hemptied : (f.record.claim spend).emptied = (f.claim spend).record.emptied :=
    Family.emptied_claim
  unfold Family.entry
  rw [if_neg fun hor => hor.elim h hclaims]
  simp only [hprev, ← hemptied]
  rfl

theorem Family.leaves_entry : (f.entry T).2.leaves = f.leaves := by
  unfold Family.entry
  split <;> rfl

theorem Family.Claim.live (h : f.Claim T spend) (hok : f.Ok) : f.Live :=
  hok.live_of_claim h.inRange h.unclaimed

theorem Family.Claim.ok (h : f.Claim T spend) (hok : f.Ok) : (f.claim spend).Ok :=
  hok.claim h.inRange h.unclaimed

theorem Family.on_old (h : f.Claim T spend) (hok : f.Ok) :
    f.on T others = Function.update others spend.oldRoot (some f.record) := by
  unfold Family.on
  rw [Family.entry_live (h.live hok), h.old]

/-- A claim moves the family from one entry to the next. -/
theorem Family.onBook_claim (h : f.Claim T spend) (hok : f.Ok)
    (hold : others spend.oldRoot = none) :
    (ExitCall.spent spend).onBook T (f.on T others) = (f.claim spend).on T others ∧
      ((ExitCall.spent spend).plan T (f.on T others).view).Encodable := by
  have hok' := h.ok hok
  rw [Family.on_old h hok]
  have hrec : Function.update others spend.oldRoot (some f.record) spend.oldRoot = some f.record :=
    Function.update_self _ _ _
  have hplan : ((ExitCall.spent spend).plan T
      (Book.view (Function.update others spend.oldRoot (some f.record)))).edits
        = spentEdits spend (some f.record) := congrArg (spentEdits spend) hrec
  unfold ExitCall.onBook Plan.onBook Plan.Encodable
  rw [hplan]
  by_cases hlive : (f.claim spend).Live
  · rw [hok.spentEdits_live hok' h.unclaimed hlive]
    refine ⟨?_, fun e he rec hr => ?_⟩
    · show Function.update (Function.update (Function.update others spend.oldRoot (some f.record))
        spend.oldRoot none) spend.newRoot (some (f.claim spend).record)
          = (f.claim spend).on T others
      unfold Family.on
      rw [Function.update_idem, Book.update_none hold, Family.entry_live hlive, h.new]
    · rcases List.mem_cons.mp he with rfl | he
      · cases hr
      · rw [List.mem_singleton.mp he] at hr
        cases hr
        exact (hok'.servable rfl rfl).toEncodable
  · rw [hok.spentEdits_drained hok' h.unclaimed hlive]
    refine ⟨?_, fun e he rec hr => ?_⟩
    · show Function.update (Function.update others spend.oldRoot (some f.record)) spend.oldRoot
        (some { f.record.claim spend with unclaimed := 0 }) = (f.claim spend).on T others
      unfold Family.on
      rw [Function.update_idem, Family.entry_drained hlive, h.old]
    · rw [List.mem_singleton.mp he] at hr
      cases hr
      have hclaim : (f.record.claim spend).Encodable :=
        (hok'.servable rfl Family.emptied_claim).toEncodable
      exact ⟨hclaim.leaves, hclaim.emptied⟩

/-! ## Taking a claim back -/

/-- Only the entry that the claim left is the claim's. -/
theorem Family.Claim.wasSpent (h : f.Claim T spend) (hok : f.Ok) :
    (f.record.claim spend).emptied.any (EmptiedLeaf.wasSpent spend) = true ∧
      ((f.record.claim spend).emptied.filter fun e => !e.wasSpent spend) = f.record.emptied := by
  have hfits := hok.fits
  have hindex : (UInt32.ofNat spend.leafIndex).toNat = spend.leafIndex := by
    rw [UInt32.toNat_ofNat', Nat.mod_eq_of_lt (by have := h.inRange; omega)]
  have hlast : EmptiedLeaf.wasSpent spend
      { leafIndex := UInt32.ofNat spend.leafIndex, spendTxid := spend.spendTxid,
        deduct := spend.deduct } = true := by
    simp [EmptiedLeaf.wasSpent, hindex]
  have hothers : ∀ e ∈ f.record.emptied, EmptiedLeaf.wasSpent spend e = false := by
    intro e he
    have hne := hok.leafIndex_ne h.unclaimed e he
    simp [EmptiedLeaf.wasSpent, hne]
  have hkept : (f.record.emptied.filter fun e => !e.wasSpent spend) = f.record.emptied :=
    List.filter_eq_self.mpr fun e he => by rw [hothers e he]; rfl
  refine ⟨?_, ?_⟩
  · simp [ExitRecord.claim, hlast]
  · simp [ExitRecord.claim, hlast, hkept]

/-- The record before the claim, from the one after it and the output it spent. -/
theorem Family.Claim.unclaim_live (h : f.Claim T spend) (hok : f.Ok) :
    ({ (f.claim spend).record.unclaim spend with
      settlementTxid := f.outpoint.1, outpointIndex := f.outpoint.2 } : ExitRecord) = f.record := by
  have hok' := h.ok hok
  have hlen := hok'.length_unclaimed
  have hclaims : (f.claim spend).claims.length = f.claims.length + 1 := List.length_append
  have hleaves : (f.claim spend).leaves.length = f.leaves.length := rfl
  have hcount : (f.claim spend).record.unclaimed + 1 = f.record.unclaimed := by
    show UInt64.ofNat ((f.claim spend).leaves.length - (f.claim spend).claims.length) + 1
      = UInt64.ofNat (f.leaves.length - f.claims.length)
    have hone : (1 : UInt64) = UInt64.ofNat 1 := rfl
    rw [hone, ← UInt64.ofNat_add]
    congr 1
    omega
  have hemptied : ((f.claim spend).record.emptied.filter fun e => !e.wasSpent spend)
      = f.record.emptied := by
    rw [← Family.emptied_claim]
    exact (h.wasSpent hok).2
  simp only [ExitRecord.unclaim, hcount, hemptied]
  rfl

theorem Family.Claim.unclaim_drained (h : f.Claim T spend) (hok : f.Ok)
    (hdone : ¬ (f.claim spend).Live) :
    ExitRecord.unclaim { f.record.claim spend with unclaimed := 0 } spend = f.record := by
  have hok' := h.ok hok
  have hlen := hok'.length_unclaimed
  have hclaims : (f.claim spend).claims.length = f.claims.length + 1 := List.length_append
  have hleaves : (f.claim spend).leaves.length = f.leaves.length := rfl
  rw [hok'.live_iff] at hdone
  have hone : f.leaves.length - f.claims.length = 1 := by omega
  have hcount : (0 : UInt64) + 1 = f.record.unclaimed := by
    show _ = UInt64.ofNat (f.leaves.length - f.claims.length)
    rw [hone]
    rfl
  have hemptied := (h.wasSpent hok).2
  simp only [ExitRecord.unclaim, hcount]
  show ({ f.record with emptied := _ } : ExitRecord) = f.record
  rw [hemptied]

/-- The edits of a revert, once the record that carries the spend is found. -/
theorem unspentEdits_of {book : Book} {spentOutpoint : Outpoint} {key : Bytes32} {rec : ExitRecord}
    (hkey : spentKey book spend = some key) (hrec : book key = some rec) :
    unspentEdits book spend spentOutpoint =
      if key = spend.newRoot then
        [(key, none), (spend.oldRoot, some { rec.unclaim spend with
          settlementTxid := spentOutpoint.transactionId
          outpointIndex := spentOutpoint.index })]
      else [(spend.oldRoot, some (rec.unclaim spend))] := by
  simp only [unspentEdits, hkey, hrec]

/-- The revert of a claim moves the family back. -/
theorem Family.onBook_unclaim (h : f.Claim T spend) (hok : f.Ok)
    (hold : others spend.oldRoot = none) (hnew : others spend.newRoot = none) :
    (ExitCall.spendReverted spend { transactionId := f.outpoint.1, index := f.outpoint.2 }).onBook T
        ((f.claim spend).on T others) = f.on T others ∧
      ((ExitCall.spendReverted spend
        { transactionId := f.outpoint.1, index := f.outpoint.2 }).plan T
          ((f.claim spend).on T others).view).Encodable := by
  have hok' := h.ok hok
  have hcarries := (h.wasSpent hok).1
  have hfits : f.record.Encodable := (hok.servable rfl rfl).toEncodable
  rw [Family.on_old h hok]
  show (unspentEdits ((f.claim spend).on T others) spend _).foldl
      (fun b e => Function.update b e.1 e.2) ((f.claim spend).on T others) = _ ∧
    ∀ e ∈ unspentEdits ((f.claim spend).on T others) spend _, ∀ rec ∈ e.2,
      ExitRecord.Encodable rec
  by_cases hlive : (f.claim spend).Live
  · -- the record is under the new root, with the anchor of the claim
    have hbook : (f.claim spend).on T others
        = Function.update others spend.newRoot (some (f.claim spend).record) := by
      unfold Family.on
      rw [Family.entry_live hlive, h.new]
    rw [Family.emptied_claim] at hcarries
    have hrec : (f.claim spend).on T others spend.newRoot = some (f.claim spend).record := by
      rw [hbook, Function.update_self]
    have hkey : spentKey ((f.claim spend).on T others) spend = some spend.newRoot := by
      by_cases hsame : spend.oldRoot = spend.newRoot
      · simp only [spentKey, List.find?_cons, hsame, hrec, Option.any_some, hcarries]
      · have hnone : (f.claim spend).on T others spend.oldRoot = none := by
          rw [hbook, Function.update_of_ne hsame, hold]
        simp only [spentKey, List.find?_cons, hnone, hrec, Option.any_some, Option.any_none,
          hcarries]
    rw [unspentEdits_of hkey hrec, if_pos rfl, h.unclaim_live hok]
    refine ⟨?_, fun e he rec hr => ?_⟩
    · show Function.update (Function.update ((f.claim spend).on T others) spend.newRoot none)
        spend.oldRoot (some f.record) = _
      rw [hbook, Function.update_idem, Book.update_none hnew]
    · rcases List.mem_cons.mp he with rfl | he
      · cases hr
      · rw [List.mem_singleton.mp he] at hr
        cases hr
        exact hfits
  · -- the record drained where it was
    have hbook : (f.claim spend).on T others = Function.update others spend.oldRoot
        (some { f.record.claim spend with unclaimed := 0 }) := by
      unfold Family.on
      rw [Family.entry_drained hlive, h.old]
    have hrec : (f.claim spend).on T others spend.oldRoot
        = some { f.record.claim spend with unclaimed := 0 } := by
      rw [hbook, Function.update_self]
    have hkey : spentKey ((f.claim spend).on T others) spend = some spend.oldRoot := by
      simp only [spentKey, List.find?_cons, hrec, Option.any_some, hcarries]
    rw [unspentEdits_of hkey hrec, h.unclaim_drained hok hlive]
    by_cases hsame : spend.oldRoot = spend.newRoot
    · rw [if_pos hsame]
      refine ⟨?_, fun e he rec hr => ?_⟩
      · show Function.update (Function.update ((f.claim spend).on T others) spend.oldRoot none)
          spend.oldRoot (some f.record) = _
        rw [hbook, Function.update_idem, Function.update_idem]
      · rcases List.mem_cons.mp he with rfl | he
        · cases hr
        · rw [List.mem_singleton.mp he] at hr
          cases hr
          exact hfits
    · rw [if_neg hsame]
      refine ⟨?_, fun e he rec hr => ?_⟩
      · show Function.update ((f.claim spend).on T others) spend.oldRoot (some f.record) = _
        rw [hbook, Function.update_idem]
      · rw [List.mem_singleton.mp he] at hr
        cases hr
        exact hfits

/-- The revert of a claim finds nothing among the others. -/
theorem onBook_unclaim_others (spentOutpoint : Outpoint) (hold : others spend.oldRoot = none)
    (hnew : others spend.newRoot = none) :
    (ExitCall.spendReverted spend spentOutpoint).onBook T others = others ∧
      ((ExitCall.spendReverted spend spentOutpoint).plan T others.view).Encodable := by
  have hkey : spentKey others spend = none := by
    simp [spentKey, hold, hnew]
  have hnil : unspentEdits others spend spentOutpoint = [] := by
    simp only [unspentEdits, hkey]
  show (unspentEdits others spend spentOutpoint).foldl (fun b e => Function.update b e.1 e.2) others
      = others ∧ ∀ e ∈ unspentEdits others spend spentOutpoint, ∀ rec ∈ e.2,
        ExitRecord.Encodable rec
  rw [hnil]
  exact ⟨rfl, fun e he => absurd he List.not_mem_nil⟩

end Steps

/-! ## Chains of both -/

section Chains

variable {T : ExitBackend} {f : Family} {spends : List PermissionSpend} {others : Book}

theorem Family.claimAll_cons (f : Family) (spend : PermissionSpend)
    (spends : List PermissionSpend) :
    f.claimAll (spend :: spends) = (f.claim spend).claimAll spends := by
  simp [Family.claimAll, Family.claim]

@[simp] theorem Family.claimAll_nil (f : Family) : f.claimAll [] = f := by
  simp [Family.claimAll]

/-- Claims bring the family to its last entry. -/
theorem Family.Claims.onBook (h : f.Claims T spends) (hok : f.Ok)
    (hothers : ∀ spend ∈ spends, others spend.oldRoot = none) :
    bookAfter T (spends.map .spent) (f.on T others) = (f.claimAll spends).on T others ∧
      StepsFit T (spends.map .spent) (f.on T others) := by
  induction h with
  | nil =>
    rw [Family.claimAll_nil]
    exact ⟨rfl, trivial⟩
  | @cons f spend spends hclaim _ ih =>
    obtain ⟨hstep, hfits⟩ := f.onBook_claim hclaim hok (hothers spend List.mem_cons_self)
    obtain ⟨hbook, hfits'⟩ := ih (hclaim.ok hok) fun spend' hs =>
      hothers spend' (List.mem_cons_of_mem _ hs)
    rw [Family.claimAll_cons, ← hbook, ← hstep]
    refine ⟨rfl, hfits, ?_⟩
    rw [hstep]
    exact hfits'

/-- Their reverts bring it back. -/
theorem Family.Claims.onBook_reverts (h : f.Claims T spends) (hok : f.Ok)
    (hothers : ∀ spend ∈ spends, others spend.oldRoot = none ∧ others spend.newRoot = none) :
    bookAfter T (f.reverts spends) ((f.claimAll spends).on T others) = f.on T others ∧
      StepsFit T (f.reverts spends) ((f.claimAll spends).on T others) := by
  induction h with
  | nil =>
    rw [Family.claimAll_nil]
    exact ⟨rfl, trivial⟩
  | @cons f spend spends hclaim _ ih =>
    obtain ⟨hold, hnew⟩ := hothers spend List.mem_cons_self
    obtain ⟨hstep, hfits⟩ := f.onBook_unclaim hclaim hok hold hnew
    obtain ⟨hbook, hfits'⟩ := ih (hclaim.ok hok) fun spend' hs =>
      hothers spend' (List.mem_cons_of_mem _ hs)
    rw [Family.claimAll_cons, Family.reverts, bookAfter_concat, hbook]
    refine ⟨hstep, stepsFit_concat hfits' ?_⟩
    rw [hbook]
    exact hfits

/-- Without the family's record, the reverts have nothing to do. -/
theorem Family.onBook_reverts_others (f : Family)
    (hothers : ∀ spend ∈ spends, others spend.oldRoot = none ∧ others spend.newRoot = none) :
    bookAfter T (f.reverts spends) others = others ∧ StepsFit T (f.reverts spends) others := by
  induction spends generalizing f with
  | nil => exact ⟨rfl, trivial⟩
  | cons spend spends ih =>
    obtain ⟨hold, hnew⟩ := hothers spend List.mem_cons_self
    obtain ⟨hstep, hfits⟩ := onBook_unclaim_others (T := T)
      { transactionId := f.outpoint.1, index := f.outpoint.2 } hold hnew
    obtain ⟨hbook, hfits'⟩ := ih (f.claim spend) fun spend' hs =>
      hothers spend' (List.mem_cons_of_mem _ hs)
    rw [Family.reverts, bookAfter_concat, hbook]
    refine ⟨hstep, stepsFit_concat hfits' ?_⟩
    rw [hbook]
    exact hfits

theorem Family.mem_reverts {f : Family} {spends : List PermissionSpend} {c : ExitCall}
    (hc : c ∈ f.reverts spends) : ∃ spend outpoint, c = .spendReverted spend outpoint := by
  induction spends generalizing f with
  | nil => exact absurd hc List.not_mem_nil
  | cons spend spends ih =>
    rcases List.mem_append.mp hc with hc | hc
    · exact ih hc
    · exact ⟨spend, _, List.mem_singleton.mp hc⟩

theorem Family.reverts_byKey (f : Family) (spends : List PermissionSpend) :
    ∀ c ∈ f.reverts spends, c.ByKey := by
  intro c hc
  obtain ⟨spend, outpoint, rfl⟩ := f.mem_reverts hc
  trivial

theorem spent_byKey (spends : List PermissionSpend) :
    ∀ c ∈ spends.map ExitCall.spent, c.ByKey := by
  intro c hc
  obtain ⟨spend, -, rfl⟩ := List.mem_map.mp hc
  trivial

/-- The claims of a chain are of different leaves that the family has. -/
theorem Family.Claims.mem (h : f.Claims T spends) {spend : PermissionSpend}
    (hs : spend ∈ spends) :
    spend.leafIndex < f.leaves.length ∧ spend.leafIndex ∉ f.claimed := by
  induction h with
  | nil => cases hs
  | @cons f spend' spends hclaim _ ih =>
    rcases List.mem_cons.mp hs with rfl | hs
    · exact ⟨hclaim.inRange, hclaim.unclaimed⟩
    · obtain ⟨hrange, hnew⟩ := ih hs
      rw [Family.claimed_claim] at hnew
      exact ⟨hrange, fun hm => hnew (List.mem_append_left _ hm)⟩

theorem Family.Claims.append {pre post : List PermissionSpend} (h : f.Claims T (pre ++ post)) :
    f.Claims T pre ∧ (f.claimAll pre).Claims T post := by
  induction pre generalizing f with
  | nil =>
    rw [Family.claimAll_nil]
    exact ⟨.nil, h⟩
  | cons spend pre ih =>
    cases h with
    | cons hclaim htail =>
      obtain ⟨hpre, hpost⟩ := ih htail
      rw [Family.claimAll_cons]
      exact ⟨.cons hclaim hpre, hpost⟩

theorem Family.Claims.ok (h : f.Claims T spends) (hok : f.Ok) : (f.claimAll spends).Ok := by
  induction h with
  | nil =>
    rw [Family.claimAll_nil]
    exact hok
  | cons hclaim _ ih =>
    rw [Family.claimAll_cons]
    exact ih (hclaim.ok hok)

theorem Family.claimAll_append (f : Family) (pre post : List PermissionSpend) :
    (f.claimAll pre).claimAll post = f.claimAll (pre ++ post) := by
  simp [Family.claimAll]

end Chains

/-! ## Marks -/

section Marks

variable {T : ExitBackend} {f : Family} {spends : List PermissionSpend}

/-- The key of the mark of a claim. -/
def PermissionSpend.markKey (spend : PermissionSpend) : List UInt8 :=
  spentMarkKey spend.oldRoot spend.leafIndex

theorem spentMarkKey_inj {root root' : Bytes32} {i j : Nat} (hi : i < 2 ^ 32) (hj : j < 2 ^ 32)
    (h : spentMarkKey root i = spentMarkKey root' j) : i = j := by
  have hnat := congrArg UInt32.toNat (spentMarkKey_eq h).2
  rw [UInt32.toNat_ofNat', UInt32.toNat_ofNat', Nat.mod_eq_of_lt hi, Nat.mod_eq_of_lt hj] at hnat
  exact hnat

/-- The first claim of a chain and the later ones are marked apart. -/
theorem Family.Claims.markKey_ne {spend spend' : PermissionSpend}
    (h : f.Claims T (spend :: spends)) (hok : f.Ok) (hs : spend' ∈ spends) :
    spend'.markKey ≠ spend.markKey := by
  cases h with
  | cons hclaim htail =>
    intro heq
    obtain ⟨hrange, hnew⟩ := htail.mem hs
    have hfits := hok.fits
    have hleaves : (f.claim spend).leaves.length = f.leaves.length := rfl
    have hi := hclaim.inRange
    have hsame := spentMarkKey_inj (by omega) (by omega) heq
    rw [Family.claimed_claim, hsame] at hnew
    exact hnew (List.mem_append_right _ List.mem_cons_self)

/-- Claims mark their leaves and nothing else. -/
theorem lookup_spent_marks {k : List UInt8} (store : IndexStore)
    (h : ∀ spend ∈ spends, spend.markKey ≠ k) :
    (store.commit ((spends.map ExitCall.spent).flatMap ExitCall.marks)).lookup k
      = store.lookup k := by
  refine store.lookup_commit_of_ne fun op hop => ?_
  obtain ⟨c, hc, hop⟩ := List.mem_flatMap.mp hop
  obtain ⟨spend, hs, rfl⟩ := List.mem_map.mp hc
  rw [List.mem_singleton.mp hop]
  exact h spend hs

/-- Claims of unmarked leaves and their reverts leave the marks as they were. -/
theorem Family.Claims.marks (h : f.Claims T spends) (hok : f.Ok) (store : IndexStore)
    (hnone : ∀ spend ∈ spends, store.lookup spend.markKey = none) (k : List UInt8) :
    ((store.commit ((spends.map ExitCall.spent).flatMap ExitCall.marks)).commit
      ((f.reverts spends).flatMap ExitCall.marks)).lookup k = store.lookup k := by
  induction h generalizing store with
  | nil => rfl
  | @cons f spend spends hclaim htail ih =>
    have hapart : ∀ spend' ∈ spends, spend'.markKey ≠ spend.markKey := fun spend' hs =>
      (Family.Claims.cons hclaim htail).markKey_ne hok hs
    have hmark : ∀ k, k ≠ spend.markKey →
        (store.apply (markLeafSpent spend.oldRoot spend.leafIndex
          { spendTxid := spend.spendTxid, deduct := spend.deduct,
            newRoot := spend.newRoot })).lookup k = store.lookup k := fun k hk =>
      store.lookup_apply_ne (Ne.symm hk)
    have hmid := ih (hclaim.ok hok) (store.apply (markLeafSpent spend.oldRoot spend.leafIndex
      { spendTxid := spend.spendTxid, deduct := spend.deduct, newRoot := spend.newRoot }))
      fun spend' hs => (hmark _ (hapart spend' hs)).trans
        (hnone spend' (List.mem_cons_of_mem _ hs))
    rw [Family.reverts, List.flatMap_append, IndexStore.commit_append]
    show AList.lookup k (AList.erase spend.markKey _) = _
    by_cases hk : k = spend.markKey
    · subst hk
      rw [AList.lookup_erase, hnone spend List.mem_cons_self]
    · rw [AList.lookup_erase_ne hk]
      exact hmid.trans (hmark k hk)

theorem Family.Claims.pairwise (h : f.Claims T spends) (hok : f.Ok) :
    spends.Pairwise fun spend spend' => spend'.markKey ≠ spend.markKey := by
  induction h with
  | nil => exact .nil
  | @cons f spend spends hclaim htail ih =>
    exact .cons (fun spend' hs => (Family.Claims.cons hclaim htail).markKey_ne hok hs)
      (ih (hclaim.ok hok))

end Marks

/-! ## The node -/

/-- The node holds the fresh record of the family, the only one with its leaves;
nothing else is under a root of its claims, and none of them is marked. -/
structure Node.Holds (T : ExitBackend) (n : Node) (f : Family) (spends : List PermissionSpend) :
    Prop where
  filed : n.indexer.records.book (f.root T) = some f.record
  leaves : ∀ root rec, n.indexer.records.book root = some rec → rec.leaves = f.leaves →
    root = f.root T
  roots : ∀ spend ∈ spends, ∀ root ∈ [spend.oldRoot, spend.newRoot], root ≠ f.root T →
    n.indexer.records.book root = none
  unmarked : ∀ spend ∈ spends, n.store.lookup spend.markKey = none

/-- The records of the node that are not the family's. -/
def Node.others (T : ExitBackend) (n : Node) (f : Family) : Book :=
  Function.update n.indexer.records.book (f.root T) none

section Nodes

variable {T : ExitBackend} {n m : Node} {f : Family} {spends pre post : List PermissionSpend}

theorem Node.Holds.on_others (h : n.Holds T f spends) (hfresh : f.claims = []) :
    f.on T (n.others T f) = n.indexer.records.book := by
  have hentry : f.entry T = (f.root T, f.record) := if_pos (.inr hfresh)
  unfold Family.on Node.others
  rw [hentry, Function.update_idem, ← h.filed, Function.update_eq_self]

theorem Node.Holds.others_none (h : n.Holds T f spends) {spend : PermissionSpend}
    (hs : spend ∈ spends) :
    n.others T f spend.oldRoot = none ∧ n.others T f spend.newRoot = none := by
  have hroot : ∀ root ∈ [spend.oldRoot, spend.newRoot], n.others T f root = none := by
    intro root hr
    unfold Node.others
    by_cases he : root = f.root T
    · rw [he, Function.update_self]
    · rw [Function.update_of_ne he]
      exact h.roots spend hs root hr he
  exact ⟨hroot _ List.mem_cons_self, hroot _ (List.mem_cons_of_mem _ List.mem_cons_self)⟩

/-- None of the others has the family's leaves. -/
theorem Node.Holds.leaves_others (h : n.Holds T f spends) {root : Bytes32} {rec : ExitRecord}
    (hrec : n.others T f root = some rec) : rec.leaves ≠ f.leaves := by
  intro hleaves
  unfold Node.others at hrec
  by_cases he : root = f.root T
  · rw [he, Function.update_self] at hrec
    cases hrec
  · rw [Function.update_of_ne he] at hrec
    exact he (h.leaves root rec hrec hleaves)

/-- The family is filed at its own root, or at one of its claims'. -/
theorem Family.Claims.entry_root (h : f.Claims T spends) (hok : f.Ok) :
    ((f.claimAll spends).entry T).1 = (f.entry T).1 ∨ ∃ spend ∈ spends,
      ((f.claimAll spends).entry T).1 ∈ [spend.oldRoot, spend.newRoot] := by
  induction h with
  | nil =>
    rw [Family.claimAll_nil]
    exact .inl rfl
  | @cons f spend spends hclaim _ ih =>
    rw [Family.claimAll_cons]
    right
    rcases ih (hclaim.ok hok) with hsame | ⟨spend', hs, hroot⟩
    · refine ⟨spend, List.mem_cons_self, ?_⟩
      rw [hsame]
      by_cases hlive : (f.claim spend).Live
      · rw [Family.entry_live hlive, ← hclaim.new]
        exact List.mem_cons_of_mem _ List.mem_cons_self
      · rw [Family.entry_drained hlive, ← hclaim.old]
        exact List.mem_cons_self
    · exact ⟨spend', List.mem_cons_of_mem _ hs, hroot⟩

theorem Node.calls_append {order : HashOrder} (cs cs' : List ExitCall)
    (h : n.calls T order cs = .ok m) : n.calls T order (cs ++ cs') = m.calls T order cs' := by
  unfold Node.calls at h ⊢
  rw [List.foldlM_append, h]
  rfl

/-- Claims and their reverts leave the served row alone. -/
theorem latestAfter_eq {cs : List ExitCall} {latest : Option LatestSettlement}
    (h : ∀ c ∈ cs, c.onLatest latest = latest) : latestAfter cs latest = latest := by
  induction cs with
  | nil => rfl
  | cons c cs ih =>
    show latestAfter cs (c.onLatest latest) = latest
    rw [h c List.mem_cons_self]
    exact ih fun c' hc => h c' (List.mem_cons_of_mem _ hc)

theorem onLatest_spent (latest : Option LatestSettlement) :
    ∀ c ∈ spends.map ExitCall.spent, c.onLatest latest = latest := by
  intro c hc
  obtain ⟨spend, -, rfl⟩ := List.mem_map.mp hc
  rfl

theorem onLatest_reverts (f : Family) (latest : Option LatestSettlement) :
    ∀ c ∈ f.reverts spends, c.onLatest latest = latest := by
  intro c hc
  obtain ⟨spend, outpoint, rfl⟩ := f.mem_reverts hc
  rfl

/-- The revert of the settlement drops the family's record and no other. -/
theorem Node.Holds.exitsReverted (h : n.Holds T f spends) (hT : T.Lawful) (order : HashOrder)
    (hm : m.InSync T) {g : Family} (hbook : m.indexer.records.book = g.on T (n.others T f))
    (hentry : n.others T f (g.entry T).1 = none) {bundle : ExitsForBundle}
    (hleaves : bundle.leaves = f.leaves) (hg : g.leaves = f.leaves)
    (settlement : SettlementInfo) :
    ∃ m', m.run (onExitsReverted T order bundle settlement) = .ok m' ∧ m'.InSync T ∧
      m'.indexer.records.book = n.others T f ∧
      ∀ root i, m'.store.lookup (spentMarkKey root i) = m.store.lookup (spentMarkKey root i) := by
  obtain ⟨m', hrun, hdid⟩ :=
    Node.run_plan (T := T) order (.exitsReverted bundle settlement) m
  have hfits : ((ExitCall.exitsReverted bundle settlement).plan T
      (m.indexer.view order)).Encodable := by
    intro e he rec hrec
    rw [List.mem_singleton.mp he] at hrec
    cases hrec
  have hfiled : m.indexer.records.book (g.entry T).1 = some (g.entry T).2 := by
    rw [hbook, Family.on, Function.update_self]
  have hsame : (g.entry T).2.leaves = bundle.leaves := by
    rw [Family.leaves_entry, hg, hleaves]
  have hfound : leavesKey order m.indexer.records bundle.leaves ≠ none :=
    hsame ▸ leavesKey_ne_none order hfiled
  obtain ⟨key, hhit⟩ := Option.ne_none_iff_exists'.mp hfound
  obtain ⟨rec, hrec, hrecleaves⟩ := leaves_of_leavesKey hhit
  have hkey : key = (g.entry T).1 := by
    by_contra hne
    rw [hbook, Family.on, Function.update_of_ne hne] at hrec
    exact h.leaves_others hrec (hrecleaves.trans hleaves)
  refine ⟨m', hrun, hdid.inSync hT hm rfl hfits (ExitCall.plan_marksOnly _), ?_, fun root i => ?_⟩
  · rw [hdid.mirror]
    show Function.update m.indexer.records.book ((leavesKey order m.indexer.records
      bundle.leaves).getD (T.viewRoot (freshLeaves bundle.leaves))) none = n.others T f
    rw [hhit, Option.getD_some, hkey, hbook, Family.on, Function.update_idem,
      Book.update_none hentry]
  · have hops : ((ExitCall.exitsReverted bundle settlement).plan T
        (m.indexer.view order)).ops T = .ok _ := rfl
    rw [hdid.store]
    exact Plan.marked hops m.store root i

/-- The claims of a chain, on a node that has the family's entry. -/
theorem Family.Claims.run (h : f.Claims T spends) (hok : f.Ok) (hT : T.Lawful)
    (order : HashOrder) (hn : n.InSync T) {others : Book}
    (hothers : ∀ spend ∈ spends, others spend.oldRoot = none)
    (hbook : n.indexer.records.book = f.on T others) :
    ∃ m, n.calls T order (spends.map .spent) = .ok m ∧ m.InSync T ∧
      m.indexer.records.book = (f.claimAll spends).on T others ∧
      m.indexer.latest = n.indexer.latest ∧
      ∀ root i, m.store.lookup (spentMarkKey root i)
        = (n.store.commit ((spends.map ExitCall.spent).flatMap ExitCall.marks)).lookup
          (spentMarkKey root i) := by
  obtain ⟨hlast, hfits⟩ := h.onBook hok hothers
  rw [← hbook] at hlast hfits
  obtain ⟨m, hrun, hsync, hbook', hlatest, hmarks⟩ :=
    hn.calls_byKey hT order (spends.map .spent) (spent_byKey spends) hfits
  exact ⟨m, hrun, hsync, hbook'.trans hlast,
    hlatest.trans (latestAfter_eq (onLatest_spent _)), hmarks⟩

/-- The reverts of a chain bring the node back to the entry before it, and leave
a node without the family's record as it is. -/
theorem Node.InSync.run_reverts (hn : n.InSync T) (hT : T.Lawful) (order : HashOrder) {book : Book}
    (h : bookAfter T (f.reverts spends) n.indexer.records.book = book ∧
      StepsFit T (f.reverts spends) n.indexer.records.book) :
    ∃ m, n.calls T order (f.reverts spends) = .ok m ∧ m.InSync T ∧
      m.indexer.records.book = book ∧ m.indexer.latest = n.indexer.latest ∧
      ∀ root i, m.store.lookup (spentMarkKey root i)
        = (n.store.commit ((f.reverts spends).flatMap ExitCall.marks)).lookup
          (spentMarkKey root i) := by
  obtain ⟨hlast, hfits⟩ := h
  obtain ⟨m, hrun, hsync, hbook, hlatest, hmarks⟩ :=
    hn.calls_byKey hT order (f.reverts spends) (Family.reverts_byKey f spends) hfits
  exact ⟨m, hrun, hsync, hbook.trans hlast,
    hlatest.trans (latestAfter_eq (onLatest_reverts f _)), hmarks⟩

/-- The family is filed where none of the others is. -/
theorem Node.Holds.entry_none (h : n.Holds T f spends) (hfresh : f.claims = [])
    (hclaims : f.Claims T pre) (hok : f.Ok) (hpre : ∀ spend ∈ pre, spend ∈ spends) :
    n.others T f ((f.claimAll pre).entry T).1 = none := by
  rcases hclaims.entry_root hok with hroot | ⟨spend, hs, hroot⟩
  · have hfirst : f.entry T = (f.root T, f.record) := if_pos (.inr hfresh)
    rw [hroot, hfirst]
    exact Function.update_self _ _ _
  · obtain ⟨hold, hnew⟩ := h.others_none (hpre spend hs)
    rcases List.mem_cons.mp hroot with heq | hroot
    · rw [heq]
      exact hold
    · rw [List.mem_singleton.mp hroot]
      exact hnew

/-- The marks after the claims of a chain and the reverts of the last of them are
those after the claims before. -/
theorem Family.Claims.marks_reverted (h : f.Claims T (pre ++ post)) (hok : f.Ok)
    (store : IndexStore) (hnone : ∀ spend ∈ pre ++ post, store.lookup spend.markKey = none)
    (k : List UInt8) :
    ((store.commit (((pre ++ post).map ExitCall.spent).flatMap ExitCall.marks)).commit
        (((f.claimAll pre).reverts post).flatMap ExitCall.marks)).lookup k
      = (store.commit ((pre.map ExitCall.spent).flatMap ExitCall.marks)).lookup k := by
  obtain ⟨hpre, hpost⟩ := h.append
  have hapart := (List.pairwise_append.mp (h.pairwise hok)).2.2
  rw [List.map_append, List.flatMap_append, IndexStore.commit_append]
  refine hpost.marks (hpre.ok hok) _ (fun spend hs => ?_) k
  rw [lookup_spent_marks store fun spend' hs' => (hapart spend' hs' spend hs).symm]
  exact hnone spend (List.mem_append_right _ hs)

/-- **Reverts.** Reverting the last claims of a chain, the last one first, leaves
the mirrors, the stored records and the marks as the claims before them left
them. When the settlement is reverted after any of the claims' reverts, the
others' records and the marks are what they were before the claims, and no
record has the family's leaves. -/
theorem reverts_invert_claims (hT : T.Lawful) (order : HashOrder) (hn : n.InSync T)
    {bundle : ExitsForBundle} {settlement : SettlementInfo}
    (hfits : bundle.leaves.length < 2 ^ 32)
    (hclaims : (Family.fresh bundle settlement).Claims T (pre ++ post))
    (hholds : n.Holds T (.fresh bundle settlement) (pre ++ post)) :
    (∃ m m', n.calls T order (pre.map .spent) = .ok m ∧
      n.calls T order ((pre ++ post).map .spent ++
        ((Family.fresh bundle settlement).claimAll pre).reverts post) = .ok m' ∧
      m.InSync T ∧ m'.InSync T ∧ m'.exits T = m.exits T ∧
      m'.indexer.records.book = m.indexer.records.book ∧ m'.indexer.latest = m.indexer.latest ∧
      ∀ root i, m'.store.lookup (spentMarkKey root i) = m.store.lookup (spentMarkKey root i)) ∧
    ∃ m, n.calls T order ((pre ++ post).map .spent ++
        (((Family.fresh bundle settlement).claimAll pre).reverts post ++
          .exitsReverted bundle settlement :: (Family.fresh bundle settlement).reverts pre))
        = .ok m ∧ m.InSync T ∧
      m.store.records T = Function.update (n.store.records T)
        ((Family.fresh bundle settlement).root T) none ∧
      (∀ root rec, m.store.records T root = some rec → rec.leaves ≠ bundle.leaves) ∧
      ∀ root i, m.store.lookup (spentMarkKey root i) = n.store.lookup (spentMarkKey root i) := by
  have hok : (Family.fresh bundle settlement).Ok := Family.fresh_ok settlement hfits
  have hfresh : (Family.fresh bundle settlement).claims = [] := rfl
  have hleaves : bundle.leaves = (Family.fresh bundle settlement).leaves := rfl
  generalize Family.fresh bundle settlement = f at *
  have hstart := (hholds.on_others hfresh).symm
  obtain ⟨hpre, hpost⟩ := hclaims.append
  have hnone := fun (spend : PermissionSpend) (hs : spend ∈ pre ++ post) =>
    hholds.others_none hs
  have hnonePre := fun spend hs => hnone spend (List.mem_append_left post hs)
  -- the claims before, all the claims, and the reverts of the last ones
  obtain ⟨m, hrun, hsync, hbook, hlatest, hmarks⟩ :=
    hpre.run hok hT order hn (fun spend hs => (hnonePre spend hs).1) hstart
  obtain ⟨a, hruna, hsynca, hbooka, hlatesta, hmarksa⟩ :=
    hclaims.run hok hT order hn (fun spend hs => (hnone spend hs).1) hstart
  have hback := hpost.onBook_reverts (hpre.ok hok) fun spend hs =>
    hnone spend (List.mem_append_right pre hs)
  rw [Family.claimAll_append, ← hbooka] at hback
  obtain ⟨m', hrun', hsync', hbook', hlatest', hmarks'⟩ := hsynca.run_reverts hT order hback
  have hsame : m'.indexer.records.book = m.indexer.records.book := hbook'.trans hbook.symm
  have hrow : m'.indexer.latest = m.indexer.latest :=
    (hlatest'.trans hlatesta).trans hlatest.symm
  have hmark : ∀ root i, m'.store.lookup (spentMarkKey root i)
      = m.store.lookup (spentMarkKey root i) := by
    intro root i
    rw [hmarks', hmarks, IndexStore.lookup_commit_congr (hmarksa root i)]
    exact hclaims.marks_reverted hok n.store hholds.unmarked _
  have hrunBack := (Node.calls_append _ _ hruna).trans hrun'
  refine ⟨⟨m, m', hrun, hrunBack, hsync, hsync', ?_, hsame, hrow, hmark⟩, ?_⟩
  · rw [Node.exits, Node.exits, ← hsync'.book, ← hsync.book, ← hsync'.latest, ← hsync.latest, hsame,
      hrow]
  -- the settlement's revert, and the claims' reverts after it
  have hentry := hholds.entry_none hfresh hpre hok fun spend hs => List.mem_append_left post hs
  obtain ⟨m₁, hrun₁, hsync₁, hbook₁, hmarks₁⟩ :=
    hholds.exitsReverted hT order hsync' hbook' hentry hleaves rfl settlement
  have hidle := f.onBook_reverts_others (T := T) hnonePre
  rw [← hbook₁] at hidle
  obtain ⟨m₂, hrun₂, hsync₂, hbook₂, -, hmarks₂⟩ := hsync₁.run_reverts hT order hidle
  have hothers : m₂.store.records T = n.others T f := by
    rw [← hsync₂.book, hbook₂, hbook₁]
  refine ⟨m₂, ?_, hsync₂, ?_, fun root rec hrec => ?_, fun root i => ?_⟩
  · rw [← List.append_assoc, Node.calls_append _ _ hrunBack]
    unfold Node.calls at hrun₂ ⊢
    rw [List.foldlM_cons]
    show (m'.run (onExitsReverted T order bundle settlement) >>= _) = _
    rw [hrun₁]
    exact hrun₂
  · rw [hothers, Node.others, hn.book]
  · rw [hothers] at hrec
    rw [hleaves]
    exact hholds.leaves_others hrec
  · have hbefore := ((hmarks₁ root i).trans (hmark root i)).trans (hmarks root i)
    rw [hmarks₂]
    exact (IndexStore.lookup_commit_congr hbefore _).trans (hpre.marks hok n.store
      (fun spend hs => hholds.unmarked spend (List.mem_append_left _ hs)) _)

end Nodes

/-- The claim of the second of the two exits, after the first one. -/
def secondClaim : PermissionSpend where
  oldRoot := firstClaim.newRoot
  leafIndex := 1
  deduct := 25000000
  newRoot := rawRoot .plain twoExits.leaves [0, 1]
  spendTxid := padTo 32 [0xef]
  newOutpointIndex := 0

theorem claims_twoExits :
    (Family.fresh twoExits (settledIn 0xcc)).Claims .plain ([firstClaim] ++ [secondClaim]) := by
  refine .cons ⟨by decide, by decide, rfl, rfl⟩ (.cons ⟨by decide, by decide, rfl, rfl⟩ .nil)

/-- Both exits are claimed, the second claim is reverted, then the settlement,
then the first claim. -/
theorem reverts_invert_claims_twoExits : ∃ n m m' m'',
    Node.empty.run (settledCall.hook .plain entriesOrder) = .ok n ∧
    n.calls .plain entriesOrder ([firstClaim].map .spent) = .ok m ∧
    n.calls .plain entriesOrder (([firstClaim] ++ [secondClaim]).map .spent ++
      ((Family.fresh twoExits (settledIn 0xcc)).claimAll [firstClaim]).reverts [secondClaim])
      = .ok m' ∧
    m'.exits .plain = m.exits .plain ∧
    n.calls .plain entriesOrder (([firstClaim] ++ [secondClaim]).map .spent ++
      (((Family.fresh twoExits (settledIn 0xcc)).claimAll [firstClaim]).reverts [secondClaim] ++
        .exitsReverted twoExits (settledIn 0xcc) ::
          (Family.fresh twoExits (settledIn 0xcc)).reverts [firstClaim])) = .ok m'' ∧
    ∀ root rec, m''.store.records .plain root = some rec → rec.leaves ≠ twoExits.leaves := by
  obtain ⟨n, hrun, hsync, hbook, hmarks⟩ := exists_settled
  have hroot : (recordFor .plain twoExits (settledIn 0xcc)).1
      = (Family.fresh twoExits (settledIn 0xcc)).root .plain :=
    ExitBackend.plain_lawful.viewRoot_fresh twoExits.leaves
  have hfiled : n.indexer.records.book = Function.update (fun _ => none)
      ((Family.fresh twoExits (settledIn 0xcc)).root .plain)
      (some (Family.fresh twoExits (settledIn 0xcc)).record) := by
    rw [hbook, ← hroot]
    rfl
  have hholds : n.Holds .plain (.fresh twoExits (settledIn 0xcc))
      ([firstClaim] ++ [secondClaim]) := by
    refine ⟨?_, fun root rec hrec _ => ?_, fun spend _ root _ hne => ?_, fun spend _ => hmarks _ _⟩
    · rw [hfiled, Function.update_self]
    · by_contra hne
      rw [hfiled, Function.update_of_ne hne] at hrec
      cases hrec
    · rw [hfiled, Function.update_of_ne hne]
  obtain ⟨⟨m, m', hm, hm', -, -, hexits, -⟩, m'', hm'', -, -, hnone, -⟩ :=
    reverts_invert_claims ExitBackend.plain_lawful entriesOrder hsync (by decide) claims_twoExits
      hholds
  exact ⟨n, m, m', m'', hrun, hm, hm', hexits, hm'', hnone⟩

end TicTacToe
