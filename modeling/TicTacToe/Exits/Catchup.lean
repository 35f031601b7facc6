/-
TicTacToe.Exits.Catchup — a replayed suffix of a history changes nothing
(`node/src/exit_index.rs`).

Rows and marks are overwritten by what the replay writes. For the records
(`Settling.replay`): while a suffix is replayed, a root is known once its
family was committed again; a known root holds what it held at that point
of the history, and every other root what it holds at the end of it.

No `sorry`, no `axiom`, no `native_decide`.
-/
import TicTacToe.Exits.Runs

namespace TicTacToe

open Lib

/-! ## Rows and marks -/

/-- What a run of calls can do to the served row: nothing, overwrite it, or
overwrite all of it but the permission root. -/
inductive Serves : (Option LatestSettlement → Option LatestSettlement) → Prop
  | same : Serves id
  | row (row : LatestSettlement) : Serves fun _ => some row
  | carried (row : LatestSettlement) : Serves fun latest =>
      some { row with permissionRoot := (latest.map LatestSettlement.permissionRoot).getD zeroHash }

section Rows

theorem carriedRoot_zero {settlement : SettlementInfo}
    (h : settlement.permissionSpkHash = zeroHash) (latest : Option LatestSettlement) :
    carriedRoot latest settlement
      = (latest.map LatestSettlement.permissionRoot).getD zeroHash := by
  cases latest with
  | none => exact h
  | some row => exact if_pos h

theorem carriedRoot_of_ne {settlement : SettlementInfo}
    (h : settlement.permissionSpkHash ≠ zeroHash) (latest : Option LatestSettlement) :
    carriedRoot latest settlement = settlement.permissionSpkHash := by
  cases latest with
  | none => rfl
  | some row => exact if_neg h

theorem serves_onLatest (c : ExitCall) : Serves fun latest => c.onLatest latest := by
  cases c with
  | committed bundle settlement => exact .row (servedRow bundle settlement)
  | recommitted bundle settlement => exact .row (servedRow bundle settlement)
  | observed settlement =>
    by_cases hzero : settlement.permissionSpkHash = zeroHash
    · simp only [ExitCall.onLatest, carriedRoot_zero hzero]
      exact .carried
        { stateRoot := settlement.newState, permissionRoot := zeroHash, txid := settlement.txId,
          daaScore := settlement.daaScore }
    · simp only [ExitCall.onLatest, carriedRoot_of_ne hzero]
      exact .row _
  | _ => exact .same

theorem Serves.comp {F G : Option LatestSettlement → Option LatestSettlement} (hG : Serves G)
    (hF : Serves F) : Serves fun latest => G (F latest) := by
  cases hG with
  | same => exact hF
  | row row => exact .row row
  | carried row =>
    cases hF with
    | same => exact .carried row
    | row row' => exact .row _
    | carried row' => exact .carried row

theorem serves_latestAfter (cs : List ExitCall) : Serves (latestAfter cs) := by
  induction cs with
  | nil => exact .same
  | cons c cs ih => exact ih.comp (serves_onLatest c)

/-- Serving the same rows again serves the same row. -/
theorem Serves.idem {F : Option LatestSettlement → Option LatestSettlement} (hF : Serves F)
    (latest : Option LatestSettlement) : F (F latest) = F latest := by
  cases hF with
  | same => rfl
  | row row => rfl
  | carried row => rfl

/-- Writing the same marks again leaves them as they are. -/
theorem lookup_commit_again {wb : WriteBatch} {k : List UInt8} (store : IndexStore) :
    ((store.commit wb).commit wb).lookup k = (store.commit wb).lookup k := by
  by_cases hk : ∃ op ∈ wb, op.key = k
  · have hsettled : ∀ (wb : WriteBatch), (∃ op ∈ wb, op.key = k) → ∀ store store' : IndexStore,
        (store.commit wb).lookup k = (store'.commit wb).lookup k := by
      intro wb
      induction wb with
      | nil =>
        intro hk
        obtain ⟨op, hop, -⟩ := hk
        cases hop
      | cons op wb ih =>
        intro hk store store'
        by_cases hlater : ∃ op ∈ wb, op.key = k
        · exact ih hlater (store.apply op) (store'.apply op)
        · have hkey : op.key = k := by
            obtain ⟨op', hop', hkey⟩ := hk
            rcases List.mem_cons.mp hop' with rfl | hmem
            · exact hkey
            · exact absurd ⟨op', hmem, hkey⟩ hlater
          subst hkey
          exact IndexStore.lookup_commit_congr (IndexStore.lookup_apply_self store store' op) wb
    exact hsettled wb hk _ _
  · exact IndexStore.lookup_commit_of_ne _ fun op hop heq => hk ⟨op, hop, heq⟩

end Rows

/-! ## Histories without reorgs -/

/-- Settlements and full claims of them in L1 order: the calls, the families
they leave, and every root a family was filed under. No root is filed twice. -/
inductive Settling (T : ExitBackend) :
    List ExitCall → List Family → List Bytes32 → Prop
  | start : Settling T [] [] []
  | committed {cs : List ExitCall} {fs : List Family} {keys : List Bytes32}
      {bundle : ExitsForBundle} {settlement : SettlementInfo} :
      Settling T cs fs keys → bundle.leaves.length < 2 ^ 32 →
      rawRoot T bundle.leaves [] ∉ keys →
      Settling T (cs ++ [.committed bundle settlement]) (fs ++ [.fresh bundle settlement])
        (keys ++ [rawRoot T bundle.leaves []])
  | observed {cs : List ExitCall} {fs : List Family} {keys : List Bytes32}
      {settlement : SettlementInfo} :
      Settling T cs fs keys → Settling T (cs ++ [.observed settlement]) fs keys
  | claimed {cs : List ExitCall} {fs : List Family} {keys : List Bytes32} {k : Nat} {f : Family}
      {spend : PermissionSpend} :
      Settling T cs fs keys → fs[k]? = some f →
      spend.leafIndex < f.leaves.length → spend.leafIndex ∉ f.claimed →
      spend.oldRoot = f.root T → spend.newRoot = (f.claim spend).root T →
      (f.claim spend).Live → spend.newRoot ∉ keys →
      Settling T (cs ++ [.spent spend]) (fs.set k (f.claim spend)) (keys ++ [spend.newRoot])
  | drained {cs : List ExitCall} {fs : List Family} {keys : List Bytes32} {k : Nat} {f : Family}
      {spend : PermissionSpend} :
      Settling T cs fs keys → fs[k]? = some f →
      spend.leafIndex < f.leaves.length → spend.leafIndex ∉ f.claimed →
      spend.oldRoot = f.root T → ¬ (f.claim spend).Live →
      Settling T (cs ++ [.spent spend]) (fs.set k (f.claim spend)) keys

/-- No claim can advance what is under the root. -/
def Book.Dead (book : Book) (root : Bytes32) : Prop := ∀ rec ∈ book root, rec.unclaimed = 0

/-- The roots that the calls claimed from. -/
def claimedRoots (cs : List ExitCall) : List Bytes32 := cs.filterMap fun c =>
  match c with
  | .spent spend => some spend.oldRoot
  | _ => none

/-- What a history leaves: the records of the families, each root it filed among
the keys, and nothing to claim where a claim was made. -/
structure Book.Settled (T : ExitBackend) (fs : List Family) (keys roots : List Bytes32)
    (book : Book) : Prop where
  files : Book.Files T fs book
  separate : Separate T fs
  live : ∀ f ∈ fs, f.Live → f.root T ∈ keys
  claimedFrom : ∀ root ∈ roots, root ∈ keys ∧ book.Dead root ∧
    ∀ f ∈ fs, f.Live → f.root T ≠ root

section Claims

variable {T : ExitBackend} {fs : List Family} {keys roots : List Bytes32} {book : Book}
  {k : Nat} {f : Family} {spend : PermissionSpend}

theorem Book.Dead.update {root root' : Bytes32} (h : book.Dead root) (hne : root ≠ root')
    (o : Option ExitRecord) : Book.Dead (Function.update book root' o) root := by
  unfold Book.Dead
  rw [Function.update_of_ne hne]
  exact h

/-- The record that a claim advances is the family's. -/
theorem Book.Settled.filed_old (h : book.Settled T fs keys roots) (hk : fs[k]? = some f)
    (hi : spend.leafIndex < f.leaves.length) (hnew : spend.leafIndex ∉ f.claimed)
    (hold : spend.oldRoot = f.root T) : book spend.oldRoot = some f.record := by
  have hf := List.mem_of_getElem? hk
  rw [hold]
  exact h.files.filed f hf ((h.separate.ok f hf).live_of_claim hi hnew)

/-- A new root is clear of the other families. -/
theorem Book.Settled.clear (h : book.Settled T fs keys roots) {others : List Family}
    (hothers : ∀ g ∈ others, g ∈ fs) {leaves : List ExitLeaf} (hfits : leaves.length < 2 ^ 32)
    {root : Bytes32} (hroot : root ∉ keys) : Filing.Clear T ⟨others, leaves, root⟩ where
  fits := hfits
  apart g hg hlive heq := by
    have heq' : g.root T = root := heq
    exact hroot (heq' ▸ h.live g (hothers g hg) hlive)

theorem Book.Settled.committed (h : book.Settled T fs keys roots) (hT : T.Lawful)
    {bundle : ExitsForBundle} (settlement : SettlementInfo)
    (hfits : bundle.leaves.length < 2 ^ 32) (hroot : rawRoot T bundle.leaves [] ∉ keys) :
    Book.Settled T (fs ++ [.fresh bundle settlement]) (keys ++ [rawRoot T bundle.leaves []])
      roots (Function.update book (recordFor T bundle settlement).1
        (some (recordFor T bundle settlement).2)) := by
  have hclear := h.clear (fun g (hg : g ∈ fs) => hg) hfits hroot
  have hkey : (recordFor T bundle settlement).1 = rawRoot T bundle.leaves [] :=
    hT.viewRoot_fresh bundle.leaves
  refine ⟨h.files.committed hT hclear, h.separate.committed hclear, fun f hf hlive => ?_,
    fun root hr => ?_⟩
  · rcases List.mem_append.mp hf with hf | hf
    · exact List.mem_append_left _ (h.live f hf hlive)
    · rw [List.mem_singleton.mp hf]
      exact List.mem_append_right _ List.mem_cons_self
  · obtain ⟨hmem, hdead, hapart⟩ := h.claimedFrom root hr
    have hne : root ≠ rawRoot T bundle.leaves [] := fun heq => hroot (heq ▸ hmem)
    refine ⟨List.mem_append_left _ hmem, ?_, fun f hf hlive => ?_⟩
    · rw [hkey]
      exact hdead.update hne _
    · rcases List.mem_append.mp hf with hf | hf
      · exact hapart f hf hlive
      · rw [List.mem_singleton.mp hf]
        exact hne.symm

/-- No live family is left under the root that a claim was made from. -/
theorem apart_claimed (hnew : (f.claim spend).Live → (f.claim spend).root T ∉ keys) {root : Bytes32}
    (hmem : root ∈ keys)
    (hroot : ∀ j g, j ≠ k → fs[j]? = some g → g.Live → g.root T ≠ root) :
    ∀ g ∈ fs.set k (f.claim spend), g.Live → g.root T ≠ root := by
  intro g hg hlive' heq
  rcases mem_set_claim hg with rfl | ⟨j, hj, hg⟩
  · exact hnew hlive' (heq ▸ hmem)
  · exact hroot j g hj hg hlive' heq

theorem Book.Settled.claimed (h : book.Settled T fs keys roots) (hk : fs[k]? = some f)
    (hi : spend.leafIndex < f.leaves.length) (hnew : spend.leafIndex ∉ f.claimed)
    (hold : spend.oldRoot = f.root T) (hroot : spend.newRoot = (f.claim spend).root T)
    (hfresh : spend.newRoot ∉ keys) :
    Book.Settled T (fs.set k (f.claim spend)) (keys ++ [spend.newRoot])
      (roots ++ [spend.oldRoot])
      (Function.update (Function.update book spend.oldRoot none) spend.newRoot
        (some (f.claim spend).record)) := by
  have hf := List.mem_of_getElem? hk
  have hok := h.separate.ok f hf
  have hok' : (f.claim spend).Ok := hok.claim hi hnew
  have hlive' : f.Live := hok.live_of_claim hi hnew
  have hkey : spend.oldRoot ∈ keys := hold ▸ h.live f hf hlive'
  have hne : spend.oldRoot ≠ spend.newRoot := fun heq => hfresh (heq ▸ hkey)
  have hclear : Filing.Clear T ⟨fs.eraseIdx k, f.leaves, (f.claim spend).root T⟩ :=
    h.clear (fun g hg => List.mem_of_mem_eraseIdx hg) hok.fits (hroot ▸ hfresh)
  have hfiles := h.files.continued h.separate hk hlive' hok' hclear
  rw [← hold, ← hroot] at hfiles
  have hfresh' : (f.claim spend).Live → (f.claim spend).root T ∉ keys := fun _ => hroot ▸ hfresh
  refine ⟨hfiles, h.separate.claimed hok' fun _ => hclear, fun g hg hlive'' => ?_,
    fun root hr => ?_⟩
  · rcases mem_set_claim hg with rfl | ⟨j, hj, hg⟩
    · rw [← hroot]
      exact List.mem_append_right _ List.mem_cons_self
    · exact List.mem_append_left _ (h.live g (List.mem_of_getElem? hg) hlive'')
  · rcases List.mem_append.mp hr with hr | hr
    · obtain ⟨hmem, hdead, hapart⟩ := h.claimedFrom root hr
      have hne' : root ≠ spend.newRoot := fun heq => hfresh (heq ▸ hmem)
      have hne'' : root ≠ spend.oldRoot := fun heq => hapart f hf hlive' (hold.symm.trans heq.symm)
      exact ⟨List.mem_append_left _ hmem, (hdead.update hne'' _).update hne' _,
        apart_claimed hfresh' hmem fun j g _ hg =>
          hapart g (List.mem_of_getElem? hg)⟩
    · rw [List.mem_singleton.mp hr]
      refine ⟨List.mem_append_left _ hkey, fun rec hrec => ?_,
        apart_claimed hfresh' hkey fun j g hj hg hlive'' => ?_⟩
      · rw [Function.update_of_ne hne, Function.update_self] at hrec
        cases hrec
      · rw [hold]
        exact h.separate.others_ne hk hlive' hj hg hlive''

theorem Book.Settled.drained (h : book.Settled T fs keys roots) (hk : fs[k]? = some f)
    (hi : spend.leafIndex < f.leaves.length) (hnew : spend.leafIndex ∉ f.claimed)
    (hold : spend.oldRoot = f.root T) (hdone : ¬ (f.claim spend).Live) :
    Book.Settled T (fs.set k (f.claim spend)) keys (roots ++ [spend.oldRoot])
      (Function.update book spend.oldRoot
        (some { f.record.claim spend with unclaimed := 0 })) := by
  have hf := List.mem_of_getElem? hk
  have hok := h.separate.ok f hf
  have hok' : (f.claim spend).Ok := hok.claim hi hnew
  have hlive : f.Live := hok.live_of_claim hi hnew
  have hkey : spend.oldRoot ∈ keys := hold ▸ h.live f hf hlive
  have hrec : ({ f.record.claim spend with unclaimed := 0 } : ExitRecord).Servable :=
    hok'.servable rfl Family.emptied_claim
  have hfiles := h.files.drained h.separate hk hlive hdone hrec
  rw [← hold] at hfiles
  have hfresh : (f.claim spend).Live → (f.claim spend).root T ∉ keys := fun hl => absurd hl hdone
  refine ⟨hfiles, h.separate.claimed hok' fun hl => absurd hl hdone, fun g hg hlive' => ?_,
    fun root hr => ?_⟩
  · rcases mem_set_claim hg with rfl | ⟨j, hj, hg⟩
    · exact absurd hlive' hdone
    · exact h.live g (List.mem_of_getElem? hg) hlive'
  · rcases List.mem_append.mp hr with hr | hr
    · obtain ⟨hmem, hdead, hapart⟩ := h.claimedFrom root hr
      have hne : root ≠ spend.oldRoot := fun heq => hapart f hf hlive (hold.symm.trans heq.symm)
      exact ⟨hmem, hdead.update hne _, apart_claimed hfresh hmem fun j g _ hg =>
        hapart g (List.mem_of_getElem? hg)⟩
    · rw [List.mem_singleton.mp hr]
      refine ⟨hkey, fun rec hrec' => ?_,
        apart_claimed hfresh hkey fun j g hj hg hlive' => ?_⟩
      · rw [Function.update_self] at hrec'
        cases hrec'
        rfl
      · rw [hold]
        exact h.separate.others_ne hk hlive hj hg hlive'

end Claims

/-! ## Replays -/

/-- After a suffix was replayed over `final`: the known roots hold what they
held at this point of the history, the others what they hold at its end. -/
structure Replayed (T : ExitBackend) (keys : List Bytes32) (suffix : List ExitCall)
    (book final : Book) (known : Set Bytes32) : Prop where
  filed : ∀ root ∈ known, root ∈ keys
  replayed : ∀ root ∈ known, bookAfter T suffix final root = book root
  untouched : ∀ root ∉ known, bookAfter T suffix final root = final root
  fits : StepsFit T suffix final

section Replays

variable {T : ExitBackend} {keys : List Bytes32} {suffix : List ExitCall} {book final : Book}
  {known : Set Bytes32}

/-- Edits decide what is under the roots they name. -/
theorem edits_mem (edits : List (Bytes32 × Option ExitRecord)) (b b' : Book) {root : Bytes32}
    (h : root ∈ edits.map Prod.fst ∨ b root = b' root) :
    edits.foldl (fun b e => Function.update b e.1 e.2) b root
      = edits.foldl (fun b e => Function.update b e.1 e.2) b' root := by
  induction edits generalizing b b' with
  | nil =>
    rcases h with hmem | hsame
    · cases hmem
    · exact hsame
  | cons e edits ih =>
    refine ih _ _ ?_
    dsimp only
    by_cases he : root = e.1
    · right
      subst he
      rw [Function.update_self, Function.update_self]
    · rcases h with hmem | hsame
      · rcases List.mem_cons.mp hmem with heq | hmem
        · exact absurd heq he
        · exact .inl hmem
      · right
        rw [Function.update_of_ne he, Function.update_of_ne he, hsame]

theorem edits_not_mem (edits : List (Bytes32 × Option ExitRecord)) (b : Book) {root : Bytes32}
    (h : root ∉ edits.map Prod.fst) :
    edits.foldl (fun b e => Function.update b e.1 e.2) b root = b root := by
  induction edits generalizing b with
  | nil => rfl
  | cons e edits ih =>
    have hne : root ≠ e.1 := fun heq => h (heq ▸ List.mem_cons_self)
    have htail := ih (Function.update b e.1 e.2) fun hmem => h (List.mem_cons_of_mem _ hmem)
    exact htail.trans (Function.update_of_ne hne _ _)

theorem Replayed.nil : Replayed T keys [] book final ∅ where
  filed _ h := absurd h (Set.notMem_empty _)
  replayed _ h := absurd h (Set.notMem_empty _)
  untouched _ _ := rfl
  fits := trivial

/-- A settlement recorded again makes its root known. -/
theorem Replayed.committed (h : Replayed T keys suffix book final known) (hT : T.Lawful)
    {bundle : ExitsForBundle} (settlement : SettlementInfo)
    (hfits : bundle.leaves.length < 2 ^ 32) :
    Replayed T (keys ++ [rawRoot T bundle.leaves []])
      (suffix ++ [.committed bundle settlement])
      ((ExitCall.committed bundle settlement).onBook T book) final
      (insert (rawRoot T bundle.leaves []) known) := by
  have hkey : (recordFor T bundle settlement).1 = rawRoot T bundle.leaves [] :=
    hT.viewRoot_fresh bundle.leaves
  have hstep : ∀ b : Book, (ExitCall.committed bundle settlement).onBook T b
      = Function.update b (rawRoot T bundle.leaves [])
        (some (recordFor T bundle settlement).2) := by
    intro b
    rw [← hkey]
    rfl
  refine ⟨fun root hr => ?_, fun root hr => ?_, fun root hr => ?_, stepsFit_concat h.fits ?_⟩
  · rcases Set.mem_insert_iff.mp hr with rfl | hr
    · exact List.mem_append_right _ List.mem_cons_self
    · exact List.mem_append_left _ (h.filed root hr)
  · rw [bookAfter_concat, hstep, hstep]
    by_cases he : root = rawRoot T bundle.leaves []
    · rw [he, Function.update_self, Function.update_self]
    · rw [Function.update_of_ne he, Function.update_of_ne he]
      exact h.replayed root ((Set.mem_insert_iff.mp hr).resolve_left he)
  · have he : root ≠ rawRoot T bundle.leaves [] := fun heq => hr (heq ▸ Set.mem_insert _ _)
    rw [bookAfter_concat, hstep, Function.update_of_ne he]
    exact h.untouched root fun hmem => hr (Set.mem_insert_of_mem _ hmem)
  · intro e he rec hrec
    rw [List.mem_singleton.mp he] at hrec
    cases hrec
    exact ⟨hfits, Nat.two_pow_pos 32⟩

/-- A claim made again: of a known root it does what it did, of another one
nothing. -/
theorem Replayed.spent (h : Replayed T keys suffix book final known) {spend : PermissionSpend}
    {rec : ExitRecord} (hrec : book spend.oldRoot = some rec) (hdead : final.Dead spend.oldRoot)
    {keys' : List Bytes32} (hkeys : ∀ root ∈ keys, root ∈ keys')
    (hedits : ∀ e ∈ spentEdits spend (some rec),
      e.1 ∈ keys' ∧ (e.1 = spend.oldRoot ∨ e.1 ∉ keys) ∧ ∀ r ∈ e.2, ExitRecord.Encodable r) :
    ∃ known', Replayed T keys' (suffix ++ [.spent spend])
      ((ExitCall.spent spend).onBook T book) final known' := by
  by_cases hknown : spend.oldRoot ∈ known
  · -- the replay has the record the history had
    have hsame : bookAfter T suffix final spend.oldRoot = some rec :=
      (h.replayed _ hknown).trans hrec
    refine ⟨known ∪ {root | root ∈ (spentEdits spend (some rec)).map Prod.fst}, ?_, ?_, ?_,
      stepsFit_concat h.fits ?_⟩
    · intro root hr
      rcases hr with hr | hr
      · exact hkeys root (h.filed root hr)
      · obtain ⟨e, he, rfl⟩ := List.mem_map.mp hr
        exact (hedits e he).1
    · intro root hr
      rw [bookAfter_concat, onBook_spent hsame, onBook_spent hrec]
      refine edits_mem _ _ _ ?_
      rcases hr with hr | hr
      · exact .inr (h.replayed root hr)
      · exact .inl hr
    · intro root hr
      rw [bookAfter_concat, onBook_spent hsame, edits_not_mem _ _ fun hmem => hr (.inr hmem)]
      exact h.untouched root fun hmem => hr (.inl hmem)
    · show ∀ e ∈ spentEdits spend (bookAfter T suffix final spend.oldRoot), _
      rw [hsame]
      exact fun e he => (hedits e he).2.2
  · -- the replay finds nothing, or a drained record
    have hfinal := h.untouched _ hknown
    have hidle : (ExitCall.spent spend).onBook T (bookAfter T suffix final)
          = bookAfter T suffix final ∧
        ∀ e ∈ spentEdits spend (bookAfter T suffix final spend.oldRoot), e.2 = none := by
      show (spentEdits spend (bookAfter T suffix final spend.oldRoot)).foldl
          (fun b e => Function.update b e.1 e.2) (bookAfter T suffix final) = _ ∧ _
      cases hroot : final spend.oldRoot with
      | none =>
        rw [hfinal, hroot]
        refine ⟨Book.update_none (hfinal.trans hroot), fun e he => ?_⟩
        rw [List.mem_singleton.mp he]
      | some rec' =>
        have hdrained : rec'.unclaimed = 0 := hdead rec' hroot
        have hnil : spentEdits spend (some rec') = [] := if_pos (.inl hdrained)
        rw [hfinal, hroot, hnil]
        exact ⟨rfl, fun e he => by cases he⟩
    refine ⟨known, fun root hr => hkeys root (h.filed root hr), fun root hr => ?_,
      fun root hr => ?_, stepsFit_concat h.fits fun e he r hr => ?_⟩
    · rw [bookAfter_concat, hidle.1, onBook_spent hrec, edits_not_mem _ _ fun hmem => ?_]
      · exact h.replayed root hr
      · obtain ⟨e, he, rfl⟩ := List.mem_map.mp hmem
        rcases (hedits e he).2.1 with hold | hnew
        · exact hknown (hold ▸ hr)
        · exact hnew (h.filed _ hr)
    · rw [bookAfter_concat, hidle.1]
      exact h.untouched root hr
    · rw [hidle.2 e he] at hr
      cases hr

end Replays

/-! ## Histories and their suffixes -/

section Suffixes

variable {T : ExitBackend} {cs : List ExitCall} {fs : List Family} {keys : List Bytes32}

theorem claimedRoots_concat (cs : List ExitCall) (c : ExitCall) :
    claimedRoots (cs ++ [c]) = claimedRoots cs ++ claimedRoots [c] := List.filterMap_append

/-- What a history leaves. -/
theorem Settling.settled (hT : T.Lawful) (h : Settling T cs fs keys) :
    Book.Settled T fs keys (claimedRoots cs) (bookAfter T cs fun _ => none) := by
  induction h with
  | start =>
    exact ⟨Book.files_empty, ⟨fun _ _ _ _ h => by simp at h, fun _ h => absurd h List.not_mem_nil⟩,
      fun _ h => absurd h List.not_mem_nil, fun _ h => absurd h List.not_mem_nil⟩
  | @committed cs fs keys bundle settlement _ hfits hroot ih =>
    rw [bookAfter_concat, claimedRoots_concat]
    have hnone : claimedRoots [.committed bundle settlement] = [] := rfl
    rw [hnone, List.append_nil]
    exact ih.committed hT settlement hfits hroot
  | @observed cs fs keys settlement _ ih =>
    rw [bookAfter_concat, claimedRoots_concat]
    have hnone : claimedRoots [.observed settlement] = [] := rfl
    rw [hnone, List.append_nil]
    exact ih
  | @claimed cs fs keys k f spend _ hk hi hnew hold hroot hlive hfresh ih =>
    have hok := ih.separate.ok f (List.mem_of_getElem? hk)
    have hok' := hok.claim hi hnew
    rw [bookAfter_concat, claimedRoots_concat, onBook_spent (ih.filed_old hk hi hnew hold),
      hok.spentEdits_live hok' hnew hlive]
    exact ih.claimed hk hi hnew hold hroot hfresh
  | @drained cs fs keys k f spend _ hk hi hnew hold hdone ih =>
    have hok := ih.separate.ok f (List.mem_of_getElem? hk)
    have hok' := hok.claim hi hnew
    rw [bookAfter_concat, claimedRoots_concat, onBook_spent (ih.filed_old hk hi hnew hold),
      hok.spentEdits_drained hok' hnew hdone]
    exact ih.drained hk hi hnew hold hdone

theorem Settling.byKey (h : Settling T cs fs keys) : ∀ c ∈ cs, c.ByKey := by
  induction h with
  | start => exact fun c hc => absurd hc List.not_mem_nil
  | committed _ _ _ ih | observed _ ih | claimed _ _ _ _ _ _ _ _ ih | drained _ _ _ _ _ _ ih =>
    intro c hc
    rcases List.mem_append.mp hc with hc | hc
    · exact ih c hc
    · rw [List.mem_singleton.mp hc]
      trivial

/-- A suffix is empty or ends with the last call. -/
theorem suffix_concat {pre suffix : List ExitCall} {c : ExitCall}
    (h : cs ++ [c] = pre ++ suffix) :
    suffix = [] ∨ ∃ suffix', suffix = suffix' ++ [c] ∧ cs = pre ++ suffix' := by
  rcases List.eq_nil_or_concat suffix with rfl | ⟨suffix', c', rfl⟩
  · exact .inl rfl
  · rw [List.concat_eq_append, ← List.append_assoc] at h
    obtain ⟨hcs, hc⟩ := List.append_inj' h rfl
    cases hc
    exact .inr ⟨suffix', List.concat_eq_append, hcs⟩

/-- Every suffix of `cs` can be replayed over `final`, once its claims' roots
have nothing to claim there. -/
def Replays (T : ExitBackend) (cs : List ExitCall) (keys : List Bytes32) (final : Book) : Prop :=
  ∀ pre suffix, cs = pre ++ suffix → (∀ root ∈ claimedRoots suffix, final.Dead root) →
    ∃ known, Replayed T keys suffix (bookAfter T cs fun _ => none) final known

/-- One more call: the empty suffix replays by itself, and any other one ends
with that call. -/
theorem Replays.concat {keys' : List Bytes32} {final : Book} {c : ExitCall}
    (h : Replays T cs keys final)
    (hone : ∀ suffix known, (∀ root ∈ claimedRoots [c], final.Dead root) →
      Replayed T keys suffix (bookAfter T cs fun _ => none) final known →
      ∃ known', Replayed T keys' (suffix ++ [c]) (c.onBook T (bookAfter T cs fun _ => none))
        final known') : Replays T (cs ++ [c]) keys' final := by
  intro pre suffix hsplit hdead
  rcases suffix_concat hsplit with rfl | ⟨suffix', rfl, hsplit'⟩
  · exact ⟨∅, Replayed.nil⟩
  · rw [claimedRoots_concat] at hdead
    obtain ⟨known, hreplayed⟩ := h pre suffix' hsplit' fun root hr =>
      hdead root (List.mem_append_left _ hr)
    rw [bookAfter_concat]
    exact hone suffix' known (fun root hr => hdead root (List.mem_append_right _ hr)) hreplayed

/-- Every suffix of a history can be replayed over records with nothing to
claim where its claims were made. -/
theorem Settling.replay (hT : T.Lawful) (h : Settling T cs fs keys) {final : Book} :
    Replays T cs keys final := by
  induction h with
  | start =>
    intro pre suffix hsplit _
    obtain ⟨-, rfl⟩ := List.append_eq_nil_iff.mp hsplit.symm
    exact ⟨∅, Replayed.nil⟩
  | @committed cs fs keys bundle settlement _ hfits hroot ih =>
    refine ih.concat fun suffix known _ hreplayed => ?_
    exact ⟨_, hreplayed.committed hT settlement hfits⟩
  | @observed cs fs keys settlement _ ih =>
    refine ih.concat fun suffix known _ hreplayed => ?_
    refine ⟨known, hreplayed.filed, fun root hr => ?_, fun root hr => ?_,
      stepsFit_concat hreplayed.fits fun e he => absurd he List.not_mem_nil⟩
    · rw [bookAfter_concat]
      exact hreplayed.replayed root hr
    · rw [bookAfter_concat]
      exact hreplayed.untouched root hr
  | @claimed cs fs keys k f spend hcs hk hi hnew hold hroot hlive hfresh ih =>
    refine ih.concat fun suffix known hdead hreplayed => ?_
    have hsettled := hcs.settled hT
    have hf := List.mem_of_getElem? hk
    have hok := hsettled.separate.ok f hf
    have hok' := hok.claim hi hnew
    have hlive' : f.Live := hok.live_of_claim hi hnew
    refine hreplayed.spent (hsettled.filed_old hk hi hnew hold) (hdead _ List.mem_cons_self)
      (fun root hr => List.mem_append_left _ hr) fun e he => ?_
    rw [hok.spentEdits_live hok' hnew hlive] at he
    rcases List.mem_cons.mp he with rfl | he
    · exact ⟨List.mem_append_left _ (hold ▸ hsettled.live f hf hlive'), .inl rfl,
        fun r hr => by cases hr⟩
    · rw [List.mem_singleton.mp he]
      refine ⟨List.mem_append_right _ List.mem_cons_self, .inr hfresh, fun r hr => ?_⟩
      cases hr
      exact (hok'.servable rfl rfl).toEncodable
  | @drained cs fs keys k f spend hcs hk hi hnew hold hdone ih =>
    refine ih.concat fun suffix known hdead hreplayed => ?_
    have hsettled := hcs.settled hT
    have hf := List.mem_of_getElem? hk
    have hok := hsettled.separate.ok f hf
    have hok' := hok.claim hi hnew
    have hlive' : f.Live := hok.live_of_claim hi hnew
    refine hreplayed.spent (hsettled.filed_old hk hi hnew hold) (hdead _ List.mem_cons_self)
      (fun root hr => hr) fun e he => ?_
    rw [hok.spentEdits_drained hok' hnew hdone] at he
    rw [List.mem_singleton.mp he]
    refine ⟨hold ▸ hsettled.live f hf hlive', .inl rfl, fun r hr => ?_⟩
    cases hr
    have hclaim : (f.record.claim spend).Encodable :=
      (hok'.servable rfl Family.emptied_claim).toEncodable
    exact ⟨hclaim.leaves, hclaim.emptied⟩

theorem Settling.runs (hT : T.Lawful) (order : HashOrder) (h : Settling T cs fs keys) :
    ∃ n, Node.empty.calls T order cs = .ok n ∧ n.InSync T ∧
      n.indexer.records.book = bookAfter T cs (fun _ => none) ∧
      n.indexer.latest = latestAfter cs none ∧
      ∀ root i, n.store.lookup (spentMarkKey root i)
        = (IndexStore.commit ∅ (cs.flatMap ExitCall.marks)).lookup (spentMarkKey root i) := by
  have hdead : ∀ root ∈ claimedRoots cs, Book.Dead (fun _ => none) root := by
    intro root _ rec hrec
    cases hrec
  obtain ⟨_, hreplayed⟩ := h.replay hT [] cs rfl hdead
  exact (Node.inSync_empty T).calls_byKey hT order cs h.byKey hreplayed.fits

/-- **Catchup.** Replaying any suffix of a history, on any node in sync with
the store the history left, leaves the records, the served row and the marks as
they are, and the mirrors in sync with them. -/
theorem catchup_converges (hT : T.Lawful) (order order' : HashOrder) {pre suffix : List ExitCall}
    (h : Settling T (pre ++ suffix) fs keys) :
    ∃ n, Node.empty.calls T order (pre ++ suffix) = .ok n ∧ n.InSync T ∧
      ∀ m : Node, m.store = n.store → m.InSync T →
        ∃ m', m.calls T order' suffix = .ok m' ∧ m'.InSync T ∧ m'.exits T = n.exits T ∧
          m'.indexer.records.book = n.indexer.records.book ∧
          m'.indexer.latest = n.indexer.latest ∧
          ∀ root i, m'.store.lookup (spentMarkKey root i)
            = n.store.lookup (spentMarkKey root i) := by
  obtain ⟨n, hrun, hsync, hbook, hlatest, hmarks⟩ := h.runs hT order
  refine ⟨n, hrun, hsync, fun m hstore hm => ?_⟩
  have hmbook : m.indexer.records.book = n.indexer.records.book := by
    rw [hm.book, hsync.book, hstore]
  have hmlatest : m.indexer.latest = n.indexer.latest := by
    rw [hm.latest, hsync.latest, hstore]
  have hdead : ∀ root ∈ claimedRoots suffix, m.indexer.records.book.Dead root := by
    intro root hr
    have hmem : root ∈ claimedRoots (pre ++ suffix) := by
      unfold claimedRoots
      rw [List.filterMap_append]
      exact List.mem_append_right _ hr
    rw [hmbook, hbook]
    exact ((h.settled hT).claimedFrom root hmem).2.1
  obtain ⟨known, hreplayed⟩ := h.replay hT pre suffix rfl hdead
  obtain ⟨m', hrun', hsync', hbook', hlatest', hmarks'⟩ := hm.calls_byKey hT order' suffix
    (fun c hc => h.byKey c (List.mem_append_right _ hc)) hreplayed.fits
  have hsame : m'.indexer.records.book = n.indexer.records.book := by
    rw [hbook']
    funext root
    by_cases hknown : root ∈ known
    · rw [hreplayed.replayed root hknown, hbook]
    · rw [hreplayed.untouched root hknown, hmbook]
  have hrow : m'.indexer.latest = n.indexer.latest := by
    rw [hlatest', hmlatest, hlatest]
    show latestAfter suffix ((pre ++ suffix).foldl ExitCall.onLatest none)
      = (pre ++ suffix).foldl ExitCall.onLatest none
    rw [List.foldl_append]
    exact (serves_latestAfter suffix).idem _
  refine ⟨m', hrun', hsync', ?_, hsame, hrow, fun root i => ?_⟩
  · rw [Node.exits, Node.exits, ← hsync'.book, ← hsync.book, ← hsync'.latest, ← hsync.latest, hsame,
      hrow]
  · rw [List.flatMap_append, IndexStore.commit_append] at hmarks
    rw [hmarks', hstore, hmarks]
    exact (IndexStore.lookup_commit_congr (hmarks root i) _).trans (lookup_commit_again _)

end Suffixes

/-- Two exits are settled, the first one is claimed, and a settlement without
exits is observed. -/
theorem firstClaim_settling : Settling .plain
    ([.committed twoExits (settledIn 0xcc)] ++
      [.spent firstClaim, .observed { settledIn 0xcd with permissionSpkHash := zeroHash }])
    [(Family.fresh twoExits (settledIn 0xcc)).claim firstClaim]
    [firstClaim.oldRoot, firstClaim.newRoot] := by
  have hcommitted : Settling .plain ([] ++ [.committed twoExits (settledIn 0xcc)])
      ([] ++ [.fresh twoExits (settledIn 0xcc)]) ([] ++ [firstClaim.oldRoot]) :=
    .committed .start (by decide) List.not_mem_nil
  have hclaimed : Settling .plain (_ ++ [.spent firstClaim])
      (List.set _ 0 ((Family.fresh twoExits (settledIn 0xcc)).claim firstClaim))
      (_ ++ [firstClaim.newRoot]) :=
    .claimed hcommitted rfl (by decide) (by decide) rfl rfl (by decide) (by decide +kernel)
  exact .observed hclaimed

/-- The claim and the settlement after it are replayed. -/
theorem catchup_converges_claim : ∃ n,
    Node.empty.calls .plain entriesOrder
      ([.committed twoExits (settledIn 0xcc)] ++
        [.spent firstClaim, .observed { settledIn 0xcd with permissionSpkHash := zeroHash }])
      = .ok n ∧ ∃ m', n.calls .plain entriesOrder
        [.spent firstClaim, .observed { settledIn 0xcd with permissionSpkHash := zeroHash }]
        = .ok m' ∧ m'.exits .plain = n.exits .plain := by
  obtain ⟨n, hrun, hsync, hreplay⟩ :=
    catchup_converges ExitBackend.plain_lawful _ _ firstClaim_settling
  obtain ⟨m', hrun', -, hexits, -⟩ := hreplay n rfl hsync
  exact ⟨n, hrun, m', hrun', hexits⟩

end TicTacToe
