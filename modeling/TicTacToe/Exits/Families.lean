/-
TicTacToe.Exits.Families — exit families as L1 sees them, and when each
one is served.

A family is a settled leaf list and the full claims made of it so far, in
order. `ExitHistory` is any interleaving of settlements and claims;
`Filing` is what a hook files in the index, and it is clear when no other
family that still has something to claim sits under the same root. In a
history of clear filings every such family is served
(`clear_families_served`); records being keyed by root alone, a filing
that is not clear overwrites one.

No `sorry`, no `axiom`, no `native_decide`.
-/
import TicTacToe.Exits.Indexer

namespace TicTacToe

open Lib

/-- A committed exit family: its leaves and the full claims of them. -/
structure Family where
  settlementTxid : Bytes32
  daaScore : UInt64
  leaves : List ExitLeaf
  claims : List PermissionSpend

namespace Family

def fresh (bundle : ExitsForBundle) (settlement : SettlementInfo) : Family where
  settlementTxid := settlement.txId
  daaScore := settlement.daaScore
  leaves := bundle.leaves
  claims := []

def claim (f : Family) (spend : PermissionSpend) : Family :=
  { f with claims := f.claims ++ [spend] }

def claimed (f : Family) : List Nat := f.claims.map PermissionSpend.leafIndex

/-- The raw padded root of what is left. -/
def root (T : ExitBackend) (f : Family) : Bytes32 := rawRoot T f.leaves f.claimed

/-- The current permission output: the last claim's, or output 1 of the
settlement. -/
def outpoint (f : Family) : Bytes32 × UInt32 :=
  match f.claims.getLast? with
  | some spend => (spend.spendTxid, spend.newOutpointIndex)
  | none => (f.settlementTxid, 1)

/-- The unclaimed leaves, with their positions. -/
def unclaimed (f : Family) : List (ExitLeaf × Nat) :=
  f.leaves.zipIdx.filter fun p => p.2 ∉ f.claimed

def Live (f : Family) : Prop := f.unclaimed ≠ []

instance (f : Family) : Decidable f.Live := inferInstanceAs (Decidable (f.unclaimed ≠ []))

/-- The record of the family, as long as it is live. -/
def record (f : Family) : ExitRecord where
  settlementTxid := f.outpoint.1
  outpointIndex := f.outpoint.2
  daaScore := f.daaScore
  unclaimed := UInt64.ofNat (f.leaves.length - f.claims.length)
  rent := 50000000
  leaves := f.leaves
  emptied := f.claims.map fun s =>
    { leafIndex := UInt32.ofNat s.leafIndex, spendTxid := s.spendTxid, deduct := s.deduct }

end Family

/-! ## Histories -/

inductive ExitEvent where
  | committed (bundle : ExitsForBundle) (settlement : SettlementInfo)
  | spent (spend : PermissionSpend)

def ExitEvent.hook (T : ExitBackend) : ExitEvent → Hook
  | .committed bundle settlement => onExitsCommitted T bundle settlement
  | .spent spend => onPermissionSpent T spend

/-- The hooks of a history, each committed before the next. -/
def Node.replay (T : ExitBackend) (es : List ExitEvent) (n : Node) : Except Fault Node :=
  es.foldlM (fun n e => n.run (e.hook T)) n

/-- What a hook files: leaves, under a root, next to other families. -/
structure Filing where
  others : List Family
  leaves : List ExitLeaf
  root : Bytes32

/-- The leaf count fits its field, and no other family that still has an
unclaimed leaf has the root. -/
structure Filing.Clear (T : ExitBackend) (w : Filing) : Prop where
  fits : w.leaves.length < 2 ^ 32
  apart : ∀ f ∈ w.others, f.Live → f.root T ≠ w.root

/-- Settlements with distinct transactions and full claims of them, in L1
order, every filing of which is `ok`; with the families they leave. -/
inductive ExitHistory (T : ExitBackend) (ok : Filing → Prop) :
    List ExitEvent → List Family → Prop
  | start : ExitHistory T ok [] []
  | committed {es : List ExitEvent} {fs : List Family} {bundle : ExitsForBundle}
      {settlement : SettlementInfo} :
      ExitHistory T ok es fs → bundle.leaves ≠ [] →
      settlement.txId ∉ fs.map Family.settlementTxid →
      ok ⟨fs, bundle.leaves, rawRoot T bundle.leaves []⟩ →
      ExitHistory T ok (es ++ [.committed bundle settlement]) (fs ++ [.fresh bundle settlement])
  | claimed {es : List ExitEvent} {fs : List Family} {k : Nat} {f : Family}
      {spend : PermissionSpend} :
      ExitHistory T ok es fs → fs[k]? = some f →
      spend.leafIndex < f.leaves.length → spend.leafIndex ∉ f.claimed →
      spend.oldRoot = f.root T → spend.newRoot = (f.claim spend).root T →
      -- the last claim of a family files nothing under its new root
      ((f.claim spend).Live → ok ⟨fs.eraseIdx k, f.leaves, spend.newRoot⟩) →
      ExitHistory T ok (es ++ [.spent spend]) (fs.set k (f.claim spend))

/-- Each family that still has an unclaimed leaf has a view with its own
current output, showing exactly its unclaimed leaves as unspent. -/
def Node.ServesAll (T : ExitBackend) (fs : List Family) (n : Node) : Prop :=
  ∃ vs, exitViews T n.store = .ok vs ∧ ∀ f ∈ fs, f.Live →
    ∃ v ∈ vs, (v.record.settlementTxid, v.record.outpointIndex) = f.outpoint ∧
      v.unspent = f.unclaimed

/-! ## One family -/

/-- Claims are of different leaves of the family, and its size fits. -/
structure Family.Ok (f : Family) : Prop where
  nodup : f.claimed.Nodup
  inRange : ∀ i ∈ f.claimed, i < f.leaves.length
  fits : f.leaves.length < 2 ^ 32

section OneFamily

variable {f : Family} {spend : PermissionSpend}

@[simp] theorem Family.claimed_claim :
    (f.claim spend).claimed = f.claimed ++ [spend.leafIndex] := by
  simp [Family.claimed, Family.claim]

@[simp] theorem Family.outpoint_claim :
    (f.claim spend).outpoint = (spend.spendTxid, spend.newOutpointIndex) := by
  simp [Family.outpoint, Family.claim]

theorem Family.Ok.claim (h : f.Ok) (hi : spend.leafIndex < f.leaves.length)
    (hnew : spend.leafIndex ∉ f.claimed) : (f.claim spend).Ok where
  nodup := by
    rw [Family.claimed_claim]
    exact List.nodup_append.mpr ⟨h.nodup, List.nodup_singleton _, fun a ha b hb => by
      rw [List.mem_singleton.mp hb]
      rintro rfl
      exact hnew ha⟩
  inRange i hm := by
    rw [Family.claimed_claim] at hm
    rcases List.mem_append.mp hm with hold | hlast
    · exact h.inRange i hold
    · rw [List.mem_singleton.mp hlast]
      exact hi
  fits := h.fits

/-- Claimed and unclaimed leaves make up the family. -/
theorem Family.Ok.length_unclaimed (h : f.Ok) :
    f.unclaimed.length + f.claims.length = f.leaves.length := by
  have hrange : f.leaves.zipIdx.map Prod.snd = List.range f.leaves.length := by
    rw [List.zipIdx_map_snd, List.range_eq_range']
  have hunclaimed : f.unclaimed.length
      = ((List.range f.leaves.length).filter fun i => i ∉ f.claimed).length := by
    rw [← hrange, List.filter_map, List.length_map]
    rfl
  have hclaimed : ((List.range f.leaves.length).filter fun i => i ∈ f.claimed).Perm f.claimed := by
    refine (List.perm_ext_iff_of_nodup (List.nodup_range.filter _) h.nodup).mpr fun i => ?_
    simp only [List.mem_filter, List.mem_range, decide_eq_true_eq]
    exact ⟨fun hm => hm.2, fun hm => ⟨h.inRange i hm, hm⟩⟩
  have hsplit := List.length_eq_length_filter_add (l := List.range f.leaves.length)
    (fun i => decide (i ∈ f.claimed))
  rw [List.length_range, hclaimed.length_eq] at hsplit
  have hlen : f.claimed.length = f.claims.length := List.length_map _
  simp only [decide_not] at hunclaimed
  omega

theorem Family.Ok.live_iff (h : f.Ok) : f.Live ↔ f.claims.length < f.leaves.length := by
  have hlen := h.length_unclaimed
  unfold Family.Live
  rw [← List.length_pos_iff]
  omega

theorem Family.Ok.leafIndex_toNat (h : f.Ok) {i : Nat} (hi : i ∈ f.claimed) :
    (UInt32.ofNat i).toNat = i := by
  have hlt := h.inRange i hi
  have hfits := h.fits
  rw [UInt32.toNat_ofNat', Nat.mod_eq_of_lt (by omega)]

theorem Family.Ok.emptiedIndices (h : f.Ok) : f.record.emptiedIndices = f.claimed := by
  simp only [ExitRecord.emptiedIndices, Family.record, Family.claimed, List.map_map]
  refine List.map_congr_left fun s hs => ?_
  exact h.leafIndex_toNat (List.mem_map_of_mem hs)

/-- The record names no leaf that is not claimed. -/
theorem Family.Ok.leafIndex_ne (h : f.Ok) {i : Nat} (hi : i ∉ f.claimed) :
    ∀ e ∈ f.record.emptied, e.leafIndex.toNat ≠ i := by
  intro e he heq
  have hm : e.leafIndex.toNat ∈ f.record.emptiedIndices := List.mem_map_of_mem he
  rw [h.emptiedIndices, heq] at hm
  exact hi hm

/-- A family with an unclaimed leaf is live. -/
theorem Family.Ok.live_of_claim (h : f.Ok) (hi : spend.leafIndex < f.leaves.length)
    (hnew : spend.leafIndex ∉ f.claimed) : f.Live := by
  have hclaims : (f.claim spend).claims.length = f.claims.length + 1 := List.length_append
  have hleaves : (f.claim spend).leaves.length = f.leaves.length := rfl
  have hlen := (h.claim hi hnew).length_unclaimed
  exact h.live_iff.mpr (by omega)

/-- Any record with the family's leaves and claims can be served. -/
theorem Family.Ok.servable (h : f.Ok) {rec : ExitRecord} (hleaves : rec.leaves = f.leaves)
    (hemptied : rec.emptied = f.record.emptied) : rec.Servable where
  leaves := hleaves ▸ h.fits
  emptied := by
    have hlen := h.length_unclaimed
    have hfits := h.fits
    rw [hemptied, Family.record, List.length_map]
    omega
  indices e he := by
    rw [hemptied] at he
    have hi : e.leafIndex.toNat ∈ f.record.emptiedIndices := List.mem_map_of_mem he
    rw [h.emptiedIndices] at hi
    rw [hleaves]
    exact h.inRange _ hi

theorem Family.Ok.unclaimed_toNat (h : f.Ok) :
    f.record.unclaimed.toNat = f.leaves.length - f.claims.length := by
  have hfits := h.fits
  rw [Family.record, UInt64.toNat_ofNat', Nat.mod_eq_of_lt (by omega)]

theorem Family.emptied_claim : (f.record.claim spend).emptied = (f.claim spend).record.emptied := by
  simp [ExitRecord.claim, Family.record, Family.claim]

/-- A claim that leaves a continuation turns one record into the next. -/
theorem Family.Ok.record_claim (h : f.Ok) (hleft : 1 < f.record.unclaimed.toNat) :
    { f.record.claim spend with
      settlementTxid := spend.spendTxid, outpointIndex := spend.newOutpointIndex,
      unclaimed := f.record.unclaimed - 1 : ExitRecord } = (f.claim spend).record := by
  have hone : (1 : UInt64) ≤ f.record.unclaimed := UInt64.le_iff_toNat_le.mpr (by
    have h1 : (1 : UInt64).toNat = 1 := rfl
    omega)
  have hunclaimed : f.record.unclaimed - 1 = (f.claim spend).record.unclaimed := by
    refine UInt64.toNat_inj.mp ?_
    have hfits := h.fits
    have hclaims : (f.claim spend).claims.length = f.claims.length + 1 := by simp [Family.claim]
    have hleaves : (f.claim spend).leaves = f.leaves := rfl
    rw [UInt64.toNat_sub_of_le _ _ hone, h.unclaimed_toNat, Family.record, hclaims, hleaves,
      UInt64.toNat_ofNat', Nat.mod_eq_of_lt (by omega)]
    have h1 : (1 : UInt64).toNat = 1 := rfl
    omega
  have hemptied : (f.record.claim spend).emptied = (f.claim spend).record.emptied :=
    Family.emptied_claim
  rw [hunclaimed]
  simp only [ExitRecord.claim, Family.record, Family.outpoint_claim] at hemptied ⊢
  simp only [hemptied]
  rfl

end OneFamily

/-! ## All of them -/

/-- Every live family has its record under its root, and every record can be
served. -/
structure Book.Files (T : ExitBackend) (fs : List Family) (book : Book) : Prop where
  filed : ∀ f ∈ fs, f.Live → book (f.root T) = some f.record
  servable : ∀ root rec, book root = some rec → rec.Servable

/-- No two live families share a root. -/
structure Separate (T : ExitBackend) (fs : List Family) : Prop where
  apart : ∀ (k k' : Nat) (f f' : Family), fs[k]? = some f → fs[k']? = some f' → k ≠ k' →
    f.Live → f'.Live → f.root T ≠ f'.root T
  ok : ∀ f ∈ fs, f.Ok

section Books

variable {T : ExitBackend} {fs fs' : List Family} {book : Book} {root : Bytes32}

/-- Rewriting one root of a book: the families at it are the new ones, every
other family is an old one. -/
theorem Book.Files.update (h : Book.Files T fs book) {o : Option ExitRecord}
    (hnew : ∀ f ∈ fs', f.Live → f.root T = root → o = some f.record)
    (hold : ∀ f ∈ fs', f.Live → f.root T ≠ root → f ∈ fs)
    (hservable : ∀ rec, o = some rec → rec.Servable) :
    Book.Files T fs' (Function.update book root o) where
  filed f hf hlive := by
    by_cases he : f.root T = root
    · rw [he, Function.update_self]
      exact hnew f hf hlive he
    · rw [Function.update_of_ne he]
      exact h.filed f (hold f hf hlive he) hlive
  servable r rec hr := by
    by_cases he : r = root
    · rw [he, Function.update_self] at hr
      exact hservable rec hr
    · rw [Function.update_of_ne he] at hr
      exact h.servable r rec hr

variable {bundle : ExitsForBundle} {settlement : SettlementInfo}

theorem Family.fresh_ok (settlement : SettlementInfo) (hlen : bundle.leaves.length < 2 ^ 32) :
    (Family.fresh bundle settlement).Ok where
  nodup := List.nodup_nil
  inRange _ hm := absurd hm List.not_mem_nil
  fits := hlen

theorem Book.Files.committed (h : Book.Files T fs book) (hT : T.Lawful)
    (hclear : Filing.Clear T ⟨fs, bundle.leaves, rawRoot T bundle.leaves []⟩) :
    Book.Files T (fs ++ [.fresh bundle settlement])
      (Function.update book (recordFor T bundle settlement).1
        (some (recordFor T bundle settlement).2)) := by
  have hroot : (recordFor T bundle settlement).1 = rawRoot T bundle.leaves [] :=
    hT.viewRoot_fresh bundle.leaves
  have hok := Family.fresh_ok settlement hclear.fits
  rw [hroot]
  refine h.update (fun f hf hlive he => ?_) (fun f hf _ he => ?_) (fun rec e => ?_)
  · rcases List.mem_append.mp hf with hf | hf
    · exact absurd he (hclear.apart f hf hlive)
    · rw [List.mem_singleton.mp hf]
      rfl
  · rcases List.mem_append.mp hf with hf | hf
    · exact hf
    · rw [List.mem_singleton.mp hf] at he
      exact absurd rfl he
  · cases e
    exact hok.servable rfl rfl

theorem Separate.committed (h : Separate T fs)
    (hclear : Filing.Clear T ⟨fs, bundle.leaves, rawRoot T bundle.leaves []⟩) :
    Separate T (fs ++ [.fresh bundle settlement]) where
  apart k k' f f' hk hk' hne hlive hlive' := by
    have hcases : ∀ (j : Nat) (g : Family), (fs ++ [Family.fresh bundle settlement])[j]? = some g →
        fs[j]? = some g ∨ j = fs.length ∧ g = .fresh bundle settlement := fun j g hj => by
      rcases lt_or_ge j fs.length with hlt | hge
      · exact .inl (by rwa [List.getElem?_append_left hlt] at hj)
      · rw [List.getElem?_append_right hge, List.getElem?_singleton] at hj
        split at hj
        · exact .inr ⟨by omega, (Option.some.inj hj).symm⟩
        · cases hj
    rcases hcases k f hk with hf | ⟨hlast, rfl⟩
    · rcases hcases k' f' hk' with hf' | ⟨-, rfl⟩
      · exact h.apart k k' f f' hf hf' hne hlive hlive'
      · exact hclear.apart f (List.mem_of_getElem? hf) hlive
    · rcases hcases k' f' hk' with hf' | ⟨hlast', -⟩
      · exact (hclear.apart f' (List.mem_of_getElem? hf') hlive').symm
      · exact absurd (hlast.trans hlast'.symm) hne
  ok f hf := by
    rcases List.mem_append.mp hf with hf | hf
    · exact h.ok f hf
    · rw [List.mem_singleton.mp hf]
      exact Family.fresh_ok settlement hclear.fits

section Claimed

variable {k : Nat} {f : Family} {spend : PermissionSpend}

/-- After a claim, a family is the claimed one or another one. -/
theorem mem_set_claim {g : Family} (hg : g ∈ fs.set k (f.claim spend)) :
    g = f.claim spend ∨ ∃ j, j ≠ k ∧ fs[j]? = some g := by
  obtain ⟨j, hj⟩ := List.getElem?_of_mem hg
  by_cases he : j = k
  · subst he
    rw [List.getElem?_set_self'] at hj
    obtain ⟨_, _, rfl⟩ := Option.map_eq_some_iff.mp hj
    exact .inl rfl
  · rw [List.getElem?_set_ne (Ne.symm he)] at hj
    exact .inr ⟨j, he, hj⟩

/-- The other live families sit neither where the claimed one was, nor where
its continuation goes. -/
theorem Separate.others_ne (h : Separate T fs) (hk : fs[k]? = some f) (hlive : f.Live)
    {j : Nat} {g : Family} (hj : j ≠ k) (hg : fs[j]? = some g) (hlive' : g.Live) :
    g.root T ≠ f.root T := h.apart j k g f hg hk hj hlive' hlive

theorem Filing.Clear.others_ne (h : Filing.Clear T ⟨fs.eraseIdx k, f.leaves, root⟩) {j : Nat}
    {g : Family} (hj : j ≠ k) (hg : fs[j]? = some g) (hlive : g.Live) : g.root T ≠ root :=
  h.apart g (List.mem_eraseIdx_iff_getElem?.mpr ⟨j, hj, hg⟩) hlive

/-- The claim moves the record to the root the claim leaves. -/
theorem Book.Files.continued (h : Book.Files T fs book) (hsep : Separate T fs)
    (hk : fs[k]? = some f) (hlive : f.Live) (hok : (f.claim spend).Ok)
    (hclear : Filing.Clear T ⟨fs.eraseIdx k, f.leaves, (f.claim spend).root T⟩) :
    Book.Files T (fs.set k (f.claim spend))
      (Function.update (Function.update book (f.root T) none) ((f.claim spend).root T)
        (some (f.claim spend).record)) := by
  -- first the old root is cleared, of the families other than the claimed one
  have hcleared : Book.Files T (fs.eraseIdx k) (Function.update book (f.root T) none) := by
    refine h.update (fun g hg hlive' he => ?_) (fun g hg _ _ => List.mem_of_mem_eraseIdx hg)
      fun _ e => by cases e
    obtain ⟨j, hj, hg⟩ := List.mem_eraseIdx_iff_getElem?.mp hg
    exact absurd he (hsep.others_ne hk hlive hj hg hlive')
  refine hcleared.update (fun g hg hlive' he => ?_) (fun g hg _ he => ?_) fun rec e => ?_
  · rcases mem_set_claim hg with rfl | ⟨j, hj, hg⟩
    · rfl
    · exact absurd he (hclear.others_ne hj hg hlive')
  · rcases mem_set_claim hg with rfl | ⟨j, hj, hg⟩
    · exact absurd rfl he
    · exact List.mem_eraseIdx_iff_getElem?.mpr ⟨j, hj, hg⟩
  · cases e
    exact hok.servable rfl rfl

/-- The last claim leaves the other families' records alone. -/
theorem Book.Files.drained (h : Book.Files T fs book) (hsep : Separate T fs)
    (hk : fs[k]? = some f) (hlive : f.Live) (hdone : ¬ (f.claim spend).Live) {rec : ExitRecord}
    (hrec : rec.Servable) :
    Book.Files T (fs.set k (f.claim spend)) (Function.update book (f.root T) (some rec)) := by
  refine h.update (fun g hg hlive' he => ?_) (fun g hg hlive' _ => ?_) fun _ e => ?_
  · rcases mem_set_claim hg with rfl | ⟨j, hj, hg⟩
    · exact absurd hlive' hdone
    · exact absurd he (hsep.others_ne hk hlive hj hg hlive')
  · rcases mem_set_claim hg with rfl | ⟨j, hj, hg⟩
    · exact absurd hlive' hdone
    · exact List.mem_of_getElem? hg
  · cases e
    exact hrec

theorem Separate.claimed (h : Separate T fs) (hok : (f.claim spend).Ok)
    (hclear : (f.claim spend).Live →
      Filing.Clear T ⟨fs.eraseIdx k, f.leaves, (f.claim spend).root T⟩) :
    Separate T (fs.set k (f.claim spend)) where
  apart i j g g' hi hj hne hlive hlive' := by
    by_cases hik : i = k
    · subst hik
      rw [List.getElem?_set_self'] at hi
      obtain ⟨_, _, rfl⟩ := Option.map_eq_some_iff.mp hi
      rw [List.getElem?_set_ne hne] at hj
      exact ((hclear hlive).others_ne hne.symm hj hlive').symm
    · rw [List.getElem?_set_ne (Ne.symm hik)] at hi
      by_cases hjk : j = k
      · subst hjk
        rw [List.getElem?_set_self'] at hj
        obtain ⟨_, _, rfl⟩ := Option.map_eq_some_iff.mp hj
        exact (hclear hlive').others_ne hik hi hlive
      · rw [List.getElem?_set_ne (Ne.symm hjk)] at hj
        exact h.apart i j g g' hi hj hne hlive hlive'
  ok g hg := by
    rcases List.mem_or_eq_of_mem_set hg with hg | rfl
    · exact h.ok g hg
    · exact hok

end Claimed

end Books

/-! ## The node -/

/-- Both books of the node file the families, which are apart. -/
structure Node.Files (T : ExitBackend) (fs : List Family) (n : Node) : Prop where
  mirror : Book.Files T fs n.indexer.records.book
  stored : Book.Files T fs (n.store.records T)
  separate : Separate T fs

section Histories

variable {T : ExitBackend} {n : Node} {es : List ExitEvent} {fs : List Family}

theorem Book.files_empty : Book.Files T [] (fun _ => none) where
  filed _ hf := absurd hf List.not_mem_nil
  servable _ _ h := by cases h

theorem Node.files_empty : Node.empty.Files T [] where
  mirror := Book.files_empty
  stored := by
    show Book.Files T [] (IndexStore.records T ∅)
    rw [IndexStore.records_empty]
    exact Book.files_empty
  separate := ⟨fun _ _ _ _ h => by simp at h, fun _ h => absurd h List.not_mem_nil⟩

theorem Node.Files.servesAll (h : n.Files T fs) (hT : T.Lawful) : n.ServesAll T fs := by
  obtain ⟨vs, hvs, hviews⟩ := exitViews_ok hT h.stored.servable
  refine ⟨vs, hvs, fun f hf hlive => ?_⟩
  obtain ⟨v, hv, -, hrec, hunspent⟩ := hviews _ _ (h.stored.filed f hf hlive)
  refine ⟨v, hv, by rw [hrec]; rfl, ?_⟩
  rw [hunspent, (h.separate.ok f hf).emptiedIndices]
  rfl

theorem Node.Files.committed (h : n.Files T fs) (hT : T.Lawful) {bundle : ExitsForBundle}
    (settlement : SettlementInfo)
    (hclear : Filing.Clear T ⟨fs, bundle.leaves, rawRoot T bundle.leaves []⟩) :
    ∃ n', n.run (onExitsCommitted T bundle settlement) = .ok n' ∧
      n'.Files T (fs ++ [.fresh bundle settlement]) := by
  have hfits : bundle.leaves.length < 2 ^ 32 := hclear.fits
  obtain ⟨n', hrun, hbooks⟩ := Node.run_onExitsCommitted hT n settlement hfits
  exact ⟨n', hrun, hbooks.mirror ▸ h.mirror.committed hT hclear,
    hbooks.stored ▸ h.stored.committed hT hclear, h.separate.committed hclear⟩

theorem Node.Files.claimed (h : n.Files T fs) (hT : T.Lawful) {k : Nat} {f : Family}
    {spend : PermissionSpend} (hk : fs[k]? = some f) (hi : spend.leafIndex < f.leaves.length)
    (hnew : spend.leafIndex ∉ f.claimed) (hold : spend.oldRoot = f.root T)
    (hroot : spend.newRoot = (f.claim spend).root T)
    (hclear : (f.claim spend).Live → Filing.Clear T ⟨fs.eraseIdx k, f.leaves, spend.newRoot⟩) :
    ∃ n', n.run (onPermissionSpent T spend) = .ok n' ∧ n'.Files T (fs.set k (f.claim spend)) := by
  have hf := List.mem_of_getElem? hk
  have hok := h.separate.ok f hf
  have hok' : (f.claim spend).Ok := hok.claim hi hnew
  have hclaims : (f.claim spend).claims.length = f.claims.length + 1 := List.length_append
  have hleaves : (f.claim spend).leaves.length = f.leaves.length := rfl
  have hsome := hok'.length_unclaimed
  have hlive : f.Live := hok.live_of_claim hi hnew
  have hcount := hok.unclaimed_toNat
  have hlookup : n.indexer.records.book spend.oldRoot = some f.record :=
    hold ▸ h.mirror.filed f hf hlive
  have hnames := hok.leafIndex_ne hnew
  have hclaim : (f.record.claim spend).Servable := hok'.servable rfl Family.emptied_claim
  rw [hroot] at hclear
  by_cases hmore : (f.claim spend).Live
  · have hleft : 1 < f.record.unclaimed.toNat := by
      have := hok'.live_iff.mp hmore
      omega
    obtain ⟨n', hrun, hbooks⟩ := Node.run_onPermissionSpent_continued hT n hlookup hleft hnames
      hclaim.toEncodable
    rw [hok.record_claim hleft, hold, hroot] at hbooks
    exact ⟨n', hrun,
      hbooks.mirror ▸ h.mirror.continued h.separate hk hlive hok' (hclear hmore),
      hbooks.stored ▸ h.stored.continued h.separate hk hlive hok' (hclear hmore),
      h.separate.claimed hok' hclear⟩
  · have hlast : f.record.unclaimed.toNat = 1 := by
      rw [hok'.live_iff] at hmore
      omega
    obtain ⟨n', hrun, hbooks⟩ := Node.run_onPermissionSpent_drained hT n hlookup hlast hnames
      hclaim.toEncodable
    have hdrained : ({ f.record.claim spend with unclaimed := 0 } : ExitRecord).Servable :=
      hok'.servable rfl Family.emptied_claim
    rw [hold] at hbooks
    exact ⟨n', hrun, hbooks.mirror ▸ h.mirror.drained h.separate hk hlive hmore hdrained,
      hbooks.stored ▸ h.stored.drained h.separate hk hlive hmore hdrained,
      h.separate.claimed hok' hclear⟩

theorem Node.replay_append {n₁ : Node} {e : ExitEvent} (h : n.replay T es = .ok n₁) :
    n.replay T (es ++ [e]) = n₁.run (e.hook T) := by
  unfold Node.replay at h ⊢
  rw [List.foldlM_append, h]
  show List.foldlM (fun n e => n.run (e.hook T)) n₁ [e] = _
  rw [List.foldlM_cons]
  exact bind_pure _

theorem files_of_history (hT : T.Lawful) (h : ExitHistory T (Filing.Clear T) es fs) :
    ∃ n, Node.empty.replay T es = .ok n ∧ n.Files T fs := by
  induction h with
  | start => exact ⟨Node.empty, rfl, Node.files_empty⟩
  | @committed es fs bundle settlement _ _ _ hclear ih =>
    obtain ⟨n, hrun, hfiles⟩ := ih
    obtain ⟨n', hrun', hfiles'⟩ := hfiles.committed hT settlement hclear
    exact ⟨n', (Node.replay_append hrun).trans hrun', hfiles'⟩
  | claimed _ hk hi hnew hold hroot hclear ih =>
    obtain ⟨n, hrun, hfiles⟩ := ih
    obtain ⟨n', hrun', hfiles'⟩ := hfiles.claimed hT hk hi hnew hold hroot hclear
    exact ⟨n', (Node.replay_append hrun).trans hrun', hfiles'⟩

end Histories

/-! ## When families are served, and when not -/

section Serving

variable {T : ExitBackend} {es : List ExitEvent} {fs : List Family}

/-- **Serving.** In a history whose filings are all clear no hook fails, and
every family that still has an unclaimed leaf is served. -/
theorem clear_families_served (hT : T.Lawful) (h : ExitHistory T (Filing.Clear T) es fs) :
    ∃ n, Node.empty.replay T es = .ok n ∧ n.ServesAll T fs := by
  obtain ⟨n, hrun, hfiles⟩ := files_of_history hT h
  exact ⟨n, hrun, hfiles.servesAll hT⟩

/-- One exit of half a coin. -/
def oneExit : ExitsForBundle where
  newState := padTo 32 [0xaa]
  permissionSpkHash := padTo 32 [0xbb]
  leaves := [⟨.pubKey (padTo 32 [0x12]), 50000000⟩]

/-- Two exits, of half and of a quarter. -/
def twoExits : ExitsForBundle where
  newState := padTo 32 [0xaa]
  permissionSpkHash := padTo 32 [0xbb]
  leaves := [⟨.pubKey (padTo 32 [0x12]), 50000000⟩, ⟨.pubKey (padTo 32 [0x12]), 25000000⟩]

def settledIn (tag : UInt8) : SettlementInfo where
  txId := padTo 32 [tag]
  newState := padTo 32 [0xaa]
  daaScore := 789101
  permissionSpkHash := padTo 32 [0xbb]

/-- The claim of the first of the two exits. -/
def firstClaim : PermissionSpend where
  oldRoot := rawRoot .plain twoExits.leaves []
  leafIndex := 0
  deduct := 50000000
  newRoot := rawRoot .plain twoExits.leaves [0]
  spendTxid := padTo 32 [0xee]
  newOutpointIndex := 1

/-- Two settlements of different exits and a claim of the first one. -/
theorem firstClaim_history : ExitHistory .plain (Filing.Clear .plain)
    [.committed twoExits (settledIn 0xcc), .committed oneExit (settledIn 0xcd), .spent firstClaim]
    [(Family.fresh twoExits (settledIn 0xcc)).claim firstClaim,
      .fresh oneExit (settledIn 0xcd)] := by
  have hfirst : ExitHistory .plain (Filing.Clear .plain)
      ([] ++ [.committed twoExits (settledIn 0xcc)]) ([] ++ [.fresh twoExits (settledIn 0xcc)]) :=
    .committed .start (by decide) (by decide) ⟨by decide, by decide⟩
  have hsecond : ExitHistory .plain (Filing.Clear .plain)
      (_ ++ [.committed oneExit (settledIn 0xcd)]) (_ ++ [.fresh oneExit (settledIn 0xcd)]) :=
    .committed hfirst (by decide) (by decide) ⟨by decide, by decide +kernel⟩
  have hclaim : ExitHistory .plain (Filing.Clear .plain) (_ ++ [.spent firstClaim])
      (List.set _ 0 ((Family.fresh twoExits (settledIn 0xcc)).claim firstClaim)) :=
    .claimed hsecond rfl (by decide) (by decide) rfl rfl fun _ => ⟨by decide, by decide +kernel⟩
  exact hclaim

theorem clear_families_served_claim : ∃ n, Node.empty.replay .plain
    [.committed twoExits (settledIn 0xcc), .committed oneExit (settledIn 0xcd), .spent firstClaim]
      = .ok n ∧ n.ServesAll .plain [(Family.fresh twoExits (settledIn 0xcc)).claim firstClaim,
        .fresh oneExit (settledIn 0xcd)] :=
  clear_families_served ExitBackend.plain_lawful firstClaim_history

/-- The same exit is settled twice, in two transactions. -/
def settledTwice : List ExitEvent :=
  [.committed oneExit (settledIn 0xcc), .committed oneExit (settledIn 0xcd)]

def twoFamilies : List Family :=
  [.fresh oneExit (settledIn 0xcc), .fresh oneExit (settledIn 0xcd)]

/-- The outputs the node serves after a history. -/
def servedOutpoints (T : ExitBackend) (es : List ExitEvent) : Except Fault (List (Bytes32 × UInt32)) := do
  let n ← Node.empty.replay T es
  let vs ← exitViews T n.store
  return vs.map fun v => (v.record.settlementTxid, v.record.outpointIndex)

theorem settledTwice_history : ExitHistory .plain (fun _ => True) settledTwice twoFamilies := by
  have hfirst : ExitHistory .plain (fun _ => True) ([] ++ [.committed oneExit (settledIn 0xcc)])
      ([] ++ [.fresh oneExit (settledIn 0xcc)]) :=
    .committed .start (by decide) (by decide) trivial
  exact .committed hfirst (by decide) (by decide) trivial

theorem servedOutpoints_settledTwice :
    (servedOutpoints .plain settledTwice).toOption = some [(padTo 32 [0xcd], 1)] := by
  decide +kernel

/-- The second settlement of a leaf list takes the first one's place: its exit
is not served. -/
theorem settledTwice_not_served : ¬ ∀ es fs, ExitHistory .plain (fun _ => True) es fs →
    ∃ n, Node.empty.replay .plain es = .ok n ∧ n.ServesAll .plain fs := by
  intro hclaim
  obtain ⟨n, hn, vs, hvs, hall⟩ := hclaim _ _ settledTwice_history
  obtain ⟨v, hv, hout, -⟩ := hall (.fresh oneExit (settledIn 0xcc)) List.mem_cons_self (by decide)
  have hserved := servedOutpoints_settledTwice
  have hmem : (v.record.settlementTxid, v.record.outpointIndex)
      ∈ vs.map fun v => (v.record.settlementTxid, v.record.outpointIndex) :=
    List.mem_map_of_mem hv
  have heq : servedOutpoints .plain settledTwice
      = .ok (vs.map fun v => (v.record.settlementTxid, v.record.outpointIndex)) := by
    unfold servedOutpoints
    rw [hn]
    show (do let vs ← exitViews .plain n.store; _) = _
    rw [hvs]
    rfl
  rw [heq] at hserved
  rw [Option.some.inj hserved, hout] at hmem
  exact absurd hmem (by decide)

end Serving

end TicTacToe
