/-
TicTacToe.Exits.Paths — what the sibling paths of a view prove.

Folding a path upward over a leaf gives the root of the level with that
leaf in its place (`foldPath_of_siblingPath`). Two values matter: the hash
of the leaf itself, which gives the record's own root, and the empty hash,
which gives the root the next claim leaves. `claim_args_valid` puts this
together with the indexer: along every chain of claims, what is served for
the next one is what L1 will check and what the record then moves to.

No `sorry`, no `axiom`, no `native_decide`.
-/
import Mathlib.Data.Nat.Bitwise
import TicTacToe.Exits.Families

namespace TicTacToe

open Lib

/-- `siblings[i]` folded upward over `current`, by the parity of the index. -/
def foldPath (hashBranch : Bytes32 → Bytes32 → Bytes32) :
    List Bytes32 → Nat → Bytes32 → Bytes32
  | [], _, current => current
  | s :: path, idx, current =>
    foldPath hashBranch path (idx / 2)
      (if idx % 2 = 0 then hashBranch current s else hashBranch s current)

section Levels

variable {hb : Bytes32 → Bytes32 → Bytes32}

theorem xor_one_add_two (k : Nat) : (k + 2) ^^^ 1 = (k ^^^ 1) + 2 := by
  rcases Nat.even_or_odd k with h | h
  · rw [Nat.xor_one_of_even h, Nat.xor_one_of_even (h.add even_two)]
  · rw [Nat.xor_one_of_odd h, Nat.xor_one_of_odd (h.add_even even_two)]
    obtain ⟨j, rfl⟩ := h
    omega

/-- Replacing a position of a level replaces its parent in the next one. -/
theorem pairUp_set {l : List Bytes32} {idx : Nat} {s x : Bytes32} (hs : l[idx ^^^ 1]? = some s)
    (hidx : idx < l.length) : pairUp hb (l.set idx x)
      = (pairUp hb l).set (idx / 2) (if idx % 2 = 0 then hb x s else hb s x) := by
  induction l using pairUp.induct generalizing idx with
  | case1 a b rest ih =>
    cases idx with
    | zero =>
      obtain rfl : b = s := Option.some.inj hs
      rfl
    | succ idx =>
      cases idx with
      | zero =>
        obtain rfl : a = s := Option.some.inj hs
        rfl
      | succ k =>
        rw [xor_one_add_two] at hs
        have htail := ih hs (by simp only [List.length_cons] at hidx; omega)
        have hparity : (k + 2) % 2 = k % 2 := by omega
        have hhalf : (k + 2) / 2 = k / 2 + 1 := by omega
        rw [hparity, hhalf, List.set_cons_succ, List.set_cons_succ, pairUp, pairUp, htail,
          List.set_cons_succ]
  | case2 l hl =>
    cases l with
    | nil => cases hidx
    | cons a rest =>
      cases rest with
      | nil =>
        obtain rfl : idx = 0 := by simp at hidx; omega
        cases hs
      | cons b rest => exact (hl a b rest rfl).elim

end Levels

section Folds

variable {T : ExitBackend}

/-- Folding a sibling path over a value gives the root of the level with that
value in its place. -/
theorem foldPath_of_siblingPath {depth idx : Nat} {level path : List Bytes32} (x d : Bytes32)
    (hlen : level.length = 2 ^ depth) (hidx : idx < 2 ^ depth)
    (hpath : siblingPath (branchLevels T depth level) idx = .ok path) :
    foldPath T.hashBranch path idx x
      = ((pairUp T.hashBranch)^[depth] (level.set idx x)).headD d := by
  induction depth generalizing idx level path x with
  | zero =>
    cases hpath
    obtain ⟨a, rfl⟩ := List.length_eq_one_iff.mp hlen
    obtain rfl : idx = 0 := by simpa using hidx
    rfl
  | succ depth ih =>
    have hhalf := length_pairUp_half T.hashBranch hlen
    have hidx₂ := half_lt hidx
    simp only [branchLevels, siblingPath] at hpath
    cases hs : level[idx ^^^ 1]? with
    | none => simp only [hs] at hpath; cases hpath
    | some s =>
      cases hrest : siblingPath (branchLevels T depth (pairUp T.hashBranch level)) (idx / 2) with
      | error e => simp only [hs, hrest] at hpath; cases hpath
      | ok rest =>
        simp only [hs, hrest] at hpath
        cases hpath
        rw [foldPath, ih _ hhalf hidx₂ hrest, Function.iterate_succ_apply,
          pairUp_set hs (hlen ▸ hidx)]

/-- The root over a position is the fold of its sibling path. -/
theorem fullClaimRoot_eq_foldPath {levels : List (List Bytes32)} {idx : Nat}
    {path : List Bytes32} (hpath : siblingPath levels idx = .ok path) (current : Bytes32) :
    fullClaimRoot T levels idx current = .ok (foldPath T.hashBranch path idx current) := by
  induction levels generalizing idx path current with
  | nil =>
    cases hpath
    rfl
  | cons level levels ih =>
    simp only [siblingPath] at hpath
    cases hs : level[idx ^^^ 1]? with
    | none => simp only [hs] at hpath; cases hpath
    | some s =>
      cases hrest : siblingPath levels (idx / 2) with
      | error e => simp only [hs, hrest] at hpath; cases hpath
      | ok rest =>
        simp only [hs, hrest] at hpath
        cases hpath
        simp only [fullClaimRoot, hs]
        exact ih hrest _

/-- Emptying one more slot replaces its hash by the empty hash. -/
theorem paddedLevel_append (leaves : List ExitLeaf) (emptied : List Nat) (i : Nat) :
    paddedLevel T leaves (emptied ++ [i]) = (paddedLevel T leaves emptied).set i T.hashEmpty := by
  refine List.ext_getElem? fun j => ?_
  rw [List.getElem?_set]
  by_cases hj : j < 2 ^ T.requiredDepth leaves.length
  · have hget : ∀ e, (paddedLevel T leaves e)[j]? = some (leaves[j]?.elim T.hashEmpty fun leaf =>
        if j ∈ e then T.hashEmpty else T.hashLeaf leaf.spk leaf.amount) := by
      intro e
      rw [paddedLevel, List.getElem?_map, List.getElem?_range hj, Option.map_some]
      cases leaves[j]? <;> rfl
    rw [hget, hget, length_paddedLevel]
    by_cases hij : i = j
    · subst hij
      rw [if_pos rfl, if_pos hj]
      cases leaves[i]? <;> simp
    · rw [if_neg hij]
      cases leaves[j]? with
      | none => rfl
      | some leaf => simp [Ne.symm hij]
  · have hout : ∀ e, (paddedLevel T leaves e)[j]? = none := fun e =>
      List.getElem?_eq_none (by rw [length_paddedLevel]; omega)
    rw [hout, hout, length_paddedLevel]
    by_cases hij : i = j
    · rw [if_pos hij, if_neg (hij ▸ hj)]
    · rw [if_neg hij]

/-- A live leaf's own hash is what its slot holds. -/
theorem paddedLevel_set_live (hT : T.Lawful) {leaves : List ExitLeaf} {emptied : List Nat}
    {i : Nat} {leaf : ExitLeaf} (hi : leaves[i]? = some leaf) (hlive : i ∉ emptied) :
    (paddedLevel T leaves emptied).set i (T.hashLeaf leaf.spk leaf.amount)
      = paddedLevel T leaves emptied := by
  have hlt : i < 2 ^ T.requiredDepth leaves.length :=
    (List.getElem?_eq_some_iff.mp hi).1.trans_le (hT.le_capacity _)
  refine List.ext_getElem? fun j => ?_
  rw [List.getElem?_set]
  by_cases hij : i = j
  · subst hij
    rw [if_pos rfl, length_paddedLevel, if_pos hlt]
    simp only [paddedLevel, List.getElem?_map, List.getElem?_range hlt, Option.map_some, hi,
      if_neg hlive]
  · rw [if_neg hij]

end Folds

/-! ## The arguments of the next claim -/

/-- What a view serves for a record under a root is what L1 will check: the
claims made are counted, the root is the fold of what is left, every
unclaimed leaf has a path to it, and the root after its claim. -/
structure ExitView.Proves (T : ExitBackend) (v : ExitView) : Prop where
  counted : v.record.unclaimed.toNat + v.record.emptied.length = v.record.leaves.length
  nodup : v.record.emptiedIndices.Nodup
  inRange : ∀ i ∈ v.record.emptiedIndices, i < v.record.leaves.length
  folds : rawRoot T v.record.leaves v.record.emptiedIndices = v.root
  paths : ∀ i leaf, v.record.leaves[i]? = some leaf → i ∉ v.record.emptiedIndices →
    ∃ path, v.siblings[i]? = some path ∧
      foldPath T.hashBranch path i (T.hashLeaf leaf.spk leaf.amount) = v.root ∧
      v.fullClaimRoots[i]? = some (foldPath T.hashBranch path i T.hashEmpty) ∧
      foldPath T.hashBranch path i T.hashEmpty
        = rawRoot T v.record.leaves (v.record.emptiedIndices ++ [i])

/-- A full claim of an unclaimed leaf: the redeem script lets it leave only the
root with that slot emptied. -/
structure ExitView.NextClaim (T : ExitBackend) (v : ExitView) (spend : PermissionSpend) :
    Prop where
  inRange : spend.leafIndex < v.record.leaves.length
  unclaimed : spend.leafIndex ∉ v.record.emptiedIndices
  oldRoot : spend.oldRoot = v.root
  newRoot : spend.newRoot
    = rawRoot T v.record.leaves (v.record.emptiedIndices ++ [spend.leafIndex])

/-- The values of a list computed one by one. -/
theorem mapM_getElem? {ε α β : Type} {f : α → Except ε β} {l : List α} {bs : List β}
    (h : l.mapM f = .ok bs) {i : Nat} {a : α} (ha : l[i]? = some a) :
    ∃ b, bs[i]? = some b ∧ f a = .ok b := by
  induction l generalizing bs i with
  | nil => simp at ha
  | cons x l ih =>
    rw [List.mapM_cons] at h
    cases hx : f x with
    | error e =>
      rw [hx] at h
      cases h
    | ok b =>
      cases hrest : l.mapM f with
      | error e =>
        rw [hx, hrest] at h
        cases h
      | ok bs' =>
        rw [hx, hrest] at h
        cases h
        cases i with
        | zero =>
          obtain rfl : x = a := Option.some.inj ha
          exact ⟨b, rfl, hx⟩
        | succ i => exact ih hrest ha

/-- The parts of a view. -/
theorem exitView_parts {T : ExitBackend} {root : Bytes32} {rec : ExitRecord} {v : ExitView}
    (h : exitView T root rec = .ok v) :
    let levels := branchLevels T (T.requiredDepth rec.leaves.length)
      (paddedLevel T rec.leaves rec.emptiedIndices)
    v.root = root ∧ v.record = rec ∧
      ((List.range rec.leaves.length).mapM fun i => siblingPath levels i) = .ok v.siblings ∧
      ((List.range rec.leaves.length).mapM fun i => fullClaimRoot T levels i T.hashEmpty)
        = .ok v.fullClaimRoots := by
  intro levels
  dsimp only [exitView] at h
  split at h
  · obtain ⟨spent, -, h⟩ := except_bind_ok.mp h
    obtain ⟨siblings, hsiblings, h⟩ := except_bind_ok.mp h
    obtain ⟨roots, hroots, h⟩ := except_bind_ok.mp h
    cases h
    exact ⟨rfl, rfl, hsiblings, hroots⟩
  · cases h

/-- A view of a record that counts its claims proves its leaves. -/
theorem exitView_proves {T : ExitBackend} (hT : T.Lawful) {root : Bytes32} {rec : ExitRecord}
    {v : ExitView} (h : exitView T root rec = .ok v)
    (hcount : rec.unclaimed.toNat + rec.emptied.length = rec.leaves.length)
    (hnodup : rec.emptiedIndices.Nodup)
    (hrange : ∀ i ∈ rec.emptiedIndices, i < rec.leaves.length)
    (hroot : rawRoot T rec.leaves rec.emptiedIndices = root) : v.Proves T := by
  obtain ⟨hvroot, hvrec, hsiblings, hroots⟩ := exitView_parts h
  subst hvroot hvrec
  refine ⟨hcount, hnodup, hrange, hroot, fun i leaf hi hlive => ?_⟩
  have hlt : i < v.record.leaves.length := (List.getElem?_eq_some_iff.mp hi).1
  have hrangei : (List.range v.record.leaves.length)[i]? = some i := List.getElem?_range hlt
  obtain ⟨path, hpath, hsib⟩ := mapM_getElem? hsiblings hrangei
  obtain ⟨claimRoot, hclaim, hfull⟩ := mapM_getElem? hroots hrangei
  rw [fullClaimRoot_eq_foldPath hsib] at hfull
  cases hfull
  have hcap := hlt.trans_le (hT.le_capacity v.record.leaves.length)
  have hlen := length_paddedLevel (T := T) v.record.leaves v.record.emptiedIndices
  refine ⟨path, hpath, ?_, hclaim, ?_⟩
  · rw [foldPath_of_siblingPath _ T.hashEmpty hlen hcap hsib, paddedLevel_set_live hT hi hlive]
    exact hroot
  · rw [foldPath_of_siblingPath _ T.hashEmpty hlen hcap hsib, ← paddedLevel_append]
    rfl

/-! ## Along every chain of claims -/

/-- After the claim, the family's record sits under the served root, in the
mirror and in the store, with one more claim, and no longer under the old one. -/
structure Node.Rekeyed (T : ExitBackend) (n' : Node) (rec : ExitRecord)
    (spend : PermissionSpend) (rec' : ExitRecord) : Prop where
  mirror : n'.indexer.records.book spend.newRoot = some rec'
  stored : n'.store.records T spend.newRoot = some rec'
  gone : spend.oldRoot ≠ spend.newRoot → n'.indexer.records.book spend.oldRoot = none ∧
    n'.store.records T spend.oldRoot = none
  leaves : rec'.leaves = rec.leaves
  emptied : rec'.emptiedIndices = rec.emptiedIndices ++ [spend.leafIndex]
  unclaimed : rec'.unclaimed.toNat + 1 = rec.unclaimed.toNat

section Chains

variable {T : ExitBackend} {es : List ExitEvent} {fs : List Family} {n : Node}

/-- A claim of a served leaf moves its family's record to the served root. -/
theorem Node.Files.rekeyed (h : n.Files T fs) (hT : T.Lawful) {f : Family} (hf : f ∈ fs)
    (hlive : f.Live) {spend : PermissionSpend} (hi : spend.leafIndex < f.leaves.length)
    (hnew : spend.leafIndex ∉ f.claimed) (hold : spend.oldRoot = f.root T)
    (hmore : 1 < f.record.unclaimed.toNat) :
    ∃ n' rec', n.run (onPermissionSpent T spend) = .ok n' ∧
      n'.Rekeyed T f.record spend rec' := by
  have hok := h.separate.ok f hf
  have hok' : (f.claim spend).Ok := hok.claim hi hnew
  have hlookup : n.indexer.records.book spend.oldRoot = some f.record :=
    hold ▸ h.mirror.filed f hf hlive
  have hnames : ∀ e ∈ f.record.emptied, e.leafIndex.toNat ≠ spend.leafIndex := by
    intro e he heq
    have hm : e.leafIndex.toNat ∈ f.record.emptiedIndices := List.mem_map_of_mem he
    rw [hok.emptiedIndices, heq] at hm
    exact hnew hm
  have hfits : (f.record.claim spend).Encodable :=
    (hok'.servable rfl Family.emptied_claim).toEncodable
  obtain ⟨n', hrun, hbooks⟩ := Node.run_onPermissionSpent_continued hT n hlookup hmore hnames hfits
  rw [hok.record_claim hmore] at hbooks
  refine ⟨n', (f.claim spend).record, hrun, ?_, ?_, fun hne => ⟨?_, ?_⟩, rfl, ?_, ?_⟩
  · rw [hbooks.mirror, Function.update_self]
  · rw [hbooks.stored, Function.update_self]
  · rw [hbooks.mirror, Function.update_of_ne hne, Function.update_self]
  · rw [hbooks.stored, Function.update_of_ne hne, Function.update_self]
  · rw [hok'.emptiedIndices, hok.emptiedIndices, Family.claimed_claim]
  · have hcount := hok.unclaimed_toNat
    have hcount' := hok'.unclaimed_toNat
    have hclaims : (f.claim spend).claims.length = f.claims.length + 1 := List.length_append
    have hleaves : (f.claim spend).leaves.length = f.leaves.length := rfl
    omega

/-- **Claim arguments.** Along every chain of full claims of every family, in any
order and among other families, the live record counts its claims, its view
proves every unclaimed leaf against the record's root, and the next claim
moves the record to exactly the root served for its leaf. -/
theorem claim_args_valid (hT : T.Lawful) (h : ExitHistory T (Filing.Clear T) es fs) :
    ∃ n vs, Node.empty.replay T es = .ok n ∧ exitViews T n.store = .ok vs ∧
      ∀ f ∈ fs, f.Live → ∃ v ∈ vs, v.root = f.root T ∧ v.record = f.record ∧
        n.indexer.records.book v.root = some v.record ∧
        n.store.records T v.root = some v.record ∧ v.Proves T ∧
        ∀ spend, v.NextClaim T spend → 1 < v.record.unclaimed.toNat →
          v.fullClaimRoots[spend.leafIndex]? = some spend.newRoot ∧
          ∃ n' rec', n.run (onPermissionSpent T spend) = .ok n' ∧
            n'.Rekeyed T v.record spend rec' := by
  obtain ⟨n, hrun, hfiles⟩ := files_of_history hT h
  obtain ⟨vs, hvs, hviews⟩ := exitViews_all hT hfiles.stored.servable
  refine ⟨n, vs, hrun, hvs, fun f hf hlive => ?_⟩
  have hok := hfiles.separate.ok f hf
  obtain ⟨v, hv, hview⟩ := hviews _ _ (hfiles.stored.filed f hf hlive)
  obtain ⟨hvroot, hvrec, -, -⟩ := exitView_parts hview
  have hclaimed := hok.emptiedIndices
  have hcount : f.record.unclaimed.toNat + f.record.emptied.length = f.record.leaves.length := by
    have hleft := hok.unclaimed_toNat
    have hsplit := hok.length_unclaimed
    have hemptied : f.record.emptied.length = f.claims.length := List.length_map _
    have hleaves : f.record.leaves.length = f.leaves.length := rfl
    omega
  have hproves : v.Proves T := by
    refine exitView_proves hT hview hcount (hclaimed ▸ hok.nodup) (hclaimed ▸ hok.inRange) ?_
    rw [hclaimed]
    rfl
  refine ⟨v, hv, hvroot, hvrec, ?_, ?_, hproves, fun spend hnext hmore => ⟨?_, ?_⟩⟩
  · rw [hvroot, hvrec]
    exact hfiles.mirror.filed f hf hlive
  · rw [hvroot, hvrec]
    exact hfiles.stored.filed f hf hlive
  · obtain ⟨path, -, -, hclaim, hfold⟩ := hproves.paths spend.leafIndex _
      (List.getElem?_eq_getElem hnext.inRange) hnext.unclaimed
    rw [hclaim, hfold, hnext.newRoot]
  · have hi := hnext.inRange
    have hnew := hnext.unclaimed
    rw [hvrec] at hi hnew hmore ⊢
    rw [hclaimed] at hnew
    exact hfiles.rekeyed hT hf hlive hi hnew (hnext.oldRoot.trans hvroot) hmore

end Chains

/-- Three exits, of which the first is claimed. -/
def threeExits : ExitsForBundle where
  newState := padTo 32 [0xaa]
  permissionSpkHash := padTo 32 [0xbb]
  leaves := twoExits.leaves ++ oneExit.leaves

def firstOfThree : PermissionSpend where
  oldRoot := rawRoot .plain threeExits.leaves []
  leafIndex := 0
  deduct := 50000000
  newRoot := rawRoot .plain threeExits.leaves [0]
  spendTxid := padTo 32 [0xee]
  newOutpointIndex := 1

/-- The next claim, of the last leaf. -/
def lastOfThree : PermissionSpend where
  oldRoot := rawRoot .plain threeExits.leaves [0]
  leafIndex := 2
  deduct := 50000000
  newRoot := rawRoot .plain threeExits.leaves [0, 2]
  spendTxid := padTo 32 [0xef]
  newOutpointIndex := 1

theorem threeExits_history : ExitHistory .plain (Filing.Clear .plain)
    [.committed threeExits (settledIn 0xcc), .spent firstOfThree]
    [(Family.fresh threeExits (settledIn 0xcc)).claim firstOfThree] := by
  have hfirst : ExitHistory .plain (Filing.Clear .plain)
      ([] ++ [.committed threeExits (settledIn 0xcc)])
      ([] ++ [.fresh threeExits (settledIn 0xcc)]) :=
    .committed .start (by decide) (by decide) ⟨by decide, by decide⟩
  have hclaim : ExitHistory .plain (Filing.Clear .plain) (_ ++ [.spent firstOfThree])
      (List.set _ 0 ((Family.fresh threeExits (settledIn 0xcc)).claim firstOfThree)) :=
    .claimed hfirst rfl (by decide) (by decide) rfl rfl fun _ => ⟨by decide, by decide +kernel⟩
  exact hclaim

/-- One of three exits is claimed and another one next: its served root is the
one the record moves to. -/
theorem claim_args_valid_three : ∃ n vs, Node.empty.replay .plain
    [.committed threeExits (settledIn 0xcc), .spent firstOfThree] = .ok n ∧
    exitViews .plain n.store = .ok vs ∧ ∃ v ∈ vs, v.root = firstOfThree.newRoot ∧
      v.record.emptiedIndices = [0] ∧ v.record.unclaimed = 2 ∧ v.Proves .plain ∧
      v.fullClaimRoots[2]? = some lastOfThree.newRoot ∧
      ∃ n' rec', n.run (onPermissionSpent .plain lastOfThree) = .ok n' ∧
        n'.Rekeyed .plain v.record lastOfThree rec' := by
  obtain ⟨n, vs, hrun, hvs, hall⟩ := claim_args_valid ExitBackend.plain_lawful threeExits_history
  obtain ⟨v, hv, hroot, hrec, -, -, hproves, hnext⟩ :=
    hall _ (List.mem_singleton.mpr rfl) (by decide)
  have hspend : v.NextClaim .plain lastOfThree := by
    refine ⟨?_, ?_, hroot.symm, ?_⟩
    · rw [hrec]
      decide
    · rw [hrec]
      decide
    · rw [hrec]
      rfl
  have hunclaimed : v.record.unclaimed = 2 := by
    rw [hrec]
    rfl
  have hemptied : v.record.emptiedIndices = [0] := by
    rw [hrec]
    rfl
  have hmore : 1 < v.record.unclaimed.toNat := by
    rw [hunclaimed]
    decide
  obtain ⟨hserved, hmoved⟩ := hnext lastOfThree hspend hmore
  exact ⟨n, vs, hrun, hvs, v, hv, hroot, hemptied, hunclaimed, hproves, hserved, hmoved⟩

end TicTacToe
