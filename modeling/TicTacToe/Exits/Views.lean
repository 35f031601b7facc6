/-
TicTacToe.Exits.Views — the served form of the exit records (`exit_views`
of `node/src/da_store.rs`).

The source folds the padded tree once per record and indexes its levels;
an index out of range is a panic here. `exitView_ok` shows that a record
whose claims name its own leaves is always served.

No `sorry`, no `axiom`, no `native_decide`.
-/
import TicTacToe.Exits.Store

namespace TicTacToe

open Lib

/-- Materialized Merkle-path view of an exit family's current record. -/
structure ExitView where
  root : Bytes32
  record : ExitRecord
  spent : List (Option EmptiedLeaf)
  depth : Nat
  siblings : List (List Bytes32)
  fullClaimRoots : List Bytes32

/-- The positions a record's claims name. -/
def ExitRecord.emptiedIndices (rec : ExitRecord) : List Nat :=
  rec.emptied.map fun e => e.leafIndex.toNat

/-- The levels below the root, from the leaves up. -/
def branchLevels (T : ExitBackend) : Nat → List Bytes32 → List (List Bytes32)
  | 0, _ => []
  | depth + 1, level => level :: branchLevels T depth (pairUp T.hashBranch level)

/-- `spent[entry.leaf_index as usize] = Some(*entry)`, for every claim. -/
def markSpent : List EmptiedLeaf → List (Option EmptiedLeaf) → Except Fault (List (Option EmptiedLeaf))
  | [], spent => .ok spent
  | entry :: rest, spent =>
    if entry.leafIndex.toNat < spent.length then
      markSpent rest (spent.set entry.leafIndex.toNat (some entry))
    else
      .error .panic

/-- `level[idx ^ 1]` of every level, `idx` halving on the way up. -/
def siblingPath : List (List Bytes32) → Nat → Except Fault (List Bytes32)
  | [], _ => .ok []
  | level :: rest, idx =>
    match level[idx ^^^ 1]?, siblingPath rest (idx / 2) with
    | some s, .ok path => .ok (s :: path)
    | none, _ => .error .panic
    | _, .error e => .error e

/-- The root over `current` at position `idx` and the siblings of it. -/
def fullClaimRoot (T : ExitBackend) : List (List Bytes32) → Nat → Bytes32 → Except Fault Bytes32
  | [], _, current => .ok current
  | level :: rest, idx, current =>
    match level[idx ^^^ 1]? with
    | some s =>
      fullClaimRoot T rest (idx / 2)
        (if idx % 2 = 0 then T.hashBranch current s else T.hashBranch s current)
    | none => .error .panic

/-- One record of `exit_views`. `1 << depth` overflows from 64 on. -/
def exitView (T : ExitBackend) (root : Bytes32) (record : ExitRecord) : Except Fault ExitView := do
  let n := record.leaves.length
  let depth := T.requiredDepth n
  if depth < 64 then
    let levels := branchLevels T depth (paddedLevel T record.leaves record.emptiedIndices)
    let spent ← markSpent record.emptied (List.replicate n none)
    let siblings ← (List.range n).mapM fun i => siblingPath levels i
    let fullClaimRoots ← (List.range n).mapM fun i => fullClaimRoot T levels i T.hashEmpty
    return { root, record, spent, depth, siblings, fullClaimRoots }
  else
    throw .panic

/-- `exit_views`: roots whose record does not read back are skipped. -/
def exitViews (T : ExitBackend) (store : IndexStore) : Except Fault (List ExitView) :=
  (store.exitRoots.filterMap fun root => (store.getExitRecord T root).map (root, ·)).mapM
    fun p => exitView T p.1 p.2

/-- The leaves a view still shows as unspent, with their positions. -/
def ExitView.unspent (v : ExitView) : List (ExitLeaf × Nat) :=
  v.record.leaves.zipIdx.filter fun p => v.spent[p.2]? = some none

/-! ## Serving does not fail -/

section Levels

variable {T : ExitBackend}

theorem length_pairUp (hb : Bytes32 → Bytes32 → Bytes32) (l : List Bytes32) :
    (pairUp hb l).length = l.length / 2 := by
  induction l using pairUp.induct with
  | case1 a b rest ih => simp only [pairUp, List.length_cons, ih]; omega
  | case2 l hl =>
    match l, hl with
    | [], _ => simp [pairUp]
    | [_], _ => simp [pairUp]
    | a :: b :: rest, hl => exact (hl a b rest rfl).elim

theorem length_paddedLevel (leaves : List ExitLeaf) (emptied : List Nat) :
    (paddedLevel T leaves emptied).length = 2 ^ T.requiredDepth leaves.length := by
  rw [paddedLevel, List.length_map, List.length_range]

/-- The sibling of a position of a level of even width is in the level. -/
theorem xor_one_lt {idx k : Nat} (h : idx < 2 ^ (k + 1)) : idx ^^^ 1 < 2 ^ (k + 1) :=
  Nat.xor_lt_two_pow h (Nat.one_lt_two_pow (Nat.succ_ne_zero k))

/-- Each level halves the width and every position in it. -/
theorem length_pairUp_half {depth : Nat} {level : List Bytes32} (hb : Bytes32 → Bytes32 → Bytes32)
    (hlen : level.length = 2 ^ (depth + 1)) : (pairUp hb level).length = 2 ^ depth := by
  rw [length_pairUp, hlen, pow_succ]
  omega

theorem half_lt {depth idx : Nat} (h : idx < 2 ^ (depth + 1)) : idx / 2 < 2 ^ depth := by
  rw [pow_succ] at h
  omega

theorem siblingPath_ok {depth idx : Nat} {level : List Bytes32} (hlen : level.length = 2 ^ depth)
    (hidx : idx < 2 ^ depth) : ∃ path, siblingPath (branchLevels T depth level) idx = .ok path := by
  induction depth generalizing idx level with
  | zero => exact ⟨[], rfl⟩
  | succ depth ih =>
    obtain ⟨path, hpath⟩ := ih (length_pairUp_half T.hashBranch hlen) (half_lt hidx)
    have hsib : idx ^^^ 1 < level.length := hlen ▸ xor_one_lt hidx
    refine ⟨level[idx ^^^ 1] :: path, ?_⟩
    simp only [branchLevels, siblingPath, List.getElem?_eq_getElem hsib, hpath]

theorem fullClaimRoot_ok {depth idx : Nat} {level : List Bytes32}
    (hlen : level.length = 2 ^ depth) (hidx : idx < 2 ^ depth) (current : Bytes32) :
    ∃ root, fullClaimRoot T (branchLevels T depth level) idx current = .ok root := by
  induction depth generalizing idx level current with
  | zero => exact ⟨current, rfl⟩
  | succ depth ih =>
    have hsib : idx ^^^ 1 < level.length := hlen ▸ xor_one_lt hidx
    simp only [branchLevels, fullClaimRoot, List.getElem?_eq_getElem hsib]
    exact ih (length_pairUp_half T.hashBranch hlen) (half_lt hidx) _

end Levels

section Serving

variable {T : ExitBackend}

/-- The slot of a position is unspent exactly when no claim names it. -/
theorem markSpent_ok {emptied : List EmptiedLeaf} {spent : List (Option EmptiedLeaf)}
    (h : ∀ e ∈ emptied, e.leafIndex.toNat < spent.length) :
    ∃ spent', markSpent emptied spent = .ok spent' ∧ ∀ i, spent'[i]? = some none ↔
      spent[i]? = some none ∧ ∀ e ∈ emptied, e.leafIndex.toNat ≠ i := by
  induction emptied generalizing spent with
  | nil => exact ⟨spent, rfl, fun i => by simp⟩
  | cons e rest ih =>
    have he := h e List.mem_cons_self
    have hrest : ∀ e' ∈ rest,
        e'.leafIndex.toNat < (spent.set e.leafIndex.toNat (some e)).length := fun e' he' => by
      rw [List.length_set]
      exact h e' (List.mem_cons_of_mem e he')
    obtain ⟨spent', hok, hspent⟩ := ih hrest
    refine ⟨spent', by rw [markSpent, if_pos he, hok], fun i => ?_⟩
    rw [hspent, List.getElem?_set]
    by_cases hi : e.leafIndex.toNat = i
    · subst hi
      simp
    · simp only [if_neg hi, List.forall_mem_cons]
      exact ⟨fun ⟨hs, hr⟩ => ⟨hs, hi, hr⟩, fun ⟨hs, _, hr⟩ => ⟨hs, hr⟩⟩

/-- A record the node can serve: its claims name leaves of it. -/
structure ExitRecord.Servable (rec : ExitRecord) : Prop extends rec.Encodable where
  indices : ∀ e ∈ rec.emptied, e.leafIndex.toNat < rec.leaves.length

theorem exitView_ok (hT : T.Lawful) (root : Bytes32) {rec : ExitRecord} (h : rec.Servable) :
    ∃ v, exitView T root rec = .ok v ∧ v.root = root ∧ v.record = rec ∧
      v.unspent = rec.leaves.zipIdx.filter fun p => p.2 ∉ rec.emptiedIndices := by
  have hcap := hT.le_capacity rec.leaves.length
  have hlen := length_paddedLevel (T := T) rec.leaves rec.emptiedIndices
  have hindices : ∀ e ∈ rec.emptied, e.leafIndex.toNat
      < (List.replicate rec.leaves.length (none : Option EmptiedLeaf)).length := fun e he => by
    rw [List.length_replicate]
    exact h.indices e he
  obtain ⟨spent, hspent, hunspent⟩ := markSpent_ok hindices
  have hin : ∀ i ∈ List.range rec.leaves.length,
      i < 2 ^ T.requiredDepth rec.leaves.length := fun i hi =>
    (List.mem_range.mp hi).trans_le hcap
  obtain ⟨siblings, hsiblings, -⟩ := mapM_ok fun i hi => siblingPath_ok (T := T) hlen (hin i hi)
  obtain ⟨roots, hroots, -⟩ := mapM_ok fun i hi =>
    fullClaimRoot_ok (T := T) hlen (hin i hi) T.hashEmpty
  refine ⟨⟨root, rec, spent, T.requiredDepth rec.leaves.length, siblings, roots⟩, ?_, rfl, rfl,
    ?_⟩
  · simp only [exitView, if_pos (hT.requiredDepth_lt _ h.leaves), hspent, hsiblings, hroots]
    rfl
  · refine List.filter_congr fun p hp => ?_
    have hi : p.2 < rec.leaves.length := by
      obtain ⟨-, hlt, -⟩ := List.mem_zipIdx hp
      rwa [Nat.zero_add] at hlt
    simp only [hunspent, List.getElem?_replicate, if_pos hi, true_and, ExitRecord.emptiedIndices,
      List.mem_map, not_exists, not_and]

/-- Every record of a store of servable records has its view. -/
theorem exitViews_all (hT : T.Lawful) {store : IndexStore}
    (h : ∀ root rec, store.records T root = some rec → rec.Servable) :
    ∃ vs, exitViews T store = .ok vs ∧ ∀ root rec, store.records T root = some rec →
      ∃ v ∈ vs, exitView T root rec = .ok v := by
  have hviews : ∀ p ∈ store.exitRoots.filterMap fun root =>
      (store.getExitRecord T root).map (root, ·), ∃ v, exitView T p.1 p.2 = .ok v := by
    intro p hp
    obtain ⟨root, _, hrec⟩ := List.mem_filterMap.mp hp
    obtain ⟨rec, hget, rfl⟩ := Option.map_eq_some_iff.mp hrec
    obtain ⟨v, hv, -⟩ := exitView_ok hT root (h root rec hget)
    exact ⟨v, hv⟩
  obtain ⟨vs, hvs, hmem⟩ := mapM_ok hviews
  refine ⟨vs, hvs, fun root rec hrec => ?_⟩
  obtain ⟨v, hv, -⟩ := exitView_ok hT root (h root rec hrec)
  refine ⟨v, hmem (root, rec) ?_ v hv, hv⟩
  exact List.mem_filterMap.mpr ⟨root, store.mem_exitRoots root hrec, by
    rw [show store.getExitRecord T root = some rec from hrec]; rfl⟩

theorem exitViews_ok (hT : T.Lawful) {store : IndexStore}
    (h : ∀ root rec, store.records T root = some rec → rec.Servable) :
    ∃ vs, exitViews T store = .ok vs ∧ ∀ root rec, store.records T root = some rec →
      ∃ v ∈ vs, v.root = root ∧ v.record = rec ∧
        v.unspent = rec.leaves.zipIdx.filter fun p => p.2 ∉ rec.emptiedIndices := by
  obtain ⟨vs, hvs, hall⟩ := exitViews_all hT h
  refine ⟨vs, hvs, fun root rec hrec => ?_⟩
  obtain ⟨v, hv, hview⟩ := hall root rec hrec
  obtain ⟨v', hview', hshape⟩ := exitView_ok hT root (h root rec hrec)
  rw [hview] at hview'
  obtain rfl := Except.ok.inj hview'
  exact ⟨v, hv, hshape⟩

end Serving

end TicTacToe
