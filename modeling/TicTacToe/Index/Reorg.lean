/-
TicTacToe.Index.Reorg — the game index of a rollup that is reorganised.

The node commits batches of submissions, each at a version of its own, and
runs `index_diff` for every resource a batch wrote; a reorg takes the latest
batch back with `revert_diff`, which restores the version before it. In
between the exit store writes to the same column. `Indexed.serves` is what
the index is worth at any moment: one status key for each stored game, at
the version of a batch that stands, and the events of the batches that
stand. `player_stream_exact` reads the streams of the players off it.

No `sorry`, no `axiom`, no `native_decide`.
-/
import TicTacToe.Index.Batching
import TicTacToe.Index.Scan

namespace TicTacToe

open Lib

/-! ## Batches -/

/-- A batch: its version, the rollup it leaves and the resources it wrote. -/
structure CommittedBatch where
  version : UInt64
  rollup : Rollup
  written : List ResourceId

/-- The batches that stand, latest first. -/
abbrev BatchChain := List CommittedBatch

namespace BatchChain

/-- The rollup a chain ends in. -/
def tip : BatchChain → Rollup
  | [] => .genesis
  | b :: _ => b.rollup

/-- The game the tip holds at an id. -/
def body (chain : BatchChain) (id : ResourceId) : Option GameBody :=
  gameOf (some (chain.tip.store id))

/-- The version a resource was last written at, which a reorg restores. -/
def lastVersion (chain : BatchChain) (id : ResourceId) : UInt64 :=
  ((chain.find? fun b => id ∈ b.written).map CommittedBatch.version).getD 0

/-- What a batch is committed with. -/
def diffs (chain : BatchChain) (b : CommittedBatch) : WriteBatch :=
  b.written.flatMap fun id =>
    indexDiff id (some (chain.tip.store id)) (some (b.rollup.store id)) b.version

/-- What a batch is taken back with. -/
def reverts (chain : BatchChain) (b : CommittedBatch) : WriteBatch :=
  b.written.flatMap fun id =>
    revertDiff id (some (b.rollup.store id)) (some (chain.tip.store id)) b.version
      (chain.lastVersion id)

/-- `b` comes after the chain: more submissions, at a newer version, and every
resource they changed is written. -/
structure Extends (B : Battery) (P : DepositPolicy) (chain : BatchChain) (b : CommittedBatch) :
    Prop where
  later : chain.tip.Later B P b.rollup
  nodup : b.written.Nodup
  frame : ∀ id, id ∉ b.written → b.rollup.store id = chain.tip.store id
  newer : ∀ b' ∈ chain, b'.version < b.version

/-- Each batch of a chain comes after the ones before. -/
def Built (B : Battery) (P : DepositPolicy) : BatchChain → Prop
  | [] => True
  | b :: chain => Extends B P chain b ∧ Built B P chain

/-- Some batch that stands logged the event, at its version. -/
def Logged (p : ResourceId) (e : PlayerEvent) (v : UInt64) (gid : ResourceId) : BatchChain → Prop
  | [] => False
  | b :: chain =>
    (v = b.version ∧ (p, e) ∈ forwardEvents (body chain gid) (body (b :: chain) gid)) ∨
      Logged p e v gid chain

end BatchChain

/-- The chain and its index, over any interleaving of batches, reorgs and
writes of the exit store. -/
inductive Indexed (B : Battery) (P : DepositPolicy) (T : ExitBackend) :
    BatchChain → IndexStore → Prop
  | genesis : Indexed B P T [] ∅
  | batch {chain : BatchChain} {index : IndexStore} (b : CommittedBatch) :
      Indexed B P T chain index → chain.Extends B P b →
      Indexed B P T (b :: chain) (index.commit (chain.diffs b))
  | reorg {chain : BatchChain} {index : IndexStore} (b : CommittedBatch) :
      Indexed B P T (b :: chain) index → Indexed B P T chain (index.commit (chain.reverts b))
  | exit {chain : BatchChain} {index index' : IndexStore} (op : StoreOp) (u : Unit) :
      Indexed B P T chain index → op.IsExit → op.perform T index = .ok u index' →
      Indexed B P T chain index'

/-! ## Lookups after the diffs of many resources -/

namespace IndexStore

variable {store : IndexStore} {k : List UInt8}

/-- Under a key that only `id` writes, diffs of many are the diff of `id`. -/
theorem lookup_commit_flatMap {f : ResourceId → WriteBatch} {ids : List ResourceId}
    (hn : ids.Nodup) {id : ResourceId} (hother : ∀ i, i ≠ id → ∀ op ∈ f i, op.key ≠ k) :
    (store.commit (ids.flatMap f)).lookup k =
      if id ∈ ids then (store.commit (f id)).lookup k else store.lookup k := by
  induction ids generalizing store with
  | nil => rfl
  | cons i ids ih =>
    obtain ⟨hnot, hrest⟩ := List.nodup_cons.mp hn
    rw [List.flatMap_cons, commit_append, ih hrest]
    by_cases hid : id = i
    · subst hid
      rw [if_neg hnot, if_pos List.mem_cons_self]
    · have hsame := store.lookup_commit_of_ne (hother i (Ne.symm hid))
      simp only [List.mem_cons, hid, false_or]
      split
      · exact lookup_commit_congr hsame _
      · exact hsame

end IndexStore

section Touched

variable {B : Battery} {id : ResourceId} {v : UInt64} {p : ResourceId} {e : PlayerEvent}

theorem not_touches_event {id' : ResourceId} (hne : id' ≠ id) (v' : UInt64) :
    ¬ Touches id v (playerEventKey p e v' id') := by
  rintro (⟨p', e', h⟩ | ⟨s, h⟩)
  · exact hne (playerEventKey_inj h).2.2.2
  · exact playerEventKey_ne_gameStatusKey _ _ _ _ _ _ h

theorem mem_eventKeys {old new : Option GameBody} {v' : UInt64} :
    playerEventKey p e v' id ∈ eventKeys id old new v ↔
      v' = v ∧ (p, e) ∈ forwardEvents old new := by
  constructor
  · intro h
    obtain ⟨⟨p', e'⟩, hevent, hkey⟩ := List.mem_map.mp h
    obtain ⟨rfl, rfl, rfl, -⟩ := playerEventKey_inj hkey
    exact ⟨rfl, hevent⟩
  · rintro ⟨rfl, hevent⟩
    exact List.mem_map.mpr ⟨_, hevent, rfl⟩

end Touched

/-! ## Chains -/

namespace BatchChain

variable {B : Battery} {P : DepositPolicy} {chain : BatchChain} {b : CommittedBatch}
  {id gid p : ResourceId} {e : PlayerEvent} {v : UInt64}

theorem Built.reachable (h : Built B P chain) : Reachable B P chain.tip := by
  induction chain with
  | nil => exact .genesis
  | cons b chain ih => exact (Rollup.Later.reachable h.1.later (ih h.2)).1

theorem Extends.body_eq (h : Extends B P chain b) (hid : id ∉ b.written) :
    body (b :: chain) id = body chain id := by
  show gameOf (some (b.rollup.store id)) = gameOf (some (chain.tip.store id))
  rw [h.frame id hid]

/-- What no batch wrote holds no game. -/
theorem Built.body_none (h : Built B P chain) (hid : ∀ b ∈ chain, id ∉ b.written) :
    body chain id = none := by
  induction chain with
  | nil => rfl
  | cons b chain ih =>
    rw [h.1.body_eq (hid b List.mem_cons_self)]
    exact ih h.2 fun b' hb' => hid b' (List.mem_cons_of_mem b hb')

/-- A game is restored at the version of a batch that wrote it. -/
theorem Built.lastVersion (h : Built B P chain) {g : GameBody} (hg : body chain id = some g) :
    ∃ b ∈ chain, id ∈ b.written ∧ chain.lastVersion id = b.version := by
  cases hfind : chain.find? (fun b => id ∈ b.written) with
  | none =>
    have hnone : body chain id = none := h.body_none fun b hb hin =>
      List.find?_eq_none.mp hfind b hb (decide_eq_true hin)
    rw [hnone] at hg
    cases hg
  | some b =>
    have hin : decide (id ∈ b.written) = true :=
      List.find?_some (p := fun b : CommittedBatch => decide (id ∈ b.written)) hfind
    refine ⟨b, List.mem_of_find?_eq_some hfind, of_decide_eq_true hin, ?_⟩
    rw [BatchChain.lastVersion, hfind]
    rfl

/-- An event is logged at the version of a batch. -/
theorem Logged.version (h : chain.Logged p e v gid) : ∃ b ∈ chain, b.version = v := by
  induction chain with
  | nil => exact h.elim
  | cons b chain ih =>
    rcases h with ⟨rfl, -⟩ | hold
    · exact ⟨b, List.mem_cons_self, rfl⟩
    · obtain ⟨b', hb', hv⟩ := ih hold
      exact ⟨b', List.mem_cons_of_mem b hb', hv⟩

/-- A batch logs nothing for a game it did not write. -/
theorem Extends.logged_iff (h : Extends B P chain b) (hgid : gid ∉ b.written) :
    Logged p e v gid (b :: chain) ↔ Logged p e v gid chain := by
  rw [Logged, h.body_eq hgid, forwardEvents_same]
  simp

theorem Extends.ahead (h : Extends B P chain b) (hchain : Built B P chain) (gid : ResourceId) :
    BodyAhead (body chain gid) (body (b :: chain) gid) := by
  have hahead := storeSteps_ahead (Rollup.Later.storeSteps h.later hchain.reachable) gid
  rw [← gameOf_store, ← gameOf_store] at hahead
  exact hahead

theorem Built.nodup_events (h : Built B P chain) (gid : ResourceId) :
    (forwardEvents none (body chain gid)).Nodup := by
  have hsound := sound_of_run h.reachable.refines.1
  cases hbody : body chain gid with
  | none => exact List.nodup_nil
  | some g =>
    have hslot : (chain.tip.store.ledger B gid).body = some g := by
      rw [← gameOf_store]
      exact hbody
    exact nodup_forwardEvents (hsound.players_ne hslot)

/-- The batches that stand logged what happened to the game since its birth, each
event once. -/
theorem Built.logged (h : Built B P chain) (p : ResourceId) (e : PlayerEvent) (gid : ResourceId) :
    ((∃ v, Logged p e v gid chain) ↔ (p, e) ∈ forwardEvents none (body chain gid)) ∧
      ∀ v v', Logged p e v gid chain → Logged p e v' gid chain → v = v' := by
  induction chain with
  | nil => exact ⟨⟨fun ⟨_, hv⟩ => hv.elim, fun hmem => by cases hmem⟩, fun _ _ hv => hv.elim⟩
  | cons b chain ih =>
    obtain ⟨hext, hchain⟩ := h
    obtain ⟨hiff, honce⟩ := ih hchain
    have hbirth := forwardEvents_birth (hext.ahead hchain gid)
    have hbuilt : Built B P (b :: chain) := ⟨hext, hchain⟩
    have hnodup := hbuilt.nodup_events gid
    rw [hbirth] at hnodup ⊢
    have hdisjoint := List.disjoint_of_nodup_append hnodup
    refine ⟨?_, ?_⟩
    · simp only [Logged, exists_or, exists_eq_left, hiff, List.mem_append, or_comm]
    · rintro v v' (⟨rfl, hnew⟩ | hold) (⟨rfl, hnew'⟩ | hold')
      · rfl
      · exact (hdisjoint (hiff.mp ⟨v', hold'⟩) hnew).elim
      · exact (hdisjoint (hiff.mp ⟨v, hold⟩) hnew').elim
      · exact honce v v' hold hold'

end BatchChain

/-! ## The index of a chain -/

open BatchChain

/-- What the index is worth: a status key for each stored game, at a version that
stands, and the events of the batches that stand. -/
structure ServesChain (chain : BatchChain) (index : IndexStore) : Prop where
  keyed : Keyed index
  status : ∀ id s, (index.lookup (gameStatusKey s id)).isSome ↔ bucketOf (chain.body id) = some s
  standing : ∀ id s val, index.lookup (gameStatusKey s id) = some val →
    ∃ b ∈ chain, id ∈ b.written ∧ val = be64 b.version
  logged : ∀ p e v gid, (index.lookup (playerEventKey p e v gid)).isSome ↔
    chain.Logged p e v gid

section Index

variable {B : Battery} {P : DepositPolicy} {T : ExitBackend} {chain : BatchChain}
  {b : CommittedBatch} {index index' : IndexStore}

theorem Indexed.built (h : Indexed B P T chain index) : chain.Built B P := by
  induction h with
  | genesis => trivial
  | batch b _ hext ih => exact ⟨hext, ih⟩
  | reorg b _ ih => exact ih.2
  | exit _ _ _ _ _ ih => exact ih

/-- Under the status keys of a game, a batch is the diff of the game. -/
theorem lookup_diffs_status (hn : b.written.Nodup) (s : GameStatus) (id : ResourceId) :
    (index.commit (chain.diffs b)).lookup (gameStatusKey s id) =
      if id ∈ b.written then
        (index.commit (indexDiff id (some (chain.tip.store id)) (some (b.rollup.store id))
          b.version)).lookup (gameStatusKey s id)
      else index.lookup (gameStatusKey s id) :=
  IndexStore.lookup_commit_flatMap hn fun _ hne _ hop heq =>
    not_touches_status (Ne.symm hne) b.version s (heq ▸ touches_indexDiff hop)

theorem lookup_diffs_event (hn : b.written.Nodup) (p : ResourceId) (e : PlayerEvent) (v : UInt64)
    (id : ResourceId) :
    (index.commit (chain.diffs b)).lookup (playerEventKey p e v id) =
      if id ∈ b.written then
        (index.commit (indexDiff id (some (chain.tip.store id)) (some (b.rollup.store id))
          b.version)).lookup (playerEventKey p e v id)
      else index.lookup (playerEventKey p e v id) :=
  IndexStore.lookup_commit_flatMap hn fun _ hne _ hop heq =>
    not_touches_event (Ne.symm hne) v (heq ▸ touches_indexDiff hop)

theorem lookup_reverts_status (hn : b.written.Nodup) (s : GameStatus) (id : ResourceId) :
    (index.commit (chain.reverts b)).lookup (gameStatusKey s id) =
      if id ∈ b.written then
        (index.commit (revertDiff id (some (b.rollup.store id)) (some (chain.tip.store id))
          b.version (chain.lastVersion id))).lookup (gameStatusKey s id)
      else index.lookup (gameStatusKey s id) :=
  IndexStore.lookup_commit_flatMap hn fun _ hne _ hop heq =>
    not_touches_status (Ne.symm hne) b.version s (heq ▸ touches_revertDiff hop)

theorem lookup_reverts_event (hn : b.written.Nodup) (p : ResourceId) (e : PlayerEvent) (v : UInt64)
    (id : ResourceId) :
    (index.commit (chain.reverts b)).lookup (playerEventKey p e v id) =
      if id ∈ b.written then
        (index.commit (revertDiff id (some (b.rollup.store id)) (some (chain.tip.store id))
          b.version (chain.lastVersion id))).lookup (playerEventKey p e v id)
      else index.lookup (playerEventKey p e v id) :=
  IndexStore.lookup_commit_flatMap hn fun _ hne _ hop heq =>
    not_touches_event (Ne.symm hne) v (heq ▸ touches_revertDiff hop)

theorem ServesChain.batch (h : ServesChain chain index) (hext : chain.Extends B P b) :
    ServesChain (b :: chain) (index.commit (chain.diffs b)) where
  keyed := h.keyed.commit fun op hop => by
    obtain ⟨id, -, hin⟩ := List.mem_flatMap.mp hop
    exact keyed_indexDiff hin
  status id s := by
    have hold := h.status id s
    rw [lookup_diffs_status hext.nodup]
    split
    · rw [lookup_indexDiff_status]
      have hnew : gameOf (some (b.rollup.store id)) = body (b :: chain) id := rfl
      have hwas : gameOf (some (chain.tip.store id)) = body chain id := rfl
      rw [hnew, hwas]
      by_cases hsame : bucketOf (body (b :: chain) id) = bucketOf (body chain id)
      · rw [if_pos hsame, hold, hsame]
      · rw [if_neg hsame]
        by_cases hs : bucketOf (body (b :: chain) id) = some s
        · rw [if_pos hs]
          simp [hs]
        · rw [if_neg hs]
          split
          · simp [hs]
          · rename_i hwas
            rw [hold]
            exact iff_of_false hwas hs
    · rename_i hid
      rw [hold, hext.body_eq hid]
  standing id s val hval := by
    rw [lookup_diffs_status hext.nodup] at hval
    have hkept : index.lookup (gameStatusKey s id) = some val →
        ∃ b' ∈ b :: chain, id ∈ b'.written ∧ val = be64 b'.version := by
      intro hval
      obtain ⟨b', hb', hin, hv⟩ := h.standing id s val hval
      exact ⟨b', List.mem_cons_of_mem b hb', hin, hv⟩
    split at hval
    · rename_i hid
      rw [lookup_indexDiff_status] at hval
      split_ifs at hval
      · exact hkept hval
      · exact ⟨b, List.mem_cons_self, hid, (Option.some.inj hval).symm⟩
      · exact hkept hval
    · exact hkept hval
  logged p e v gid := by
    rw [lookup_diffs_event hext.nodup]
    split
    · rw [lookup_indexDiff_event index gid rfl, Logged]
      split
      · rename_i hmem
        exact ⟨fun _ => .inl (mem_eventKeys.mp hmem), fun _ => rfl⟩
      · rename_i hmem
        rw [h.logged]
        exact ⟨.inr, fun hor => hor.resolve_left fun hnew => hmem (mem_eventKeys.mpr hnew)⟩
    · rename_i hgid
      rw [h.logged, hext.logged_iff hgid]

theorem ServesChain.reorg (h : ServesChain (b :: chain) index) (hext : chain.Extends B P b)
    (hchain : chain.Built B P) : ServesChain chain (index.commit (chain.reverts b)) where
  keyed := h.keyed.commit fun op hop => by
    obtain ⟨id, -, hin⟩ := List.mem_flatMap.mp hop
    exact keyed_revertDiff hin
  status id s := by
    rw [lookup_reverts_status hext.nodup]
    split
    · rw [lookup_revertDiff_status]
      have hwas : gameOf (some (chain.tip.store id)) = body chain id := rfl
      rw [hwas]
      split
      · rename_i hs
        simp [hs]
      · rename_i hs
        simp [hs]
    · rename_i hid
      rw [h.status, hext.body_eq hid]
  standing id s val hval := by
    rw [lookup_reverts_status hext.nodup] at hval
    split at hval
    · rw [lookup_revertDiff_status] at hval
      split_ifs at hval with hs
      obtain ⟨g, hg, -⟩ := Option.map_eq_some_iff.mp hs
      obtain ⟨b', hb', hin, hv⟩ := hchain.lastVersion hg
      rw [hv] at hval
      exact ⟨b', hb', hin, (Option.some.inj hval).symm⟩
    · rename_i hid
      obtain ⟨b', hb', hin, hv⟩ := h.standing id s val hval
      rcases List.mem_cons.mp hb' with rfl | hb'
      · exact absurd hin hid
      · exact ⟨b', hb', hin, hv⟩
  logged p e v gid := by
    rw [lookup_reverts_event hext.nodup]
    split
    · rw [lookup_revertDiff_event index gid rfl]
      split
      · rename_i hmem
        obtain ⟨rfl, -⟩ := mem_eventKeys.mp hmem
        -- a version of the chain is not the newer one that was taken back
        refine iff_of_false (by simp) fun hlog => ?_
        obtain ⟨b', hb', hv⟩ := hlog.version
        have hlt := hext.newer b' hb'
        rw [hv] at hlt
        exact UInt64.lt_irrefl _ hlt
      · rename_i hmem
        rw [h.logged, Logged]
        exact ⟨fun hor => hor.resolve_left fun hnew => hmem (mem_eventKeys.mpr hnew), .inr⟩
    · rename_i hgid
      rw [h.logged, hext.logged_iff hgid]

/-- The exit store writes no key of the game index. -/
theorem StoreOp.cells_indexer {op : StoreOp} (hexit : op.IsExit) {u : Unit}
    (hrun : op.perform T index = .ok u index') (key : IndexerKey) :
    index'.cells (.indexer key) = index.cells (.indexer key) := by
  cases op with
  | putExitRecord root rec =>
    have hw : wp ((StoreOp.putExitRecord root rec).perform T)
        (fun _ s => s.cells (.indexer key) = index.cells (.indexer key)) (fun _ _ => True)
        index := by
      simp only [StoreOp.perform, wp_bind]
      unfold TicTacToe.putExitRecord
      cases rec.toBytes T with
      | error e => trivial
      | ok val =>
        have hput := congrFun (index.cells_put (.record root) val) (.indexer key)
        rw [Function.update_of_ne (by simp)] at hput
        exact hput
    exact hw.ok hrun
  | deleteExitRecord root =>
    cases hrun
    exact (congrFun (index.cells_delete (.record root)) _).trans
      (Function.update_of_ne (by simp) ..)
  | markLeafSpent root i mark =>
    cases hrun
    exact (congrFun (index.cells_put (.spent root i) mark.toBytes) _).trans
      (Function.update_of_ne (by simp) ..)
  | unmarkLeafSpent root i =>
    cases hrun
    exact (congrFun (index.cells_delete (.spent root i)) _).trans
      (Function.update_of_ne (by simp) ..)
  | putLatestSettlement row =>
    cases hrun
    exact (congrFun (index.cells_put .settlement row.toBytes) _).trans
      (Function.update_of_ne (by simp) ..)
  | indexer key val => exact hexit.elim

theorem ServesChain.exit (h : ServesChain chain index) {op : StoreOp} (hexit : op.IsExit)
    {u : Unit} (hrun : op.perform T index = .ok u index') : ServesChain chain index' := by
  have hstatus : ∀ s id, index'.lookup (gameStatusKey s id) = index.lookup (gameStatusKey s id) :=
    fun s id => StoreOp.cells_indexer hexit hrun (.gameStatus s id)
  have hevent : ∀ p e v id, index'.lookup (playerEventKey p e v id)
      = index.lookup (playerEventKey p e v id) :=
    fun p e v id => StoreOp.cells_indexer hexit hrun (.playerEvent p e v id)
  refine ⟨h.keyed.perform hexit hrun, fun id s => ?_, fun id s val hval => ?_, fun p e v gid => ?_⟩
  · rw [hstatus]
    exact h.status id s
  · rw [hstatus] at hval
    exact h.standing id s val hval
  · rw [hevent]
    exact h.logged p e v gid

theorem Indexed.serves (h : Indexed B P T chain index) : ServesChain chain index := by
  induction h with
  | genesis =>
    refine ⟨keyed_empty, fun id s => ?_, fun id s val hval => ?_, fun p e v gid => ?_⟩
    · have hbody : body [] id = none := rfl
      simp [hbody, bucketOf]
    · simp at hval
    · simp [Logged]
  | batch b _ hext ih => exact ih.batch hext
  | reorg b hprev ih => exact ih.reorg hprev.built.1 hprev.built.2
  | exit op u _ hexit hrun ih => exact ih.exit hexit hrun

end Index

/-! ## The streams of the players -/

section Streams

variable {B : Battery} {P : DepositPolicy} {T : ExitBackend} {chain : BatchChain}
  {index : IndexStore} {isCanonical : UInt64 → Bool} {player : ResourceId} {event : PlayerEvent}

theorem BatchChain.body_eq_some {gid : ResourceId} {g : GameBody} :
    chain.body gid = some g ↔ GameBody.fromBytes (chain.tip.store gid) = .ok g := by
  unfold body gameOf
  rw [Option.bind_some]
  cases GameBody.fromBytes (chain.tip.store gid) <;> simp [Except.toOption]

/-- Where the versions that stand are canonical, the stream lists what they logged. -/
theorem ServesChain.mem_stream (h : ServesChain chain index)
    (hcan : ∀ b ∈ chain, isCanonical b.version = true) {c : PlayerEventCursor} :
    c ∈ playerEvents index isCanonical player event ↔
      chain.Logged player event c.version c.game := by
  rw [mem_playerEvents, h.logged]
  constructor
  · exact fun hc => hc.2
  · intro hlog
    obtain ⟨b, hb, hv⟩ := hlog.version
    exact ⟨hv ▸ hcan b hb, hlog⟩

/-- A stream has the games it is about, each once. -/
theorem ServesChain.stream_games (h : ServesChain chain index) (hbuilt : chain.Built B P)
    (hcan : ∀ b ∈ chain, isCanonical b.version = true) (player : ResourceId)
    (event : PlayerEvent) :
    ((playerEvents index isCanonical player event).map PlayerEventCursor.game).Nodup ∧
      ∀ gid, gid ∈ (playerEvents index isCanonical player event).map PlayerEventCursor.game ↔
        ∃ g, GameBody.fromBytes (chain.tip.store gid) = .ok g ∧ g.Logs player event := by
  constructor
  · have hasc : (playerEvents index isCanonical player event).Pairwise fun c d =>
        cursorKey player event c < cursorKey player event d :=
      listing_ascending fun e c hc => (playerEventOf_eq_some.mp hc).1
    have hnodup : (playerEvents index isCanonical player event).Nodup := by
      refine hasc.imp fun {c d} hlt heq => ?_
      rw [heq] at hlt
      exact Std.lt_irrefl hlt
    refine hnodup.map_on fun c hc d hd hgame => ?_
    have hlog := (h.mem_stream hcan).mp hc
    rw [hgame] at hlog
    have hversion := (hbuilt.logged player event d.game).2 _ _ hlog ((h.mem_stream hcan).mp hd)
    cases c
    cases d
    exact congrArg₂ PlayerEventCursor.mk hversion hgame
  · intro gid
    rw [List.mem_map]
    have hlogged := (hbuilt.logged player event gid).1
    constructor
    · rintro ⟨c, hc, rfl⟩
      have hevent := hlogged.mp ⟨c.version, (h.mem_stream hcan).mp hc⟩
      cases hbody : chain.body c.game with
      | none =>
        rw [hbody] at hevent
        cases hevent
      | some g =>
        rw [hbody] at hevent
        exact ⟨g, body_eq_some.mp hbody, mem_forwardEvents.mp hevent⟩
    · rintro ⟨g, hg, hlogs⟩
      obtain ⟨v, hv⟩ := hlogged.mpr (body_eq_some.mpr hg ▸ mem_forwardEvents.mpr hlogs)
      exact ⟨⟨v, gid⟩, (h.mem_stream hcan).mpr hv, rfl⟩

/-- A stream is as long as there are games it is about. -/
theorem ServesChain.stream_length (h : ServesChain chain index) (hbuilt : chain.Built B P)
    (hcan : ∀ b ∈ chain, isCanonical b.version = true) (player : ResourceId)
    (event : PlayerEvent) :
    (playerEvents index isCanonical player event).length
      = (chain.tip.store.gamesWhere fun g => g.Logs player event).ncard := by
  obtain ⟨hnodup, hmem⟩ := h.stream_games hbuilt hcan player event
  have hgames : chain.tip.store.gamesWhere (fun g => g.Logs player event)
      = ((playerEvents index isCanonical player event).map PlayerEventCursor.game).toFinset := by
    ext gid
    rw [List.coe_toFinset]
    exact (hmem gid).symm
  rw [hgames, Set.ncard_coe_finset, List.toFinset_card_of_nodup hnodup, List.length_map]

/-- **The streams of the players.** After any interleaving of batches, reorgs
and writes of the exit store, a player and an event have one stream, the
same for every page size: it names each stored game the event is about
once, at the version of a batch that stands. So the streams of an account
are as long as its counters say. -/
theorem player_stream_exact (h : Indexed B P T chain index) (isCanonical : UInt64 → Bool)
    (hcan : ∀ b ∈ chain, isCanonical b.version = true) (player : ResourceId)
    (event : PlayerEvent) :
    ∃ all : List PlayerEventCursor,
      Paginates (scanPlayerEvents index isCanonical player event) all ∧
      (all.map PlayerEventCursor.game).Nodup ∧
      (∀ gid, gid ∈ all.map PlayerEventCursor.game ↔
        ∃ g, GameBody.fromBytes (chain.tip.store gid) = .ok g ∧ g.Logs player event) ∧
      (∀ c ∈ all, ∃ b ∈ chain, b.version = c.version) ∧
      ∀ u, UserBody.fromBytes B (chain.tip.store player) = .ok u →
        (event = .created → all.length = u.gamesStarted.toNat) ∧
        (event = .won → all.length = u.gamesWon.toNat) := by
  have hserves := h.serves
  have hbuilt := h.built
  have hasc : (playerEvents index isCanonical player event).Pairwise fun c d =>
      cursorKey player event c < cursorKey player event d :=
    listing_ascending fun e c hc => (playerEventOf_eq_some.mp hc).1
  obtain ⟨hnodup, hgames⟩ := hserves.stream_games hbuilt hcan player event
  have hexact := exact_of_run hbuilt.reachable.refines.1
  refine ⟨playerEvents index isCanonical player event,
    paginates_of_behind hasc (scanPlayerEvents_ok hserves.keyed), hnodup, hgames, fun c hc => ?_,
    fun u hu => ⟨?_, ?_⟩⟩
  · exact ((hserves.mem_stream hcan).mp hc).version
  · rintro rfl
    rw [hserves.stream_length hbuilt hcan]
    have hstat := hexact .started player u (Slot.parse_eq_user.mpr hu)
    exact (hstat.trans (chain.tip.store.score_eq_ncard ..)).symm
  · rintro rfl
    rw [hserves.stream_length hbuilt hcan]
    have hstat := hexact .won player u (Slot.parse_eq_user.mpr hu)
    exact (hstat.trans (chain.tip.store.score_eq_ncard ..)).symm

end Streams

/-- A batch, and one more that is taken back. -/
theorem Sample.indexed_reorged {R R' : Rollup} {ids ids' : List ResourceId}
    (hlater : Rollup.genesis.Later .plain policy R) (hlater' : R.Later .plain policy R')
    (hn : ids.Nodup) (hn' : ids'.Nodup)
    (hframe : ∀ id, id ∉ ids → R.store id = Rollup.genesis.store id)
    (hframe' : ∀ id, id ∉ ids' → R'.store id = R.store id) :
    ∃ index, Indexed .plain policy .plain [⟨1, R, ids⟩] index := by
  have hfirst : BatchChain.Extends .plain policy [] ⟨1, R, ids⟩ :=
    ⟨hlater, hn, hframe, fun _ hb => absurd hb List.not_mem_nil⟩
  have hsecond : BatchChain.Extends .plain policy [⟨1, R, ids⟩] ⟨2, R', ids'⟩ := by
    refine ⟨hlater', hn', hframe', fun b hb => ?_⟩
    rw [List.mem_singleton.mp hb]
    exact (by decide : (1 : UInt64) < 2)
  exact ⟨_, (((Indexed.genesis (T := .plain)).batch _ hfirst).batch _ hsecond).reorg _⟩

theorem Sample.tip_singleton (version : UInt64) (R : Rollup) (ids : List ResourceId) :
    BatchChain.tip [⟨version, R, ids⟩] = R := rfl

theorem Sample.versions_singleton (R : Rollup) (ids : List ResourceId) :
    ∀ b ∈ [(⟨1, R, ids⟩ : CommittedBatch)], (b.version == 1) = true := by
  intro b hb
  rw [List.mem_singleton.mp hb]
  rfl

/-- The game is opened, played, and the batch that played it is taken back. -/
theorem Sample.indexed_opened : ∃ index,
    Indexed .plain policy .plain [⟨1, opened, opening.access.map Prod.fst⟩] index := by
  have hopen : Rollup.genesis.Later .plain policy opened :=
    .single ⟨opening, access_nodup _ _, rfl⟩
  have hplay : opened.Later .plain policy played := .single ⟨playing, access_nodup _ _, rfl⟩
  exact indexed_reorged hopen hplay (access_nodup _ _) (access_nodup _ _)
    (submit_frame _ _ .genesis rfl) (submit_frame _ _ reachable_opened rfl)

theorem player_stream_exact_reorged :
    ∃ (index : IndexStore) (all : List PlayerEventCursor),
      Paginates (scanPlayerEvents index (fun version => version == 1) Sample.aliceId .created) all ∧
      Sample.gameId ∈ all.map PlayerEventCursor.game := by
  obtain ⟨index, h⟩ := Sample.indexed_opened
  obtain ⟨g, hg, hcreator⟩ := ok_of_any
    (x := GameBody.fromBytes (Sample.opened.store Sample.gameId))
    (p := fun g => g.creator = Sample.aliceId) (by decide +kernel)
  obtain ⟨all, hpages, -, hgames, -⟩ := player_stream_exact h (fun version => version == 1)
    (Sample.versions_singleton _ _) Sample.aliceId .created
  rw [Sample.tip_singleton] at hgames
  have hlogs : g.creator = Sample.aliceId := of_decide_eq_true hcreator
  exact ⟨index, all, hpages, (hgames _).mpr ⟨g, hg, hlogs⟩⟩

end TicTacToe
