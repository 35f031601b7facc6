/-
TicTacToe.Index.Indexer — the secondary index follows the canonical history
(`TicTacToeIndexer` of `node/src/indexer.rs`).

A game's history is the stack of its committed bodies, latest first. A
commit pushes and runs `indexDiff`, a reorg pops and runs `revertDiff`. The
two are no literal inverses: `indexDiff` skips a status that did not change
and keeps the version written before, `revertDiff` clears all buckets and
writes the restored version. `index_exact` says what the index is worth
after any interleaving: the log is the events of the histories that stand,
and each game has one status key, in its own bucket.

No `sorry`, no `axiom`, no `native_decide`.
-/
import TicTacToe.Exits.Store
import TicTacToe.Index.Events

namespace TicTacToe

open Lib

/-! ## The two diffs -/

/-- The keys a transition logs at `version`. -/
def eventKeys (id : ResourceId) (old new : Option GameBody) (version : UInt64) :
    List (List UInt8) :=
  (forwardEvents old new).map fun e => playerEventKey e.1 e.2 version id

/-- The bucket an optional body is in. -/
def bucketOf (g : Option GameBody) : Option GameStatus := g.map fun g => statusOf g.state

/-- Moves the game to its new bucket on status change. -/
def statusMove (id : ResourceId) (oldS newS : Option GameStatus) (version : UInt64) :
    WriteBatch :=
  if newS = oldS then []
  else
    (oldS.toList.map fun s => .delete (gameStatusKey s id)) ++
      newS.toList.map fun s => .put (gameStatusKey s id) (be64 version)

/-- `index_diff`. -/
def indexDiff (id : ResourceId) (old new : Option (List UInt8)) (version : UInt64) : WriteBatch :=
  ((eventKeys id (gameOf old) (gameOf new) version).map fun key => .put key []) ++
    statusMove id (bucketOf (gameOf old)) (bucketOf (gameOf new)) version

/-- The keys of all three buckets of a game. -/
def statusKeys (id : ResourceId) : List (List UInt8) :=
  [.open, .playing, .finished].map fun s => gameStatusKey s id

/-- `revert_diff`. -/
def revertDiff (id : ResourceId) (written restored : Option (List UInt8))
    (revertedVersion restoredVersion : UInt64) : WriteBatch :=
  ((eventKeys id (gameOf restored) (gameOf written) revertedVersion).map .delete ++
      (statusKeys id).map .delete) ++
    (gameOf restored).toList.map fun g =>
      .put (gameStatusKey (statusOf g.state) id) (be64 restoredVersion)

/-! ## Histories -/

/-- The committed bodies of one game with their versions, latest first. -/
abbrev BodyHistory := List (UInt64 × GameBody)

/-- The latest body. -/
def BodyHistory.top (h : BodyHistory) : Option GameBody := h.head?.map Prod.snd

/-- The event keys of the consecutive pairs of a history, at their versions. -/
def BodyHistory.eventKeys (id : ResourceId) : BodyHistory → List (List UInt8)
  | [] => []
  | (version, g) :: rest =>
    TicTacToe.eventKeys id (BodyHistory.top rest) (some g) version ++ eventKeys id rest

/-- Any interleaving of commits and reorgs over any number of games. -/
inductive IndexRun : (ResourceId → BodyHistory) → IndexStore → Prop where
  | empty : IndexRun (fun _ => []) ∅
  | push {hists : ResourceId → BodyHistory} {store : IndexStore} (h : IndexRun hists store)
      (id : ResourceId) (g : GameBody) (version : UInt64)
      (hnew : ∀ e ∈ (hists id).head?, e.1 < version) :
      IndexRun (Function.update hists id ((version, g) :: hists id))
        (store.commit
          (indexDiff id ((hists id).top.map GameBody.toBytes) (some g.toBytes) version))
  | pop {hists : ResourceId → BodyHistory} {store : IndexStore} (h : IndexRun hists store)
      (id : ResourceId) (g : GameBody) (version restoredVersion : UInt64) (rest : BodyHistory)
      (htop : hists id = (version, g) :: rest)
      (hrest : ∀ e ∈ rest.head?, restoredVersion = e.1) :
      IndexRun (Function.update hists id rest)
        (store.commit (revertDiff id (some g.toBytes) (rest.top.map GameBody.toBytes) version
          restoredVersion))

/-- The log: exactly the events of the histories, with empty values. -/
def LogExact (hists : ResourceId → BodyHistory) (store : IndexStore) : Prop :=
  ∀ k val, k.head? = some playerEventDiscriminator →
    (store.lookup k = some val ↔ val = [] ∧ ∃ id, k ∈ (hists id).eventKeys id)

/-- The status index: a key stands for a game's current bucket, and its value is a version of
that game's history. -/
structure StatusExact (hists : ResourceId → BodyHistory) (store : IndexStore) : Prop where
  one : ∀ id s, (store.lookup (gameStatusKey s id)).isSome ↔
    bucketOf (hists id).top = some s
  keyed : ∀ k val, k.head? = some gameStatusDiscriminator → store.lookup k = some val →
    ∃ id s, k = gameStatusKey s id
  versioned : ∀ id s val, store.lookup (gameStatusKey s id) = some val →
    ∃ e ∈ hists id, val = be64 e.1

/-! ## Which keys a batch names -/

theorem key_of_mem_eventKeys {id : ResourceId} {old new : Option GameBody} {v : UInt64}
    {k : List UInt8} (h : k ∈ eventKeys id old new v) :
    ∃ p e, k = playerEventKey p e v id := by
  obtain ⟨e, _, rfl⟩ := List.mem_map.mp h
  exact ⟨e.1, e.2, rfl⟩

/-- A history's event keys are at its versions. -/
theorem version_of_mem_eventKeys {id : ResourceId} {hist : BodyHistory} {k : List UInt8}
    (h : k ∈ hist.eventKeys id) : ∃ b ∈ hist, ∃ p e, k = playerEventKey p e b.1 id := by
  induction hist with
  | nil => simp [BodyHistory.eventKeys] at h
  | cons b rest ih =>
    rcases List.mem_append.mp h with hhead | htail
    · exact ⟨b, List.mem_cons_self, key_of_mem_eventKeys hhead⟩
    · obtain ⟨b', hb', hk⟩ := ih htail
      exact ⟨b', List.mem_cons_of_mem b hb', hk⟩

/-- The keys of the moves between buckets are status keys. -/
theorem key_of_mem_statusMove {id : ResourceId} {oldS newS : Option GameStatus} {v : UInt64}
    {op : WriteOp} (h : op ∈ statusMove id oldS newS v) : ∃ s, op.key = gameStatusKey s id := by
  unfold statusMove at h
  split at h
  · cases h
  · rcases List.mem_append.mp h with hdel | hput
    · obtain ⟨s, _, rfl⟩ := List.mem_map.mp hdel
      exact ⟨s, rfl⟩
    · obtain ⟨s, _, rfl⟩ := List.mem_map.mp hput
      exact ⟨s, rfl⟩

/-- The keys a diff may write. -/
def Touches (id : ResourceId) (version : UInt64) (k : List UInt8) : Prop :=
  (∃ p e, k = playerEventKey p e version id) ∨ ∃ s, k = gameStatusKey s id

theorem touches_indexDiff {id : ResourceId} {old new : Option (List UInt8)} {v : UInt64}
    {op : WriteOp} (h : op ∈ indexDiff id old new v) : Touches id v op.key := by
  rcases List.mem_append.mp h with hlog | hstatus
  · obtain ⟨k, hk, rfl⟩ := List.mem_map.mp hlog
    exact .inl (key_of_mem_eventKeys hk)
  · exact .inr (key_of_mem_statusMove hstatus)

theorem touches_revertDiff {id : ResourceId} {written restored : Option (List UInt8)}
    {v v' : UInt64} {op : WriteOp} (h : op ∈ revertDiff id written restored v v') :
    Touches id v op.key := by
  rcases List.mem_append.mp h with hdel | hput
  · rcases List.mem_append.mp hdel with hlog | hstatus
    · obtain ⟨k, hk, rfl⟩ := List.mem_map.mp hlog
      exact .inl (key_of_mem_eventKeys hk)
    · obtain ⟨k, hk, rfl⟩ := List.mem_map.mp hstatus
      obtain ⟨s, _, rfl⟩ := List.mem_map.mp hk
      exact .inr ⟨s, rfl⟩
  · obtain ⟨g, _, rfl⟩ := List.mem_map.mp hput
    exact .inr ⟨_, rfl⟩

/-- A diff of one game touches no status key of another. -/
theorem not_touches_status {id id' : ResourceId} (hne : id' ≠ id) (v : UInt64) (s : GameStatus) :
    ¬ Touches id v (gameStatusKey s id') := by
  rintro (⟨p, e, h⟩ | ⟨s', h⟩)
  · exact playerEventKey_ne_gameStatusKey _ _ _ _ _ _ h.symm
  · exact hne (gameStatusKey_inj h).2

/-- No key of the log is a status key. -/
theorem event_ne_status {id : ResourceId} {k : List UInt8}
    (hk : k.head? = some playerEventDiscriminator) (s : GameStatus) : k ≠ gameStatusKey s id := by
  rintro rfl
  exact absurd (Option.some.inj hk) (by decide)

/-! ## Lookups after a diff -/

section Lookups

variable (store : IndexStore) (id : ResourceId)

/-- At a status key of its game, a move writes the new bucket and clears the old one. -/
theorem lookup_statusMove (oldS newS : Option GameStatus) (v : UInt64) (s : GameStatus) :
    (store.commit (statusMove id oldS newS v)).lookup (gameStatusKey s id) =
      if newS = oldS then store.lookup (gameStatusKey s id)
      else if newS = some s then some (be64 v)
      else if oldS = some s then none
      else store.lookup (gameStatusKey s id) := by
  have hkey : ∀ t, gameStatusKey s id = gameStatusKey t id ↔ t = s := fun t =>
    ⟨fun h => (gameStatusKey_inj h).1.symm, fun h => h ▸ rfl⟩
  unfold statusMove
  split
  · rfl
  · rw [IndexStore.commit_append]
    have hput : newS.toList.map (fun s => WriteOp.put (gameStatusKey s id) (be64 v))
        = (newS.toList.map fun s => gameStatusKey s id).map fun key => .put key (be64 v) := by
      rw [List.map_map]
      rfl
    have hdel : oldS.toList.map (fun s => WriteOp.delete (gameStatusKey s id))
        = (oldS.toList.map fun s => gameStatusKey s id).map .delete := by
      rw [List.map_map]
      rfl
    rw [hput, hdel, IndexStore.lookup_commit_puts, IndexStore.lookup_commit_deletes]
    cases newS <;> cases oldS <;> simp [hkey, eq_comm]

/-- At an event key, the index diff adds the keys of the transition. -/
theorem lookup_indexDiff_event {k : List UInt8}
    (hk : k.head? = some playerEventDiscriminator) (old new : Option (List UInt8)) (v : UInt64) :
    (store.commit (indexDiff id old new v)).lookup k =
      if k ∈ eventKeys id (gameOf old) (gameOf new) v then some [] else store.lookup k := by
  have hmove : ∀ op ∈ statusMove id (bucketOf (gameOf old)) (bucketOf (gameOf new)) v,
      op.key ≠ k := by
    intro op hop heq
    obtain ⟨s, hs⟩ := key_of_mem_statusMove hop
    exact event_ne_status hk s (heq.symm.trans hs)
  rw [indexDiff, IndexStore.commit_append, IndexStore.lookup_commit_of_ne _ hmove,
    IndexStore.lookup_commit_puts]

/-- At a status key of its game, the index diff is its move. -/
theorem lookup_indexDiff_status (old new : Option (List UInt8)) (v : UInt64) (s : GameStatus) :
    (store.commit (indexDiff id old new v)).lookup (gameStatusKey s id) =
      if bucketOf (gameOf new) = bucketOf (gameOf old) then store.lookup (gameStatusKey s id)
      else if bucketOf (gameOf new) = some s then some (be64 v)
      else if bucketOf (gameOf old) = some s then none
      else store.lookup (gameStatusKey s id) := by
  have hlog : gameStatusKey s id ∉ eventKeys id (gameOf old) (gameOf new) v := by
    intro h
    obtain ⟨p, e, hk⟩ := key_of_mem_eventKeys h
    exact playerEventKey_ne_gameStatusKey _ _ _ _ _ _ hk.symm
  rw [indexDiff, IndexStore.commit_append, lookup_statusMove, IndexStore.lookup_commit_puts,
    if_neg hlog]

/-- At an event key, the revert removes the keys of the transition. -/
theorem lookup_revertDiff_event {k : List UInt8}
    (hk : k.head? = some playerEventDiscriminator) (written restored : Option (List UInt8))
    (v v' : UInt64) :
    (store.commit (revertDiff id written restored v v')).lookup k =
      if k ∈ eventKeys id (gameOf restored) (gameOf written) v then none else store.lookup k := by
  have hput : ∀ op ∈ (gameOf restored).toList.map fun g =>
      WriteOp.put (gameStatusKey (statusOf g.state) id) (be64 v'), op.key ≠ k := by
    intro op hop heq
    obtain ⟨g, _, rfl⟩ := List.mem_map.mp hop
    exact event_ne_status hk _ heq.symm
  have hstatus : k ∉ statusKeys id := by
    intro h
    obtain ⟨s, _, hs⟩ := List.mem_map.mp h
    exact event_ne_status hk s hs.symm
  rw [revertDiff, IndexStore.commit_append, IndexStore.lookup_commit_of_ne _ hput,
    IndexStore.commit_append, IndexStore.lookup_commit_deletes, if_neg hstatus,
    IndexStore.lookup_commit_deletes]

/-- At the status keys of its game, the revert leaves the restored bucket only. -/
theorem lookup_revertDiff_status (written restored : Option (List UInt8)) (v v' : UInt64)
    (s : GameStatus) :
    (store.commit (revertDiff id written restored v v')).lookup (gameStatusKey s id) =
      if bucketOf (gameOf restored) = some s then some (be64 v') else none := by
  have hmem : gameStatusKey s id ∈ statusKeys id :=
    List.mem_map.mpr ⟨s, by cases s <;> simp, rfl⟩
  have hput : (gameOf restored).toList.map
        (fun g => WriteOp.put (gameStatusKey (statusOf g.state) id) (be64 v'))
      = ((gameOf restored).toList.map fun g => gameStatusKey (statusOf g.state) id).map
          fun key => .put key (be64 v') := by
    rw [List.map_map]
    rfl
  rw [revertDiff, IndexStore.commit_append, IndexStore.commit_append, hput,
    IndexStore.lookup_commit_puts, IndexStore.lookup_commit_deletes, if_pos hmem]
  cases gameOf restored with
  | none => rfl
  | some g =>
    have hkey : gameStatusKey s id = gameStatusKey (statusOf g.state) id ↔ statusOf g.state = s :=
      ⟨fun h => (gameStatusKey_inj h).1.symm, fun h => h ▸ rfl⟩
    simp [bucketOf, hkey]

end Lookups

/-! ## The log -/

theorem mem_eventKeys_update (hists : ResourceId → BodyHistory) (id : ResourceId)
    (hist : BodyHistory) (k : List UInt8) :
    (∃ i, k ∈ BodyHistory.eventKeys i (Function.update hists id hist i)) ↔
      k ∈ hist.eventKeys id ∨ ∃ i, i ≠ id ∧ k ∈ (hists i).eventKeys i := by
  constructor
  · rintro ⟨i, hi⟩
    by_cases hid : i = id
    · subst hid
      rw [Function.update_self] at hi
      exact .inl hi
    · rw [Function.update_of_ne hid] at hi
      exact .inr ⟨i, hid, hi⟩
  · rintro (h | ⟨i, hid, hi⟩)
    · exact ⟨id, by rwa [Function.update_self]⟩
    · exact ⟨i, by rwa [Function.update_of_ne hid]⟩

/-- The versions of every history strictly decrease from the top. -/
def Descending (hists : ResourceId → BodyHistory) : Prop :=
  ∀ id, (hists id).Pairwise fun a b => b.1 < a.1

section Steps

variable {hists : ResourceId → BodyHistory} {store : IndexStore} {id : ResourceId}
  {g : GameBody} {version restoredVersion : UInt64} {rest : BodyHistory}

theorem Descending.push (h : Descending hists) (hnew : ∀ e ∈ (hists id).head?, e.1 < version) :
    Descending (Function.update hists id ((version, g) :: hists id)) := by
  intro i
  by_cases hid : i = id
  · subst hid
    rw [Function.update_self]
    refine List.pairwise_cons.mpr ⟨fun e he => ?_, h i⟩
    cases hhist : hists i with
    | nil => simp [hhist] at he
    | cons b bs =>
      have hb : b.1 < version := hnew b (by rw [hhist]; rfl)
      have htail := hhist ▸ h i
      rw [hhist] at he
      rcases List.mem_cons.mp he with rfl | hmem
      · exact hb
      · exact UInt64.lt_trans ((List.pairwise_cons.mp htail).1 e hmem) hb
  · rw [Function.update_of_ne hid]
    exact h i

theorem Descending.pop (h : Descending hists) (htop : hists id = (version, g) :: rest) :
    Descending (Function.update hists id rest) := by
  intro i
  by_cases hid : i = id
  · subst hid
    rw [Function.update_self]
    have hcons := htop ▸ h i
    exact (List.pairwise_cons.mp hcons).2
  · rw [Function.update_of_ne hid]
    exact h i

/-- A commit adds the events of its transition to the log. -/
theorem LogExact.push (h : LogExact hists store) :
    LogExact (Function.update hists id ((version, g) :: hists id))
      (store.commit
        (indexDiff id ((hists id).top.map GameBody.toBytes) (some g.toBytes) version)) := by
  intro k val hk
  rw [lookup_indexDiff_event store id hk, gameOf_map, gameOf_toBytes, mem_eventKeys_update,
    BodyHistory.eventKeys, List.mem_append]
  by_cases hmem : k ∈ eventKeys id (hists id).top (some g) version
  · simp [hmem, eq_comm]
  · rw [if_neg hmem, h k val hk]
    refine and_congr_right fun _ => ⟨?_, ?_⟩
    · rintro ⟨i, hi⟩
      by_cases hid : i = id
      · exact .inl (.inr (hid ▸ hi))
      · exact .inr ⟨i, hid, hi⟩
    · rintro ((hnew | hold) | ⟨i, _, hi⟩)
      · exact absurd hnew hmem
      · exact ⟨id, hold⟩
      · exact ⟨i, hi⟩

/-- A reorg takes the events of the transition it undoes, and no others, out of the log. -/
theorem LogExact.pop (h : LogExact hists store) (hdesc : Descending hists)
    (htop : hists id = (version, g) :: rest) :
    LogExact (Function.update hists id rest)
      (store.commit (revertDiff id (some g.toBytes) (rest.top.map GameBody.toBytes) version
        restoredVersion)) := by
  intro k val hk
  rw [lookup_revertDiff_event store id hk, gameOf_map, gameOf_toBytes, mem_eventKeys_update]
  by_cases hmem : k ∈ eventKeys id rest.top (some g) version
  · -- A removed key names this game at the popped version: no other history holds it.
    obtain ⟨p, e, rfl⟩ := key_of_mem_eventKeys hmem
    rw [if_pos hmem]
    constructor
    · intro hnone
      cases hnone
    · rintro ⟨_, hrest | ⟨i, hid, hi⟩⟩
      · obtain ⟨b, hb, p', e', hkey⟩ := version_of_mem_eventKeys hrest
        have hver : version = b.1 := (playerEventKey_inj hkey).2.2.1
        have hcons := htop ▸ hdesc id
        have hlt := (List.pairwise_cons.mp hcons).1 b hb
        rw [← hver] at hlt
        exact absurd hlt (UInt64.lt_irrefl version)
      · obtain ⟨b, _, p', e', hkey⟩ := version_of_mem_eventKeys hi
        exact absurd (playerEventKey_inj hkey).2.2.2.symm hid
  · rw [if_neg hmem, h k val hk]
    refine and_congr_right fun _ => ⟨?_, ?_⟩
    · rintro ⟨i, hi⟩
      by_cases hid : i = id
      · subst hid
        rw [htop, BodyHistory.eventKeys, List.mem_append] at hi
        exact .inl (hi.resolve_left hmem)
      · exact .inr ⟨i, hid, hi⟩
    · rintro (hrest | ⟨i, _, hi⟩)
      · refine ⟨id, ?_⟩
        rw [htop, BodyHistory.eventKeys]
        exact List.mem_append_right _ hrest
      · exact ⟨i, hi⟩

/-! ## The status index -/

/-- What a diff of one game leaves of the status index of the others. -/
theorem StatusExact.of_touches (h : StatusExact hists store) {hist : BodyHistory}
    {wb : WriteBatch} (htouch : ∀ op ∈ wb, Touches id version op.key)
    (hone : ∀ s, ((store.commit wb).lookup (gameStatusKey s id)).isSome ↔
      bucketOf hist.top = some s)
    (hver : ∀ s val, (store.commit wb).lookup (gameStatusKey s id) = some val →
      ∃ e ∈ hist, val = be64 e.1) :
    StatusExact (Function.update hists id hist) (store.commit wb) where
  one i s := by
    by_cases hid : i = id
    · subst hid
      rw [Function.update_self]
      exact hone s
    · have hne : ∀ op ∈ wb, op.key ≠ gameStatusKey s i := fun op hop heq =>
        not_touches_status hid version s (heq ▸ htouch op hop)
      rw [Function.update_of_ne hid, IndexStore.lookup_commit_of_ne _ hne]
      exact h.one i s
  keyed k val hk hval := by
    by_cases hne : ∀ op ∈ wb, op.key ≠ k
    · rw [IndexStore.lookup_commit_of_ne _ hne] at hval
      exact h.keyed k val hk hval
    · simp only [not_forall, not_not] at hne
      obtain ⟨op, hop, rfl⟩ := hne
      rcases htouch op hop with ⟨p, e, hkey⟩ | ⟨s, hkey⟩
      · rw [hkey] at hk
        exact absurd (Option.some.inj hk) (by decide)
      · exact ⟨id, s, hkey⟩
  versioned i s val hval := by
    by_cases hid : i = id
    · subst hid
      rw [Function.update_self]
      exact hver s val hval
    · have hne : ∀ op ∈ wb, op.key ≠ gameStatusKey s i := fun op hop heq =>
        not_touches_status hid version s (heq ▸ htouch op hop)
      rw [IndexStore.lookup_commit_of_ne _ hne] at hval
      rw [Function.update_of_ne hid]
      exact h.versioned i s val hval

/-- A commit moves the game to the bucket of its new body, or keeps its entry. -/
theorem StatusExact.push (h : StatusExact hists store) :
    StatusExact (Function.update hists id ((version, g) :: hists id))
      (store.commit
        (indexDiff id ((hists id).top.map GameBody.toBytes) (some g.toBytes) version)) := by
  refine h.of_touches (fun op => touches_indexDiff) ?_ ?_
  · intro s
    have hold := h.one id s
    have htop : BodyHistory.top ((version, g) :: hists id) = some g := rfl
    rw [lookup_indexDiff_status, gameOf_map, gameOf_toBytes, htop]
    by_cases hsame : bucketOf (some g) = bucketOf (hists id).top
    · rw [if_pos hsame, hold, hsame]
    · rw [if_neg hsame]
      by_cases hs : bucketOf (some g) = some s
      · rw [if_pos hs]
        simp [hs]
      · rw [if_neg hs]
        by_cases hwas : bucketOf (hists id).top = some s
        · rw [if_pos hwas]
          simp [hs]
        · rw [if_neg hwas, hold]
          exact iff_of_false hwas hs
  · intro s val hval
    rw [lookup_indexDiff_status, gameOf_map, gameOf_toBytes] at hval
    split_ifs at hval
    · obtain ⟨e, he, hv⟩ := h.versioned id s val hval
      exact ⟨e, List.mem_cons_of_mem _ he, hv⟩
    · exact ⟨_, List.mem_cons_self, (Option.some.inj hval).symm⟩
    · obtain ⟨e, he, hv⟩ := h.versioned id s val hval
      exact ⟨e, List.mem_cons_of_mem _ he, hv⟩

/-- A reorg leaves the bucket of the restored body, at the restored version. -/
theorem StatusExact.pop (h : StatusExact hists store)
    (hrest : ∀ e ∈ rest.head?, restoredVersion = e.1) :
    StatusExact (Function.update hists id rest)
      (store.commit (revertDiff id (some g.toBytes) (rest.top.map GameBody.toBytes) version
        restoredVersion)) := by
  refine h.of_touches (fun op => touches_revertDiff) ?_ ?_
  · intro s
    rw [lookup_revertDiff_status, gameOf_map]
    by_cases hs : bucketOf rest.top = some s
    · simp [hs]
    · simp [hs]
  · intro s val hval
    rw [lookup_revertDiff_status, gameOf_map] at hval
    split_ifs at hval with hs
    cases hcase : rest with
    | nil =>
      rw [hcase] at hs
      cases hs
    | cons b bs =>
      have hb : restoredVersion = b.1 := hrest b (by rw [hcase]; rfl)
      exact ⟨b, List.mem_cons_self, hb ▸ (Option.some.inj hval).symm⟩

end Steps

/-! ## Every interleaving -/

theorem descending_of_run {hists : ResourceId → BodyHistory} {store : IndexStore}
    (h : IndexRun hists store) : Descending hists := by
  induction h with
  | empty => exact fun _ => .nil
  | push _ _ _ _ hnew ih => exact ih.push hnew
  | pop _ _ _ _ _ _ htop _ ih => exact ih.pop htop

/-- **The index is a function of the canonical history.** After any
interleaving of commits and reorgs over any number of games, the log holds
exactly the events of the histories that stand, and the status index one
key for each game that has a body, in its bucket and at one of its
versions. -/
theorem index_exact {hists : ResourceId → BodyHistory} {store : IndexStore}
    (h : IndexRun hists store) : LogExact hists store ∧ StatusExact hists store := by
  induction h with
  | empty =>
    refine ⟨fun k val _ => ?_, fun id s => ?_, fun k val _ hval => ?_, fun id s val hval => ?_⟩
    · simp [BodyHistory.eventKeys]
    · simp [BodyHistory.top, bucketOf]
    · simp at hval
    · simp at hval
  | push _ id g version hnew ih => exact ⟨ih.1.push, ih.2.push⟩
  | pop hrun id g version restoredVersion rest htop hrest ih =>
    exact ⟨ih.1.pop (descending_of_run hrun) htop, ih.2.pop hrest⟩

/-- A game opened, then being played. -/
def Sample.body (state : State) : GameBody :=
  { GameBody.fresh ResourceId.default .x 5 3 with state }

/-- A game committed twice and reorged back to its first body. -/
theorem index_exact_reorged :
    ∃ store, LogExact (Function.update (fun _ => []) ResourceId.default [(1, Sample.body .open)])
        store ∧
      StatusExact (Function.update (fun _ => []) ResourceId.default [(1, Sample.body .open)])
        store := by
  have hpush := IndexRun.empty.push ResourceId.default (Sample.body .open) 1
    (fun _ he => by cases he)
  have hnew : ∀ e ∈ (Function.update (fun _ => []) ResourceId.default
      [((1 : UInt64), Sample.body .open)] ResourceId.default).head?, e.1 < 2 := by
    intro e he
    rw [Function.update_self] at he
    cases he
    decide
  have hpush' := hpush.push ResourceId.default (Sample.body .playing) 2 hnew
  rw [Function.update_self, Function.update_idem] at hpush'
  have hpop := hpush'.pop ResourceId.default (Sample.body .playing) 2 1
    [(1, Sample.body .open)] (Function.update_self ..) (fun e he => by cases he; rfl)
  rw [Function.update_idem] at hpop
  exact ⟨_, index_exact hpop⟩

end TicTacToe
