/-
TicTacToe.Index.Scan — the cursor scans of the game index
(`scan_player_events` and `scan_games_by_status` of
`node/src/indexer.rs`).

Both iterate one range of the shared column, panic on a key or value they
cannot parse, drop what is not canonical and cut the page after that.
`Keyed` is what every writer of the column keeps: each key is of one of
the five families, and a status key holds eight bytes. In such a store a
range is exactly the keys of one player and event, or of one status, so no
scan panics; and the successor of the cursor's key cuts the same list, so
`Lib.readAll_ok` applies.

Which versions are canonical is the chain manager's business and any
predicate here.

No `sorry`, no `axiom`, no `native_decide`.
-/
import TicTacToe.Exits.Tables
import TicTacToe.Lib.ByteOrder
import TicTacToe.Lib.Paging

namespace TicTacToe

open Lib

/-! ## Parsing keys -/

def PlayerEvent.ofByte (b : UInt8) : Option PlayerEvent :=
  if b = 1 then some created
  else if b = 2 then some joined
  else if b = 3 then some won
  else if b = 4 then some lost
  else if b = 5 then some draw
  else none

def GameStatus.ofByte (b : UInt8) : Option GameStatus :=
  if b = 0 then some .open
  else if b = 1 then some playing
  else if b = 2 then some finished
  else none

theorem PlayerEvent.ofByte_eq_some (b : UInt8) (e : PlayerEvent) :
    ofByte b = some e ↔ b = e.toByte := by
  constructor
  · intro h
    unfold ofByte at h
    split_ifs at h <;> cases h <;> assumption
  · intro h
    subst h
    cases e <;> rfl

theorem GameStatus.ofByte_eq_some (b : UInt8) (s : GameStatus) :
    ofByte b = some s ↔ b = s.toByte := by
  constructor
  · intro h
    unfold ofByte at h
    split_ifs at h <;> cases h <;> assumption
  · intro h
    subst h
    cases s <;> rfl

/-- A big-endian number of eight bytes. -/
def readBe64 : BorshReader UInt64 := do
  return UInt64.ofNat (leNat (← Lib.Reader.take () 8).reverse)

/-- A key that starts with its discriminator. -/
def readDiscriminator (discriminator : UInt8) : BorshReader Unit := do
  let b ← Lib.Reader.byte ()
  if b = discriminator then return () else throw ()

def readPlayerEvent : BorshReader PlayerEvent := do
  let b ← Lib.Reader.byte ()
  okOr () (PlayerEvent.ofByte b)

def readGameStatus : BorshReader GameStatus := do
  let b ← Lib.Reader.byte ()
  okOr () (GameStatus.ofByte b)

structure PlayerEventKey where
  player : ResourceId
  event : PlayerEvent
  version : UInt64
  game : ResourceId

def PlayerEventKey.bytes (key : PlayerEventKey) : List UInt8 :=
  playerEventKey key.player key.event key.version key.game

/-- The packed layout. -/
def PlayerEventKey.read : BorshReader PlayerEventKey := do
  readDiscriminator playerEventDiscriminator
  let player ← Lib.Reader.array () 32
  let event ← readPlayerEvent
  let version ← readBe64
  let game ← Lib.Reader.array () 32
  return { player, event, version, game }

/-- `none` on wrong length, invalid discriminator, or invalid event. -/
def PlayerEventKey.parse (bytes : List UInt8) : Option PlayerEventKey :=
  Lib.Reader.whole PlayerEventKey.read bytes

structure GameStatusKey where
  status : GameStatus
  game : ResourceId

def GameStatusKey.bytes (key : GameStatusKey) : List UInt8 := gameStatusKey key.status key.game

def GameStatusKey.read : BorshReader GameStatusKey := do
  readDiscriminator gameStatusDiscriminator
  let status ← readGameStatus
  let game ← Lib.Reader.array () 32
  return { status, game }

def GameStatusKey.parse (bytes : List UInt8) : Option GameStatusKey :=
  Lib.Reader.whole GameStatusKey.read bytes

/-- `u64::from_be_bytes(v.try_into())`. -/
def versionOfValue (val : List UInt8) : Option UInt64 := Lib.Reader.whole readBe64 val

theorem reads_be64 : Reads readBe64 be64 := by
  intro buf v rest
  simp only [readBe64, ok_bind, ok_pure, take_ok]
  constructor
  · intro h
    obtain ⟨bs, r, ⟨hlen, rfl⟩, rfl, rfl⟩ := h
    have hrev : bs.reverse.length = 8 := by rw [List.length_reverse, hlen]
    rw [be64, le64_ofNat_leNat hrev, List.reverse_reverse]
  · intro h
    refine ⟨be64 v, rest, ⟨length_be64 v, h⟩, ?_, rfl⟩
    rw [be64, List.reverse_reverse, ofNat_leNat_le64]

theorem readDiscriminator_ok {d : UInt8} {buf rest : List UInt8} {u : Unit} :
    readDiscriminator d buf = .ok u rest ↔ buf = d :: rest := by
  simp only [readDiscriminator, ok_bind, reads_byte () _ _ _]
  constructor
  · intro h
    obtain ⟨b, _, rfl, h⟩ := h
    split at h
    · rename_i hd
      obtain ⟨-, rfl⟩ := ok_pure.mp h
      rw [hd]
      rfl
    · exact (ok_throw.mp h).elim
  · intro h
    exact ⟨d, rest, h, by rw [if_pos rfl]; exact ok_pure.mpr ⟨rfl, rfl⟩⟩

theorem reads_playerEvent : Reads readPlayerEvent fun e => [e.toByte] :=
  reads_decode (reads_byte ()) PlayerEvent.ofByte_eq_some ()

theorem reads_gameStatus : Reads readGameStatus fun s => [s.toByte] :=
  reads_decode (reads_byte ()) GameStatus.ofByte_eq_some ()

theorem reads_playerEventKey : Reads PlayerEventKey.read PlayerEventKey.bytes := by
  intro buf key rest
  simp only [PlayerEventKey.read, ok_bind, ok_pure, readDiscriminator_ok, reads_array () 32 _ _ _,
    reads_playerEvent _ _ _, reads_be64 _ _ _]
  constructor
  · intro h
    obtain ⟨_, _, rfl, p, _, rfl, e, _, rfl, v, _, rfl, g, _, rfl, rfl, rfl⟩ := h
    simp [PlayerEventKey.bytes, playerEventKey]
  · intro h
    obtain ⟨p, e, v, g⟩ := key
    refine ⟨(), _, ?_, p, _, rfl, e, _, rfl, v, _, rfl, g, rest, rfl, rfl, rfl⟩
    simpa [PlayerEventKey.bytes, playerEventKey] using h

theorem reads_gameStatusKey : Reads GameStatusKey.read GameStatusKey.bytes := by
  intro buf key rest
  simp only [GameStatusKey.read, ok_bind, ok_pure, readDiscriminator_ok, reads_array () 32 _ _ _,
    reads_gameStatus _ _ _]
  constructor
  · intro h
    obtain ⟨_, _, rfl, s, _, rfl, g, _, rfl, rfl, rfl⟩ := h
    simp [GameStatusKey.bytes, gameStatusKey]
  · intro h
    obtain ⟨s, g⟩ := key
    refine ⟨(), _, ?_, s, _, rfl, g, rest, rfl, rfl, rfl⟩
    simpa [GameStatusKey.bytes, gameStatusKey] using h

theorem PlayerEventKey.parse_eq_some {bytes : List UInt8} {key : PlayerEventKey} :
    parse bytes = some key ↔ bytes = key.bytes :=
  reads_playerEventKey.whole_eq_some

theorem GameStatusKey.parse_eq_some {bytes : List UInt8} {key : GameStatusKey} :
    parse bytes = some key ↔ bytes = key.bytes :=
  reads_gameStatusKey.whole_eq_some

theorem versionOfValue_eq_some {val : List UInt8} {v : UInt64} :
    versionOfValue val = some v ↔ val = be64 v :=
  reads_be64.whole_eq_some

/-! ## The scans -/

/-- `.filter_map(step).take(n).collect()`: nothing is pulled behind a full page. -/
def collectPage {α β : Type} (step : α → Except Fault (Option β)) :
    Nat → List α → Except Fault (List β)
  | 0, _ => .ok []
  | _, [] => .ok []
  | n + 1, a :: rest => do
    match ← step a with
    | none => collectPage step (n + 1) rest
    | some b => do
      let page ← collectPage step n rest
      return b :: page

/-- One entry of a player-event stream; doubles as the exclusive cursor. -/
structure PlayerEventCursor where
  version : UInt64
  game : ResourceId
  deriving DecidableEq

/-- What an entry of the player-event range contributes. -/
def playerEventStep (isCanonical : UInt64 → Bool) (e : List UInt8 × List UInt8) :
    Except Fault (Option PlayerEventCursor) :=
  match PlayerEventKey.parse e.1 with
  | none => .error .panic
  | some key => .ok (if isCanonical key.version then some ⟨key.version, key.game⟩ else none)

def scanPlayerEvents (store : IndexStore) (isCanonical : UInt64 → Bool) (player : ResourceId)
    (event : PlayerEvent) (after : Option PlayerEventCursor) (limit : Nat) :
    Except Fault (List PlayerEventCursor) :=
  if limit = 0 then .ok []
  else
    let start := match after with
      | some cursor => playerEventKey player event cursor.version cursor.game ++ [0x00]
      | none => playerEventDiscriminator :: (player.val ++ (event.toByte :: be64 0))
    let stop := playerEventDiscriminator :: (player.val ++ [event.toByte + 1])
    collectPage (playerEventStep isCanonical) limit (store.rangeIter start stop)

/-- What an entry of the status range contributes. -/
def gameStatusStep (isCanonical : UInt64 → Bool) (e : List UInt8 × List UInt8) :
    Except Fault (Option ResourceId) :=
  match GameStatusKey.parse e.1 with
  | none => .error .panic
  | some key =>
    match versionOfValue e.2 with
    | none => .error .panic
    | some version => .ok (if isCanonical version then some key.game else none)

def scanGamesByStatus (store : IndexStore) (isCanonical : UInt64 → Bool) (status : GameStatus)
    (afterGame : Option ResourceId) (limit : Nat) : Except Fault (List ResourceId) :=
  if limit = 0 then .ok []
  else
    let start := match afterGame with
      | some game => gameStatusKey status game ++ [0x00]
      | none => [gameStatusDiscriminator, status.toByte]
    let stop := [gameStatusDiscriminator, status.toByte + 1]
    collectPage (gameStatusStep isCanonical) limit (store.rangeIter start stop)

/-! ## Stores that can be scanned -/

/-- A value put under a status key is a version. -/
def StoreKey.Holds : StoreKey → List UInt8 → Prop
  | .indexer (.gameStatus _ _), val => ∃ version, val = be64 version
  | _, _ => True

/-- Every key of the column is of one of the five families. -/
def Keyed (store : IndexStore) : Prop :=
  ∀ k val, store.lookup k = some val → ∃ key : StoreKey, k = key.bytes ∧ key.Holds val

/-- A write that keeps the column keyed. -/
def WriteOp.Keyed : WriteOp → Prop
  | put k val => ∃ key : StoreKey, k = key.bytes ∧ key.Holds val
  | delete _ => True

theorem keyed_empty : Keyed (∅ : IndexStore) := by
  intro k val h
  simp at h

section Keyed

variable {store : IndexStore} {T : ExitBackend}

theorem Keyed.apply (h : Keyed store) {op : WriteOp} (hop : op.Keyed) : Keyed (store.apply op) := by
  intro k val hval
  by_cases hk : op.key = k
  · cases op with
    | put key v =>
      obtain rfl : key = k := hk
      obtain rfl : v = val := by
        simpa [IndexStore.apply] using hval
      exact hop
    | delete key =>
      obtain rfl : key = k := hk
      simp [IndexStore.apply] at hval
  · rw [store.lookup_apply_ne hk] at hval
    exact h k val hval

theorem Keyed.commit (h : Keyed store) {wb : WriteBatch} (hwb : ∀ op ∈ wb, op.Keyed) :
    Keyed (store.commit wb) := by
  induction wb generalizing store with
  | nil => exact h
  | cons op wb ih =>
    exact ih (h.apply (hwb op List.mem_cons_self)) fun o ho => hwb o (List.mem_cons_of_mem op ho)

theorem keyed_statusMove {id : ResourceId} {oldS newS : Option GameStatus} {v : UInt64}
    {op : WriteOp} (h : op ∈ statusMove id oldS newS v) : op.Keyed := by
  unfold statusMove at h
  split at h
  · cases h
  · rcases List.mem_append.mp h with hdel | hput
    · obtain ⟨s, _, rfl⟩ := List.mem_map.mp hdel
      trivial
    · obtain ⟨s, _, rfl⟩ := List.mem_map.mp hput
      exact ⟨.indexer (.gameStatus s id), rfl, v, rfl⟩

theorem keyed_indexDiff {id : ResourceId} {old new : Option (List UInt8)} {v : UInt64}
    {op : WriteOp} (h : op ∈ indexDiff id old new v) : op.Keyed := by
  rcases List.mem_append.mp h with hlog | hstatus
  · obtain ⟨k, hk, rfl⟩ := List.mem_map.mp hlog
    obtain ⟨p, e, rfl⟩ := key_of_mem_eventKeys hk
    exact ⟨.indexer (.playerEvent p e v id), rfl, trivial⟩
  · exact keyed_statusMove hstatus

theorem keyed_revertDiff {id : ResourceId} {written restored : Option (List UInt8)} {v v' : UInt64}
    {op : WriteOp} (h : op ∈ revertDiff id written restored v v') : op.Keyed := by
  rcases List.mem_append.mp h with hdel | hput
  · rcases List.mem_append.mp hdel with hlog | hstatus
    · obtain ⟨k, _, rfl⟩ := List.mem_map.mp hlog
      trivial
    · obtain ⟨k, _, rfl⟩ := List.mem_map.mp hstatus
      trivial
  · obtain ⟨g, _, rfl⟩ := List.mem_map.mp hput
    exact ⟨.indexer (.gameStatus (statusOf g.state) id), rfl, v', rfl⟩

/-- One of the five writes of the exit store. -/
def StoreOp.IsExit : StoreOp → Prop
  | indexer _ _ => False
  | _ => True

theorem Keyed.perform (h : Keyed store) {op : StoreOp} (hexit : op.IsExit) {u : Unit}
    {store' : IndexStore} (hrun : op.perform T store = .ok u store') : Keyed store' := by
  cases op with
  | putExitRecord root rec =>
    have hw : wp ((StoreOp.putExitRecord root rec).perform T) (fun _ s => Keyed s)
        (fun _ _ => True) store := by
      simp only [StoreOp.perform, wp_bind]
      cases hput : putExitRecord T root rec with
      | error e => trivial
      | ok op =>
        rw [wp_liftE_ok, wp_modify]
        refine h.apply ?_
        unfold putExitRecord at hput
        cases hbytes : rec.toBytes T with
        | error e =>
          rw [hbytes] at hput
          cases hput
        | ok val =>
          rw [hbytes] at hput
          cases hput
          exact ⟨.record root, rfl, trivial⟩
    exact hw.ok hrun
  | deleteExitRecord root =>
    cases hrun
    exact h.apply trivial
  | markLeafSpent root i mark =>
    cases hrun
    exact h.apply ⟨.spent root i, rfl, trivial⟩
  | unmarkLeafSpent root i =>
    cases hrun
    exact h.apply trivial
  | putLatestSettlement row =>
    cases hrun
    exact h.apply ⟨.settlement, rfl, trivial⟩
  | indexer key val => exact hexit.elim

end Keyed

/-- Any sequence of index and revert diffs, of any bytes at any version, and
of exit-store writes. -/
inductive IndexBuilt (T : ExitBackend) : IndexStore → Prop
  | empty : IndexBuilt T ∅
  | indexDiff {store : IndexStore} (id : ResourceId) (old new : Option (List UInt8))
      (version : UInt64) :
      IndexBuilt T store → IndexBuilt T (store.commit (indexDiff id old new version))
  | revertDiff {store : IndexStore} (id : ResourceId) (written restored : Option (List UInt8))
      (revertedVersion restoredVersion : UInt64) :
      IndexBuilt T store →
      IndexBuilt T (store.commit (revertDiff id written restored revertedVersion restoredVersion))
  | exit {store store' : IndexStore} (op : StoreOp) (u : Unit) :
      IndexBuilt T store → op.IsExit → op.perform T store = .ok u store' → IndexBuilt T store'

theorem IndexBuilt.keyed {T : ExitBackend} {store : IndexStore} (h : IndexBuilt T store) :
    Keyed store := by
  induction h with
  | empty => exact keyed_empty
  | indexDiff id old new version _ ih => exact ih.commit fun _ hop => keyed_indexDiff hop
  | revertDiff id written restored v v' _ ih => exact ih.commit fun _ hop => keyed_revertDiff hop
  | exit op u _ hexit hrun ih => exact ih.perform hexit hrun

/-! ## Pages of one range -/

theorem collectPage_ok {α β : Type} {step : α → Except Fault (Option β)} {f : α → Option β}
    {l : List α} (h : ∀ a ∈ l, step a = .ok (f a)) (n : Nat) :
    collectPage step n l = .ok ((l.filterMap f).take n) := by
  induction l generalizing n with
  | nil => cases n <;> rfl
  | cons a rest ih =>
    have hrest := ih fun b hb => h b (List.mem_cons_of_mem a hb)
    cases n with
    | zero => rfl
    | succ n =>
      unfold collectPage
      rw [h a List.mem_cons_self]
      dsimp only [bind, Except.bind]
      cases hf : f a with
      | none =>
        rw [List.filterMap_cons_none hf]
        exact hrest (n + 1)
      | some b =>
        rw [List.filterMap_cons_some hf, hrest n]
        rfl

section Ranges

variable {store : IndexStore} {start stop : List UInt8}

/-- Behind a key of the range comes the rest of it. -/
theorem rangeIter_after {k : List UInt8} (hstart : start ≤ k) :
    store.rangeIter (k ++ [0x00]) stop = (store.rangeIter start stop).filter fun e => k < e.1 := by
  have hne : ∀ {l : List (List UInt8 × List UInt8)},
      (l.Pairwise fun a b => a.1 < b.1) → l.Nodup := by
    intro l hl
    refine hl.imp fun {a b} hlt heq => ?_
    rw [heq] at hlt
    exact Std.lt_irrefl hlt
  have hleft := store.rangeIter_ascending (k ++ [0x00]) stop
  have hright := (store.rangeIter_ascending start stop).filter fun e => k < e.1
  have hperm : (store.rangeIter (k ++ [0x00]) stop).Perm
      ((store.rangeIter start stop).filter fun e => k < e.1) := by
    refine (List.perm_ext_iff_of_nodup (hne hleft) (hne hright)).mpr fun e => ?_
    obtain ⟨k', v⟩ := e
    rw [List.mem_filter, store.mem_rangeIter, store.mem_rangeIter, decide_eq_true_eq,
      append_zero_le_iff]
    constructor
    · intro h
      obtain ⟨hval, hlt, hstop⟩ := h
      exact ⟨⟨hval, Std.le_trans hstart (Std.le_of_lt hlt), hstop⟩, hlt⟩
    · intro h
      obtain ⟨⟨hval, -, hstop⟩, hlt⟩ := h
      exact ⟨hval, hlt, hstop⟩
  exact List.Perm.eq_of_pairwise
    (fun _ _ _ _ hab hba => (Std.lt_irrefl (Std.lt_trans hab hba)).elim) hleft hright hperm

variable {β : Type} {step : List UInt8 × List UInt8 → Except Fault (Option β)}
  {f : List UInt8 × List UInt8 → Option β} {key : β → List UInt8}

/-- Cutting by key before or after reading the entries is the same. -/
theorem filterMap_after (hf : ∀ e b, f e = some b → e.1 = key b) (k : List UInt8)
    (l : List (List UInt8 × List UInt8)) :
    (l.filter fun e => k < e.1).filterMap f = (l.filterMap f).filter fun b => k < key b := by
  induction l with
  | nil => rfl
  | cons e l ih =>
    cases hfe : f e with
    | none =>
      rw [List.filterMap_cons_none hfe, List.filter_cons]
      split
      · rw [List.filterMap_cons_none hfe, ih]
      · exact ih
    | some b =>
      rw [List.filterMap_cons_some hfe, List.filter_cons, List.filter_cons, hf e b hfe]
      split
      · rw [List.filterMap_cons_some hfe, ih]
      · exact ih

/-- Where a scan starts: at the first key, or at the successor of the cursor's. -/
def startAfter (key : β → List UInt8) (start : List UInt8) : Option β → List UInt8
  | some cursor => key cursor ++ [0x00]
  | none => start

/-- A page is what is behind the cursor, cut. -/
theorem collectPage_behind (hstep : ∀ e ∈ store.rangeIter start stop, step e = .ok (f e))
    (hf : ∀ e b, f e = some b → e.1 = key b) (hstart : ∀ b, start ≤ key b) (after : Option β)
    (limit : Nat) :
    collectPage step limit (store.rangeIter (startAfter key start after) stop) =
      .ok ((behind (fun a b => key a < key b) ((store.rangeIter start stop).filterMap f)
        after).take limit) := by
  cases after with
  | none =>
    rw [behind_none]
    exact collectPage_ok hstep limit
  | some cursor =>
    have hrange := @rangeIter_after store start stop _ (hstart cursor)
    have hstep' : ∀ e ∈ store.rangeIter (key cursor ++ [0x00]) stop, step e = .ok (f e) := by
      intro e he
      rw [hrange] at he
      exact hstep e (List.mem_filter.mp he).1
    rw [startAfter, collectPage_ok hstep' limit, hrange, filterMap_after hf]
    congr 3
    funext b
    simp

/-- What a range lists is in key order. -/
theorem listing_ascending (hf : ∀ e b, f e = some b → e.1 = key b) :
    ((store.rangeIter start stop).filterMap f).Pairwise fun a b => key a < key b := by
  refine List.pairwise_filterMap.mpr ((store.rangeIter_ascending start stop).imp ?_)
  intro e e' hlt b hb b' hb'
  rw [← hf e b hb, ← hf e' b' hb']
  exact hlt

end Ranges

/-! ## Player events -/

section PlayerEvents

variable {store : IndexStore} {player : ResourceId} {event : PlayerEvent}
  {isCanonical : UInt64 → Bool}

/-- The first possible key of a player and event, and the first one behind. -/
def playerEventStart (player : ResourceId) (event : PlayerEvent) : List UInt8 :=
  playerEventDiscriminator :: (player.val ++ (event.toByte :: be64 0))

def playerEventStop (player : ResourceId) (event : PlayerEvent) : List UInt8 :=
  playerEventDiscriminator :: (player.val ++ [event.toByte + 1])

def cursorKey (player : ResourceId) (event : PlayerEvent) (c : PlayerEventCursor) : List UInt8 :=
  playerEventKey player event c.version c.game

theorem cursorKey_split (c : PlayerEventCursor) :
    cursorKey player event c
      = ((playerEventDiscriminator :: player.val ++ [event.toByte]) ++ be64 c.version) ++
        c.game.val := by
  simp [cursorKey, playerEventKey]

/-- Event keys compare by version, then by game. -/
theorem cursorKey_lt_iff {c d : PlayerEventCursor} :
    cursorKey player event c < cursorKey player event d ↔
      c.version < d.version ∨ c.version = d.version ∧ c.game.val < d.game.val := by
  rw [cursorKey_split, cursorKey_split, append_lt_append_iff (by simp),
    append_lt_append_iff rfl, be64_lt_iff]
  have hirr : ¬ (playerEventDiscriminator :: player.val ++ [event.toByte]
      < playerEventDiscriminator :: player.val ++ [event.toByte]) := Std.lt_irrefl
  have heq : (playerEventDiscriminator :: player.val ++ [event.toByte]) ++ be64 c.version
      = (playerEventDiscriminator :: player.val ++ [event.toByte]) ++ be64 d.version ↔
        c.version = d.version :=
    ⟨fun h => be64_injective (List.append_cancel_left h), fun h => h ▸ rfl⟩
  simp only [hirr, false_or, true_and, heq]

theorem playerEventStart_le (c : PlayerEventCursor) :
    playerEventStart player event ≤ cursorKey player event c := by
  have hsplit : playerEventStart player event
      = ((playerEventDiscriminator :: player.val ++ [event.toByte]) ++ be64 0) ++ [] := by
    simp [playerEventStart]
  refine List.not_lt.mp fun hlt => ?_
  rw [cursorKey_split, hsplit, append_lt_append_iff (by simp), append_lt_append_iff rfl,
    be64_lt_iff] at hlt
  rcases hlt with (h | ⟨-, h⟩) | ⟨-, h⟩
  · exact Std.lt_irrefl h
  · exact UInt64.not_lt_zero h
  · exact List.not_lt_nil _ h

/-- The keys of the range are the keys of this player and event. -/
theorem playerEvent_of_range (hstore : Keyed store) {e : List UInt8 × List UInt8}
    (he : e ∈ store.rangeIter (playerEventStart player event) (playerEventStop player event)) :
    ∃ c, e.1 = cursorKey player event c := by
  obtain ⟨k, v⟩ := e
  obtain ⟨hval, hlow, hhigh⟩ := store.mem_rangeIter.mp he
  have hnext : event.toByte < event.toByte + 1 := by cases event <;> decide
  have hbegins : (playerEventDiscriminator :: player.val) ++ [event.toByte] ≤ k := by
    refine Std.le_trans ?_ hlow
    have hsplit : playerEventStart player event
        = ((playerEventDiscriminator :: player.val) ++ [event.toByte]) ++ be64 0 := by
      simp [playerEventStart]
    rw [hsplit]
    exact List.le_append_left
  obtain ⟨rest, hrest⟩ := (mem_prefix_range hnext).mp ⟨hbegins, hhigh⟩
  obtain ⟨key, hkey, -⟩ := hstore k v hval
  have hhead : key.bytes = playerEventDiscriminator :: (player.val ++ event.toByte :: rest) := by
    rw [← hkey, hrest]
    rfl
  cases key with
  | record root => exact absurd (List.cons.inj hhead).1 (by decide)
  | spent root i => exact absurd (List.cons.inj hhead).1 (by decide)
  | settlement => exact absurd (List.cons.inj hhead).1 (by decide)
  | indexer key =>
    cases key with
    | gameStatus s g => exact absurd (List.cons.inj hhead).1 (by decide)
    | playerEvent p ev version g =>
      obtain ⟨hp, htail⟩ :=
        List.append_inj (List.cons.inj hhead).2 (p.property.trans player.property.symm)
      obtain rfl : p = player := Subtype.ext hp
      obtain rfl : ev = event := PlayerEvent.toByte_injective (List.cons.inj htail).1
      exact ⟨⟨version, g⟩, hkey⟩

/-- What an entry of the range is listed as. -/
def playerEventOf (isCanonical : UInt64 → Bool) (player : ResourceId) (event : PlayerEvent)
    (e : List UInt8 × List UInt8) : Option PlayerEventCursor :=
  (PlayerEventKey.parse e.1).bind fun key =>
    if key.player = player ∧ key.event = event ∧ isCanonical key.version then
      some ⟨key.version, key.game⟩
    else none

theorem playerEventOf_eq_some {e : List UInt8 × List UInt8} {c : PlayerEventCursor} :
    playerEventOf isCanonical player event e = some c ↔
      e.1 = cursorKey player event c ∧ isCanonical c.version = true := by
  unfold playerEventOf
  rw [Option.bind_eq_some_iff]
  constructor
  · intro h
    obtain ⟨key, hparse, h⟩ := h
    split at h
    · rename_i hkey
      obtain ⟨rfl, rfl, hcan⟩ := hkey
      cases h
      exact ⟨PlayerEventKey.parse_eq_some.mp hparse, hcan⟩
    · cases h
  · intro h
    obtain ⟨hkey, hcan⟩ := h
    exact ⟨⟨player, event, c.version, c.game⟩, PlayerEventKey.parse_eq_some.mpr hkey,
      if_pos ⟨rfl, rfl, hcan⟩⟩

theorem playerEventStep_ok (hstore : Keyed store) {e : List UInt8 × List UInt8}
    (he : e ∈ store.rangeIter (playerEventStart player event) (playerEventStop player event)) :
    playerEventStep isCanonical e = .ok (playerEventOf isCanonical player event e) := by
  obtain ⟨c, hc⟩ := playerEvent_of_range hstore he
  have hparse : PlayerEventKey.parse e.1 = some ⟨player, event, c.version, c.game⟩ :=
    PlayerEventKey.parse_eq_some.mpr hc
  simp [playerEventStep, playerEventOf, hparse]

/-- The stream of a player and event. -/
def playerEvents (store : IndexStore) (isCanonical : UInt64 → Bool) (player : ResourceId)
    (event : PlayerEvent) : List PlayerEventCursor :=
  (store.rangeIter (playerEventStart player event) (playerEventStop player event)).filterMap
    (playerEventOf isCanonical player event)

/-- A page of the scan is what is behind the cursor, cut. -/
theorem scanPlayerEvents_ok (hstore : Keyed store) (after : Option PlayerEventCursor)
    (limit : Nat) :
    scanPlayerEvents store isCanonical player event after limit =
      .ok ((behind (fun a b => cursorKey player event a < cursorKey player event b)
        (playerEvents store isCanonical player event) after).take limit) := by
  unfold scanPlayerEvents
  by_cases hlimit : limit = 0
  · rw [if_pos hlimit, hlimit, List.take_zero]
  · rw [if_neg hlimit]
    have hkey : ∀ e c, playerEventOf isCanonical player event e = some c →
        e.1 = cursorKey player event c := fun e c hc => (playerEventOf_eq_some.mp hc).1
    have hstep : ∀ e ∈ store.rangeIter (playerEventStart player event)
        (playerEventStop player event),
        playerEventStep isCanonical e = .ok (playerEventOf isCanonical player event e) :=
      fun e he => playerEventStep_ok hstore he
    have hpage := collectPage_behind hstep hkey playerEventStart_le after limit
    cases after <;> exact hpage

theorem mem_playerEvents {c : PlayerEventCursor} :
    c ∈ playerEvents store isCanonical player event ↔
      isCanonical c.version = true ∧
        (store.lookup (playerEventKey player event c.version c.game)).isSome = true := by
  unfold playerEvents
  rw [List.mem_filterMap, Option.isSome_iff_exists]
  constructor
  · intro h
    obtain ⟨⟨k, v⟩, he, hc⟩ := h
    obtain ⟨hkey, hcan⟩ := playerEventOf_eq_some.mp hc
    obtain rfl : k = cursorKey player event c := hkey
    exact ⟨hcan, v, (store.mem_rangeIter.mp he).1⟩
  · intro h
    obtain ⟨hcan, v, hv⟩ := h
    refine ⟨(cursorKey player event c, v), store.mem_rangeIter.mpr
      ⟨hv, playerEventStart_le c, ?_⟩, playerEventOf_eq_some.mpr ⟨rfl, hcan⟩⟩
    have hnext : event.toByte < event.toByte + 1 := by cases event <;> decide
    exact ((mem_prefix_range hnext (a := playerEventDiscriminator :: player.val)).mpr
      ⟨be64 c.version ++ c.game.val, rfl⟩).2

end PlayerEvents

/-! ## Games by status -/

section GamesByStatus

variable {store : IndexStore} {status : GameStatus} {isCanonical : UInt64 → Bool}

theorem gameStatusKey_lt_iff {g h : ResourceId} :
    gameStatusKey status g < gameStatusKey status h ↔ g.val < h.val := by
  have hirr : ¬ ([gameStatusDiscriminator, status.toByte]
      < [gameStatusDiscriminator, status.toByte]) := Std.lt_irrefl
  have hsplit := append_lt_append_iff (a := [gameStatusDiscriminator, status.toByte])
    (x := g.val) (y := h.val) rfl
  simp only [hirr, false_or, true_and] at hsplit
  exact hsplit

theorem gameStatusStart_le (g : ResourceId) :
    [gameStatusDiscriminator, status.toByte] ≤ gameStatusKey status g :=
  List.le_append_left

/-- The entries of the range are the games of this status with their versions. -/
theorem gameStatus_of_range (hstore : Keyed store) {e : List UInt8 × List UInt8}
    (he : e ∈ store.rangeIter [gameStatusDiscriminator, status.toByte]
      [gameStatusDiscriminator, status.toByte + 1]) :
    ∃ g version, e = (gameStatusKey status g, be64 version) := by
  obtain ⟨k, v⟩ := e
  obtain ⟨hval, hlow, hhigh⟩ := store.mem_rangeIter.mp he
  have hnext : status.toByte < status.toByte + 1 := by cases status <;> decide
  obtain ⟨rest, hrest⟩ := (mem_prefix_range hnext (a := [gameStatusDiscriminator])).mp ⟨hlow, hhigh⟩
  obtain ⟨key, hkey, hholds⟩ := hstore k v hval
  have hhead : key.bytes = gameStatusDiscriminator :: status.toByte :: rest := by
    rw [← hkey, hrest]
    rfl
  cases key with
  | record root => exact absurd (List.cons.inj hhead).1 (by decide)
  | spent root i => exact absurd (List.cons.inj hhead).1 (by decide)
  | settlement => exact absurd (List.cons.inj hhead).1 (by decide)
  | indexer key =>
    cases key with
    | playerEvent p ev version g => exact absurd (List.cons.inj hhead).1 (by decide)
    | gameStatus s g =>
      obtain ⟨hs, -⟩ := List.cons.inj (List.cons.inj hhead).2
      obtain rfl : s = status := GameStatus.toByte_injective hs
      obtain ⟨version, rfl⟩ := hholds
      exact ⟨g, version, by rw [hkey]; rfl⟩

/-- What an entry of the range is listed as. -/
def gameOfStatus (isCanonical : UInt64 → Bool) (status : GameStatus)
    (e : List UInt8 × List UInt8) : Option ResourceId :=
  (GameStatusKey.parse e.1).bind fun key =>
    (versionOfValue e.2).bind fun version =>
      if key.status = status ∧ isCanonical version then some key.game else none

theorem gameOfStatus_eq_some {e : List UInt8 × List UInt8} {g : ResourceId} :
    gameOfStatus isCanonical status e = some g ↔
      e.1 = gameStatusKey status g ∧
        ∃ version, e.2 = be64 version ∧ isCanonical version = true := by
  unfold gameOfStatus
  rw [Option.bind_eq_some_iff]
  constructor
  · intro h
    obtain ⟨key, hparse, h⟩ := h
    obtain ⟨version, hversion, hif⟩ := Option.bind_eq_some_iff.mp h
    split_ifs at hif with hkey
    obtain ⟨rfl, hcan⟩ := hkey
    obtain rfl := Option.some.inj hif
    exact ⟨GameStatusKey.parse_eq_some.mp hparse, version, versionOfValue_eq_some.mp hversion,
      hcan⟩
  · intro h
    obtain ⟨hkey, version, hversion, hcan⟩ := h
    exact ⟨⟨status, g⟩, GameStatusKey.parse_eq_some.mpr hkey, Option.bind_eq_some_iff.mpr
      ⟨version, versionOfValue_eq_some.mpr hversion, if_pos ⟨rfl, hcan⟩⟩⟩

theorem gameStatusStep_ok (hstore : Keyed store) {e : List UInt8 × List UInt8}
    (he : e ∈ store.rangeIter [gameStatusDiscriminator, status.toByte]
      [gameStatusDiscriminator, status.toByte + 1]) :
    gameStatusStep isCanonical e = .ok (gameOfStatus isCanonical status e) := by
  obtain ⟨g, version, rfl⟩ := gameStatus_of_range hstore he
  have hparse : GameStatusKey.parse (gameStatusKey status g) = some ⟨status, g⟩ :=
    GameStatusKey.parse_eq_some.mpr rfl
  have hversion : versionOfValue (be64 version) = some version := versionOfValue_eq_some.mpr rfl
  simp [gameStatusStep, gameOfStatus, hparse, hversion]

/-- The games of a status. -/
def gamesByStatus (store : IndexStore) (isCanonical : UInt64 → Bool) (status : GameStatus) :
    List ResourceId :=
  (store.rangeIter [gameStatusDiscriminator, status.toByte]
    [gameStatusDiscriminator, status.toByte + 1]).filterMap (gameOfStatus isCanonical status)

theorem scanGamesByStatus_ok (hstore : Keyed store) (afterGame : Option ResourceId)
    (limit : Nat) :
    scanGamesByStatus store isCanonical status afterGame limit =
      .ok ((behind (fun g h => gameStatusKey status g < gameStatusKey status h)
        (gamesByStatus store isCanonical status) afterGame).take limit) := by
  unfold scanGamesByStatus
  by_cases hlimit : limit = 0
  · rw [if_pos hlimit, hlimit, List.take_zero]
  · rw [if_neg hlimit]
    have hkey : ∀ e g, gameOfStatus isCanonical status e = some g →
        e.1 = gameStatusKey status g := fun e g hg => (gameOfStatus_eq_some.mp hg).1
    have hstep : ∀ e ∈ store.rangeIter [gameStatusDiscriminator, status.toByte]
        [gameStatusDiscriminator, status.toByte + 1],
        gameStatusStep isCanonical e = .ok (gameOfStatus isCanonical status e) :=
      fun e he => gameStatusStep_ok hstore he
    have hpage := collectPage_behind hstep hkey gameStatusStart_le afterGame limit
    cases afterGame <;> exact hpage

theorem mem_gamesByStatus {g : ResourceId} :
    g ∈ gamesByStatus store isCanonical status ↔
      ∃ version, store.lookup (gameStatusKey status g) = some (be64 version) ∧
        isCanonical version = true := by
  unfold gamesByStatus
  rw [List.mem_filterMap]
  constructor
  · intro h
    obtain ⟨⟨k, v⟩, he, hg⟩ := h
    obtain ⟨hkey, version, hversion, hcan⟩ := gameOfStatus_eq_some.mp hg
    obtain rfl : k = gameStatusKey status g := hkey
    obtain rfl : v = be64 version := hversion
    exact ⟨version, (store.mem_rangeIter.mp he).1, hcan⟩
  · intro h
    obtain ⟨version, hval, hcan⟩ := h
    refine ⟨(gameStatusKey status g, be64 version), store.mem_rangeIter.mpr
      ⟨hval, gameStatusStart_le g, ?_⟩, gameOfStatus_eq_some.mpr ⟨rfl, version, rfl, hcan⟩⟩
    have hnext : status.toByte < status.toByte + 1 := by cases status <;> decide
    exact ((mem_prefix_range hnext (a := [gameStatusDiscriminator])).mpr ⟨g.val, rfl⟩).2

end GamesByStatus

/-! ## Pagination -/

/-- A reader of pages of any size sees the unlimited listing, and no page
of it panics. -/
structure Paginates {α : Type} (scan : Option α → Nat → Except Fault (List α)) (all : List α) :
    Prop where
  unlimited : ∀ limit, all.length ≤ limit → scan none limit = .ok all
  answers : ∀ after limit, ∃ page, scan after limit = .ok page
  pages : ∀ limit fuel, 1 ≤ limit → all.length < fuel →
    readAll .diverged (fun after => scan after limit) fuel none = .ok all

theorem paginates_of_behind {α : Type} {scan : Option α → Nat → Except Fault (List α)}
    {all : List α} {key : α → List UInt8} (hasc : all.Pairwise fun a b => key a < key b)
    (hscan : ∀ after limit,
      scan after limit = .ok ((behind (fun a b => key a < key b) all after).take limit)) :
    Paginates scan all where
  unlimited limit h := by
    rw [hscan, behind_none, List.take_of_length_le h]
  answers after limit := ⟨_, hscan after limit⟩
  pages limit fuel hlimit hfuel := by
    have hasymm : ∀ a b, key a < key b → ¬ key b < key a :=
      fun a b hab hba => Std.lt_irrefl (Std.lt_trans hab hba)
    exact readAll_ok hasymm hlimit hasc (fun after => hscan after limit) hfuel

/-- Reading pages behind the last entry seen until one is empty ends, never
panics and gives the unlimited scan, which lists the canonical entries of
the player and event by (version, game), of the status by game. -/
theorem pagination_lossless {T : ExitBackend} {store : IndexStore} (h : IndexBuilt T store)
    (isCanonical : UInt64 → Bool) :
    (∀ player event, ∃ all : List PlayerEventCursor,
      Paginates (scanPlayerEvents store isCanonical player event) all ∧
      (all.Pairwise fun c d =>
        c.version < d.version ∨ c.version = d.version ∧ c.game.val < d.game.val) ∧
      ∀ c, c ∈ all ↔ isCanonical c.version = true ∧
        (store.lookup (playerEventKey player event c.version c.game)).isSome = true) ∧
    (∀ status, ∃ all : List ResourceId,
      Paginates (scanGamesByStatus store isCanonical status) all ∧
      (all.Pairwise fun g h => g.val < h.val) ∧
      ∀ g, g ∈ all ↔ ∃ version, store.lookup (gameStatusKey status g) = some (be64 version) ∧
        isCanonical version = true) := by
  have hstore := h.keyed
  constructor
  · intro player event
    have hasc : (playerEvents store isCanonical player event).Pairwise fun c d =>
        cursorKey player event c < cursorKey player event d :=
      listing_ascending fun e c hc => (playerEventOf_eq_some.mp hc).1
    exact ⟨playerEvents store isCanonical player event,
      paginates_of_behind hasc (scanPlayerEvents_ok hstore),
      hasc.imp fun hlt => cursorKey_lt_iff.mp hlt, fun c => mem_playerEvents⟩
  · intro status
    have hasc : (gamesByStatus store isCanonical status).Pairwise fun g h =>
        gameStatusKey status g < gameStatusKey status h :=
      listing_ascending fun e g hg => (gameOfStatus_eq_some.mp hg).1
    exact ⟨gamesByStatus store isCanonical status,
      paginates_of_behind hasc (scanGamesByStatus_ok hstore),
      hasc.imp fun hlt => gameStatusKey_lt_iff.mp hlt, fun g => mem_gamesByStatus⟩

namespace Sample

def pagedGame (n : UInt8) : ResourceId := padTo 32 [n]

def openBytes : Option (List UInt8) := some (body .open).toBytes

def settlementRow : LatestSettlement := ⟨exitRoot, exitRoot, exitRoot, 5⟩

/-- Three games of one creator, the second at a version that was reorged away,
a fourth that was taken back, and the row of a settlement. -/
def paged : IndexStore :=
  (((((∅ : IndexStore).commit (indexDiff (pagedGame 1) none openBytes 7)).commit
    (indexDiff (pagedGame 2) none openBytes 8)).commit
    (indexDiff (pagedGame 3) none openBytes 9)).commit
    (indexDiff (pagedGame 4) none openBytes 10)).commit
    (revertDiff (pagedGame 4) openBytes none 10 0) |>.apply
    (putLatestSettlement settlementRow)

theorem indexBuilt_paged : IndexBuilt .plain paged := by
  have hindexed := (IndexBuilt.empty (T := .plain)).indexDiff (pagedGame 1) none openBytes 7
  have hreverted := (((hindexed.indexDiff (pagedGame 2) none openBytes 8).indexDiff
    (pagedGame 3) none openBytes 9).indexDiff (pagedGame 4) none openBytes 10).revertDiff
    (pagedGame 4) openBytes none 10 0
  exact .exit (.putLatestSettlement settlementRow) () hreverted trivial rfl

end Sample

/-- Two entries on pages of one, with one in the index between them that no
page shows. -/
theorem pagination_lossless_paged :
    (∃ all : List PlayerEventCursor, Paginates
        (scanPlayerEvents Sample.paged (fun version => version != 8) ResourceId.default .created)
        all ∧
      readAll .diverged (fun after => scanPlayerEvents Sample.paged (fun version => version != 8)
        ResourceId.default .created after 1) (all.length + 1) none = .ok all ∧
      ⟨7, Sample.pagedGame 1⟩ ∈ all ∧ ⟨8, Sample.pagedGame 2⟩ ∉ all ∧
        ⟨9, Sample.pagedGame 3⟩ ∈ all ∧ ⟨10, Sample.pagedGame 4⟩ ∉ all) ∧
      ∃ all : List ResourceId, Paginates
          (scanGamesByStatus Sample.paged (fun version => version != 8) .open) all ∧
        Sample.pagedGame 1 ∈ all ∧ Sample.pagedGame 2 ∉ all ∧ Sample.pagedGame 3 ∈ all := by
  obtain ⟨hevents, hgames⟩ :=
    pagination_lossless Sample.indexBuilt_paged fun version => version != 8
  obtain ⟨events, hpages, -, hmem⟩ := hevents ResourceId.default .created
  obtain ⟨games, hpages', -, hmem'⟩ := hgames .open
  have hhidden : ∀ version, Sample.paged.lookup (gameStatusKey .open (Sample.pagedGame 2))
      = some (be64 version) → (version != 8) = false := by
    intro version h
    have h8 : Sample.paged.lookup (gameStatusKey .open (Sample.pagedGame 2)) = some (be64 8) := by
      decide +kernel
    rw [be64_injective (Option.some.inj (h.symm.trans h8))]
    rfl
  refine ⟨⟨events, hpages, hpages.pages 1 _ le_rfl (Nat.lt_succ_self _), (hmem _).mpr ?_,
    fun h => ?_, (hmem _).mpr ?_, fun h => ?_⟩, games, hpages', (hmem' _).mpr ⟨7, ?_, rfl⟩,
    fun h => ?_, (hmem' _).mpr ⟨9, ?_, rfl⟩⟩
  · exact ⟨rfl, by decide +kernel⟩
  · exact absurd ((hmem _).mp h).1 (by decide)
  · exact ⟨rfl, by decide +kernel⟩
  · exact absurd ((hmem _).mp h).2 (by decide +kernel)
  · decide +kernel
  · obtain ⟨version, hversion, hcan⟩ := (hmem' _).mp h
    rw [hhidden version hversion] at hcan
    cases hcan
  · decide +kernel

end TicTacToe
