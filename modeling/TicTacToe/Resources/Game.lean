/-
TicTacToe.Resources.Game — the game resource
(`program/resources/game.rs`): the match struct with its two pending
rings, and the round board.

Seat-indexed pairs, the ring and the board are functions from `Fin n`, as
the source's fixed arrays; an index that the source takes from a byte
goes through `index`/`setIndex`, which panic out of bounds.

`from_bytes` checks the enum bytes only. `GameBody.fromBytes_ok` is the
round trip of the 108-byte payload in both directions.

No `sorry`, no `axiom`, no `native_decide`.
-/
import TicTacToe.Lib.Numerals
import TicTacToe.Resources.Kind

namespace TicTacToe

open Lib

/-- Match lifecycle; the win/draw variants are exactly the finished states. -/
inductive State where
  | open
  | playing
  | first
  | second
  | draw
  deriving DecidableEq, Repr

inductive Cell where
  | empty
  | x
  | o
  deriving DecidableEq, Repr

abbrev Seat := Fin 2

abbrev Board := Fin 9 → Cell

def Board.cleared : Board := fun _ => .empty

/-- Per-seat pending-turn capacity. -/
def pendingCap : Nat := 4

/-- `a[i]` on a fixed array. -/
def index {α : Type} {n : Nat} (a : Fin n → α) (i : Nat) : Except Fault α :=
  if h : i < n then .ok (a ⟨i, h⟩) else .error .panic

/-- `a[i] = x` on a fixed array. -/
def setIndex {α : Type} {n : Nat} (a : Fin n → α) (i : Nat) (x : α) : Except Fault (Fin n → α) :=
  if h : i < n then .ok (Function.update a ⟨i, h⟩ x) else .error .panic

theorem index_ok {α : Type} {n : Nat} {a : Fin n → α} {i : Nat} (h : i < n) :
    index a i = .ok (a ⟨i, h⟩) := dif_pos h

theorem setIndex_ok {α : Type} {n : Nat} {a : Fin n → α} {i : Nat} {x : α} (h : i < n) :
    setIndex a i x = .ok (Function.update a ⟨i, h⟩ x) := dif_pos h

/-! ## The pending ring -/

structure PendingQueue where
  cells : Fin 4 → UInt8
  head : UInt8
  count : UInt8
  deriving DecidableEq

namespace PendingQueue

/-- `PendingQueue::new_zeroed()`. -/
def zeroed : PendingQueue := { cells := fun _ => 0, head := 0, count := 0 }

/-- Appends `cell` in insert order, or returns `false` when the ring is full. -/
def push (cell : UInt8) : EStateM Fault PendingQueue Bool := do
  let q ← get
  if q.count.toNat = pendingCap then
    return false
  else
    let tail := (q.head.toNat + q.count.toNat) % pendingCap
    let cells ← liftE (setIndex q.cells tail cell)
    let count ← liftE (addU8 q.count 1)
    set { q with cells, count }
    return true

/-- Pops the oldest entry; the popped slot lingers. -/
def pop : EStateM Fault PendingQueue (Option UInt8) := do
  let q ← get
  if q.count = 0 then
    return none
  else
    let cell ← liftE (index q.cells q.head.toNat)
    let next ← liftE (addU8 q.head 1)
    set { q with head := next % 4, count := q.count - 1 }
    return some cell

/-- The oldest entry without removing it. -/
def peek (q : PendingQueue) : Except Fault (Option UInt8) :=
  if q.count.toNat > 0 then some <$> index q.cells q.head.toNat else .ok none

/-- The live entries, oldest first. -/
def toList (q : PendingQueue) : List UInt8 :=
  (List.range q.count.toNat).map fun k =>
    q.cells ⟨(q.head.toNat + k) % 4, Nat.mod_lt _ (by decide)⟩

end PendingQueue

/-! ## The body -/

structure GameBody where
  state : State
  creatorMark : Cell
  roundsTotal : UInt8
  roundWins : Seat → UInt8
  draws : UInt8
  stake : UInt64
  lastMoveAt : UInt64
  players : Seat → ResourceId
  pending : Seat → PendingQueue
  board : Board
  deriving DecidableEq

/-- `GAME_WIRE_LEN`. -/
def gameWireLen : Nat := 108

def State.toByte : State → UInt8
  | .open => 0
  | playing => 1
  | first => 2
  | second => 3
  | draw => 4

def State.ofByte (b : UInt8) : Option State :=
  if b = 0 then some .open
  else if b = 1 then some playing
  else if b = 2 then some first
  else if b = 3 then some second
  else if b = 4 then some draw
  else none

def Cell.toByte : Cell → UInt8
  | empty => 0
  | x => 1
  | o => 2

def Cell.ofByte (b : UInt8) : Option Cell :=
  if b = 0 then some empty else if b = 1 then some x else if b = 2 then some o else none

theorem State.ofByte_eq_some (b : UInt8) (s : State) : State.ofByte b = some s ↔ b = s.toByte := by
  constructor
  · intro h
    unfold ofByte at h
    split_ifs at h <;> cases h <;> assumption
  · rintro rfl
    cases s <;> rfl

theorem Cell.ofByte_eq_some (b : UInt8) (c : Cell) : Cell.ofByte b = some c ↔ b = c.toByte := by
  constructor
  · intro h
    unfold ofByte at h
    split_ifs at h <;> cases h <;> assumption
  · rintro rfl
    cases c <;> rfl

namespace GameBody

def creator (g : GameBody) : ResourceId := g.players 0

/-- Seat 1's user id, or `none` while it is all zero. -/
def joiner (g : GameBody) : Option ResourceId :=
  if g.players 1 ≠ ResourceId.default then some (g.players 1) else none

def isFinished (g : GameBody) : Bool :=
  match g.state with
  | .first | .second | .draw => true
  | _ => false

/-- `clear_pending`. -/
def clearPending (g : GameBody) : GameBody := { g with pending := fun _ => .zeroed }

def setJoiner (g : GameBody) (id : ResourceId) : GameBody :=
  { g with players := Function.update g.players 1 id }

/-- One layout error for every field of the body. -/
def layoutError : Fault := .decode "game: invalid layout"

def readState : Reader State := do
  let b ← Reader.byte "game: invalid layout"
  okOr layoutError (State.ofByte b)

def readCell : Reader Cell := do
  let b ← Reader.byte "game: invalid layout"
  okOr layoutError (Cell.ofByte b)

def readQueue : Reader PendingQueue := do
  let cells ← Lib.Reader.fn (Reader.byte "game: invalid layout") 4
  let head ← Reader.byte "game: invalid layout"
  let count ← Reader.byte "game: invalid layout"
  return { cells, head, count }

/-- The kindless zerocopy layout. -/
def layout : Reader GameBody := do
  let state ← readState
  let creatorMark ← readCell
  let roundsTotal ← Reader.byte "game: invalid layout"
  let roundWins ← Lib.Reader.fn (Reader.byte "game: invalid layout") 2
  let draws ← Reader.byte "game: invalid layout"
  let stake ← Reader.leU64 "game: invalid layout"
  let lastMoveAt ← Reader.leU64 "game: invalid layout"
  let players ← Lib.Reader.fn (Reader.array "game: invalid layout" 32) 2
  let pending ← Lib.Reader.fn readQueue 2
  let board ← Lib.Reader.fn readCell 9
  return { state, creatorMark, roundsTotal, roundWins, draws, stake, lastMoveAt, players, pending,
           board }

end GameBody

def PendingQueue.toBytes (q : PendingQueue) : List UInt8 :=
  (List.ofFn q.cells).flatMap (fun b => [b]) ++ ([q.head] ++ [q.count])

namespace GameBody

/-- The bytes behind the kind byte. -/
def bodyBytes (g : GameBody) : List UInt8 :=
  [g.state.toByte] ++ ([g.creatorMark.toByte] ++ ([g.roundsTotal] ++
    ((List.ofFn g.roundWins).flatMap (fun b => [b]) ++ ([g.draws] ++
    (le64 g.stake ++ (le64 g.lastMoveAt ++
    ((List.ofFn g.players).flatMap (fun id => id.val) ++
    ((List.ofFn g.pending).flatMap PendingQueue.toBytes ++
    (List.ofFn g.board).flatMap (fun c => [c.toByte])))))))))

def toBytes (g : GameBody) : List UInt8 := Kind.game.toByte :: g.bodyBytes

def fromBytes : List UInt8 → Except String GameBody :=
  fromBytesOf .game ⟨"game: wrong kind", "game: invalid layout"⟩ layout fun _ => .ok ()

theorem reads_readState : Reads readState (fun s => [s.toByte]) :=
  reads_decode (reads_byte _) State.ofByte_eq_some layoutError

theorem reads_readCell : Reads readCell (fun c => [c.toByte]) :=
  reads_decode (reads_byte _) Cell.ofByte_eq_some layoutError

theorem reads_readQueue : Reads readQueue PendingQueue.toBytes := by
  intro buf q rest
  simp only [readQueue, Reader.byte, ok_bind, ok_pure, reads_byte _ _ _ _,
    reads_fn (reads_byte _) _ _ _ _]
  constructor
  · rintro ⟨c, _, rfl, h, _, rfl, n, _, rfl, rfl, rfl⟩
    simp [PendingQueue.toBytes]
  · rintro rfl
    exact ⟨_, _, by rw [PendingQueue.toBytes, List.append_assoc, List.append_assoc], _, _, rfl,
      _, _, rfl, rfl, rfl⟩

theorem readsAll_layout : ReadsAll layout bodyBytes := by
  intro buf g
  simp only [layout, Reader.leU64, Reader.array, Reader.byte, ok_bind, ok_pure,
    reads_u64 _ _ _ _, reads_byte _ _ _ _, reads_readState _ _ _, reads_readCell _ _ _,
    reads_fn (reads_byte _) _ _ _ _, reads_fn (reads_array _ 32) _ _ _ _,
    reads_fn reads_readQueue _ _ _ _, reads_fn reads_readCell _ _ _ _]
  constructor
  · rintro ⟨s, _, rfl, m, _, rfl, r, _, rfl, w, _, rfl, d, _, rfl, st, _, rfl, l, _, rfl,
      p, _, rfl, q, _, rfl, b, _, rfl, rfl, rfl⟩
    simp [bodyBytes]
  · rintro rfl
    refine ⟨_, _, rfl, _, _, rfl, _, _, rfl, _, _, rfl, _, _, rfl, _, _, rfl, _, _, rfl,
      _, _, rfl, _, _, rfl, g.board, [], by rw [List.append_nil], rfl, rfl⟩

theorem fromBytes_ok {bytes : List UInt8} {g : GameBody} :
    fromBytes bytes = .ok g ↔ bytes = g.toBytes := by
  rw [fromBytes, fromBytesOf_ok readsAll_layout]
  exact and_iff_left rfl

theorem fromBytes_toBytes (g : GameBody) : fromBytes g.toBytes = .ok g := fromBytes_ok.mpr rfl

/-- Every field `write_game` does not name has a forced birth value. -/
def fresh (creator : ResourceId) (creatorMark : Cell) (stake : UInt64) (roundsTotal : UInt8) :
    GameBody :=
  { state := .open, creatorMark, roundsTotal, roundWins := fun _ => 0, draws := 0, stake,
    lastMoveAt := 0, players := Function.update (fun _ => ResourceId.default) 0 creator,
    pending := fun _ => .zeroed, board := Board.cleared }

end GameBody

/-- `write_game` over the buffer `out`, every byte of which it rewrites. -/
def writeGame (out : List UInt8) (creator : ResourceId) (creatorMark : Cell) (stake : UInt64)
    (roundsTotal : UInt8) : Except Fault (List UInt8) := do
  if out.length ≠ gameWireLen then
    throw (.decode "game: write buffer wrong length")
  if creatorMark = .empty then
    throw (.decode "game: creator_mark must be X or O")
  return (GameBody.fresh creator creatorMark stake roundsTotal).toBytes

theorem writeGame_ok {out : List UInt8} {creatorMark : Cell} (creator : ResourceId)
    (stake : UInt64) (roundsTotal : UInt8) (hlen : out.length = gameWireLen)
    (hmark : creatorMark ≠ .empty) :
    writeGame out creator creatorMark stake roundsTotal
      = .ok (GameBody.fresh creator creatorMark stake roundsTotal).toBytes := by
  simp only [writeGame, hlen, hmark, ne_eq, not_true_eq_false, if_false]
  rfl

end TicTacToe
