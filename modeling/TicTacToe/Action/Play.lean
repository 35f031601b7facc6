/-
TicTacToe.Action.Play — a match in progress: the explicit turn, the
pre-commit cascade, the forfeit, round close and match end (the part of
`program/action/game.rs` that runs under one `modify_game` borrow).

Next to the game body a `Play` keeps the list of plies that happened, in
order: every mark put on the board and every round forfeited. Nothing
reads that list; it is there to say which match was played.

`drainPending` is the source's `while` loop with fuel. One pass pops one
entry, so the number of queued entries plus one is enough, and running
out is the fault `diverged`, never a silent stop.

No `sorry`, no `axiom`, no `native_decide`.
-/
import TicTacToe.Rules

namespace TicTacToe

open Lib

/-- What happened to a match, ply by ply. -/
inductive PlyEvent where
  | placed (seat : Seat) (cell : UInt8) (mark : Cell)
  | forfeited (winner : Seat)
  deriving DecidableEq, Repr

structure Play where
  game : GameBody
  log : List PlyEvent

abbrev PlayM (α : Type) := EStateM Fault Play α

/-! ## Derived facts -/

/-- Creator mark and current round index, derived from the counters. -/
def markAndRound (v : GameBody) : Except Fault (Cell × UInt8) := do
  let wins ← addU8 (v.roundWins 0) (v.roundWins 1)
  let round ← addU8 wins v.draws
  return (v.creatorMark, round)

/-- The seat whose ply it is on the current board. -/
def toMove (v : GameBody) : Except Fault Seat := do
  let (creatorMark, round) ← markAndRound v
  return Rules.seatToMove creatorMark round v.board

/-- The mover's seat, or an error when the id names neither player. -/
def seatOf (v : GameBody) (moverId : ResourceId) : Except Fault Seat :=
  if v.creator = moverId then .ok 0
  else if v.joiner = some moverId then .ok 1
  else .error (.decode "turn: mover is not a player of this game")

/-! ## Closing a round -/

/-- `g.round_wins_mut()[seat] += 1`. -/
def bumpRoundWins (seat : Seat) : PlayM Unit := do
  let p ← get
  let w ← liftE (addU8 (p.game.roundWins seat) 1)
  set { p with game := { p.game with roundWins := Function.update p.game.roundWins seat w } }

/-- `*g.draws_mut() += 1`. -/
def bumpDraws : PlayM Unit := do
  let p ← get
  let d ← liftE (addU8 p.game.draws 1)
  set { p with game := { p.game with draws := d } }

def endMatchIfDecided (g : GameBody) : GameBody :=
  match Rules.matchOutcome g.roundsTotal g.roundWins g.draws with
  | some state => { g with state }.clearPending
  | none => g

/-- Resets the board, then ends the match when the counters decide it. -/
def closeRound : PlayM Unit :=
  modify fun p => { p with game := endMatchIfDecided { p.game with board := Board.cleared } }

/-! ## Plies -/

/-- Places `seat`'s mark at `cell` and closes the round when that ends it. -/
def applyMove (seat : Seat) (cell : UInt8) (now : UInt64) : PlayM Unit := do
  let p ← get
  let (creatorMark, round) ← liftE (markAndRound p.game)
  let mark := Rules.markForSeat creatorMark round seat
  let board ← liftE (setIndex p.game.board cell.toNat mark)
  set { game := { p.game with board, lastMoveAt := now },
        log := p.log ++ [PlyEvent.placed seat cell mark] : Play }
  if Rules.winner board = some mark then
    bumpRoundWins seat
    closeRound
  else if Rules.boardFull board then
    bumpDraws
    closeRound
  else
    return ()

/-- A method call on `g.pending_mut(seat)`. -/
def onQueue {α : Type} (seat : Seat) (x : EStateM Fault PendingQueue α) : PlayM α :=
  zoom (fun p => some (p.game.pending seat))
    (fun q p => { p with game := { p.game with pending := Function.update p.game.pending seat q } })
    .panic x

/-- Applies queued pre-commits while the game plays; heads on taken cells are
stale and dropped. -/
def drainPending (now : UInt64) : Nat → PlayM Unit
  | 0 => throw .diverged
  | fuel + 1 => do
    let p ← get
    if p.game.state = .playing then
      let seat ← liftE (toMove p.game)
      let head ← liftE (p.game.pending seat).peek
      match head with
      | none => return ()
      | some cell =>
        let _ ← onQueue seat PendingQueue.pop
        let p' ← get
        let c ← liftE (index p'.game.board cell.toNat)
        if c = .empty then
          applyMove seat cell now
          drainPending now fuel
        else
          drainPending now fuel
    else
      return ()

/-- Enough passes for every queued entry and the last look. -/
def drainFuel (g : GameBody) : Nat := (g.pending 0).count.toNat + (g.pending 1).count.toNat + 1

def drain (now : UInt64) : PlayM Unit := do
  let p ← get
  drainPending now (drainFuel p.game)

/-- Lands the explicit turn on the board or in the mover's queue. -/
def commitExplicit (seat : Seat) (cell : UInt8) (now : UInt64) : PlayM Unit := do
  let p ← get
  let c ← liftE (index p.game.board cell.toNat)
  if c ≠ .empty then
    throw (.decode "turn: cell is occupied")
  else
    let mover ← liftE (toMove p.game)
    if seat = mover then
      applyMove seat cell now
    else
      let pushed ← onQueue seat (PendingQueue.push cell)
      if pushed then
        return ()
      else
        throw (.decode "turn: pending queue is full")

/-- The explicit turn and its cascade; whether the match just finished. -/
def playTurn (moverId : ResourceId) (cell : UInt8) (now : UInt64) : PlayM Bool := do
  let p ← get
  if p.game.state ≠ .playing then
    throw (.decode "turn: game is not playing")
  else
    let seat ← liftE (seatOf p.game moverId)
    commitExplicit seat cell now
    drain now
    let p' ← get
    return p'.game.isFinished

/-- Awards the round to the seat not to move once its turn expired; whether
the match just finished. -/
def forfeitRound (turnTtl now : UInt64) : PlayM Bool := do
  let p ← get
  if p.game.state ≠ .playing then
    throw (.decode "timeout: game is not playing")
  else
    match checkedAdd p.game.lastMoveAt turnTtl with
    | none => throw (.decode "timeout: last_move_at + turn_ttl overflows")
    | some deadline =>
      if now < deadline then
        throw (.decode "timeout: turn has not expired")
      else
        let mover ← liftE (toMove p.game)
        let winner := mover ^^^ 1
        bumpRoundWins winner
        modify fun q => { game := { q.game with lastMoveAt := now },
                          log := q.log ++ [PlyEvent.forfeited winner] }
        closeRound
        drain now
        let p' ← get
        return p'.game.isFinished

/-- The joiner takes seat 1 and play starts, on the mergeset clock. -/
def GameBody.seatJoiner (joinerId : ResourceId) (now : UInt64) (g : GameBody) : GameBody :=
  { g.setJoiner joinerId with state := .playing, lastMoveAt := now }

/-- The body behind `modify_game`: the match state with no plies yet. -/
def onGame {α : Type} (x : PlayM α) : EStateM Fault GameBody α :=
  zoom (fun g => some { game := g, log := [] }) (fun p _ => p.game) .panic x

end TicTacToe
