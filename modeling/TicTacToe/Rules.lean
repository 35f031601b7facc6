/-
TicTacToe.Rules — the pure tic-tac-toe rules (`program/rules.rs`): board
queries, mark and seat derivation, and the match outcome with its early
clinch.

The `u16` arithmetic of `match_outcome` cannot overflow (three bytes sum
to at most 765) and is done in `Nat`.

No `sorry`, no `axiom`, no `native_decide`.
-/
import TicTacToe.Resources.Game

namespace TicTacToe

namespace Rules

/-- The 8 winning lines, as board indexes. -/
def lines : List (Fin 9 × Fin 9 × Fin 9) :=
  [(0, 1, 2), (3, 4, 5), (6, 7, 8), (0, 3, 6), (1, 4, 7), (2, 5, 8), (0, 4, 8), (2, 4, 6)]

/-- Number of marks on the board (the ply-in-round). -/
def plies (board : Board) : UInt8 :=
  UInt8.ofNat ((List.ofFn board).filter (fun c => c ≠ .empty)).length

/-- The mark holding a completed line, or `none` if no line is complete. -/
def winner (board : Board) : Option Cell :=
  lines.findSome? fun (a, b, c) =>
    if board a ≠ .empty ∧ board a = board b ∧ board b = board c then some (board a) else none

def boardFull (board : Board) : Bool := plies board == 9

/-- The opposite mark; `empty` maps to itself. -/
def other : Cell → Cell
  | .x => .o
  | .o => .x
  | .empty => .empty

/-- The mark `seat` plays in `round`: seat 0 plays `creatorMark` in even
rounds and the other mark in odd ones; seat 1 is mirrored. -/
def markForSeat (creatorMark : Cell) (round : UInt8) (seat : Seat) : Cell :=
  match seat, decide (round % 2 = 0) with
  | 0, true | 1, false => creatorMark
  | 0, false | 1, true => other creatorMark

/-- The seat whose turn it is: X on even ply and O on odd, mapped back to a
seat through `markForSeat`. -/
def seatToMove (creatorMark : Cell) (round : UInt8) (board : Board) : Seat :=
  let toMove := if plies board % 2 = 0 then Cell.x else Cell.o
  if markForSeat creatorMark round 0 = toMove then 0 else 1

/-- The match result once it is decided, or `none` while play continues. -/
def matchOutcome (roundsTotal : UInt8) (roundWins : Seat → UInt8) (draws : UInt8) :
    Option State :=
  let w0 := (roundWins 0).toNat
  let w1 := (roundWins 1).toNat
  let completed := w0 + w1 + draws.toNat
  let remaining := roundsTotal.toNat - completed
  if w0 > w1 + remaining then
    some .first
  else if w1 > w0 + remaining then
    some .second
  else if remaining = 0 then
    some (match compare w0 w1 with
      | .gt => .first
      | .lt => .second
      | .eq => .draw)
  else
    none

end Rules

end TicTacToe
