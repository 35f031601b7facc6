/-
TicTacToe.Reference.Match — a match of tic-tac-toe over several rounds as
its rules describe it: who moves is stored, the round number is stored,
the marks of the round are a list of moves, and there is no board, no
queue and no clock.

X opens every round. Seat 0 plays its chosen mark in even rounds and the
other one in odd rounds. A round ends at the first completed line or at
the ninth mark; a forfeit gives it to the seat not to move. The match
ends as soon as one seat leads by more than the rounds left, or none is.

`Valid` is what the start satisfies and every ply keeps (`valid_start`,
`Valid.play`).

No `sorry`, no `axiom`, no `native_decide`.
-/
import Mathlib.Algebra.Group.Nat.Even
import Mathlib.Data.List.FinRange
import Mathlib.Data.Nat.Cast.Basic
import Mathlib.Logic.Function.Basic
import TicTacToe.Lib.Numerals

namespace TicTacToe.Reference

inductive Mark where
  | x
  | o
  deriving DecidableEq, Repr

def Mark.flip : Mark → Mark
  | x => o
  | o => x

@[simp] theorem Mark.flip_flip (m : Mark) : m.flip.flip = m := by cases m <;> rfl

theorem Mark.flip_ne (m : Mark) : m.flip ≠ m := by cases m <;> decide

/-- The mark of the `n`-th ply of a round. -/
def Mark.ofPly (n : Nat) : Mark := if Even n then x else o

theorem Mark.ofPly_succ (n : Nat) : ofPly (n + 1) = (ofPly n).flip := by
  unfold ofPly
  by_cases h : Even n
  · rw [if_pos h, if_neg (by simpa [Nat.even_add_one] using h)]
    rfl
  · rw [if_neg h, if_pos (by simpa [Nat.even_add_one] using h)]
    rfl

/-! ## The grid -/

/-- The square in row `r` and column `c`. -/
def square (r c : Fin 3) : Fin 9 := ⟨3 * r + c, by omega⟩

def rows : List (List (Fin 9)) :=
  (List.finRange 3).map fun r => (List.finRange 3).map fun c => square r c

def columns : List (List (Fin 9)) :=
  (List.finRange 3).map fun c => (List.finRange 3).map fun r => square r c

def diagonals : List (List (Fin 9)) :=
  [(List.finRange 3).map fun k => square k k, (List.finRange 3).map fun k => square k k.rev]

def lines : List (List (Fin 9)) := rows ++ columns ++ diagonals

/-- The marks of a round, latest first. -/
abbrev Moves := List (Mark × Fin 9)

/-- Membership in `Moves` is decided through this instance. -/
instance lawfulBEq_ply : LawfulBEq (Mark × Fin 9) := inferInstance

/-- `m` holds every square of some line. -/
def Completed (moves : Moves) (m : Mark) : Prop :=
  ∃ l ∈ lines, ∀ c ∈ l, (m, c) ∈ moves

instance (moves : Moves) (m : Mark) : Decidable (Completed moves m) := by
  unfold Completed
  infer_instance

/-! ## The match -/

inductive Result where
  | won (seat : Fin 2)
  | drawn
  deriving DecidableEq, Repr

/-- The other seat. -/
def opponent (seat : Fin 2) : Fin 2 := 1 - seat

structure Match where
  creatorMark : Mark
  rounds : Nat
  round : Nat
  moves : Moves
  mover : Fin 2
  wins : Fin 2 → Nat
  draws : Nat
  result : Option Result

/-- The mark seat 0 plays in a round. -/
def creatorPlays (creatorMark : Mark) (round : Nat) : Mark :=
  if Even round then creatorMark else creatorMark.flip

/-- The seat that plays X in a round, and so opens it. -/
def opener (creatorMark : Mark) (round : Nat) : Fin 2 :=
  if creatorPlays creatorMark round = .x then 0 else 1

/-- The match result after `round` completed rounds. -/
def verdict (rounds round : Nat) (wins : Fin 2 → Nat) : Option Result :=
  if wins 0 > wins 1 + (rounds - round) then some (.won 0)
  else if wins 1 > wins 0 + (rounds - round) then some (.won 1)
  else if rounds - round = 0 then some .drawn
  else none

namespace Match

/-- A match about to play its first round. -/
def start (creatorMark : Mark) (rounds : Nat) : Match :=
  { creatorMark, rounds, round := 0, moves := [], mover := opener creatorMark 0,
    wins := fun _ => 0, draws := 0, result := none }

/-- The mark `seat` plays in the current round. -/
def markOf (r : Match) (seat : Fin 2) : Mark :=
  if seat = 0 then creatorPlays r.creatorMark r.round
  else (creatorPlays r.creatorMark r.round).flip

/-- The next round, or the end of the match. -/
def endRound (r : Match) : Match :=
  { r with
    round := r.round + 1
    moves := []
    mover := opener r.creatorMark (r.round + 1)
    result := verdict r.rounds (r.round + 1) r.wins }

/-- `seat` wins the round. -/
def winRound (r : Match) (seat : Fin 2) : Match :=
  endRound { r with wins := Function.update r.wins seat (r.wins seat + 1) }

def drawRound (r : Match) : Match := endRound { r with draws := r.draws + 1 }

def Free (r : Match) (cell : Fin 9) : Prop := cell ∉ r.moves.map Prod.snd

instance (r : Match) (cell : Fin 9) : Decidable (r.Free cell) := by
  unfold Free
  infer_instance

/-- A mark may be placed by the mover only, with their mark, on a free
square, while the match is on. -/
def Legal (r : Match) (seat : Fin 2) (cell : Fin 9) (mark : Mark) : Prop :=
  r.result = none ∧ seat = r.mover ∧ mark = r.markOf seat ∧ r.Free cell

instance (r : Match) (seat : Fin 2) (cell : Fin 9) (mark : Mark) :
    Decidable (r.Legal seat cell mark) := by
  unfold Legal
  infer_instance

/-- The match once `seat` made `moves` the marks of the round. -/
def advance (r : Match) (seat : Fin 2) (mark : Mark) (moves : Moves) : Match :=
  if Completed moves mark then r.winRound seat
  else if moves.length = 9 then r.drawRound
  else { r with moves, mover := opponent r.mover }

def place (r : Match) (seat : Fin 2) (cell : Fin 9) (mark : Mark) : Option Match :=
  if r.Legal seat cell mark then some (r.advance seat mark ((mark, cell) :: r.moves)) else none

/-- The mover forfeits the round to `winner`. -/
def forfeit (r : Match) (winner : Fin 2) : Option Match :=
  if r.result = none ∧ winner = opponent r.mover then some (r.winRound winner) else none

end Match

/-! ## What every match satisfies -/

/-- The marks alternate, X first. -/
def Alternating : Moves → Prop
  | [] => True
  | (m, _) :: rest => m = Mark.ofPly rest.length ∧ Alternating rest

structure Match.Valid (r : Match) : Prop where
  rounds_pos : 0 < r.rounds
  round_eq : r.round = r.wins 0 + r.wins 1 + r.draws
  round_le : r.round ≤ r.rounds
  mover_eq : r.markOf r.mover = Mark.ofPly r.moves.length
  alternating : Alternating r.moves
  squares : (r.moves.map Prod.snd).Nodup
  no_line : ∀ m, ¬ Completed r.moves m
  not_full : r.moves.length < 9
  result_eq : r.result = verdict r.rounds r.round r.wins
  decided : r.result ≠ none → r.moves = []

theorem not_completed_nil (m : Mark) : ¬ Completed [] m := by
  rintro ⟨l, hl, hall⟩
  have hne : l ≠ [] := by
    rintro rfl
    exact absurd hl (by decide)
  obtain ⟨c, hc⟩ := List.exists_mem_of_ne_nil l hne
  exact absurd (hall c hc) List.not_mem_nil

/-- A new mark completes lines of its own mark only. -/
theorem completed_cons_of_ne {moves : Moves} {m m' : Mark} {c : Fin 9} (hm : m' ≠ m)
    (h : Completed ((m, c) :: moves) m') : Completed moves m' := by
  obtain ⟨l, hl, hall⟩ := h
  refine ⟨l, hl, fun d hd => ?_⟩
  rcases List.mem_cons.mp (hall d hd) with e | hmem
  · exact absurd (congrArg Prod.fst e) hm
  · exact hmem

theorem verdict_eq_none {rounds round : Nat} {wins : Fin 2 → Nat}
    (h : verdict rounds round wins = none) : round < rounds := by
  unfold verdict at h
  split at h
  · cases h
  · split at h
    · cases h
    · split at h
      · cases h
      · omega

theorem seat_cases (s : Fin 2) : s = 0 ∨ s = 1 := by
  revert s
  decide

namespace Match

theorem markOf_opener (r : Match) :
    markOf r (opener r.creatorMark r.round) = .x := by
  unfold opener markOf
  cases h : creatorPlays r.creatorMark r.round with
  | x => simp
  | o => simp [Mark.flip]

theorem markOf_opponent (r : Match) (s : Fin 2) : r.markOf (opponent s) = (r.markOf s).flip := by
  unfold markOf opponent
  obtain rfl | rfl := seat_cases s
  · simp
  · simp

theorem valid_start {m : Mark} {rounds : Nat} (h : 0 < rounds) : (start m rounds).Valid where
  rounds_pos := h
  round_eq := rfl
  round_le := Nat.zero_le _
  mover_eq := markOf_opener (start m rounds)
  alternating := trivial
  squares := List.nodup_nil
  no_line := not_completed_nil
  not_full := Nat.zero_lt_succ 8
  result_eq := by
    have h0 : ¬ rounds = 0 := by omega
    simp [start, verdict, h0]
  decided := fun _ => rfl

/-- Ending a round of a match that is on, once the counters add up. -/
theorem valid_endRound {r : Match} (hpos : 0 < r.rounds)
    (hround : r.round + 1 = r.wins 0 + r.wins 1 + r.draws) (hlt : r.round < r.rounds) :
    r.endRound.Valid where
  rounds_pos := hpos
  round_eq := hround
  round_le := hlt
  mover_eq := markOf_opener r.endRound
  alternating := trivial
  squares := List.nodup_nil
  no_line := not_completed_nil
  not_full := Nat.zero_lt_succ 8
  result_eq := rfl
  decided := fun _ => rfl

namespace Valid

variable {r r' : Match}

theorem round_lt (h : r.Valid) (hon : r.result = none) : r.round < r.rounds :=
  verdict_eq_none (h.result_eq ▸ hon)

theorem winRound (h : r.Valid) (hon : r.result = none) (seat : Fin 2) :
    (r.winRound seat).Valid := by
  have hround := h.round_eq
  refine valid_endRound h.rounds_pos ?_ (h.round_lt hon)
  obtain rfl | rfl := seat_cases seat
  · simp; omega
  · simp; omega

theorem drawRound (h : r.Valid) (hon : r.result = none) : r.drawRound.Valid := by
  have hround := h.round_eq
  refine valid_endRound h.rounds_pos ?_ (h.round_lt hon)
  show r.round + 1 = r.wins 0 + r.wins 1 + (r.draws + 1)
  omega

theorem place (h : r.Valid) {seat : Fin 2} {cell : Fin 9} {mark : Mark}
    (hp : r.place seat cell mark = some r') : r'.Valid := by
  unfold Match.place at hp
  split at hp
  · rename_i hlegal
    obtain ⟨hon, rfl, rfl, hfree⟩ := hlegal
    cases hp
    unfold advance
    split
    · exact h.winRound hon _
    · rename_i hline
      split
      · exact h.drawRound hon
      · rename_i hfull
        refine { h with mover_eq := ?_, alternating := ?_, squares := ?_, no_line := ?_,
                        not_full := ?_, decided := fun hne => absurd hon hne }
        · show r.markOf (opponent r.mover) = Mark.ofPly (r.moves.length + 1)
          rw [markOf_opponent, h.mover_eq, Mark.ofPly_succ]
        · exact ⟨h.mover_eq, h.alternating⟩
        · exact List.nodup_cons.mpr ⟨hfree, h.squares⟩
        · intro m hm
          by_cases hmm : m = r.markOf r.mover
          · exact hline (hmm ▸ hm)
          · exact h.no_line m (completed_cons_of_ne hmm hm)
        · have hlt := h.not_full
          have hne : r.moves.length + 1 ≠ 9 := hfull
          show r.moves.length + 1 < 9
          omega
  · cases hp

theorem forfeit (h : r.Valid) {winner : Fin 2} (hf : r.forfeit winner = some r') :
    r'.Valid := by
  unfold Match.forfeit at hf
  split at hf
  · rename_i hlegal
    cases hf
    exact h.winRound hlegal.1 winner
  · cases hf

end Valid

/-! ## Replay -/

/-- One ply of a match record. -/
inductive Ply where
  | placed (seat : Fin 2) (cell : Fin 9) (mark : Mark)
  | forfeited (winner : Fin 2)

def play (r : Match) : Ply → Option Match
  | .placed seat cell mark => r.place seat cell mark
  | .forfeited winner => r.forfeit winner

/-- Plays a record from `r`; `none` as soon as a ply is illegal. -/
def replay (r : Match) : List Ply → Option Match
  | [] => some r
  | ply :: rest => (r.play ply).bind fun r' => replay r' rest

theorem replay_append (r : Match) (l l' : List Ply) :
    replay r (l ++ l') = (replay r l).bind fun r' => replay r' l' := by
  induction l generalizing r with
  | nil => rfl
  | cons ply rest ih =>
    simp only [List.cons_append, replay]
    cases r.play ply with
    | none => rfl
    | some r' => exact ih r'

theorem Valid.play {r r' : Match} (h : r.Valid) {ply : Ply} (hp : r.play ply = some r') :
    r'.Valid := by
  cases ply with
  | placed seat cell mark => exact h.place hp
  | forfeited winner => exact h.forfeit hp

end Match

end TicTacToe.Reference
