/-
TicTacToe.Reference.Board — a list of marks as a board, and the pure
rules of the program read on it: the ply count, the winner, the mark of a
seat, the seat to move and the match outcome are those of the reference
match.

No `sorry`, no `axiom`, no `native_decide`.
-/
import Mathlib.Data.Fintype.Card
import Mathlib.Data.Fin.Tuple.Basic
import TicTacToe.Rules
import TicTacToe.Reference.Match

namespace TicTacToe

open Reference (Mark Moves Completed)

namespace Reference

def Mark.toCell : Mark → Cell
  | x => .x
  | o => .o

@[simp] theorem Mark.toCell_ne_empty (m : Mark) : m.toCell ≠ .empty := by cases m <;> decide

theorem Mark.toCell_injective {m m' : Mark} (h : m.toCell = m'.toCell) : m = m' := by
  cases m <;> cases m' <;> first | rfl | cases h

/-- The mark on a cell. -/
def Mark.ofCell : Cell → Option Mark
  | .empty => none
  | .x => some x
  | .o => some o

@[simp] theorem Mark.ofCell_toCell (m : Mark) : ofCell m.toCell = some m := by cases m <;> rfl

theorem Mark.exists_toCell {c : Cell} (h : c ≠ .empty) : ∃ m : Mark, c = m.toCell := by
  cases c with
  | empty => exact absurd rfl h
  | x => exact ⟨.x, rfl⟩
  | o => exact ⟨.o, rfl⟩

end Reference

/-- The board that shows `moves`. -/
def boardOf (moves : Moves) : Board := fun c =>
  if (Mark.x, c) ∈ moves then .x else if (Mark.o, c) ∈ moves then .o else .empty

@[simp] theorem boardOf_nil : boardOf [] = Board.cleared := rfl

section Cells

variable {moves : Moves} {c : Fin 9} {m : Mark}

theorem boardOf_eq_empty : boardOf moves c = .empty ↔ c ∉ moves.map Prod.snd := by
  unfold boardOf
  simp only [List.mem_map, Prod.exists, exists_eq_right, not_exists]
  constructor
  · intro h m hm
    by_cases hx : (Mark.x, c) ∈ moves
    · simp [hx] at h
    · cases m with
      | x => exact hx hm
      | o => simp [hx, hm] at h
  · intro h
    simp [h .x, h .o]

theorem boardOf_eq_toCell (hn : (moves.map Prod.snd).Nodup) :
    boardOf moves c = m.toCell ↔ (m, c) ∈ moves := by
  have huniq : ∀ m', (m, c) ∈ moves → (m', c) ∈ moves → m' = m := fun m' h h' =>
    congrArg Prod.fst (List.inj_on_of_nodup_map hn h' h rfl)
  unfold boardOf
  cases m with
  | x =>
    by_cases hx : (Mark.x, c) ∈ moves
    · simp [hx, Mark.toCell]
    · by_cases ho : (Mark.o, c) ∈ moves <;> simp [hx, ho, Mark.toCell]
  | o =>
    by_cases ho : (Mark.o, c) ∈ moves
    · have hx : (Mark.x, c) ∉ moves := fun hx => by cases huniq .x ho hx
      simp [hx, ho, Mark.toCell]
    · by_cases hx : (Mark.x, c) ∈ moves <;> simp [hx, ho, Mark.toCell]

theorem boardOf_cons (hc : c ∉ moves.map Prod.snd) :
    boardOf ((m, c) :: moves) = Function.update (boardOf moves) c m.toCell := by
  funext d
  by_cases hd : d = c
  · subst hd
    rw [Function.update_self]
    have hnot : ∀ m', (m', d) ∉ moves := fun m' h => hc (List.mem_map_of_mem h)
    cases m <;> simp [boardOf, hnot, Mark.toCell]
  · rw [Function.update_of_ne hd]
    have hmem : ∀ m', (m', d) ∈ (m, c) :: moves ↔ (m', d) ∈ moves := fun m' => by
      simp [hd]
    simp only [boardOf, hmem]

/-- The cells that hold one of the marks a predicate picks, counted on the
board and counted in the list. -/
theorem card_boardOf (p : Cell → Prop) [DecidablePred p] (hp : ¬ p .empty)
    (hn : (moves.map Prod.snd).Nodup) :
    Finset.card {c | p (boardOf moves c)} = (moves.filter fun mv => p mv.1.toCell).length := by
  have hset : ({c | p (boardOf moves c)} : Finset (Fin 9))
      = ((moves.filter fun mv => p mv.1.toCell).map Prod.snd).toFinset := by
    ext c
    simp only [Finset.mem_filter_univ, List.mem_toFinset, List.mem_map, List.mem_filter,
      decide_eq_true_eq, Prod.exists, exists_eq_right]
    constructor
    · intro hc
      obtain ⟨m, hm⟩ := Mark.exists_toCell (c := boardOf moves c) fun he => hp (he ▸ hc)
      exact ⟨m, (boardOf_eq_toCell hn).mp hm, hm ▸ hc⟩
    · rintro ⟨m, hmem, hpm⟩
      rw [(boardOf_eq_toCell hn).mpr hmem]
      exact hpm
  have hnodup : ((moves.filter fun mv => p mv.1.toCell).map Prod.snd).Nodup :=
    (List.filter_sublist.map _).nodup hn
  rw [hset, List.toFinset_card_of_nodup hnodup, List.length_map]

end Cells

/-! ## Plies -/

theorem plies_eq_card (b : Board) :
    (Rules.plies b).toNat = Finset.card {c | b c ≠ .empty} := by
  have hset : ({c | b c ≠ .empty} : Finset (Fin 9))
      = ((List.finRange 9).filter fun c => b c ≠ .empty).toFinset := by
    ext c
    simp
  have hcount : ((List.ofFn b).filter (fun c => c ≠ .empty)).length
      = Finset.card {c | b c ≠ .empty} := by
    rw [hset, List.toFinset_card_of_nodup ((List.nodup_finRange 9).filter _), List.ofFn_eq_map,
      List.filter_map, List.length_map]
    rfl
  have hle : Finset.card {c | b c ≠ .empty} ≤ 9 := by
    simpa using Finset.card_filter_le (Finset.univ : Finset (Fin 9)) (fun c => b c ≠ .empty)
  rw [Rules.plies, hcount, UInt8.toNat_ofNat', Nat.mod_eq_of_lt (by omega)]

theorem plies_boardOf {moves : Moves} (hn : (moves.map Prod.snd).Nodup) :
    (Rules.plies (boardOf moves)).toNat = moves.length := by
  rw [plies_eq_card, card_boardOf (fun c => c ≠ .empty) (by simp) hn]
  simp

/-! ## Lines -/

/-- The program's table lists the same lines in the same order. -/
theorem lines_eq : Reference.lines = Rules.lines.map fun (a, b, c) => [a, b, c] := by decide

/-- `m` holds a whole line of the board. -/
def HasLine (b : Board) (m : Mark) : Prop := ∃ l ∈ Rules.lines, b l.1 = m.toCell ∧
  b l.2.1 = m.toCell ∧ b l.2.2 = m.toCell

theorem hasLine_boardOf {moves : Moves} {m : Mark} (hn : (moves.map Prod.snd).Nodup) :
    HasLine (boardOf moves) m ↔ Completed moves m := by
  simp only [HasLine, Completed, lines_eq, List.mem_map, exists_exists_and_eq_and,
    List.forall_mem_cons, boardOf_eq_toCell hn]
  simp

theorem hasLine_of_winner {b : Board} {c : Cell} (h : Rules.winner b = some c) :
    ∃ m : Mark, c = m.toCell ∧ HasLine b m := by
  obtain ⟨⟨i, j, k⟩, hl, hsome⟩ := List.exists_of_findSome?_eq_some h
  dsimp only at hsome
  split at hsome
  · rename_i hline
    obtain ⟨hne, h₁, h₂⟩ := hline
    obtain ⟨m, hm⟩ := Mark.exists_toCell hne
    cases hsome
    exact ⟨m, hm, (i, j, k), hl, hm, h₁ ▸ hm, h₂ ▸ h₁ ▸ hm⟩
  · cases hsome

theorem not_hasLine_of_winner_none {b : Board} (h : Rules.winner b = none) (m : Mark) :
    ¬ HasLine b m := by
  rintro ⟨⟨i, j, k⟩, hl, h₁, h₂, h₃⟩
  have hnone := List.findSome?_eq_none_iff.mp h (i, j, k) hl
  dsimp only at hnone h₁ h₂ h₃
  rw [if_pos ⟨h₁ ▸ m.toCell_ne_empty, h₁.trans h₂.symm, h₂.trans h₃.symm⟩] at hnone
  cases hnone

/-- When no other mark can have a line, the winner is `m` exactly when `m`
has one. -/
theorem winner_eq_iff {b : Board} {m : Mark} (hothers : ∀ m', m' ≠ m → ¬ HasLine b m') :
    Rules.winner b = some m.toCell ↔ HasLine b m := by
  constructor
  · intro h
    obtain ⟨m', hm', hline⟩ := hasLine_of_winner h
    exact Mark.toCell_injective hm' ▸ hline
  · intro h
    cases hw : Rules.winner b with
    | none => exact absurd h (not_hasLine_of_winner_none hw m)
    | some c =>
      obtain ⟨m', rfl, hline⟩ := hasLine_of_winner hw
      by_cases hm : m' = m
      · rw [hm]
      · exact absurd hline (hothers m' hm)

theorem winner_eq_none {b : Board} (h : ∀ m, ¬ HasLine b m) : Rules.winner b = none := by
  cases hw : Rules.winner b with
  | none => rfl
  | some c =>
    obtain ⟨m, -, hline⟩ := hasLine_of_winner hw
    exact absurd hline (h m)

/-! ## Marks, seats and the outcome -/

theorem even_of_mod {n : UInt8} : n % 2 = 0 ↔ Even n.toNat := by
  rw [← UInt8.toNat_inj, UInt8.toNat_mod, Nat.even_iff]
  rfl

theorem other_toCell (m : Mark) : Rules.other m.toCell = m.flip.toCell := by cases m <;> rfl

theorem markForSeat_eq {r : Reference.Match} {round : UInt8} (h : round.toNat = r.round)
    (seat : Seat) :
    Rules.markForSeat r.creatorMark.toCell round seat = (r.markOf seat).toCell := by
  unfold Rules.markForSeat Reference.Match.markOf Reference.creatorPlays
  obtain rfl | rfl := Reference.seat_cases seat
  · by_cases he : Even r.round
    · have hm : round % 2 = 0 := even_of_mod.mpr (h ▸ he)
      simp [he, hm]
    · have hm : ¬ round % 2 = 0 := fun hm => he (h ▸ even_of_mod.mp hm)
      simp [he, hm, other_toCell]
  · by_cases he : Even r.round
    · have hm : round % 2 = 0 := even_of_mod.mpr (h ▸ he)
      simp [he, hm, other_toCell]
    · have hm : ¬ round % 2 = 0 := fun hm => he (h ▸ even_of_mod.mp hm)
      simp [he, hm]

theorem seatToMove_eq {r : Reference.Match} {round : UInt8} (hv : r.Valid)
    (h : round.toNat = r.round) :
    Rules.seatToMove r.creatorMark.toCell round (boardOf r.moves) = r.mover := by
  have hply : (if Rules.plies (boardOf r.moves) % 2 = 0 then Cell.x else Cell.o)
      = (r.markOf r.mover).toCell := by
    rw [hv.mover_eq, Mark.ofPly, ← plies_boardOf hv.squares]
    by_cases he : Rules.plies (boardOf r.moves) % 2 = 0
    · rw [if_pos he, if_pos (even_of_mod.mp he)]
      rfl
    · rw [if_neg he, if_neg fun hev => he (even_of_mod.mpr hev)]
      rfl
  simp only [Rules.seatToMove, hply, markForSeat_eq h]
  rcases Reference.seat_cases r.mover with h0 | h1
  · simp [h0]
  · have h1 : r.mover = Reference.opponent 0 := h1
    have hne : ¬ (r.markOf 0).toCell = (r.markOf r.mover).toCell := by
      rw [h1, Reference.Match.markOf_opponent]
      exact fun e => Mark.flip_ne _ (Mark.toCell_injective e).symm
    rw [if_neg hne, h1]
    rfl

/-- The stored state of a match with this result. -/
def stateOf : Option Reference.Result → State
  | none => .playing
  | some (.won 0) => .first
  | some (.won 1) => .second
  | some .drawn => .draw

theorem stateOf_eq_playing {o : Option Reference.Result} : stateOf o = .playing ↔ o = none := by
  rcases o with _ | ⟨s⟩ | _
  · simp [stateOf]
  · revert s
    decide
  · simp [stateOf]

/-- The outcome of the counters is the verdict of the reference. -/
theorem matchOutcome_eq (rounds : UInt8) {draws : UInt8} {wins : Seat → UInt8} {round : Nat}
    (h : (wins 0).toNat + (wins 1).toNat + draws.toNat = round) :
    Rules.matchOutcome rounds wins draws
      = (Reference.verdict rounds.toNat round fun s => (wins s).toNat).map
          (fun res => stateOf (some res)) := by
  simp only [Rules.matchOutcome, Reference.verdict, h]
  split
  · rfl
  · split
    · rfl
    · split
      · rename_i h₀ h₁ hrem
        have heq : (wins 0).toNat = (wins 1).toNat := by omega
        rw [Nat.compare_eq_eq.mpr heq]
        rfl
      · rfl

end TicTacToe
