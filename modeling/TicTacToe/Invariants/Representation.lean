/-
TicTacToe.Invariants.Representation — what a stored game can look like.

`from_bytes` only checks the enum bytes of a game; `Consistent` are the
facts across its fields that the writers keep. All but one are read off
the reference match a `GameRun` stores; that a joiner is set comes from
where users sit (`Bound`).

No `sorry`, no `axiom`, no `native_decide`.
-/
import TicTacToe.Invariants.Binding

namespace TicTacToe

open Lib
open Reference (Mark Moves Alternating)

/-- How many cells hold `c`. -/
def Board.count (b : Board) (c : Cell) : Nat := Finset.card {i | b i = c}

/-- Completed rounds, as the counters say. -/
def GameBody.completed (g : GameBody) : Nat :=
  (g.roundWins 0).toNat + (g.roundWins 1).toNat + g.draws.toNat

structure GameBody.Consistent (g : GameBody) : Prop where
  mark : g.creatorMark = .x ∨ g.creatorMark = .o
  rounds : 1 ≤ g.roundsTotal.toNat
  unjoined : g.state = .open → g.joiner = none ∧ (∀ s, g.roundWins s = 0) ∧ g.draws = 0 ∧
    g.lastMoveAt = 0 ∧ g.board = Board.cleared ∧ ∀ s, g.pending s = .zeroed
  seated : g.state = .playing → ∃ j, g.joiner = some j ∧ j ≠ g.creator
  undecided : g.state = .playing →
    Rules.matchOutcome g.roundsTotal g.roundWins g.draws = none ∧
      g.completed < g.roundsTotal.toNat
  position : g.state = .playing → (∀ m, ¬ HasLine g.board m) ∧ Rules.winner g.board = none ∧
    Rules.boardFull g.board = false ∧
    (g.board.count .x = g.board.count .o ∨ g.board.count .x = g.board.count .o + 1)
  decided : g.isFinished = true →
    Rules.matchOutcome g.roundsTotal g.roundWins g.draws = some g.state ∧
      g.completed ≤ g.roundsTotal.toNat ∧ g.board = Board.cleared ∧ ∀ s, g.pending s = .zeroed
  queues : ∀ s, QueueOk (g.pending s)

section Marks

/-- X opens and the marks alternate, so X leads by at most one. -/
theorem alternating_counts {moves : Moves} (h : Alternating moves) :
    (moves.filter fun mv => mv.1.toCell = .x).length = (moves.length + 1) / 2 ∧
      (moves.filter fun mv => mv.1.toCell = .o).length = moves.length / 2 := by
  induction moves with
  | nil => exact ⟨rfl, rfl⟩
  | cons mv rest ih =>
    obtain ⟨m, c⟩ := mv
    obtain ⟨rfl, hrest⟩ := h
    obtain ⟨hx, ho⟩ := ih hrest
    have hmarks : Mark.x.toCell = .x ∧ Mark.o.toCell = .o := ⟨rfl, rfl⟩
    unfold Mark.ofPly
    by_cases he : Even rest.length
    · have hmod := Nat.even_iff.mp he
      simp only [he, if_true, hmarks, List.filter_cons, decide_true, reduceCtorEq,
        decide_false, Bool.false_eq_true, if_false, List.length_cons, hx, ho]
      omega
    · have hmod := Nat.not_even_iff.mp he
      simp only [he, if_false, hmarks, List.filter_cons, reduceCtorEq, decide_true,
        decide_false, Bool.false_eq_true, if_true, List.length_cons, hx, ho]
      omega

theorem count_boardOf {moves : Moves} (hn : (moves.map Prod.snd).Nodup) {c : Cell}
    (hc : c ≠ .empty) :
    (boardOf moves).count c = (moves.filter fun mv => mv.1.toCell = c).length :=
  card_boardOf (fun d => d = c) (fun e => hc e.symm) hn

end Marks

section Runs

variable {g : GameBody} {log : List PlyEvent}

theorem stateOf_finished {g : GameBody} {o : Option Reference.Result} (h : g.state = stateOf o)
    (hfin : g.isFinished = true) : o ≠ none := by
  rintro rfl
  unfold GameBody.isFinished at hfin
  rw [h] at hfin
  exact absurd hfin (by decide)

/-- What the stored counters decide is what the reference match decided. -/
theorem Started.matchOutcome {u : Committed} (h : Started g u) :
    Rules.matchOutcome g.roundsTotal g.roundWins g.draws
      = u.state.result.map fun res => stateOf (some res) := by
  have hsum : (g.roundWins 0).toNat + (g.roundWins 1).toNat + g.draws.toNat = u.state.round := by
    rw [h.sim.wins, h.sim.wins, h.sim.draws, h.valid.round_eq]
  rw [matchOutcome_eq g.roundsTotal hsum, h.sim.rounds, h.valid.result_eq,
    show (fun s => (g.roundWins s).toNat) = u.state.wins from funext h.sim.wins]

theorem Started.completed_eq {u : Committed} (h : Started g u) : g.completed = u.state.round := by
  rw [GameBody.completed, h.sim.wins, h.sim.wins, h.sim.draws, h.valid.round_eq]

/-- A run whose second seat, once taken, holds a real id. -/
theorem GameRun.consistent (h : GameRun g log)
    (hj : g.state ≠ .open → g.players 1 ≠ ResourceId.default) : g.Consistent := by
  cases gameRun_phase h with
  | unjoined mark hu _ =>
    have hnot : g.state ≠ .playing := hu.idle
    have hfin : g.isFinished = false := by simp [GameBody.isFinished, hu.state]
    have hfresh := hu.eq_fresh
    refine ⟨?_, ?_, fun _ => ?_, fun e => absurd e hnot, fun e => absurd e hnot,
      fun e => absurd e hnot, fun e => ?_, fun s => ?_⟩
    · rw [hfresh]
      cases mark
      · exact .inl rfl
      · exact .inr rfl
    · refine Nat.one_le_iff_ne_zero.mpr fun e => hu.rounds_ne ?_
      exact UInt8.toNat_inj.mp e
    · rw [hfresh]
      refine ⟨?_, fun _ => rfl, rfl, rfl, rfl, fun _ => rfl⟩
      refine if_neg (not_not.mpr ?_)
      show Function.update (fun _ => ResourceId.default) 0 g.creator 1 = ResourceId.default
      exact Function.update_of_ne (by decide) ..
    · rw [hfin] at e
      cases e
    · rw [hfresh]
      exact PendingQueue.queueOk_zeroed
  | started mark u hmark hs _ =>
    have hopen := hs.state_ne_open
    have hround := hs.completed_eq
    have hplaying := hs.playing_iff
    refine ⟨?_, ?_, fun e => absurd e hopen, fun _ => ?_, fun e => ?_, fun e => ?_, fun e => ?_,
      fun s => ?_⟩
    · rw [hmark]
      cases mark
      · exact .inl rfl
      · exact .inr rfl
    · rw [hs.sim.rounds]
      exact hs.valid.rounds_pos
    · exact ⟨g.players 1, if_pos (hj hopen), hs.seats_ne⟩
    · have hon := hplaying.mp e
      refine ⟨by rw [hs.matchOutcome, hon]; rfl, ?_⟩
      rw [hround, hs.sim.rounds]
      exact hs.valid.round_lt hon
    · have hsq := hs.valid.squares
      have hline : ∀ m, ¬ HasLine g.board m := fun m => by
        rw [hs.sim.board, hasLine_boardOf hsq]
        exact hs.valid.no_line m
      refine ⟨hline, winner_eq_none hline, ?_, ?_⟩
      · have hplies := plies_boardOf hsq
        have hlt := hs.valid.not_full
        rw [Rules.boardFull, beq_eq_false_iff_ne, hs.sim.board]
        intro e9
        rw [e9] at hplies
        exact absurd hplies.symm (Nat.ne_of_lt hlt)
      · obtain ⟨hx, ho⟩ := alternating_counts hs.valid.alternating
        rw [hs.sim.board, count_boardOf hsq (by decide), count_boardOf hsq (by decide), hx, ho]
        omega
    · have hover := stateOf_finished hs.sim.state e
      obtain ⟨res, hres⟩ := Option.ne_none_iff_exists'.mp hover
      refine ⟨?_, ?_, ?_, fun s => ?_⟩
      · rw [hs.matchOutcome, hs.sim.state, hres]
        rfl
      · rw [hround, hs.sim.rounds]
        exact hs.valid.round_le
      · rw [hs.sim.board, hs.valid.decided hover]
        rfl
      · rw [hs.cleared hover]
    · by_cases hon : u.state.result = none
      · exact (hs.rings hon s).1
      · rw [hs.cleared hon]
        exact PendingQueue.queueOk_zeroed

end Runs

section Reachable

variable {B : Battery} {P : DepositPolicy} {R : Rollup} {st : Store}

/-- **Representation.** At every moment of every run, each stored game is
consistent. -/
theorem games_consistent (hR : Reachable B P R) (hst : R.Observed B P st)
    (H : NonzeroIds B (st.lockHashes B)) {id : ResourceId} {g : GameBody}
    (hg : GameBody.fromBytes (st id) = .ok g) : g.Consistent := by
  obtain ⟨hist, hrun⟩ := hst.run hR
  have hslot : st.ledger B id = .game g := Slot.parse_eq_game.mpr hg
  obtain ⟨log, hlog⟩ := sound_of_run hrun id g hslot
  refine hlog.consistent fun hopen => ?_
  have hb := bound_of_run hrun
  obtain ⟨u, hu⟩ := hb.joiner hslot hopen
  rw [← Store.ledger_lockHashes] at H
  exact hb.user_ne_default H hu

theorem games_consistent_queued :
    ∃ g, GameBody.fromBytes (Sample.queued.store Sample.gameId) = .ok g ∧ g.state = .playing ∧
      g.board 0 = .x ∧ g.board 3 = .o ∧ (g.pending 0).toList = [4, 8] ∧ g.Consistent := by
  obtain ⟨g, hg, hon, hx, ho, -, hqueue⟩ := Sample.queued_game
  exact ⟨g, hg, hon, hx, ho, hqueue,
    games_consistent Sample.reachable_queued .between plain_nonzeroIds hg⟩

end Reachable

end TicTacToe
