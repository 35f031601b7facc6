/-
TicTacToe.Action.Stamp — when the turn clock is stamped.

Whatever a turn or a forfeit does to a body, at every exit the log has
grown at its end and `last_move_at` is the score of the transaction if it
has grown at all, and what it was otherwise (`Stamped`). Queueing a cell
and dropping a stale one log no ply, so they stamp nothing.

No `sorry`, no `axiom`, no `native_decide`.
-/
import TicTacToe.Action.Play
import TicTacToe.Lib.Frame

namespace TicTacToe

open Lib

/-- The log only grows, and the clock is stamped exactly when it does. -/
def Stamped (now : UInt64) (p p' : Play) : Prop :=
  ∃ l, p'.log = p.log ++ l ∧ p'.game.lastMoveAt = if l = [] then p.game.lastMoveAt else now

/-- No ply: the log and the clock are as they were. -/
theorem stamped_still {now : UInt64} {p p' : Play} (hlog : p'.log = p.log)
    (hclock : p'.game.lastMoveAt = p.game.lastMoveAt) : Stamped now p p' :=
  ⟨[], by rw [hlog, List.append_nil], by rw [if_pos rfl, hclock]⟩

/-- One ply. -/
theorem stamped_ply {now : UInt64} {p p' : Play} {e : PlyEvent} (hlog : p'.log = p.log ++ [e])
    (hclock : p'.game.lastMoveAt = now) : Stamped now p p' :=
  ⟨[e], hlog, by rw [if_neg (List.cons_ne_nil e []), hclock]⟩

instance (now : UInt64) : IsPreorder Play (Stamped now) where
  refl _ := stamped_still rfl rfl
  trans p p' p'' h h' := by
    obtain ⟨l, hlog, hclock⟩ := h
    obtain ⟨l', hlog', hclock'⟩ := h'
    refine ⟨l ++ l', by rw [hlog', hlog, List.append_assoc], ?_⟩
    rw [hclock', hclock]
    by_cases hl' : l' = []
    · rw [if_pos hl', hl', List.append_nil]
    · rw [if_neg hl', if_neg (List.append_ne_nil_of_right_ne_nil l hl')]

variable {now : UInt64}

theorem keeps_bumpRoundWins (seat : Seat) : Keeps (Stamped now) (bumpRoundWins seat) := by
  refine keeps_get_bind fun p => ?_
  unfold KeepsAt
  rw [wp_bind]
  cases addU8 (p.game.roundWins seat) 1 with
  | ok w => exact stamped_still rfl rfl
  | error e => exact stamped_still rfl rfl

theorem keeps_bumpDraws : Keeps (Stamped now) bumpDraws := by
  refine keeps_get_bind fun p => ?_
  unfold KeepsAt
  rw [wp_bind]
  cases addU8 p.game.draws 1 with
  | ok d => exact stamped_still rfl rfl
  | error e => exact stamped_still rfl rfl

theorem endMatchIfDecided_lastMoveAt (g : GameBody) :
    (endMatchIfDecided g).lastMoveAt = g.lastMoveAt := by
  unfold endMatchIfDecided
  split <;> rfl

theorem keeps_closeRound : Keeps (Stamped now) closeRound :=
  keeps_modify fun _ => stamped_still rfl (endMatchIfDecided_lastMoveAt _)

theorem keeps_applyMove (seat : Seat) (cell : UInt8) :
    Keeps (Stamped now) (applyMove seat cell now) := by
  refine keeps_get_bind fun p => ?_
  unfold KeepsAt
  rw [wp_bind]
  cases markAndRound p.game with
  | error e => exact stamped_still rfl rfl
  | ok m =>
    rw [wp_liftE_ok]
    dsimp only
    rw [wp_bind]
    cases setIndex p.game.board cell.toNat (Rules.markForSeat m.1 m.2 seat) with
    | error e => exact stamped_still rfl rfl
    | ok board =>
      rw [wp_liftE_ok, wp_bind, wp_set]
      -- the mark is down; what follows closes the round at most
      have hply : Stamped now p
          ⟨{ p.game with board, lastMoveAt := now },
            p.log ++ [.placed seat cell (Rules.markForSeat m.1 m.2 seat)]⟩ :=
        stamped_ply rfl rfl
      have hrest : Keeps (Stamped now)
          (if Rules.winner board = some (Rules.markForSeat m.1 m.2 seat) then do
            bumpRoundWins seat
            closeRound
          else if Rules.boardFull board then do
            bumpDraws
            closeRound
          else return ()) :=
        .ite ((keeps_bumpRoundWins seat).bind fun _ => keeps_closeRound)
          (.ite (keeps_bumpDraws.bind fun _ => keeps_closeRound) (keeps_pure _))
      exact wp_mono (hrest _) (fun _ _ h => trans_of (Stamped now) hply h)
        fun _ _ h => trans_of (Stamped now) hply h

theorem wp_closing_log {board : Board} {mark : Cell} (seat : Seat) (p : Play) :
    wp (if Rules.winner board = some mark then do
          bumpRoundWins seat
          closeRound
        else if Rules.boardFull board then do
          bumpDraws
          closeRound
        else return ())
      (fun _ p' => p'.log = p.log) (fun _ _ => True) p := by
  simp only [wp_ite, bumpRoundWins, bumpDraws, closeRound, wp_bind, wp_get, wp_pure,
    implies_true, and_true]
  refine ⟨fun _ => ?_, fun _ _ => ?_⟩
  · cases addU8 (p.game.roundWins seat) 1 with
    | ok w => trivial
    | error e => trivial
  · cases addU8 p.game.draws 1 with
    | ok d => trivial
    | error e => trivial

/-- Placing a mark logs it: the mark its seat plays in this round. -/
theorem wp_applyMove_log (seat : Seat) (cell : UInt8) (p : Play) :
    wp (applyMove seat cell now)
      (fun _ p' => ∃ m, markAndRound p.game = .ok m ∧
        p'.log = p.log ++ [.placed seat cell (Rules.markForSeat m.1 m.2 seat)])
      (fun _ _ => True) p := by
  simp only [applyMove, wp_bind, wp_get]
  cases markAndRound p.game with
  | error e => trivial
  | ok m =>
    rw [wp_liftE_ok]
    cases setIndex p.game.board cell.toNat (Rules.markForSeat m.1 m.2 seat) with
    | error e => trivial
    | ok board =>
      rw [wp_liftE_ok, wp_set]
      exact wp_mono (wp_closing_log seat _) (fun _ _ h => ⟨m, rfl, h⟩) (fun _ _ h => h)

theorem keeps_onQueue {α : Type} (seat : Seat) (x : EStateM Fault PendingQueue α) :
    Keeps (Stamped now) (onQueue seat x) := by
  intro p
  unfold KeepsAt onQueue
  rw [wp_zoom_some]
  unfold wp
  cases x (p.game.pending seat) with
  | ok a q => exact stamped_still rfl rfl
  | error e q => exact stamped_still rfl rfl

theorem keeps_drainPending (fuel : Nat) : Keeps (Stamped now) (drainPending now fuel) := by
  induction fuel with
  | zero => exact keeps_throw _
  | succ n ih =>
    refine keeps_get.bind fun p => .ite ?_ (keeps_pure _)
    refine (keeps_liftE _).bind fun seat => (keeps_liftE _).bind fun head => ?_
    cases head with
    | none => exact keeps_pure _
    | some cell =>
      refine (keeps_onQueue seat _).bind fun _ => keeps_get.bind fun p' => ?_
      exact (keeps_liftE _).bind fun c => .ite ((keeps_applyMove seat cell).bind fun _ => ih) ih

theorem keeps_drain : Keeps (Stamped now) (drain now) :=
  keeps_get.bind fun _ => keeps_drainPending _

theorem keeps_commitExplicit (seat : Seat) (cell : UInt8) :
    Keeps (Stamped now) (commitExplicit seat cell now) := by
  refine keeps_get.bind fun p => (keeps_liftE _).bind fun c => .ite (keeps_throw _) ?_
  refine (keeps_liftE _).bind fun mover => .ite (keeps_applyMove seat cell) ?_
  exact (keeps_onQueue seat _).bind fun pushed => .ite (keeps_pure _) (keeps_throw _)

/-- A turn stamps the clock exactly when it, or a queued cell behind it, puts
a mark on the board. -/
theorem keeps_playTurn (moverId : ResourceId) (cell : UInt8) :
    Keeps (Stamped now) (playTurn moverId cell now) := by
  refine keeps_get.bind fun p => .ite (keeps_throw _) ((keeps_liftE _).bind fun seat => ?_)
  refine (keeps_commitExplicit seat cell).bind fun _ => keeps_drain.bind fun _ => ?_
  exact keeps_get.bind fun _ => keeps_pure _

/-- An explicit turn on one's own ply is the first ply of what it sets off. -/
theorem playTurn_first_mark {moverId : ResourceId} {cell : UInt8} {p p' : Play} {fin : Bool}
    {s : Seat} (h : playTurn moverId cell now p = .ok fin p')
    (hseat : seatOf p.game moverId = .ok s) (hmove : toMove p.game = .ok s) :
    ∃ m l, markAndRound p.game = .ok m ∧
      p'.log = p.log ++ .placed s cell (Rules.markForSeat m.1 m.2 s) :: l := by
  have hwp : wp (playTurn moverId cell now)
      (fun _ p' => ∃ m l, markAndRound p.game = .ok m ∧
        p'.log = p.log ++ .placed s cell (Rules.markForSeat m.1 m.2 s) :: l)
      (fun _ _ => True) p := by
    simp only [playTurn, wp_bind, wp_get, wp_ite, wp_throw, implies_true, true_and, hseat,
      wp_liftE_ok]
    intro _
    have hcommit : wp (commitExplicit s cell now)
        (fun _ p₁ => ∃ m, markAndRound p.game = .ok m ∧
          p₁.log = p.log ++ [.placed s cell (Rules.markForSeat m.1 m.2 s)])
        (fun _ _ => True) p := by
      simp only [commitExplicit, wp_bind, wp_get]
      cases index p.game.board cell.toNat with
      | error e => trivial
      | ok c =>
        simp only [wp_liftE_ok, wp_ite, wp_throw, implies_true, true_and, wp_bind, hmove]
        exact fun _ => ⟨fun _ => wp_applyMove_log s cell p, fun hne => absurd trivial hne⟩
    refine wp_mono hcommit ?_ (fun _ _ _ => trivial)
    intro _ p₁ hfirst
    obtain ⟨m, hm, hfirst⟩ := hfirst
    refine wp_mono (keeps_drain p₁) ?_ (fun _ _ _ => trivial)
    intro _ p₂ hdrain
    obtain ⟨l, hlog, -⟩ := hdrain
    refine ⟨m, l, hm, ?_⟩
    rw [hlog, hfirst, List.append_assoc]
    rfl
  exact hwp.ok h

theorem playTurn_first {moverId : ResourceId} {cell : UInt8} {p p' : Play} {fin : Bool} {s : Seat}
    (h : playTurn moverId cell now p = .ok fin p') (hseat : seatOf p.game moverId = .ok s)
    (hmove : toMove p.game = .ok s) : ∃ mark l, p'.log = p.log ++ .placed s cell mark :: l := by
  obtain ⟨m, l, -, hlog⟩ := playTurn_first_mark h hseat hmove
  exact ⟨_, l, hlog⟩

/-- A granted claim was due. -/
theorem forfeitRound_due {turnTtl : UInt64} {p p' : Play} {fin : Bool}
    (h : forfeitRound turnTtl now p = .ok fin p') :
    p.game.state = .playing ∧
      ∃ deadline, checkedAdd p.game.lastMoveAt turnTtl = some deadline ∧ ¬ now < deadline := by
  have hwp : wp (forfeitRound turnTtl now)
      (fun _ _ => p.game.state = .playing ∧
        ∃ deadline, checkedAdd p.game.lastMoveAt turnTtl = some deadline ∧ ¬ now < deadline)
      (fun _ _ => True) p := by
    simp only [forfeitRound, wp_bind, wp_get, wp_ite, wp_throw, implies_true, true_and]
    intro hon
    cases checkedAdd p.game.lastMoveAt turnTtl with
    | none => trivial
    | some deadline =>
      simp only [wp_ite, wp_throw, implies_true, true_and]
      intro hdue
      unfold wp
      split
      · exact ⟨not_not.mp hon, deadline, rfl, hdue⟩
      · trivial
  exact hwp.ok h

/-- A turn is only accepted while the match is on. -/
theorem playTurn_playing {moverId : ResourceId} {cell : UInt8} {p p' : Play} {fin : Bool}
    (h : playTurn moverId cell now p = .ok fin p') : p.game.state = .playing := by
  by_contra hidle
  have hwp : wp (playTurn moverId cell now) (fun _ _ => False) (fun _ _ => True) p := by
    simp only [playTurn, wp_bind, wp_get, hidle, ne_eq, not_false_eq_true, if_true, wp_throw]
  exact hwp.ok h

/-- The forfeited round is the first ply of a granted claim, and the clock is
stamped. -/
theorem forfeitRound_first {turnTtl : UInt64} {p p' : Play} {fin : Bool}
    (h : forfeitRound turnTtl now p = .ok fin p') :
    ∃ mover l, toMove p.game = .ok mover ∧ p'.log = p.log ++ .forfeited (mover ^^^ 1) :: l ∧
      p'.game.lastMoveAt = now := by
  have hwp : wp (forfeitRound turnTtl now)
      (fun _ p' => ∃ mover l, toMove p.game = .ok mover ∧
        p'.log = p.log ++ .forfeited (mover ^^^ 1) :: l ∧ p'.game.lastMoveAt = now)
      (fun _ _ => True) p := by
    simp only [forfeitRound, wp_bind, wp_get, wp_ite, wp_throw, implies_true, true_and]
    intro _
    cases checkedAdd p.game.lastMoveAt turnTtl with
    | none => trivial
    | some deadline =>
      simp only [wp_ite, wp_throw, implies_true, true_and, wp_bind]
      intro _
      cases hmove : toMove p.game with
      | error e => trivial
      | ok mover =>
        rw [wp_liftE_ok]
        -- one more round for the winner, and no ply yet
        simp only [bumpRoundWins, wp_bind, wp_get]
        cases addU8 (p.game.roundWins (mover ^^^ 1)) 1 with
        | error e => trivial
        | ok w =>
          rw [wp_liftE_ok, wp_set, wp_modify, closeRound, wp_modify]
          refine wp_mono (keeps_drain  _) ?_ (fun _ _ _ => trivial)
          intro _ p₂ hdrain
          obtain ⟨l, hlog, hclock⟩ := hdrain
          rw [wp_pure]
          refine ⟨mover, l, rfl, ?_, ?_⟩
          · rw [hlog, List.append_assoc]
            rfl
          · rw [hclock, endMatchIfDecided_lastMoveAt]
            exact ite_self now
  exact hwp.ok h

end TicTacToe
