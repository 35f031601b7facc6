/-
TicTacToe.Ledger.History — runs of the ledger machine, and the runs of
the games in it.

`LedgerRun h L` is any sequence of accepted actions from the empty ledger,
`h` listing them with their transactions. `sound_of_run` finds every game
of such a ledger to be a `GameRun`.

No `sorry`, no `axiom`, no `native_decide`.
-/
import TicTacToe.Action.Stamp
import TicTacToe.Ledger.Step
import TicTacToe.Reference.Run

namespace TicTacToe

open Lib
open Function (update)

/-- One accepted action, with the transaction it came in. -/
structure Event where
  tx : Transaction
  action : ActionBody

inductive LedgerRun (B : Battery) (P : DepositPolicy) : List Event → Ledger → Prop
  | genesis : LedgerRun B P [] (fun _ => .empty)
  | step {h : List Event} {L L' : Ledger} {cx : ApplyContext} {a : ActionBody} {flow : Flow} :
      LedgerRun B P h L → LedgerStep B P cx L a flow L' →
      LedgerRun B P (h ++ [⟨cx.tx, a⟩]) L'

/-! ## What a move of a game does -/

theorem GameRun.turned_from {g g' : GameBody} {log l : List PlyEvent} (h : GameRun g log)
    {mover : ResourceId} {cell : UInt8} {now : UInt64} {fin : Bool}
    (hrun : playTurn mover cell now ⟨g, []⟩ = .ok fin ⟨g', l⟩) :
    g.state = .playing ∧ SameMatch g g' ∧ g'.state ≠ .open := by
  have hplaying := playTurn_playing hrun
  obtain ⟨u, hs, -⟩ := h.playing hplaying
  obtain ⟨_, _, _, hs', _, hreach⟩ := hs.turn hrun
  exact ⟨hplaying, hreach.same, hs'.state_ne_open⟩

theorem GameRun.timedOut_from {g g' : GameBody} {log l : List PlyEvent} (h : GameRun g log)
    {turnTtl now : UInt64} {fin : Bool}
    (hrun : forfeitRound turnTtl now ⟨g, []⟩ = .ok fin ⟨g', l⟩) :
    g.state = .playing ∧ SameMatch g g' ∧ g'.state ≠ .open := by
  obtain ⟨hplaying, -⟩ := forfeitRound_due hrun
  obtain ⟨u, hs, -⟩ := h.playing hplaying
  obtain ⟨_, hs', _, hf, _⟩ := hs.timeout hrun
  exact ⟨hplaying, hf.same, hs'.state_ne_open⟩

/-- The two seats are taken by different users. -/
theorem GameRun.seats_ne {g : GameBody} {log : List PlyEvent} (h : GameRun g log)
    (hopen : g.state ≠ .open) : g.players 1 ≠ g.players 0 := by
  obtain ⟨u, hs⟩ := h.started hopen
  exact hs.seats_ne

section Moves

variable {B : Battery} {cx : ApplyContext} {L : Ledger} {a : ActionBody} {gid : ResourceId}
  {g g' : GameBody} {log : List PlyEvent}

/-- A move carries a run on. -/
theorem GameMove.run (h : GameMove B cx L a gid g g') (hrun : GameRun g log) :
    ∃ log', GameRun g' log' := by
  cases h with
  | turn _ _ _ _ hplay => exact ⟨_, hrun.turned hplay⟩
  | timeout _ _ _ hforfeit => exact ⟨_, hrun.timedOut hforfeit⟩

/-- Only a playing game is moved, and it keeps its match. -/
theorem GameMove.from (h : GameMove B cx L a gid g g') (hrun : GameRun g log) :
    g.state = .playing ∧ SameMatch g g' ∧ g'.state ≠ .open := by
  cases h with
  | turn _ _ _ _ hplay => exact hrun.turned_from hplay
  | timeout _ _ _ hforfeit => exact hrun.timedOut_from hforfeit

theorem GameBody.not_finished_of_playing (h : g.state = .playing) : g.isFinished = false := by
  simp [GameBody.isFinished, h]

theorem GameBody.not_finished_of_open (h : g.state = .open) : g.isFinished = false := by
  simp [GameBody.isFinished, h]

theorem GameBody.playing_of_unfinished (hopen : g.state ≠ .open) (hfin : g.isFinished = false) :
    g.state = .playing := by
  unfold GameBody.isFinished at hfin
  cases hs : g.state with
  | «open» => exact absurd hs hopen
  | playing => rfl
  | first | second | draw => simp [hs] at hfin

end Moves

/-! ## Every game is a run -/

def Ledger.Sound (L : Ledger) : Prop := ∀ id g, L id = .game g → ∃ log, GameRun g log

section Steps

variable {B : Battery} {P : DepositPolicy} {cx : ApplyContext} {L L' : Ledger} {a : ActionBody}
  {flow : Flow}

theorem Ledger.Sound.update (h : L.Sound) {i : ResourceId} {s : Slot}
    (hs : ∀ g, s = .game g → ∃ log, GameRun g log) : Ledger.Sound (update L i s) := by
  intro id g hg
  by_cases he : id = i
  · subst he
    rw [Function.update_self] at hg
    exact hs g hg
  · rw [Function.update_of_ne he] at hg
    exact h id g hg

/-- A slot that is no game is sound. -/
theorem Ledger.Sound.updateUser (h : L.Sound) (i : ResourceId) (u : UserBody) :
    Ledger.Sound (Function.update L i (.user u)) := h.update fun _ e => by cases e

theorem Ledger.Sound.updateConfig (h : L.Sound) (i : ResourceId) (c : ConfigBody) :
    Ledger.Sound (Function.update L i (.config c)) := h.update fun _ e => by cases e

theorem Ledger.Sound.updateGame (h : L.Sound) (i : ResourceId) {g : GameBody}
    (hg : ∃ log, GameRun g log) : Ledger.Sound (Function.update L i (.game g)) :=
  h.update fun _ e => by cases e; exact hg

theorem LedgerStep.sound (h : LedgerStep B P cx L a flow L') (hs : L.Sound) : L'.Sound := by
  cases h with
  | update | init => exact hs.updateConfig _ _
  | transfer | transferCreate => exact (hs.updateUser _ _).updateUser _ _
  | rotate | depositCreate | depositCredit | withdraw => exact hs.updateUser _ _
  | createGame _ _ _ _ _ _ _ _ hrounds hmark =>
    exact (hs.updateUser _ _).updateGame _ ⟨[], .created _ _ hmark hrounds⟩
  | joinGame _ _ _ _ hg hopen hne _ =>
    obtain ⟨log, hrun⟩ := hs _ _ hg
    exact (hs.updateUser _ _).updateGame _ ⟨log, hrun.joined _ hopen hne⟩
  | play hmove hg _ =>
    obtain ⟨log, hrun⟩ := hs _ _ hg
    exact hs.updateGame _ (hmove.run hrun)
  | finish hmove hg hsettle =>
    obtain ⟨log, hrun⟩ := hs _ _ hg
    cases hsettle with
    | paid => exact ((hs.updateGame _ (hmove.run hrun)).updateUser _ _).updateUser _ _

theorem sound_of_run {h : List Event} (hrun : LedgerRun B P h L) : L.Sound := by
  induction hrun with
  | genesis => exact fun _ _ e => by cases e
  | step _ hstep ih => exact hstep.sound ih

end Steps

end TicTacToe
