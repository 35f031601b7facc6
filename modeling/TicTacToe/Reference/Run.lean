/-
TicTacToe.Reference.Run — whole careers of one game: created, joined, then
any turns and timeouts by anyone, with any cells, clocks and windows.

`GameRun g log` is such a run, ending in the body `g` with the plies
`log`. `gameRun_phase` finds the run a reference match: the log replays
legally, and `g` stores what it replays to, settled.

No `sorry`, no `axiom`, no `native_decide`.
-/
import TicTacToe.Reference.Cascade

namespace TicTacToe

open Lib
open Reference (Mark)

inductive GameRun : GameBody → List PlyEvent → Prop
  | created (creator : ResourceId) {mark : Cell} (stake : UInt64) {rounds : UInt8} :
      mark ≠ .empty → rounds ≠ 0 → GameRun (GameBody.fresh creator mark stake rounds) []
  | joined {g : GameBody} {log : List PlyEvent} {joiner : ResourceId} (now : UInt64) :
      GameRun g log → g.state = .open → joiner ≠ g.creator →
      GameRun (g.seatJoiner joiner now) log
  | turned {g g' : GameBody} {log l : List PlyEvent} {mover : ResourceId} {cell : UInt8}
      {now : UInt64} {fin : Bool} :
      GameRun g log → playTurn mover cell now ⟨g, []⟩ = .ok fin ⟨g', l⟩ → GameRun g' (log ++ l)
  | timedOut {g g' : GameBody} {log l : List PlyEvent} {turnTtl now : UInt64} {fin : Bool} :
      GameRun g log → forfeitRound turnTtl now ⟨g, []⟩ = .ok fin ⟨g', l⟩ → GameRun g' (log ++ l)

/-- Nobody joined yet: the body is as it was written. -/
structure Unjoined (g : GameBody) (mark : Mark) : Prop where
  rounds_ne : g.roundsTotal ≠ 0
  eq_fresh : g = GameBody.fresh g.creator mark.toCell g.stake g.roundsTotal

/-- Both seats are taken, by different users, and the body stores the match
with its commitments, settled. -/
structure Started (g : GameBody) (u : Committed) : Prop extends Stores g u where
  seats_ne : g.players 1 ≠ g.players 0
  settled : cascade.Settled u

theorem Unjoined.state {g : GameBody} {mark : Mark} (h : Unjoined g mark) : g.state = .open := by
  rw [h.eq_fresh]
  rfl

theorem Unjoined.idle {g : GameBody} {mark : Mark} (h : Unjoined g mark) : g.state ≠ .playing := by
  rw [h.state]
  decide

theorem Started.state_ne_open {g : GameBody} {u : Committed} (h : Started g u) :
    g.state ≠ .open := by
  rw [h.sim.state]
  rcases u.state.result with _ | ⟨s⟩ | _
  · decide
  · revert s
    decide
  · decide

@[simp] theorem GameBody.seatJoiner_creator (g : GameBody) (joiner : ResourceId) (now : UInt64) :
    (g.seatJoiner joiner now).players 0 = g.players 0 := by
  show Function.update g.players 1 joiner 0 = g.players 0
  exact Function.update_of_ne (by decide) _ _

@[simp] theorem GameBody.seatJoiner_joiner (g : GameBody) (joiner : ResourceId) (now : UInt64) :
    (g.seatJoiner joiner now).players 1 = joiner := by
  show Function.update g.players 1 joiner 1 = joiner
  exact Function.update_self ..

section Steps

variable {g g' : GameBody} {u : Committed} {l : List PlyEvent} {mark : Mark}

/-- Joining starts the reference match. -/
theorem Unjoined.join (h : Unjoined g mark) {joiner : ResourceId} (now : UInt64)
    (hc : joiner ≠ g.creator) :
    Started (g.seatJoiner joiner now)
      ⟨Reference.Match.start mark g.roundsTotal.toNat, fun _ => []⟩ := by
  have hpos : 0 < g.roundsTotal.toNat := by
    refine Nat.pos_of_ne_zero fun h0 => h.rounds_ne ?_
    exact UInt8.toNat_inj.mp h0
  have hcreator := g.seatJoiner_creator joiner now
  have hjoiner := g.seatJoiner_joiner joiner now
  rw [h.eq_fresh] at hcreator hjoiner ⊢
  refine ⟨⟨⟨⟨rfl, rfl, fun _ => rfl, rfl⟩, rfl, rfl⟩, Reference.Match.valid_start hpos,
    fun _ s => ⟨PendingQueue.queueOk_zeroed, rfl⟩, fun hover => absurd rfl hover⟩, ?_,
    fun _ _ => rfl⟩
  rw [hjoiner, hcreator]
  exact hc

/-- The two seats are told apart by the players' ids. -/
theorem Started.seatOf_player (h : Started g u) (hj : g.players 1 ≠ ResourceId.default) (s : Seat) :
    seatOf g (g.players s) = .ok s := by
  unfold seatOf GameBody.creator GameBody.joiner
  obtain rfl | rfl := Reference.seat_cases s
  · rw [if_pos rfl]
  · rw [if_neg (Ne.symm h.seats_ne), if_pos hj, if_pos rfl]

theorem Started.of_follows (h : Started g u) {log : List PlyEvent} {r : Reference.Match}
    {p' : Play} {u' : Committed} (hf : Follows g log r p' u') (hset : cascade.Settled u') :
    Started p'.game u' where
  toStores := hf.stores
  seats_ne := by
    rw [hf.same.players]
    exact h.seats_ne
  settled := hset

/-- A cell off the board is never accepted. -/
theorem wp_playTurn_offBoard {mover : ResourceId} {cell : UInt8} {now : UInt64}
    {log : List PlyEvent} (hcell : ¬ cell.toNat < 9) :
    wp (playTurn mover cell now) (fun _ _ => False) (fun _ _ => True) ⟨g, log⟩ := by
  simp only [playTurn, wp_bind, wp_get]
  by_cases hplaying : g.state = .playing
  · simp only [hplaying, ne_eq, not_true_eq_false, if_false]
    cases seatOf g mover with
    | error e => trivial
    | ok seat => simp [commitExplicit, index, hcell]
  · simp only [hplaying, ne_eq, not_false_eq_true, if_true, wp_throw]

/-- What an accepted turn was. -/
theorem Started.turn (h : Started g u) {mover : ResourceId} {cell : UInt8} {now : UInt64}
    {log : List PlyEvent} {fin : Bool} {p' : Play}
    (hrun : playTurn mover cell now ⟨g, log⟩ = .ok fin p') :
    ∃ seat u', seatOf g mover = .ok seat ∧ Started p'.game u' ∧ fin = p'.game.isFinished ∧
      Consumes g log (Consumer.push u (seat, cell)) p' u' := by
  by_cases hcell : cell.toNat < 9
  · by_cases hon : u.state.result = none
    · obtain ⟨seat, u', hseat, hreach, hset, hfin⟩ :=
        (wp_playTurn log h.toStores h.settled hon hcell mover).ok hrun
      exact ⟨seat, u', hseat, h.of_follows hreach.toFollows hset, hfin, hreach⟩
    · have hidle : g.state ≠ .playing := fun e => hon (h.playing_iff.mp e)
      exact ((wp_playTurn_idle hidle mover cell).ok hrun).elim
  · exact ((wp_playTurn_offBoard hcell).ok hrun).elim

theorem Started.timeout (h : Started g u) {turnTtl now : UInt64} {log : List PlyEvent}
    {fin : Bool} {p' : Play} (hrun : forfeitRound turnTtl now ⟨g, log⟩ = .ok fin p') :
    ∃ u', Started p'.game u' ∧ fin = p'.game.isFinished ∧ Follows g log u.state p' u' ∧
      Told log p'.log u u' := by
  by_cases hon : u.state.result = none
  · obtain ⟨u', hfollows, htold, hset, hfin⟩ :=
      (wp_forfeitRound log h.toStores hon turnTtl now).ok hrun
    exact ⟨u', h.of_follows hfollows hset, hfin, hfollows, htold⟩
  · have hidle : g.state ≠ .playing := fun e => hon (h.playing_iff.mp e)
    exact ((wp_forfeitRound_idle hidle turnTtl now).ok hrun).elim

end Steps

/-- Where a run stands: not joined, or started with its log replaying to
what is stored. -/
inductive Phase (g : GameBody) (log : List PlyEvent) : Prop
  | unjoined (mark : Mark) : Unjoined g mark → log = [] → Phase g log
  | started (mark : Mark) (u : Committed) : g.creatorMark = mark.toCell → Started g u →
      replayLog (Reference.Match.start mark g.roundsTotal.toNat) log = some u.state → Phase g log

theorem Phase.follows {g : GameBody} {log l : List PlyEvent} {mark : Mark} {u u' : Committed}
    {p' : Play} (hmark : g.creatorMark = mark.toCell)
    (hlog : replayLog (Reference.Match.start mark g.roundsTotal.toNat) log = some u.state)
    (hf : Follows g [] u.state p' u') (hs : Started p'.game u') (hl : p'.log = l) :
    Phase p'.game (log ++ l) := by
  obtain ⟨l', hl', hr⟩ := hf.replay
  rw [List.nil_append] at hl'
  refine .started mark u' (hf.same.creatorMark.trans hmark) hs ?_
  rw [hf.same.roundsTotal, replayLog_append hlog, ← hl, hl', hr]

/-- Every run on one game stands at a reference match. -/
theorem gameRun_phase {g : GameBody} {log : List PlyEvent} (h : GameRun g log) : Phase g log := by
  induction h with
  | created creator stake hmark hrounds =>
    obtain ⟨m, rfl⟩ := Mark.exists_toCell hmark
    exact .unjoined m ⟨hrounds, rfl⟩ rfl
  | @joined g log joiner now _ hopen hc ih =>
    cases ih with
    | unjoined mark hu hlog =>
      refine .started mark _ ?_ (hu.join now hc) (hlog ▸ rfl)
      show g.creatorMark = _
      rw [hu.eq_fresh]
      rfl
    | started mark u _ hs _ => exact absurd hopen hs.state_ne_open
  | turned _ hrun ih =>
    cases ih with
    | unjoined mark hu _ => exact ((wp_playTurn_idle hu.idle _ _).ok hrun).elim
    | started mark u hmark hs hlog =>
      obtain ⟨seat, u', _, hs', _, hreach⟩ := hs.turn hrun
      exact Phase.follows hmark hlog hreach.toFollows hs' rfl
  | timedOut _ hrun ih =>
    cases ih with
    | unjoined mark hu _ => exact ((wp_forfeitRound_idle hu.idle _ _).ok hrun).elim
    | started mark u hmark hs hlog =>
      obtain ⟨u', hs', _, hf, _⟩ := hs.timeout hrun
      exact Phase.follows hmark hlog hf hs' rfl

/-- Past the join, a run has started its match. -/
theorem GameRun.started {g : GameBody} {log : List PlyEvent} (h : GameRun g log)
    (hopen : g.state ≠ .open) : ∃ u, Started g u := by
  cases gameRun_phase h with
  | unjoined mark hu _ => exact absurd hu.state hopen
  | started mark u _ hs _ => exact ⟨u, hs⟩

theorem GameRun.playing {g : GameBody} {log : List PlyEvent} (h : GameRun g log)
    (hplaying : g.state = .playing) : ∃ u, Started g u ∧ u.state.result = none := by
  obtain ⟨u, hs⟩ := h.started (by rw [hplaying]; decide)
  exact ⟨u, hs, hs.playing_iff.mp hplaying⟩

/-- **Refinement.** The plies of any run on one game replay legally on the
reference match, and the stored board, round wins, draws and state are the
reference's. -/
theorem gameRun_refines_reference {g : GameBody} {log : List PlyEvent} (h : GameRun g log) :
    ∃ mark r, g.creatorMark = mark.toCell ∧
      replayLog (Reference.Match.start mark g.roundsTotal.toNat) log = some r ∧
      g.board = boardOf r.moves ∧ (∀ s, (g.roundWins s).toNat = r.wins s) ∧
      g.draws.toNat = r.draws ∧
      (g.state = .open ∧ log = [] ∨ g.state = stateOf r.result) := by
  cases gameRun_phase h with
  | unjoined mark hu hlog =>
    have hfresh := hu.eq_fresh
    refine ⟨mark, Reference.Match.start mark g.roundsTotal.toNat, ?_, hlog ▸ rfl, ?_, ?_, ?_,
      .inl ⟨hu.state, hlog⟩⟩
    · rw [hfresh]; rfl
    · rw [hfresh]; rfl
    · rw [hfresh]; exact fun _ => rfl
    · rw [hfresh]; rfl
  | started mark u hmark hs hlog =>
    exact ⟨mark, u.state, hmark, hlog, hs.sim.board, hs.sim.wins, hs.sim.draws,
      .inr hs.sim.state⟩

namespace Sample

/-- A turn of a player, or a claim of the round. -/
inductive Call where
  | turn (mover : ResourceId) (cell : UInt8)
  | timeout

def Call.play (now : UInt64) : Call → PlayM Bool
  | .turn mover cell => playTurn mover cell now
  | .timeout => forfeitRound 10 now

/-- The calls one after the other, ten scores apart. -/
def calls (now : UInt64) : List Call → GameBody → List PlyEvent → Option (GameBody × List PlyEvent)
  | [], g, log => some (g, log)
  | c :: cs, g, log =>
    match c.play now ⟨g, []⟩ with
    | .ok _ ⟨g', l⟩ => calls (now + 10) cs g' (log ++ l)
    | .error _ _ => none

theorem gameRun_calls {now : UInt64} {cs : List Call} {g g' : GameBody} {log log' : List PlyEvent}
    (h : GameRun g log) (hrun : calls now cs g log = some (g', log')) : GameRun g' log' := by
  induction cs generalizing now g log with
  | nil =>
    cases hrun
    exact h
  | cons c cs ih =>
    rw [calls] at hrun
    cases hplay : c.play now ⟨g, []⟩ with
    | error e p =>
      rw [hplay] at hrun
      cases hrun
    | ok fin p =>
      rw [hplay] at hrun
      cases c with
      | turn mover cell => exact ih (.turned h hplay) hrun
      | timeout => exact ih (.timedOut h hplay) hrun

/-- Two players, and their match of five rounds. -/
def anna : ResourceId := padTo 32 [0x0a]

def boris : ResourceId := padTo 32 [0x0b]

def started : GameBody := (GameBody.fresh anna .x 5 5).seatJoiner boris 100

/-- The second player queues two replies; the first wins the round, is given
the next one and opens the third. -/
def firstRounds : List Call :=
  [.turn boris 3, .turn boris 4, .turn anna 0, .turn anna 1, .turn anna 2, .timeout, .turn anna 8]

end Sample

/-- Queued and explicit marks of a won round, a claimed round, a third begun. -/
theorem gameRun_refines_reference_rounds :
    ∃ g log, Sample.calls 101 Sample.firstRounds Sample.started [] = some (g, log) ∧
      log = [.placed 0 0 .x, .placed 1 3 .o, .placed 0 1 .x, .placed 1 4 .o, .placed 0 2 .x,
        .forfeited 0, .placed 0 8 .x] ∧
      ∃ mark r, g.creatorMark = mark.toCell ∧
        replayLog (Reference.Match.start mark g.roundsTotal.toNat) log = some r ∧
        g.board = boardOf r.moves ∧ (∀ s, (g.roundWins s).toNat = r.wins s) ∧
        g.draws.toNat = r.draws ∧ (g.state = .open ∧ log = [] ∨ g.state = stateOf r.result) := by
  have hcheck : ((Sample.calls 101 Sample.firstRounds Sample.started []).map Prod.snd)
      = some [.placed 0 0 .x, .placed 1 3 .o, .placed 0 1 .x, .placed 1 4 .o, .placed 0 2 .x,
        .forfeited 0, .placed 0 8 .x] := by decide +kernel
  obtain ⟨⟨g, log⟩, hrun, hlog⟩ := Option.map_eq_some_iff.mp hcheck
  have hstarted : GameRun Sample.started [] :=
    .joined 100 (.created Sample.anna 5 (by decide) (by decide)) rfl (by decide +kernel)
  exact ⟨g, log, hrun, hlog, gameRun_refines_reference (Sample.gameRun_calls hstarted hrun)⟩

end TicTacToe
