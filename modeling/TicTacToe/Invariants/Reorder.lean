/-
TicTacToe.Invariants.Reorder — turns may arrive in any order that keeps
each seat's own.

Accepted turns are arrivals on two streams, and the match reads them one
ply at a time (`cascade`), so two interleavings of the same cells leave the
same match and the same unread cells. What may differ is the clock and
where a ring starts.

No `sorry`, no `axiom`, no `native_decide`.
-/
import TicTacToe.Rollup

namespace TicTacToe

open Lib

/-- A turn as it arrives: who moves, where, and at what time. -/
structure Arrival where
  seat : Seat
  cell : UInt8
  now : UInt64

/-- The turns in order, each by its seat's player; `none` when one is refused. -/
def playTurns : List Arrival → GameBody → Option GameBody
  | [], g => some g
  | t :: rest, g =>
    match playTurn (g.players t.seat) t.cell t.now ⟨g, []⟩ with
    | .ok _ p => playTurns rest p.game
    | .error _ _ => none

/-- The cells a seat submitted, in its order. -/
def cellsOf (s : Seat) (l : List Arrival) : List UInt8 :=
  (l.filter fun t => t.seat = s).map Arrival.cell

/-- `l` keeps the order of both seats' cells. -/
def Interleaves (cells : Seat → List UInt8) (l : List Arrival) : Prop := ∀ s, cellsOf s l = cells s

/-- Equal games, but for the clock and the heads of the rings. -/
structure GameBody.Agree (g g' : GameBody) : Prop extends SameMatch g g' where
  state : g.state = g'.state
  board : g.board = g'.board
  roundWins : g.roundWins = g'.roundWins
  draws : g.draws = g'.draws
  queues : ∀ s, (g.pending s).toList = (g'.pending s).toList

section Turns

variable {g g' : GameBody} {u u' : Committed} {l : List Arrival}

theorem onStream_arrivals (s : Seat) (l : List Arrival) :
    Consumer.onStream s (l.map fun t => (t.seat, t.cell)) = cellsOf s l := by
  unfold Consumer.onStream cellsOf
  rw [List.filter_map, List.map_map]
  rfl

/-- A player can only be taken for the seat it sits at. -/
theorem Started.seat_eq (h : Started g u) {s seat : Seat}
    (hseat : seatOf g (g.players s) = .ok seat) : seat = s := by
  unfold seatOf GameBody.creator GameBody.joiner at hseat
  obtain rfl | rfl := Reference.seat_cases s
  · rw [if_pos rfl] at hseat
    exact (Except.ok.inj hseat).symm
  · rw [if_neg (Ne.symm h.seats_ne)] at hseat
    split at hseat
    · rw [if_pos rfl] at hseat
      exact (Except.ok.inj hseat).symm
    · rw [if_neg (by simp)] at hseat
      cases hseat

/-- Each turn in its turn was accepted. -/
theorem playTurns_cons {t : Arrival} {rest : List Arrival} (h : playTurns (t :: rest) g = some g') :
    ∃ fin p, playTurn (g.players t.seat) t.cell t.now ⟨g, []⟩ = .ok fin p ∧
      playTurns rest p.game = some g' := by
  unfold playTurns at h
  cases hturn : playTurn (g.players t.seat) t.cell t.now ⟨g, []⟩ with
  | error e p =>
    rw [hturn] at h
    cases h
  | ok fin p =>
    rw [hturn] at h
    exact ⟨fin, p, rfl, h⟩

/-- Accepted turns are a run of the consumer. -/
theorem Started.turns (h : Started g u) (hrun : playTurns l g = some g') :
    ∃ u', Started g' u' ∧ SameMatch g g' ∧
      cascade.Run u (l.map fun t => (t.seat, t.cell)) u' := by
  induction l generalizing g u with
  | nil =>
    cases hrun
    exact ⟨u, h, .refl _, .nil u⟩
  | cons t rest ih =>
    obtain ⟨fin, p, hturn, hmore⟩ := playTurns_cons hrun
    obtain ⟨seat, u₁, hseat, h₁, -, hreach⟩ := h.turn hturn
    obtain rfl := h.seat_eq hseat
    obtain ⟨u', h', hsame, hrest⟩ := ih h₁ hmore
    exact ⟨u', h', hreach.same.trans hsame, .cons ⟨hreach.steps, h₁.settled⟩ hrest⟩

/-- Two bodies that store the same match with the same unread cells. -/
theorem Started.agree {g₁ g₂ : GameBody} (h₁ : Started g₁ u) (h₂ : Started g₂ u)
    (hs₁ : SameMatch g g₁) (hs₂ : SameMatch g g₂) : g₁.Agree g₂ where
  creatorMark := hs₂.creatorMark.trans hs₁.creatorMark.symm
  roundsTotal := hs₂.roundsTotal.trans hs₁.roundsTotal.symm
  stake := hs₂.stake.trans hs₁.stake.symm
  players := hs₂.players.trans hs₁.players.symm
  state := h₁.sim.state.trans h₂.sim.state.symm
  board := h₁.sim.board.trans h₂.sim.board.symm
  roundWins := by
    funext s
    exact UInt8.toNat_inj.mp ((h₁.sim.wins s).trans (h₂.sim.wins s).symm)
  draws := UInt8.toNat_inj.mp (h₁.sim.draws.trans h₂.sim.draws.symm)
  queues s := by
    by_cases hon : u.state.result = none
    · exact (h₁.rings hon s).2.trans (h₂.rings hon s).2.symm
    · rw [h₁.cleared hon, h₂.cleared hon]

end Turns

section Reorder

variable {B : Battery} {P : DepositPolicy} {R : Rollup} {st : Store}

/-- **Reorder tolerance.** From any playing game, two accepted interleavings of
the same cells end in games that agree. -/
theorem interleavings_agree (hR : Reachable B P R) (hst : R.Observed B P st) {id : ResourceId}
    {g g₁ g₂ : GameBody} (hg : GameBody.fromBytes (st id) = .ok g) (hplaying : g.state = .playing)
    {cells : Seat → List UInt8} {l₁ l₂ : List Arrival} (hl₁ : Interleaves cells l₁)
    (hl₂ : Interleaves cells l₂) (h₁ : playTurns l₁ g = some g₁) (h₂ : playTurns l₂ g = some g₂) :
    g₁.Agree g₂ := by
  obtain ⟨hist, hrun⟩ := hst.run hR
  obtain ⟨log, hlog⟩ := sound_of_run hrun id g (Slot.parse_eq_game.mpr hg)
  obtain ⟨u, hs, -⟩ := hlog.playing hplaying
  obtain ⟨u₁, hs₁, hsame₁, hrun₁⟩ := hs.turns h₁
  obtain ⟨u₂, hs₂, hsame₂, hrun₂⟩ := hs.turns h₂
  have hu : u₁ = u₂ := Consumer.run_interleaving hs.settled hrun₁ hrun₂ fun s => by
    rw [onStream_arrivals, onStream_arrivals, hl₁, hl₂]
  exact (hu ▸ hs₁).agree hs₂ hsame₁ hsame₂

/-- Both players move once, in either order. -/
theorem interleavings_agree_opened :
    ∃ g g₁ g₂, GameBody.fromBytes (Sample.opened.store Sample.gameId) = .ok g ∧
      playTurns [⟨0, 4, 101⟩, ⟨1, 0, 102⟩] g = some g₁ ∧
      playTurns [⟨1, 0, 101⟩, ⟨0, 4, 102⟩] g = some g₂ ∧ g₁.Agree g₂ := by
  obtain ⟨g, hg, hcheck⟩ := ok_of_any
    (x := GameBody.fromBytes (Sample.opened.store Sample.gameId))
    (p := fun g => g.state = .playing ∧
      (playTurns [⟨0, 4, 101⟩, ⟨1, 0, 102⟩] g).isSome ∧
      (playTurns [⟨1, 0, 101⟩, ⟨0, 4, 102⟩] g).isSome) (by decide +kernel)
  obtain ⟨hplaying, h₁, h₂⟩ := of_decide_eq_true hcheck
  obtain ⟨g₁, h₁⟩ := Option.isSome_iff_exists.mp h₁
  obtain ⟨g₂, h₂⟩ := Option.isSome_iff_exists.mp h₂
  have hl₁ : Interleaves (fun s => if s = 0 then [4] else [0]) [⟨0, 4, 101⟩, ⟨1, 0, 102⟩] := by
    unfold Interleaves
    decide
  have hl₂ : Interleaves (fun s => if s = 0 then [4] else [0]) [⟨1, 0, 101⟩, ⟨0, 4, 102⟩] := by
    unfold Interleaves
    decide
  exact ⟨g, g₁, g₂, hg, h₁, h₂,
    interleavings_agree Sample.reachable_opened .between hg hplaying hl₁ hl₂ h₁ h₂⟩

end Reorder

end TicTacToe
