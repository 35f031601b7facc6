/-
TicTacToe.Invariants.Quiescence — the pre-commit cascade runs to the end.

The first part is about any game body whose rings are well formed, run or
not: each pass of `drain_pending` takes one entry, so the entries bound
the passes, and what is left is a finished match without commitments or a
seat to move that has none (`wp_drainPending_quiet`). A counter can only
overflow in a body that records more rounds than it has (`RoundsLeft`).

The second part is about stored games: the seat to move never has a
commitment waiting (`Started.quiet`), so a turn on one's own ply passes no
earlier one and a forfeit takes no round from a seat that had one.

No `sorry`, no `axiom`, no `native_decide`.
-/
import TicTacToe.Action.Stamp
import TicTacToe.Invariants.Representation

namespace TicTacToe

open Lib

/-- Both rings are well formed, and nothing is queued unless the match is on. -/
structure ValidQueues (g : GameBody) : Prop where
  rings : ∀ s, QueueOk (g.pending s)
  idle : g.state ≠ .playing → g.pending = fun _ => .zeroed

/-- While the match is on, the counters record fewer rounds than it has. -/
def RoundsLeft (g : GameBody) : Prop :=
  g.state = .playing → g.completed < g.roundsTotal.toNat

/-- What is queued, over both seats. -/
def GameBody.queued (g : GameBody) : Nat :=
  (g.pending 0).count.toNat + (g.pending 1).count.toNat

/-! ## Closing a round -/

theorem matchOutcome_final {n : UInt8} {wins : Seat → UInt8} {draws : UInt8} {s : State}
    (h : Rules.matchOutcome n wins draws = some s) : s = .first ∨ s = .second ∨ s = .draw := by
  unfold Rules.matchOutcome at h
  dsimp only at h
  split at h
  · exact .inl (Option.some.inj h).symm
  · split at h
    · exact .inr (.inl (Option.some.inj h).symm)
    · split at h
      · have hs := Option.some.inj h
        split at hs
        · exact .inl hs.symm
        · exact .inr (.inl hs.symm)
        · exact .inr (.inr hs.symm)
      · cases h

theorem matchOutcome_open {n : UInt8} {wins : Seat → UInt8} {draws : UInt8}
    (h : Rules.matchOutcome n wins draws = none) :
    (wins 0).toNat + (wins 1).toNat + draws.toNat < n.toNat := by
  unfold Rules.matchOutcome at h
  dsimp only at h
  split at h
  · cases h
  · split at h
    · cases h
    · split at h
      · cases h
      · omega

/-- What a ply leaves of the queues, the clock and the bound on the rounds. -/
structure Landed (now : UInt64) (g g' : GameBody) : Prop where
  clock : g'.lastMoveAt = now
  queues : g'.state = .playing ∧ g'.pending = g.pending ∨
    g'.isFinished = true ∧ g'.pending = fun _ => .zeroed
  left : RoundsLeft g → RoundsLeft g'

theorem GameBody.playing_unfinished {g : GameBody} (h : g.state = .playing) :
    g.isFinished = false := by
  rw [GameBody.isFinished, h]

/-- A round that closes leaves rounds to play, or a finished match. -/
theorem landed_closeRound (g g₁ : GameBody) {now : UInt64} (hon : g₁.state = .playing)
    (hclock : g₁.lastMoveAt = now) (hpending : g₁.pending = g.pending) :
    Landed now g (endMatchIfDecided { g₁ with board := Board.cleared }) ∧
      RoundsLeft (endMatchIfDecided { g₁ with board := Board.cleared }) := by
  unfold endMatchIfDecided
  dsimp only
  cases hout : Rules.matchOutcome g₁.roundsTotal g₁.roundWins g₁.draws with
  | none =>
    have hleft : RoundsLeft { g₁ with board := Board.cleared } := fun _ => matchOutcome_open hout
    exact ⟨⟨hclock, .inl ⟨hon, hpending⟩, fun _ => hleft⟩, hleft⟩
  | some s =>
    have hfin : GameBody.isFinished
        { { g₁ with board := Board.cleared } with state := s }.clearPending = true := by
      obtain rfl | rfl | rfl := matchOutcome_final hout
      · rfl
      · rfl
      · rfl
    have hleft : RoundsLeft { { g₁ with board := Board.cleared } with state := s }.clearPending := by
      intro he
      rw [GameBody.playing_unfinished he] at hfin
      cases hfin
    exact ⟨⟨hclock, .inr ⟨hfin, rfl⟩, fun _ => hleft⟩, hleft⟩

/-! ## A ply of any body -/

theorem addU8_cases (a b : UInt8) :
    addU8 a b = .ok (a + b) ∧ a.toNat + b.toNat < 256 ∧ (a + b).toNat = a.toNat + b.toNat ∨
      addU8 a b = .error .panic ∧ 256 ≤ a.toNat + b.toNat := by
  by_cases h : a.toNat + b.toNat < 256
  · exact .inl ⟨(addU8_eq_ok h).1, h, (addU8_eq_ok h).2⟩
  · exact .inr ⟨if_neg h, Nat.le_of_not_lt h⟩

section Ply

variable {g : GameBody} {log : List PlyEvent} {now : UInt64}

/-- What overflows is not a match in progress. -/
theorem not_roundsLeft (hon : g.state = .playing) (h : 255 ≤ g.completed) : ¬ RoundsLeft g := by
  intro hleft
  have hlt := hleft hon
  have hfits := g.roundsTotal.toNat_lt
  omega

theorem markAndRound_cases (hon : g.state = .playing) :
    (∃ m, markAndRound g = .ok m) ∨ markAndRound g = .error .panic ∧ ¬ RoundsLeft g := by
  unfold markAndRound
  obtain ⟨h₁, -, hval⟩ | ⟨h₁, hbig⟩ := addU8_cases (g.roundWins 0) (g.roundWins 1)
  · obtain ⟨h₂, -⟩ | ⟨h₂, hbig⟩ := addU8_cases (g.roundWins 0 + g.roundWins 1) g.draws
    · exact .inl ⟨_, by rw [h₁]; dsimp only [bind, Except.bind]; rw [h₂]; rfl⟩
    · refine .inr ⟨by rw [h₁]; dsimp only [bind, Except.bind]; rw [h₂], not_roundsLeft hon ?_⟩
      unfold GameBody.completed
      omega
  · refine .inr ⟨by rw [h₁]; rfl, not_roundsLeft hon ?_⟩
    unfold GameBody.completed
    omega

theorem toMove_cases (hon : g.state = .playing) :
    (∃ s, toMove g = .ok s) ∨ toMove g = .error .panic ∧ ¬ RoundsLeft g := by
  unfold toMove
  obtain ⟨m, hm⟩ | ⟨hm, hno⟩ := markAndRound_cases hon
  · exact .inl ⟨_, by rw [hm]; rfl⟩
  · exact .inr ⟨by rw [hm]; rfl, hno⟩

theorem wp_bumpRoundWins_any (hon : g.state = .playing) (seat : Seat)
    {Q : Unit → Play → Prop}
    (hQ : ∀ w, Q () ⟨{ g with roundWins := w }, log⟩) :
    wp (bumpRoundWins seat) Q (fun e _ => e = .panic ∧ ¬ RoundsLeft g) ⟨g, log⟩ := by
  simp only [bumpRoundWins, wp_bind, wp_get]
  obtain ⟨h, -⟩ | ⟨h, hbig⟩ := addU8_cases (g.roundWins seat) 1
  · rw [h, wp_liftE_ok, wp_set]
    exact hQ _
  · rw [h, wp_liftE_error]
    have hone : (1 : UInt8).toNat = 1 := rfl
    refine ⟨rfl, not_roundsLeft hon ?_⟩
    unfold GameBody.completed
    obtain rfl | rfl := Reference.seat_cases seat
    · omega
    · omega

theorem wp_bumpDraws_any (hon : g.state = .playing) {Q : Unit → Play → Prop}
    (hQ : ∀ d, Q () ⟨{ g with draws := d }, log⟩) :
    wp bumpDraws Q (fun e _ => e = .panic ∧ ¬ RoundsLeft g) ⟨g, log⟩ := by
  simp only [bumpDraws, wp_bind, wp_get]
  obtain ⟨h, -⟩ | ⟨h, hbig⟩ := addU8_cases g.draws 1
  · rw [h, wp_liftE_ok, wp_set]
    exact hQ _
  · rw [h, wp_liftE_error]
    have hone : (1 : UInt8).toNat = 1 := rfl
    refine ⟨rfl, not_roundsLeft hon ?_⟩
    unfold GameBody.completed
    omega

/-- A mark on the board stamps the clock and leaves the queues alone, unless
it ends the match. -/
theorem wp_applyMove_landed (hon : g.state = .playing) (seat : Seat) {cell : UInt8}
    (hcell : cell.toNat < 9) :
    wp (applyMove seat cell now) (fun _ p' => Landed now g p'.game)
      (fun e _ => e = .panic ∧ ¬ RoundsLeft g) ⟨g, log⟩ := by
  simp only [applyMove, wp_bind, wp_get]
  obtain ⟨m, hm⟩ | ⟨hm, hno⟩ := markAndRound_cases hon
  swap
  · rw [hm, wp_liftE_error]
    exact ⟨rfl, hno⟩
  rw [hm, wp_liftE_ok]
  simp only [setIndex_ok hcell, wp_liftE_ok, wp_set]
  set board := Function.update g.board ⟨cell.toNat, hcell⟩ (Rules.markForSeat m.1 m.2 seat)
  set g₁ : GameBody := { g with board := board, lastMoveAt := now } with hg₁
  rw [wp_ite]
  refine ⟨fun _ => ?_, fun _ => ?_⟩
  · rw [wp_bind]
    refine wp_bumpRoundWins_any (g := g₁) hon seat fun w => ?_
    rw [closeRound, wp_modify]
    exact (landed_closeRound g { g₁ with roundWins := w } hon rfl rfl).1
  · rw [wp_ite]
    refine ⟨fun _ => ?_, fun _ => ?_⟩
    · rw [wp_bind]
      refine wp_bumpDraws_any (g := g₁) hon fun d => ?_
      rw [closeRound, wp_modify]
      exact (landed_closeRound g { g₁ with draws := d } hon rfl rfl).1
    · rw [wp_pure]
      exact ⟨rfl, .inl ⟨hon, rfl⟩, id⟩

end Ply

/-! ## The cascade of any body -/

/-- Nothing more to do: the match is over and both rings are zeroed, or the
seat to move has nothing queued. -/
def Quiet (g : GameBody) : Prop :=
  g.isFinished = true ∧ (g.pending = fun _ => .zeroed) ∨
    g.isFinished = false ∧ ∀ s, toMove g = .ok s → (g.pending s).count = 0

/-- What a cascade leaves behind. -/
structure Drained (now : UInt64) (g g' : GameBody) : Prop where
  quiet : Quiet g'
  valid : ValidQueues g'
  clock : g'.lastMoveAt = g.lastMoveAt ∨ g'.lastMoveAt = now
  left : RoundsLeft g → RoundsLeft g'

section Drain

variable {g : GameBody} {log : List PlyEvent} {now : UInt64}

theorem ValidQueues.landed {g' : GameBody} (hv : ∀ s, QueueOk (g.pending s))
    (h : Landed now g g') : ValidQueues g' := by
  obtain ⟨hon, hsame⟩ | ⟨hfin, hzero⟩ := h.queues
  · exact ⟨fun s => hsame ▸ hv s, fun hidle => absurd hon hidle⟩
  · exact ⟨fun s => hzero ▸ PendingQueue.queueOk_zeroed, fun _ => hzero⟩

theorem Landed.queued_le {g' : GameBody} (h : Landed now g g') : g'.queued ≤ g.queued := by
  unfold GameBody.queued
  obtain ⟨-, hsame⟩ | ⟨-, hzero⟩ := h.queues
  · rw [hsame]
  · rw [hzero]
    exact Nat.zero_le _

/-- A ring that is put back shorter. -/
theorem queued_update (g : GameBody) (s : Seat) {q : PendingQueue}
    (hq : q.count.toNat + 1 = (g.pending s).count.toNat) :
    GameBody.queued { g with pending := Function.update g.pending s q } + 1 = g.queued := by
  unfold GameBody.queued
  obtain rfl | rfl := Reference.seat_cases s
  · simp
    omega
  · simp
    omega

theorem count_eq_zero {q : PendingQueue} (h : q.toList = []) : q.count = 0 := by
  have hlen := q.length_toList
  rw [h] at hlen
  exact UInt8.toNat_inj.mp hlen.symm

/-- With more passes than there are entries the loop ends, and it ends quiet;
the one way to fail is a counter overflow. -/
theorem wp_drainPending_quiet (now : UInt64) (fuel : Nat) {g : GameBody} (log : List PlyEvent)
    (hv : ValidQueues g) (hfuel : g.queued < fuel) :
    wp (drainPending now fuel) (fun _ p' => Drained now g p'.game)
      (fun e _ => e = .panic ∧ ¬ RoundsLeft g) ⟨g, log⟩ := by
  induction fuel generalizing g log with
  | zero => exact absurd hfuel (Nat.not_lt_zero _)
  | succ n ih =>
    simp only [drainPending, wp_bind, wp_get]
    by_cases hon : g.state = .playing
    swap
    · rw [if_neg hon, wp_pure]
      refine ⟨?_, hv, .inl rfl, id⟩
      cases hfin : g.isFinished with
      | true => exact .inl ⟨hfin, hv.idle hon⟩
      | false =>
        refine .inr ⟨hfin, fun s _ => ?_⟩
        rw [hv.idle hon]
        rfl
    rw [if_pos hon, wp_bind]
    obtain ⟨s, hs⟩ | ⟨hs, hno⟩ := toMove_cases hon
    swap
    · rw [hs, wp_liftE_error]
      exact ⟨rfl, hno⟩
    have hring := hv.rings s
    rw [hs, wp_liftE_ok, wp_bind, PendingQueue.peek_eq hring, wp_liftE_ok]
    cases hq : (g.pending s).toList with
    | nil =>
      rw [List.head?_nil, wp_pure]
      refine ⟨.inr ⟨GameBody.playing_unfinished hon, fun t ht => ?_⟩, hv, .inl rfl, id⟩
      rw [hs] at ht
      cases ht
      exact count_eq_zero hq
    | cons cell rest =>
      rw [List.head?_cons]
      dsimp only
      rw [wp_bind]
      refine (wp_zoom_some _).mpr (PendingQueue.wp_pop hring hq fun q' hq' hrest => ?_)
      simp only [wp_bind, wp_get]
      have hcell : cell.toNat < 9 := hring.cells_lt cell (by simp [hq])
      -- one entry less is queued, and nothing else changed
      set g₁ : GameBody := { g with pending := Function.update g.pending s q' } with hg₁
      have hon₁ : g₁.state = .playing := hon
      have hv₁ : ∀ t, QueueOk (g₁.pending t) := by
        intro t
        by_cases ht : t = s
        · subst ht
          rw [hg₁]
          dsimp only
          rw [Function.update_self]
          exact hq'
        · rw [hg₁]
          dsimp only
          rw [Function.update_of_ne ht]
          exact hv.rings t
      have hqueued : g₁.queued + 1 = g.queued := queued_update g s (by
        rw [← PendingQueue.length_toList, ← PendingQueue.length_toList, hq, hrest]
        rfl)
      have hleft₁ : RoundsLeft g → RoundsLeft g₁ := id
      rw [index_ok hcell, wp_liftE_ok, wp_ite]
      refine ⟨fun _ => ?_, fun _ => ?_⟩
      · rw [wp_bind]
        refine wp_mono (wp_applyMove_landed (g := g₁) hon₁ s hcell) ?_ fun e p hp => hp
        intro _ p' hland
        have hlt : p'.game.queued < n := by
          have hle := hland.queued_le
          omega
        refine wp_mono (ih p'.log (.landed hv₁ hland) hlt) ?_ ?_
        · intro _ p'' hd
          refine ⟨hd.quiet, hd.valid, ?_, fun h => hd.left (hland.left (hleft₁ h))⟩
          rcases hd.clock with h | h
          · exact .inr (h.trans hland.clock)
          · exact .inr h
        · intro e _ hp
          exact ⟨hp.1, fun h => hp.2 (hland.left (hleft₁ h))⟩
      · have hv₁' : ValidQueues g₁ := ⟨hv₁, fun hidle => absurd hon₁ hidle⟩
        refine wp_mono (ih log hv₁' (by omega)) ?_ ?_
        · intro _ p'' hd
          exact ⟨hd.quiet, hd.valid, hd.clock, hd.left⟩
        · intro e _ hp
          exact hp

theorem wp_drain_quiet (hv : ValidQueues g) :
    wp (drain now) (fun _ p' => Drained now g p'.game) (fun e _ => e = .panic ∧ ¬ RoundsLeft g)
      ⟨g, log⟩ := by
  simp only [drain, wp_bind, wp_get]
  exact wp_drainPending_quiet now _ log hv (Nat.lt_succ_self _)

/-- A claim on a body with valid rings is granted once it is due; only a
counter overflow stands in its way. -/
theorem wp_forfeitRound_quiet {turnTtl deadline : UInt64} (hv : ValidQueues g)
    (hon : g.state = .playing) (hdl : checkedAdd g.lastMoveAt turnTtl = some deadline)
    (hdue : ¬ now < deadline) :
    wp (forfeitRound turnTtl now)
      (fun _ p' => ValidQueues p'.game ∧ Quiet p'.game ∧ RoundsLeft p'.game)
      (fun e _ => e = .panic ∧ ¬ RoundsLeft g) ⟨g, log⟩ := by
  simp only [forfeitRound, wp_bind, wp_get, hon, hdl, ne_eq, not_true_eq_false, if_false, hdue]
  obtain ⟨s, hs⟩ | ⟨hs, hno⟩ := toMove_cases hon
  swap
  · rw [hs, wp_liftE_error]
    exact ⟨rfl, hno⟩
  rw [hs, wp_liftE_ok]
  refine wp_bumpRoundWins_any hon _ fun w => ?_
  rw [wp_modify, closeRound, wp_modify]
  obtain ⟨hland, hleft⟩ :=
    landed_closeRound g { g with roundWins := w, lastMoveAt := now } hon rfl rfl
  refine wp_mono (wp_drain_quiet (.landed hv.rings hland)) ?_ ?_
  · intro _ p' hd
    exact ⟨hd.valid, hd.quiet, hd.left hleft⟩
  · intro e _ hp
    exact absurd hleft hp.2

end Drain

/-! ## Stored games -/

section Stored

variable {g : GameBody} {log : List PlyEvent}

/-- The seat to move has nothing queued. -/
theorem Started.quiet {u : Committed} (h : Started g u) (hon : g.state = .playing) :
    ∃ s, toMove g = .ok s ∧ (g.pending s).count = 0 := by
  have hres := h.playing_iff.mp hon
  refine ⟨u.state.mover, toMove_sim h.sim h.valid, count_eq_zero ?_⟩
  rw [(h.rings hres _).2]
  exact h.settled _ (need_eq_mover hres)

theorem GameRun.quiet (h : GameRun g log) (hon : g.state = .playing) :
    ∃ s, toMove g = .ok s ∧ (g.pending s).count = 0 := by
  obtain ⟨_, hs, -⟩ := h.playing hon
  exact hs.quiet hon

/-- The queues of a stored game are valid, and no counter of it is about to
overflow. -/
theorem GameRun.validQueues (h : GameRun g log) : ValidQueues g ∧ RoundsLeft g := by
  cases gameRun_phase h with
  | unjoined mark hu _ =>
    have hpending : g.pending = fun _ => .zeroed := by
      rw [hu.eq_fresh]
      rfl
    refine ⟨⟨fun s => ?_, fun _ => hpending⟩, fun hon => absurd hon hu.idle⟩
    rw [hpending]
    exact PendingQueue.queueOk_zeroed
  | started mark u _ hs _ =>
    refine ⟨⟨fun s => ?_, fun hidle => ?_⟩, fun hon => ?_⟩
    · by_cases hon : u.state.result = none
      · exact (hs.rings hon s).1
      · rw [hs.cleared hon]
        exact PendingQueue.queueOk_zeroed
    · exact hs.cleared fun hon => hidle (hs.playing_iff.mpr hon)
    · rw [hs.completed_eq, hs.sim.rounds]
      exact hs.valid.round_lt (hs.playing_iff.mp hon)

/-- **Quiescence.** On every body with valid queues more passes than there are
entries are enough for `drain_pending`, which then ends in a finished match
with zeroed queues or with nothing queued for the seat to move. So in every
stored game that is on, the seat to move has nothing queued: its explicit
turn is the next ply, and a claimed round is taken from a seat that had
nothing to play. -/
theorem cascade_quiesces :
    (∀ (g : GameBody) (log : List PlyEvent) (now : UInt64) (fuel : Nat), ValidQueues g →
      (g.pending 0).count.toNat + (g.pending 1).count.toNat < fuel →
      wp (drainPending now fuel) (fun _ p' => Quiet p'.game)
        (fun e _ => e = .panic ∧ ¬ RoundsLeft g) ⟨g, log⟩) ∧
    ∀ (B : Battery) (P : DepositPolicy) (R : Rollup) (st : Store) (id : ResourceId)
      (g : GameBody), Reachable B P R → R.Observed B P st →
      GameBody.fromBytes (st id) = .ok g → g.state = .playing →
      ∃ s, toMove g = .ok s ∧ (g.pending s).count = 0 ∧
        (∀ (mover : ResourceId) (cell : UInt8) (now : UInt64) (fin : Bool) (p' : Play),
          seatOf g mover = .ok s → playTurn mover cell now ⟨g, []⟩ = .ok fin p' →
          ∃ mark l, p'.log = .placed s cell mark :: l) ∧
        ∀ (turnTtl now : UInt64) (fin : Bool) (p' : Play),
          forfeitRound turnTtl now ⟨g, []⟩ = .ok fin p' →
          ∃ l, p'.log = .forfeited (s ^^^ 1) :: l := by
  constructor
  · intro g log now fuel hv hfuel
    exact wp_mono (wp_drainPending_quiet now fuel log hv hfuel) (fun _ _ h => h.quiet)
      fun _ _ h => h
  · intro B P R st id g hR hst hg hon
    obtain ⟨hist, hrun⟩ := hst.run hR
    obtain ⟨log, hlog⟩ := sound_of_run hrun id g (Slot.parse_eq_game.mpr hg)
    obtain ⟨s, hmove, hempty⟩ := hlog.quiet hon
    refine ⟨s, hmove, hempty, fun mover cell now fin p' hseat hturn => ?_,
      fun turnTtl now fin p' hforfeit => ?_⟩
    · exact playTurn_first hturn hseat hmove
    · obtain ⟨mover, l, hmover, hfirst, -⟩ := forfeitRound_first hforfeit
      rw [hmove] at hmover
      cases hmover
      exact ⟨l, hfirst⟩

namespace Sample

/-- A ring that starts at its third slot. -/
def ring (cells : List UInt8) : PendingQueue where
  cells := fun i => cells.getD ((i.val + 2) % 4) 0
  head := 2
  count := UInt8.ofNat cells.length

/-- Both players have cells queued, some of them taken by now. -/
@[irreducible] def crowded : GameBody :=
  { (GameBody.fresh aliceId .x 500 5).seatJoiner bobId 100 with
    board := fun i => if i.val = 0 then .x else if i.val = 3 then .o else .empty
    pending := fun s => if s = 0 then ring [0, 1, 2] else ring [3, 0, 4] }

theorem validQueues_crowded : ValidQueues crowded where
  rings s := by
    obtain rfl | rfl := Reference.seat_cases s
    · exact ⟨by decide +kernel, by decide +kernel, by decide +kernel⟩
    · exact ⟨by decide +kernel, by decide +kernel, by decide +kernel⟩
  idle h := absurd (by decide +kernel) h

/-- What the cascade plays out of `crowded`. -/
def crowdedPlies : Option (List PlyEvent) :=
  match drainPending 101 7 ⟨crowded, []⟩ with
  | .ok _ p => some p.log
  | .error _ _ => none

end Sample

/-- Three stale heads are dropped and three marks placed, the last of which
wins the round; in the stored game the player to move has nothing queued, the
other one has. -/
theorem cascade_quiesces_crowded :
    Sample.crowdedPlies = some [.placed 0 1 .x, .placed 1 4 .o, .placed 0 2 .x] ∧
      wp (drainPending 101 7) (fun _ p' => Quiet p'.game)
        (fun e _ => e = .panic ∧ ¬ RoundsLeft Sample.crowded) ⟨Sample.crowded, []⟩ ∧
      ∃ g, GameBody.fromBytes (Sample.queued.store Sample.gameId) = .ok g ∧
        (g.pending 0).toList = [4, 8] ∧ ∃ s, toMove g = .ok s ∧ (g.pending s).count = 0 ∧
          ∀ (turnTtl now : UInt64) (fin : Bool) (p' : Play),
            forfeitRound turnTtl now ⟨g, []⟩ = .ok fin p' →
            ∃ l, p'.log = .forfeited (s ^^^ 1) :: l := by
  obtain ⟨g, hg, hon, -, -, -, hqueue⟩ := Sample.queued_game
  obtain ⟨s, hmove, hempty, -, hforfeit⟩ := cascade_quiesces.2 .plain Sample.policy Sample.queued
    Sample.queued.store Sample.gameId g Sample.reachable_queued .between hg hon
  have hplies : Sample.crowdedPlies = some [.placed 0 1 .x, .placed 1 4 .o, .placed 0 2 .x] := by
    decide +kernel
  have hfuel : (Sample.crowded.pending 0).count.toNat + (Sample.crowded.pending 1).count.toNat
      < 7 := by
    decide +kernel
  exact ⟨hplies, cascade_quiesces.1 Sample.crowded [] 101 7 Sample.validQueues_crowded hfuel,
    g, hg, hqueue, s, hmove, hempty, hforfeit⟩

end Stored

end TicTacToe
