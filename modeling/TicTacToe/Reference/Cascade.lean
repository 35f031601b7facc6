/-
TicTacToe.Reference.Cascade — the pre-commit cascade as a consumer of two
streams, and what a whole turn or forfeit does.

`cascade` reads the cells each seat committed to, always from the seat to
move, dropping those that are taken. `Stores g u` says that a game body
stores the reference match of `u` with the unread cells of `u` in its
rings. `wp_playTurn` then says all there is to say about an accepted
turn: it is one arrival on the mover's stream, read as far as it goes, and
the timeline tells what was read on the way (`Consumes`).

No `sorry`, no `axiom`, no `native_decide`.
-/
import TicTacToe.Reference.Timeline

namespace TicTacToe

open Lib
open Relation (ReflTransGen)

/-- The reference match as a reader of both seats' commitments. -/
def cascade : Consumer Seat Reference.Match UInt8 where
  need r := if r.result = none then some r.mover else none
  feed r cell :=
    if h : cell.toNat < 9 then (r.place r.mover ⟨cell.toNat, h⟩ (r.markOf r.mover)).getD r else r

/-- `g` stores the match and, while it is on, the unread commitments. -/
structure Stores (g : GameBody) (u : Committed) : Prop where
  sim : Sim g u.state
  valid : u.state.Valid
  rings : u.state.result = none → ∀ s, QueueOk (g.pending s) ∧ (g.pending s).toList = u.queue s
  cleared : u.state.result ≠ none → g.pending = fun _ => .zeroed

/-- From `g` at the match `r`, a run got to `p'` storing `u'`, by the plies it
logged. -/
structure Follows (g : GameBody) (log : List PlyEvent) (r : Reference.Match) (p' : Play)
    (u' : Committed) : Prop where
  stores : Stores p'.game u'
  same : SameMatch g p'.game
  replay : ∃ l, p'.log = log ++ l ∧ replayLog r l = some u'.state

/-- The run only read some of the commitments of `u`. -/
structure Reaches (g : GameBody) (log : List PlyEvent) (u : Committed) (p' : Play)
    (u' : Committed) : Prop extends Follows g log u.state p' u' where
  steps : ReflTransGen cascade.Step u u'

theorem Reaches.refl {g : GameBody} {log : List PlyEvent} {u : Committed} (h : Stores g u) :
    Reaches g log u ⟨g, log⟩ u :=
  ⟨⟨h, .refl g, [], by simp, rfl⟩, .refl⟩

theorem Follows.trans {g : GameBody} {log : List PlyEvent} {r : Reference.Match}
    {u' u'' : Committed} {p' p'' : Play} (h : Follows g log r p' u')
    (h' : Follows p'.game p'.log u'.state p'' u'') : Follows g log r p'' u'' := by
  obtain ⟨l, hl, hr⟩ := h.replay
  obtain ⟨l', hl', hr'⟩ := h'.replay
  refine ⟨h'.stores, h.same.trans h'.same, l ++ l', ?_, ?_⟩
  · rw [hl', hl, List.append_assoc]
  · rw [replayLog_append hr, hr']

theorem Reaches.trans {g : GameBody} {log : List PlyEvent} {u u' u'' : Committed} {p' p'' : Play}
    (h : Reaches g log u p' u') (h' : Reaches p'.game p'.log u' p'' u'') :
    Reaches g log u p'' u'' :=
  ⟨h.toFollows.trans h'.toFollows, h.steps.trans h'.steps⟩

/-- Everything the run read is in the timeline, with what became of it. -/
structure Consumes (g : GameBody) (log : List PlyEvent) (u : Committed) (p' : Play)
    (u' : Committed) : Prop extends Reaches g log u p' u' where
  told : Told log p'.log u u'

theorem Consumes.refl {g : GameBody} {log : List PlyEvent} {u : Committed} (h : Stores g u) :
    Consumes g log u ⟨g, log⟩ u :=
  ⟨.refl h, .refl log u⟩

theorem Consumes.trans {g : GameBody} {log : List PlyEvent} {u u' u'' : Committed} {p' p'' : Play}
    (h : Consumes g log u p' u') (h' : Consumes p'.game p'.log u' p'' u'') :
    Consumes g log u p'' u'' :=
  ⟨h.toReaches.trans h'.toReaches, h.told.trans h'.told⟩

section Steps

variable {g : GameBody} {u : Committed} {log : List PlyEvent} {now : UInt64}

theorem Stores.playing_iff (h : Stores g u) : g.state = .playing ↔ u.state.result = none := by
  rw [h.sim.state, stateOf_eq_playing]

theorem free_iff {r : Reference.Match} {b : Board} (hb : b = boardOf r.moves) (c : Fin 9) :
    b c = .empty ↔ r.Free c := by
  rw [hb, boardOf_eq_empty]
  rfl

/-- A ply leaves the rings to the next match, if there is one. -/
theorem Stores.ofPly {g' : GameBody} {r' : Reference.Match} (hd : PlyDone g g' r')
    (hv : r'.Valid)
    (hrings : ∀ s, QueueOk (g.pending s) ∧ (g.pending s).toList = u.queue s) :
    Stores g' ⟨r', u.queue⟩ where
  sim := hd.sim
  valid := hv
  rings := fun hon s => by
    rw [hd.kept.1 (by rw [hd.sim.state, stateOf_eq_playing]; exact hon)]
    exact hrings s
  cleared := fun hover => hd.kept.2 (by rw [hd.sim.state, ne_eq, stateOf_eq_playing]; exact hover)

/-- Replacing one ring replaces one stream. -/
theorem Stores.setPending (h : Stores g u) (hon : u.state.result = none) {s : Seat}
    {q : PendingQueue} (hq : QueueOk q) :
    Stores { g with pending := Function.update g.pending s q }
      { u with queue := Function.update u.queue s q.toList } where
  sim := ⟨⟨h.sim.creatorMark, h.sim.rounds, h.sim.wins, h.sim.draws⟩, h.sim.board, h.sim.state⟩
  valid := h.valid
  rings := fun _ t => by
    by_cases ht : t = s
    · subst ht
      simp only [Function.update_self]
      exact ⟨hq, trivial⟩
    · simp only [Function.update_of_ne ht]
      exact h.rings hon t
  cleared := fun hover => absurd hon hover

theorem need_eq_mover {r : Reference.Match} (hon : r.result = none) :
    cascade.need r = some r.mover := if_pos hon

theorem feed_of_place {r r' : Reference.Match} {cell : UInt8} (h : cell.toNat < 9)
    (hp : r.place r.mover ⟨cell.toNat, h⟩ (r.markOf r.mover) = some r') :
    cascade.feed r cell = r' := by
  simp only [cascade, dif_pos h, hp, Option.getD_some]

/-- A commitment to a taken cell changes nothing. -/
theorem feed_of_taken {r : Reference.Match} {cell : UInt8} (h : cell.toNat < 9)
    (hf : ¬ r.Free ⟨cell.toNat, h⟩) : cascade.feed r cell = r := by
  have hnone : r.place r.mover ⟨cell.toNat, h⟩ (r.markOf r.mover) = none :=
    if_neg fun hl => hf hl.2.2.2
  simp only [cascade, dif_pos h, hnone, Option.getD_none]

variable (log) in
/-- The mover's ply, on the head of the mover's queue. `g` stores what is
left once that head is read. -/
theorem wp_applyMove_consumes {r : Reference.Match} {q : Seat → List UInt8} {cell : UInt8}
    {rest : List UInt8} (h : Stores g ⟨r, Function.update q r.mover rest⟩) (hon : r.result = none)
    (hq : q r.mover = cell :: rest) (hcell : cell.toNat < 9) (hfree : r.Free ⟨cell.toNat, hcell⟩) :
    wp (applyMove r.mover cell now)
      (fun _ p' => Consumes g log ⟨r, q⟩ p'
        ⟨cascade.feed r cell, Function.update q r.mover rest⟩)
      (fun _ _ => False) ⟨g, log⟩ := by
  refine wp_mono (wp_applyMove log h.sim h.valid hon hcell hfree now) ?_ (fun _ _ e => e)
  intro _ p' hply
  obtain ⟨r', hplace, hd, hlog⟩ := hply
  rw [feed_of_place hcell hplace]
  have hstep : cascade.Step ⟨r, q⟩ ⟨cascade.feed r cell, Function.update q r.mover rest⟩ :=
    .read (need_eq_mover hon) hq
  rw [feed_of_place hcell hplace] at hstep
  have htold : Told log p'.log ⟨r, q⟩ ⟨r', Function.update q r.mover rest⟩ := by
    rw [hlog]
    exact (Happens.placed hcell hq hplace).told rfl
  refine ⟨⟨⟨.ofPly hd (h.valid.place hplace) (h.rings hon), hd.same, _, hlog, ?_⟩,
    .single hstep⟩, htold⟩
  rw [replayLog_singleton (toPly_placed hcell)]
  exact hplace

/-- A head on a taken cell is dropped, and nothing is logged. -/
theorem consumes_dropped {g' : GameBody} {r : Reference.Match} {q : Seat → List UInt8}
    {cell : UInt8} {rest : List UInt8} (h : Stores g' ⟨r, Function.update q r.mover rest⟩)
    (hsame : SameMatch g g') (hon : r.result = none) (hq : q r.mover = cell :: rest)
    (hcell : cell.toNat < 9) (htaken : ¬ r.Free ⟨cell.toNat, hcell⟩) :
    Consumes g log ⟨r, q⟩ ⟨g', log⟩ ⟨r, Function.update q r.mover rest⟩ := by
  have hstep : cascade.Step ⟨r, q⟩ ⟨cascade.feed r cell, Function.update q r.mover rest⟩ :=
    .read (need_eq_mover hon) hq
  rw [feed_of_taken hcell htaken] at hstep
  have htold : Told log (log ++ []) ⟨r, q⟩ ⟨r, Function.update q r.mover rest⟩ :=
    (Happens.dropped hcell hon hq htaken).told rfl
  rw [List.append_nil] at htold
  exact ⟨⟨⟨h, hsame, [], by simp, rfl⟩, .single hstep⟩, htold⟩

end Steps

/-! ## The drain -/

/-- Enough fuel for everything that is unread. -/
def EnoughFuel (u : Committed) (fuel : Nat) : Prop :=
  0 < fuel ∧ (u.state.result = none → (u.queue 0).length + (u.queue 1).length < fuel)

theorem length_update_rest {q : Seat → List UInt8} {s : Seat} {c : UInt8} {rest : List UInt8}
    (h : q s = c :: rest) :
    (Function.update q s rest 0).length + (Function.update q s rest 1).length + 1
      = (q 0).length + (q 1).length := by
  obtain rfl | rfl := Reference.seat_cases s
  · simp [h]; omega
  · simp [h]; omega

theorem EnoughFuel.rest {u : Committed} {n : Nat} (h : EnoughFuel u (n + 1))
    (hon : u.state.result = none) {s : Seat} {c : UInt8} {rest : List UInt8}
    (hq : u.queue s = c :: rest) (r : Reference.Match) :
    EnoughFuel ⟨r, Function.update u.queue s rest⟩ n := by
  have hlt := h.2 hon
  have hlen := length_update_rest hq
  refine ⟨by omega, fun _ => ?_⟩
  dsimp only
  omega

/-- The loop reads until the cascade is settled; it neither panics nor runs
out of fuel. Each pass reads one commitment. -/
theorem wp_drainPending (now : UInt64) (fuel : Nat) {g : GameBody} {u : Committed}
    (log : List PlyEvent) (h : Stores g u) (hfuel : EnoughFuel u fuel) :
    wp (drainPending now fuel) (fun _ p' => ∃ u', Consumes g log u p' u' ∧ cascade.Settled u')
      (fun _ _ => False) ⟨g, log⟩ := by
  induction fuel generalizing g u log with
  | zero => exact absurd hfuel.1 (Nat.lt_irrefl 0)
  | succ n ih =>
    simp only [drainPending, wp_bind, wp_get]
    by_cases hon : u.state.result = none
    · have hplaying := h.playing_iff.mpr hon
      obtain ⟨hring, hlist⟩ := h.rings hon u.state.mover
      simp only [hplaying, if_true, wp_bind, toMove_sim h.sim h.valid, wp_liftE_ok,
        PendingQueue.peek_eq hring]
      cases hq : u.queue u.state.mover with
      | nil =>
        simp only [hlist, hq, List.head?_nil, wp_pure]
        refine ⟨u, .refl h, fun i hi => ?_⟩
        rw [need_eq_mover hon] at hi
        exact Option.some.inj hi ▸ hq
      | cons cell rest =>
        simp only [hlist, hq, List.head?_cons]
        rw [wp_bind]
        refine (wp_zoom_some _).mpr (PendingQueue.wp_pop hring (hlist.trans hq) fun q' hq' hrest => ?_)
        simp only [wp_bind, wp_get]
        have hcell : cell.toNat < 9 := hring.cells_lt cell (by simp [hlist, hq])
        -- the state after the pop
        have h₁ := h.setPending hon (s := u.state.mover) hq'
        rw [hrest] at h₁
        rw [index_ok hcell, wp_liftE_ok]
        by_cases hfree : u.state.Free ⟨cell.toNat, hcell⟩
        · have hempty := (free_iff h.sim.board ⟨cell.toNat, hcell⟩).mpr hfree
          simp only [hempty, if_true, wp_bind]
          refine wp_mono (wp_applyMove_consumes log h₁ hon hq hcell hfree) ?_ (fun _ _ e => e)
          intro _ p' hply
          refine wp_mono (ih p'.log hply.stores (hfuel.rest hon hq _)) ?_ (fun _ _ e => e)
          intro _ p'' hdrained
          obtain ⟨u', hmore, hsettled⟩ := hdrained
          have hsame := hply.same
          have hfirst : Consumes g log u p' _ :=
            { hply with same := ⟨hsame.creatorMark, hsame.roundsTotal, hsame.stake, hsame.players⟩ }
          exact ⟨u', hfirst.trans hmore, hsettled⟩
        · have htaken : g.board ⟨cell.toNat, hcell⟩ ≠ .empty := fun he =>
            hfree ((free_iff h.sim.board _).mp he)
          simp only [htaken, if_false]
          refine wp_mono (ih log h₁ (hfuel.rest hon hq _)) ?_ (fun _ _ e => e)
          intro _ p'' hdrained
          obtain ⟨u', hmore, hsettled⟩ := hdrained
          have hfirst : Consumes g log u ⟨_, log⟩ _ :=
            consumes_dropped h₁ ⟨rfl, rfl, rfl, rfl⟩ hon hq hcell hfree
          exact ⟨u', hfirst.trans hmore, hsettled⟩
    · have hover : g.state ≠ .playing := fun e => hon (h.playing_iff.mp e)
      simp only [hover, if_false, wp_pure]
      refine ⟨u, .refl h, fun i hi => ?_⟩
      simp [cascade, hon] at hi

theorem wp_drain (now : UInt64) {g : GameBody} {u : Committed} (log : List PlyEvent)
    (h : Stores g u) :
    wp (drain now) (fun _ p' => ∃ u', Consumes g log u p' u' ∧ cascade.Settled u')
      (fun _ _ => False) ⟨g, log⟩ := by
  simp only [drain, wp_bind, wp_get]
  refine wp_drainPending now _ log h ⟨Nat.succ_pos _, fun hon => ?_⟩
  rw [← (h.rings hon 0).2, ← (h.rings hon 1).2]
  simp [drainFuel]

/-! ## The explicit turn -/

section Turn

variable {g : GameBody} {u : Committed} {log : List PlyEvent} {now : UInt64}

variable (log) in
/-- Landing on the board or in the queue, the turn is one arrival on the
mover's stream. It is refused only off one's own ply or on a taken cell. -/
theorem wp_commitExplicit (h : Stores g u) (hset : cascade.Settled u)
    (hon : u.state.result = none) {cell : UInt8} (hcell : cell.toNat < 9) (seat : Seat) :
    wp (commitExplicit seat cell now)
      (fun _ p' => ∃ u', Consumes g log (Consumer.push u (seat, cell)) p' u')
      (fun e _ => e.IsReject ∧ ¬ (seat = u.state.mover ∧ g.board ⟨cell.toNat, hcell⟩ = .empty))
      ⟨g, log⟩ := by
  simp only [commitExplicit, wp_bind, wp_get, index_ok hcell, wp_liftE_ok]
  by_cases hempty : g.board ⟨cell.toNat, hcell⟩ = .empty
  · simp only [hempty, ne_eq, not_true_eq_false, if_false, toMove_sim h.sim h.valid, wp_bind,
      wp_liftE_ok]
    by_cases hseat : seat = u.state.mover
    · -- own ply: nothing was queued, so the arrival is read at once
      subst hseat
      have hnil := hset _ (need_eq_mover hon)
      have hfree := (free_iff h.sim.board ⟨cell.toNat, hcell⟩).mp hempty
      have hq : (Consumer.push u (u.state.mover, cell)).queue u.state.mover = [cell] := by
        simp [Consumer.push, hnil]
      have hrest : Function.update (Consumer.push u (u.state.mover, cell)).queue u.state.mover []
          = u.queue := by
        simp [Consumer.push, ← hnil]
      rw [if_pos rfl]
      refine wp_mono (wp_applyMove_consumes log (hrest ▸ h) hon hq hcell hfree) ?_
        (fun _ _ e => e.elim)
      exact fun _ p' hply => ⟨_, hply⟩
    · -- a future ply: the ring takes it or is full
      obtain ⟨hring, hlist⟩ := h.rings hon seat
      rw [if_neg hseat, wp_bind]
      refine (wp_zoom_some _).mpr (PendingQueue.wp_push hring hcell (fun _ => ?_) ?_)
      · simp only [Bool.false_eq_true, if_false, wp_throw]
        exact ⟨trivial, fun hc => hseat hc.1⟩
      · intro q' _ hq' hlist'
        have hs' := h.setPending hon (s := seat) hq'
        rw [hlist', hlist] at hs'
        simp only [if_true, wp_pure]
        exact ⟨_, ⟨⟨hs', ⟨rfl, rfl, rfl, rfl⟩, [], by simp, rfl⟩, .refl⟩, .refl _ _⟩
  · simp only [hempty, ne_eq, not_false_eq_true, if_true, wp_throw]
    exact ⟨trivial, fun hc => hc.2⟩

theorem seatOf_rejects (g : GameBody) (moverId : ResourceId) {e : Fault}
    (h : seatOf g moverId = .error e) : e.IsReject := by
  unfold seatOf at h
  split at h
  · cases h
  · split at h
    · cases h
    · cases h
      trivial

variable (log) in
/-- An accepted turn of a settled match is one arrival, read as far as it
goes. -/
theorem wp_playTurn (h : Stores g u) (hset : cascade.Settled u) (hon : u.state.result = none)
    {cell : UInt8} (hcell : cell.toNat < 9) (moverId : ResourceId) :
    wp (playTurn moverId cell now)
      (fun fin p' => ∃ seat u', seatOf g moverId = .ok seat ∧
        Consumes g log (Consumer.push u (seat, cell)) p' u' ∧ cascade.Settled u' ∧
        fin = p'.game.isFinished)
      (fun e _ => e.IsReject ∧
        ¬ (seatOf g moverId = .ok u.state.mover ∧ g.board ⟨cell.toNat, hcell⟩ = .empty))
      ⟨g, log⟩ := by
  simp only [playTurn, wp_bind, wp_get, h.playing_iff.mpr hon, ne_eq, not_true_eq_false, if_false]
  cases hseat : seatOf g moverId with
  | error e =>
    simp only [wp_liftE_error]
    exact ⟨seatOf_rejects g moverId hseat, fun hc => by cases hc.1⟩
  | ok seat =>
    simp only [wp_liftE_ok]
    refine wp_mono (wp_commitExplicit log h hset hon hcell seat) ?_ ?_
    · intro _ p' hlanded
      obtain ⟨u₁, h₁⟩ := hlanded
      refine wp_mono (wp_drain now p'.log h₁.stores) ?_ (fun _ _ e => e.elim)
      intro _ p'' hdrained
      obtain ⟨u', h', hset'⟩ := hdrained
      simp only [wp_pure]
      exact ⟨seat, u', rfl, h₁.trans h', hset', trivial⟩
    · intro e _ hrefused
      obtain ⟨hrej, hno⟩ := hrefused
      exact ⟨hrej, fun hc => hno ⟨Except.ok.inj hc.1, hc.2⟩⟩

theorem wp_playTurn_idle (hidle : g.state ≠ .playing) (moverId : ResourceId) (cell : UInt8) :
    wp (playTurn moverId cell now) (fun _ _ => False) (fun e _ => e.IsReject) ⟨g, log⟩ := by
  simp only [playTurn, wp_bind, wp_get, hidle, ne_eq, not_false_eq_true, if_true, wp_throw,
    Fault.isReject_decode]

/-! ## The forfeit -/

/-- The turn clock ran out. -/
def Expired (g : GameBody) (turnTtl now : UInt64) : Prop :=
  g.lastMoveAt.toNat + turnTtl.toNat < 2 ^ 64 ∧ g.lastMoveAt.toNat + turnTtl.toNat ≤ now.toNat

theorem xor_one_eq_opponent (s : Seat) : s ^^^ 1 = Reference.opponent s := by
  revert s
  decide

variable (log) in
/-- A claimed forfeit gives the round to the opponent and then reads on; it
is refused only while the clock runs. -/
theorem wp_forfeitRound (h : Stores g u) (hon : u.state.result = none) (turnTtl now : UInt64) :
    wp (forfeitRound turnTtl now)
      (fun fin p' => ∃ u', Follows g log u.state p' u' ∧ Told log p'.log u u' ∧
        cascade.Settled u' ∧ fin = p'.game.isFinished)
      (fun e _ => e.IsReject ∧ ¬ Expired g turnTtl now) ⟨g, log⟩ := by
  simp only [forfeitRound, wp_bind, wp_get, h.playing_iff.mpr hon, ne_eq, not_true_eq_false,
    if_false]
  cases hdl : checkedAdd g.lastMoveAt turnTtl with
  | none =>
    refine ⟨trivial, fun hexp => ?_⟩
    obtain ⟨c, hc⟩ := checkedAdd_isSome hexp.1
    rw [hdl] at hc
    cases hc
  | some deadline =>
    have hval := checkedAdd_eq_some.mp hdl
    by_cases hlt : now < deadline
    · simp only [hlt, if_true, wp_throw]
      refine ⟨trivial, fun hexp => ?_⟩
      have := UInt64.lt_iff_toNat_lt.mp hlt
      have := hexp.2
      omega
    · simp only [hlt, if_false, wp_bind, toMove_sim h.sim h.valid, wp_liftE_ok,
        xor_one_eq_opponent]
      refine wp_bumpRoundWins h.sim.toCounts h.valid _ (fun w hw => ?_) hon
      simp only [wp_modify, closeRound]
      have hround := h.valid.round_eq
      obtain ⟨hsim, hsame, hkept⟩ := sim_closeRound (g := { g with roundWins := w, lastMoveAt := now })
        ⟨hw.creatorMark, hw.rounds, hw.wins, hw.draws⟩ (h.playing_iff.mpr hon) (by
          rcases Reference.seat_cases u.state.mover with h0 | h1
          · simp [h0, Reference.opponent]; omega
          · simp [h1, Reference.opponent]; omega)
      have hforfeit : u.state.forfeit (Reference.opponent u.state.mover)
          = some (u.state.winRound (Reference.opponent u.state.mover)) := if_pos ⟨hon, rfl⟩
      have hs₁ := Stores.ofPly (u := u) ⟨hsim, hsame, hkept⟩ (h.valid.forfeit hforfeit) (h.rings hon)
      refine wp_mono (wp_drain now (log ++ [.forfeited _]) hs₁) ?_ (fun _ _ e => e.elim)
      intro _ p' hdrained
      obtain ⟨u', h', hset'⟩ := hdrained
      have htold : Told log (log ++ [.forfeited (Reference.opponent u.state.mover)]) u
          ⟨u.state.winRound (Reference.opponent u.state.mover), u.queue⟩ :=
        (Happens.forfeited hforfeit).told rfl
      refine ⟨u', ?_, htold.trans h'.told, hset', rfl⟩
      have hfirst : Follows g log u.state ⟨_, log ++ [.forfeited (Reference.opponent u.state.mover)]⟩
          ⟨u.state.winRound (Reference.opponent u.state.mover), u.queue⟩ :=
        ⟨hs₁, ⟨hsame.creatorMark, hsame.roundsTotal, hsame.stake, hsame.players⟩, _, rfl,
          (replayLog_singleton (p := .forfeited _) rfl).trans hforfeit⟩
      exact hfirst.trans h'.toFollows

theorem wp_forfeitRound_idle (hidle : g.state ≠ .playing) (turnTtl now : UInt64) :
    wp (forfeitRound turnTtl now) (fun _ _ => False) (fun e _ => e.IsReject) ⟨g, log⟩ := by
  simp only [forfeitRound, wp_bind, wp_get, hidle, ne_eq, not_false_eq_true, if_true, wp_throw,
    Fault.isReject_decode]

end Turn

end TicTacToe
