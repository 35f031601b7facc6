/-
TicTacToe.Invariants.Progress — a match only goes forward, and not for
ever.

The plies of a match are bounded by the squares of the rounds that are
left (`Match.room`), and between two plies the rings only fill up; so
every accepted turn or claim lowers `GameBody.fuel`. No stored game is
rewritten more often than the fuel it has, none comes back to the bytes
it held before, and a finished one is never rewritten again.

No `sorry`, no `axiom`, no `native_decide`.
-/
import TicTacToe.Invariants.Clock
import TicTacToe.Invariants.Schedule

namespace TicTacToe

open Lib

/-! ## The plies left -/

namespace Reference.Match

/-- How many marks can still be placed, if no round ends early. -/
def room (r : Match) : Nat :=
  if r.result = none then 9 * (r.rounds - r.round) - r.moves.length else 0

/-- `r'` is `r` after at least `n` plies. -/
structure Ahead (r r' : Match) (n : Nat) : Prop where
  wins : ∀ s, r.wins s ≤ r'.wins s
  draws : r.draws ≤ r'.draws
  room : r'.room + n ≤ r.room

theorem Ahead.refl (r : Match) : Ahead r r 0 := ⟨fun _ => le_rfl, le_rfl, le_rfl⟩

theorem Ahead.trans {r r' r'' : Match} {n m : Nat} (h : Ahead r r' n) (h' : Ahead r' r'' m) :
    Ahead r r'' (n + m) where
  wins s := (h.wins s).trans (h'.wins s)
  draws := h.draws.trans h'.draws
  room := by
    have h₁ := h.room
    have h₂ := h'.room
    omega

namespace Valid

variable {r r' : Match}

/-- A round that ends takes its empty squares along. -/
theorem endRound_room (h : r.Valid) (hon : r.result = none) {r₁ : Match}
    (hrounds : r₁.rounds = r.rounds) (hround : r₁.round = r.round) :
    r₁.endRound.room + 1 ≤ r.room := by
  have hlt := h.round_lt hon
  have hboard := h.not_full
  have hnext : r₁.endRound.room ≤ 9 * (r.rounds - (r.round + 1)) := by
    simp only [Match.room, endRound, hrounds, hround]
    split
    · simp
    · exact Nat.zero_le _
  simp only [Match.room, hon, if_true] at hnext ⊢
  omega

theorem winRound_ahead (h : r.Valid) (hon : r.result = none) (seat : Fin 2) :
    Ahead r (r.winRound seat) 1 where
  wins s := by
    by_cases hs : s = seat
    · subst hs
      simp [Match.winRound, endRound]
    · simp [Match.winRound, endRound, hs]
  draws := le_rfl
  room := h.endRound_room hon rfl rfl

theorem drawRound_ahead (h : r.Valid) (hon : r.result = none) : Ahead r r.drawRound 1 where
  wins _ := le_rfl
  draws := Nat.le_succ _
  room := h.endRound_room hon rfl rfl

theorem play_ahead (h : r.Valid) {ply : Ply} (hp : r.play ply = some r') : Ahead r r' 1 := by
  cases ply with
  | placed seat cell mark =>
    simp only [Match.play, Match.place] at hp
    split at hp
    · rename_i hlegal
      cases hp
      have hon := hlegal.1
      unfold advance
      split
      · exact h.winRound_ahead hon seat
      · split
        · exact h.drawRound_ahead hon
        · refine ⟨fun _ => le_rfl, le_rfl, ?_⟩
          have hround := h.round_lt hon
          have hboard := h.not_full
          simp only [Match.room, hon, if_true, List.length_cons]
          omega
    · cases hp
  | forfeited winner =>
    simp only [Match.play, Match.forfeit] at hp
    split at hp
    · rename_i hlegal
      cases hp
      exact h.winRound_ahead hlegal.1 winner
    · cases hp

/-- Every ply of a record is paid for with room. -/
theorem replay_ahead (h : r.Valid) {l : List Ply} (hr : replay r l = some r') :
    Ahead r r' l.length := by
  induction l generalizing r with
  | nil =>
    cases hr
    exact .refl _
  | cons ply rest ih =>
    obtain ⟨r₁, h₁, h₂⟩ := Option.bind_eq_some_iff.mp hr
    have hahead := (h.play_ahead h₁).trans (ih (h.play h₁) h₂)
    rwa [List.length_cons, Nat.add_comm]

end Valid

end Reference.Match

theorem replayLog_ahead {r r' : Reference.Match} {l : List PlyEvent} (h : r.Valid)
    (hr : replayLog r l = some r') : r.Ahead r' l.length := by
  obtain ⟨ps, hps, hreplay⟩ := Option.bind_eq_some_iff.mp hr
  have hlen : ps.length = l.length := by
    clear hreplay hr
    induction l generalizing ps with
    | nil =>
      cases hps
      rfl
    | cons e l ih =>
      simp only [List.mapM_cons, Option.bind_eq_bind, Option.bind_eq_some_iff] at hps
      obtain ⟨p, -, ps', hps', he⟩ := hps
      cases he
      simp [ih ps' hps']
  rw [← hlen]
  exact h.replay_ahead hreplay

/-! ## The fuel of a game -/

/-- How often a game can still be rewritten: for each ply left the ply and
eight commitments before it. -/
def GameBody.fuel (g : GameBody) : Nat :=
  match g.state with
  | .open => 81 * g.roundsTotal.toNat + 9
  | .playing =>
    9 * (9 * (g.roundsTotal.toNat - g.completed) - (Rules.plies g.board).toNat) + (8 - g.queued)
  | .first | .second | .draw => 0

/-- Open, on, over. -/
def State.rank : State → Nat
  | .open => 0
  | .playing => 1
  | .first | .second | .draw => 2

/-- What becomes of a match in time. -/
structure GameBody.Later (g g' : GameBody) : Prop where
  creator : g'.creator = g.creator
  creatorMark : g'.creatorMark = g.creatorMark
  roundsTotal : g'.roundsTotal = g.roundsTotal
  stake : g'.stake = g.stake
  seats : g.state ≠ .open → g'.players = g.players
  rank : g.state.rank ≤ g'.state.rank
  wins : ∀ s, (g.roundWins s).toNat ≤ (g'.roundWins s).toNat
  draws : g.draws.toNat ≤ g'.draws.toNat
  fuel : g' = g ∨ g'.fuel < g.fuel

namespace GameBody

variable {g g' g'' : GameBody}

theorem Later.refl (g : GameBody) : g.Later g :=
  ⟨rfl, rfl, rfl, rfl, fun _ => rfl, le_rfl, fun _ => le_rfl, le_rfl, .inl rfl⟩

theorem Later.fuel_le (h : g.Later g') : g'.fuel ≤ g.fuel := by
  rcases h.fuel with rfl | hlt
  · exact le_rfl
  · exact Nat.le_of_lt hlt

theorem Later.trans (h : g.Later g') (h' : g'.Later g'') : g.Later g'' where
  creator := h'.creator.trans h.creator
  creatorMark := h'.creatorMark.trans h.creatorMark
  roundsTotal := h'.roundsTotal.trans h.roundsTotal
  stake := h'.stake.trans h.stake
  seats hopen := by
    have hopen' : g'.state ≠ .open := fun e => hopen <| by
      have hrank := h.rank
      rw [e] at hrank
      cases hs : g.state with
      | «open» => rfl
      | playing | first | second | draw =>
        rw [hs] at hrank
        exact absurd hrank (by decide)
    exact (h'.seats hopen').trans (h.seats hopen)
  rank := h.rank.trans h'.rank
  wins s := (h.wins s).trans (h'.wins s)
  draws := h.draws.trans h'.draws
  fuel := by
    rcases h'.fuel with rfl | hlt
    · exact h.fuel
    · exact .inr (lt_of_lt_of_le hlt h.fuel_le)

theorem fuel_le (g : GameBody) : g.fuel ≤ 81 * g.roundsTotal.toNat + 9 := by
  unfold fuel
  split
  · exact le_rfl
  · omega
  all_goals exact Nat.zero_le _

/-- Only a finished match has none left. -/
theorem finished_fuel (h : g.isFinished = true) : g.fuel = 0 := by
  unfold isFinished at h
  unfold fuel
  cases hs : g.state with
  | «open» | playing => simp [hs] at h
  | first | second | draw => rfl

theorem Later.finished (h : g.Later g') (hfin : g.isFinished = true) : g' = g := by
  rcases h.fuel with he | hlt
  · exact he
  · rw [finished_fuel hfin] at hlt
    exact absurd hlt (Nat.not_lt_zero _)

/-- Joining an open game. -/
theorem later_join (hopen : g.state = .open) (joiner : ResourceId) (now : UInt64) :
    g.Later (g.seatJoiner joiner now) where
  creator := seatJoiner_creator g joiner now
  creatorMark := rfl
  roundsTotal := rfl
  stake := rfl
  seats hne := absurd hopen hne
  rank := by
    rw [hopen]
    exact Nat.zero_le _
  wins _ := le_rfl
  draws := le_rfl
  fuel := by
    refine .inr ?_
    have hon : (g.seatJoiner joiner now).state = .playing := rfl
    have hrounds : (g.seatJoiner joiner now).roundsTotal = g.roundsTotal := rfl
    unfold fuel
    rw [hopen, hon, hrounds]
    dsimp only
    omega

end GameBody

/-! ## A turn or a claim -/

section Moves

variable {g g' : GameBody} {u u' : Committed} {now : UInt64} {l : List PlyEvent}

theorem Stores.fuel_eq (h : Stores g u) (hon : u.state.result = none) :
    g.fuel = 9 * u.state.room + (8 - g.queued) := by
  have hcompleted : g.completed = u.state.round := by
    rw [GameBody.completed, h.sim.wins, h.sim.wins, h.sim.draws, h.valid.round_eq]
  unfold GameBody.fuel
  rw [h.playing_iff.mpr hon]
  simp only [Reference.Match.room, hon, if_true, h.sim.rounds, hcompleted, h.sim.board,
    plies_boardOf h.valid.squares]

theorem Stores.fuel_zero (h : Stores g u) (hover : u.state.result ≠ none) : g.fuel = 0 := by
  have hstate := h.sim.state
  unfold GameBody.fuel
  cases hres : u.state.result with
  | none => exact absurd hres hover
  | some res =>
    rw [hres] at hstate
    rcases res with s | _
    · obtain rfl | rfl := Reference.seat_cases s
      · rw [hstate]
        rfl
      · rw [hstate]
        rfl
    · rw [hstate]
      rfl

/-- The next state has the plies between them behind it. -/
theorem Follows.later (h : Stores g u) (hon : u.state.result = none)
    (hf : Follows g [] u.state ⟨g', l⟩ u') (hfuel : l = [] → g'.fuel < g.fuel) : g.Later g' := by
  obtain ⟨l', hl, hr⟩ := hf.replay
  rw [List.nil_append] at hl
  have hahead := replayLog_ahead h.valid hr
  have hplaying := h.playing_iff.mpr hon
  refine ⟨?_, hf.same.creatorMark, hf.same.roundsTotal, hf.same.stake, fun _ => hf.same.players,
    ?_, fun s => ?_, ?_, .inr ?_⟩
  · rw [GameBody.creator, GameBody.creator, hf.same.players]
  · rw [hplaying, hf.stores.sim.state]
    rcases u'.state.result with _ | ⟨s⟩ | _
    · exact le_rfl
    · obtain rfl | rfl := Reference.seat_cases s
      · exact Nat.le_succ 1
      · exact Nat.le_succ 1
    · exact Nat.le_succ 1
  · rw [h.sim.wins, hf.stores.sim.wins]
    exact hahead.wins s
  · rw [h.sim.draws, hf.stores.sim.draws]
    exact hahead.draws
  · cases l' with
    | nil => exact hfuel hl
    | cons e rest =>
      have hroom := hahead.room
      rw [List.length_cons] at hroom
      rw [h.fuel_eq hon]
      by_cases hon' : u'.state.result = none
      · rw [hf.stores.fuel_eq hon']
        omega
      · rw [hf.stores.fuel_zero hon']
        omega

theorem Stores.queued_eq (h : Stores g u) (hon : u.state.result = none) :
    g.queued = (u.queue 0).length + (u.queue 1).length := by
  rw [GameBody.queued, ← (h.rings hon 0).2, ← (h.rings hon 1).2, PendingQueue.length_toList,
    PendingQueue.length_toList]

theorem Stores.queued_le (h : Stores g u) (hon : u.state.result = none) : g.queued ≤ 8 := by
  have h₀ := (h.rings hon 0).1.count_le
  have h₁ := (h.rings hon 1).1.count_le
  rw [GameBody.queued]
  omega

theorem queued_push (u : Committed) (seat : Seat) (cell : UInt8) :
    ((Consumer.push u (seat, cell)).queue 0).length
        + ((Consumer.push u (seat, cell)).queue 1).length
      = (u.queue 0).length + (u.queue 1).length + 1 := by
  obtain rfl | rfl := Reference.seat_cases seat
  · simp [Consumer.push]
    omega
  · simp [Consumer.push]
    omega

/-- What one turn or claim makes of a stored game. -/
theorem GameRun.later_turn {log : List PlyEvent} (hrun : GameRun g log) {mover : ResourceId}
    {cell : UInt8} {fin : Bool} (hplay : playTurn mover cell now ⟨g, []⟩ = .ok fin ⟨g', l⟩) :
    g.Later g' := by
  obtain ⟨u, hs, hon⟩ := hrun.playing (playTurn_playing hplay)
  obtain ⟨seat, u', hseat, hs', -, hconsumes⟩ := hs.turn hplay
  refine Follows.later hs.toStores hon hconsumes.toFollows fun hlog => ?_
  -- without a ply the commitment waits, on the ring of the other seat
  have hmove : seat ≠ u.state.mover := by
    rintro rfl
    obtain ⟨mark, rest, hfirst⟩ := playTurn_first hplay hseat (toMove_sim hs.sim hs.valid)
    rw [hlog] at hfirst
    cases hfirst
  have hpushed : u' = Consumer.push u (seat, cell) := by
    refine Consumer.Settles.unique (C := cascade) ⟨hconsumes.steps, hs'.settled⟩ ⟨.refl, ?_⟩
    intro i hi
    obtain rfl : u.state.mover = i := Option.some.inj ((need_eq_mover hon).symm.trans hi)
    show Function.update u.queue seat _ u.state.mover = []
    rw [Function.update_of_ne (Ne.symm hmove)]
    exact hs.settled _ (need_eq_mover hon)
  have hon' : u'.state.result = none := by rw [hpushed]; exact hon
  rw [hs'.fuel_eq hon', hs.fuel_eq hon]
  have hqueued : g'.queued = g.queued + 1 := by
    rw [hs'.queued_eq hon', hs.queued_eq hon, hpushed]
    exact queued_push u seat cell
  have hroom : u'.state.room = u.state.room := by rw [hpushed]; rfl
  have hcap : g'.queued ≤ 8 := hs'.queued_le hon'
  show 9 * u'.state.room + (8 - g'.queued) < 9 * u.state.room + (8 - g.queued)
  omega

theorem GameRun.later_timeout {log : List PlyEvent} (hrun : GameRun g log) {turnTtl : UInt64}
    {fin : Bool} (hforfeit : forfeitRound turnTtl now ⟨g, []⟩ = .ok fin ⟨g', l⟩) :
    g.Later g' := by
  obtain ⟨hplaying, -⟩ := forfeitRound_due hforfeit
  obtain ⟨u, hs, hon⟩ := hrun.playing hplaying
  obtain ⟨u', hs', -, hfollows, -⟩ := hs.timeout hforfeit
  refine Follows.later hs.toStores hon hfollows fun hlog => ?_
  obtain ⟨mover, rest, -, hfirst, -⟩ := forfeitRound_first hforfeit
  rw [hlog] at hfirst
  cases hfirst

end Moves

/-! ## Slots in time -/

section Run

variable {B : Battery} {P : DepositPolicy} {R : Rollup} {subs : List Submission}
  {gid : ResourceId} {g : GameBody} {s' : Slot} {now t t' : UInt64}

theorem Ticks.later {log : List PlyEvent} (h : Ticks now (.game g) t s' t')
    (hrun : GameRun g log) : ∃ g', s' = .game g' ∧ g.Later g' := by
  cases h with
  | same => exact ⟨g, rfl, .refl g⟩
  | written hne _ => exact absurd rfl (hne g)
  | joined hopen => exact ⟨_, rfl, GameBody.later_join hopen _ _⟩
  | turned hplay => exact ⟨_, rfl, hrun.later_turn hplay⟩
  | timedOut hforfeit => exact ⟨_, rfl, hrun.later_timeout hforfeit⟩

/-- The slot holds a later state of `g`. -/
def Slot.LaterGame (g : GameBody) (s : Slot) : Prop := ∃ g', s = .game g' ∧ g.Later g'

theorem LedgerStep.later {cx : ApplyContext} {a : ActionBody} {flow : Flow} {L L' : Ledger}
    (h : LedgerStep B P cx L a flow L') (hs : L.Sound) (hg : (L gid).LaterGame g) :
    (L' gid).LaterGame g := by
  obtain ⟨g₁, hg₁, hlater⟩ := hg
  obtain ⟨log, hrun⟩ := hs gid g₁ hg₁
  obtain ⟨starts, hticks⟩ := h.ticks fun _ => 0
  have htick := hticks gid
  rw [hg₁] at htick
  obtain ⟨g₂, hg₂, hlater₂⟩ := htick.later hrun
  exact ⟨g₂, hg₂, hlater.trans hlater₂⟩

theorem Rollup.submit_later (hR : Reachable B P R) {sub : Submission}
    (hn : (sub.access.map Prod.fst).Nodup) (hg : (R.store.ledger B gid).LaterGame g) :
    ((R.submit B P sub).store.ledger B gid).LaterGame g :=
  Rollup.ActionStep.preserves (I := fun L => (L gid).LaterGame g) hR hn
    (fun _ _ _ _ _ _ hsound hstep hlater => hstep.later hsound hlater) R.submit_steps hg

/-- How many submissions of the list rewrite a slot. -/
def Rollup.rewrites (B : Battery) (P : DepositPolicy) (gid : ResourceId) :
    Rollup → List Submission → Nat
  | _, [] => 0
  | R, sub :: subs =>
    (if (R.submit B P sub).store gid = R.store gid then 0 else 1)
      + rewrites B P gid (R.submit B P sub) subs

theorem Rollup.submit_fuel (hR : Reachable B P R) {sub : Submission}
    (hn : (sub.access.map Prod.fst).Nodup) (hg : GameBody.fromBytes (R.store gid) = .ok g) :
    ∃ g', GameBody.fromBytes ((R.submit B P sub).store gid) = .ok g' ∧ g.Later g' ∧
      (if (R.submit B P sub).store gid = R.store gid then 0 else 1) + g'.fuel ≤ g.fuel := by
  obtain ⟨g', hg', hlater⟩ := Rollup.submit_later hR hn ⟨g, Slot.parse_eq_game.mpr hg, .refl g⟩
  have hparse := Slot.parse_eq_game.mp hg'
  refine ⟨g', hparse, hlater, ?_⟩
  rcases hlater.fuel with rfl | hlt
  · rw [if_pos (by rw [GameBody.fromBytes_ok.mp hparse, GameBody.fromBytes_ok.mp hg]), Nat.zero_add]
  · split <;> omega

theorem Rollup.submitAll_fuel (hR : Reachable B P R)
    (hn : ∀ sub ∈ subs, (sub.access.map Prod.fst).Nodup)
    (hg : GameBody.fromBytes (R.store gid) = .ok g) :
    ∃ g', GameBody.fromBytes ((R.submitAll B P subs).store gid) = .ok g' ∧ g.Later g' ∧
      R.rewrites B P gid subs + g'.fuel ≤ g.fuel := by
  induction subs generalizing R g with
  | nil => exact ⟨g, hg, .refl g, by simp [Rollup.rewrites]⟩
  | cons sub subs ih =>
    have hsub := hn sub List.mem_cons_self
    obtain ⟨g₁, hg₁, hlater, hfuel⟩ := Rollup.submit_fuel hR hsub hg
    obtain ⟨g₂, hg₂, hlater₂, hfuel₂⟩ :=
      ih (hR.submit hsub) (fun s hs => hn s (List.mem_cons_of_mem _ hs)) hg₁
    refine ⟨g₂, hg₂, hlater.trans hlater₂, ?_⟩
    simp only [Rollup.rewrites]
    omega

/-- **A match only goes forward, and not for ever.** Whatever is submitted to a
reachable rollup, a stored game stays the game of the same creator, stake,
rounds and marks, and of the same players once it was joined; its state
goes from open over playing to a result and its counters only grow. Each
submission that rewrites it costs fuel, of which it has 81 for each round
and 9 more: a finished match is never rewritten, and no game comes back to
bytes it has left. -/
theorem match_advances (hR : Reachable B P R)
    (hn : ∀ sub ∈ subs, (sub.access.map Prod.fst).Nodup)
    (hg : GameBody.fromBytes (R.store gid) = .ok g) :
    ∃ g', GameBody.fromBytes ((R.submitAll B P subs).store gid) = .ok g' ∧ g.Later g' ∧
      R.rewrites B P gid subs + g'.fuel ≤ g.fuel ∧ g.fuel ≤ 81 * g.roundsTotal.toNat + 9 ∧
      (g.isFinished = true → (R.submitAll B P subs).store gid = R.store gid) ∧
      ((R.submitAll B P subs).store gid = R.store gid → R.rewrites B P gid subs = 0) := by
  obtain ⟨g', hg', hlater, hfuel⟩ := Rollup.submitAll_fuel hR hn hg
  refine ⟨g', hg', hlater, hfuel, g.fuel_le, fun hfin => ?_, fun hsame => ?_⟩
  · rw [GameBody.fromBytes_ok.mp hg', GameBody.fromBytes_ok.mp hg, hlater.finished hfin]
  · rw [hsame, hg] at hg'
    cases hg'
    omega

end Run

/-- The claim of the round, and then turns of a match that is over. -/
theorem match_advances_opened :
    ∃ g g', GameBody.fromBytes (Sample.opened.store Sample.gameId) = .ok g ∧
      GameBody.fromBytes ((Sample.opened.submitAll .plain Sample.policy
        [Sample.claiming, Sample.playing]).store Sample.gameId) = .ok g' ∧ g.Later g' ∧
      g.fuel ≤ 90 := by
  obtain ⟨g, hg, hone⟩ := ok_of_any
    (x := GameBody.fromBytes (Sample.opened.store Sample.gameId))
    (p := fun g => g.roundsTotal = 1) (by decide +kernel)
  have hn : ∀ sub ∈ [Sample.claiming, Sample.playing], (sub.access.map Prod.fst).Nodup := by
    intro sub hsub
    simp only [List.mem_cons, List.not_mem_nil, or_false] at hsub
    rcases hsub with rfl | rfl
    · exact Sample.access_nodup [] [.timeout 3 0]
    · exact Sample.access_nodup _ _
  obtain ⟨g', hg', hlater, -, hfuel, -⟩ := match_advances Sample.reachable_opened hn hg
  refine ⟨g, g', hg, hg', hlater, ?_⟩
  rw [of_decide_eq_true hone] at hfuel
  exact hfuel

end TicTacToe
